import Veld.Dataplane.Isolation

/-!
# Policies that are replaced during a run

The decision on a connection start lives on in the flow table, as an established
entry, and in the queue of the peer, as held packets. Neither is looked at when a
policy is stored. A connection the current policy denies is therefore silent only
in runs in which no store finds such a trace of it, and in which the policies that
deny its start deny the rest of its packets as well.
-/

namespace Veld.Dataplane

open Acl Netip Peer

/-- A connection between this node and a peer: who started it and the flow of its start. -/
structure Conn where
  peer : PeerID
  /-- The peer started the connection. -/
  inbound : Bool
  flow : Flow
  deriving DecidableEq

namespace Conn

/-- The decision of a policy on the start of the connection. -/
def decision (c : Conn) (pd : Decider) (self : PeerID) : Decision :=
  if c.inbound then pd c.peer self c.flow.proto c.flow.dstPort
  else pd self c.peer c.flow.proto c.flow.dstPort

/-- A packet exchanged with a peer is one of the connection. -/
def Carries (c : Conn) (p : PeerID) (pkt : Bytes) : Prop :=
  p = c.peer ∧ ((parsePacket pkt).flow = c.flow ∨ (parsePacket pkt).flow = c.flow.reverse)

instance (c : Conn) (p : PeerID) (pkt : Bytes) : Decidable (c.Carries p pkt) :=
  inferInstanceAs (Decidable (_ ∧ _))

/-- A policy denies the packets of the connection in both directions, whichever side sends them. -/
def Shut (c : Conn) (pd : Decider) (self : PeerID) : Prop :=
  ∀ port, port = c.flow.srcPort ∨ port = c.flow.dstPort →
    (pd c.peer self c.flow.proto port).action = .deny ∧
      (pd self c.peer c.flow.proto port).action = .deny

variable {c : Conn} {pd : Decider} {self p : PeerID} {pkt : Bytes}

/-- Both decisions on a packet of a shut connection deny it. -/
theorem Shut.denies (h : c.Shut pd self) (hc : c.Carries p pkt) :
    (pd p self (parsePacket pkt).flow.proto (parsePacket pkt).flow.dstPort).action = .deny ∧
      (pd self p (parsePacket pkt).flow.proto (parsePacket pkt).flow.dstPort).action = .deny := by
  obtain ⟨rfl, hf | hf⟩ := hc
  · rw [hf]
    exact h _ (.inr rfl)
  · rw [hf]
    exact h _ (.inl rfl)

end Conn

namespace Dispatcher

variable {p : PeerID} {r : EntryRef} {pkt wire : Bytes} {ep : AddrPort}

/-- The connection an input opens: a start of a peer is let in, or a start of this node is sent to
its peer or held for it. -/
def opening (d : Dispatcher) (i : Input) : Option Conn :=
  match i.event with
  | .tun pkt =>
    if (parsePacket pkt).kind = .kindStart then
      match d.fate pkt i.now with
      | .sent r => some ⟨d.idOf r, false, (parsePacket pkt).flow⟩
      | .held r =>
        if (d.peers.entry r).holdQueue.hasRoom then some ⟨d.idOf r, false, (parsePacket pkt).flow⟩
        else none
      | _ => none
    else none
  | _ => (inboundStart d i).map fun x => ⟨x.1, true, x.2⟩

/-- The connections opened in the past of a run. -/
def openedIn (past : List (Dispatcher × Input)) : List Conn :=
  past.filterMap fun x => opening x.1 x.2

/-- The current policy denies the start of the connection. -/
def Denies (d : Dispatcher) (c : Conn) : Prop :=
  ∃ pd, d.policyDecider = some pd ∧ (c.decision pd d.selfPeerID).action = .deny

/-- Nothing of the connection is left: its flow is not established, no packet of it is held. -/
structure Forgotten (d : Dispatcher) (c : Conn) : Prop where
  flow : ∀ e, d.flowTable.find (flowKey c.flow) = some e → e.state ≠ .established
  queue : ∀ r pkt, pkt ∈ (d.peers.entry r).holdQueue.val → ¬c.Carries (d.idOf r) pkt

/-- The condition on a step under which revocation works. -/
structure Revocable (past : List (Dispatcher × Input)) (d : Dispatcher) (i : Input) : Prop where
  /-- A stored policy finds nothing left of the connections it denies, and shuts them. -/
  store : ∀ pd, i.event = .store pd → ∀ c ∈ openedIn past,
    (c.decision pd d.selfPeerID).action = .deny → d.Forgotten c ∧ c.Shut pd d.selfPeerID
  /-- No peer starts a connection with the addresses and ports of another peer's. -/
  start : ∀ p g, inboundStart d i = some (p, g) → ∀ c ∈ openedIn past,
    flowKey c.flow = flowKey g → c.peer = p
  /-- Other components add nothing to the queues. -/
  queues : ∀ t, i.event = .peers t → ∀ r pkt, pkt ∈ (t.entry r).holdQueue.val →
    pkt ∈ (d.peers.entry r).holdQueue.val ∧ (t.entry r).id = d.idOf r

/-- The connections the current policy denies are shut, and nothing is left of them. -/
def Silent (past : List (Dispatcher × Input)) (d : Dispatcher) : Prop :=
  ∀ c ∈ openedIn past, ∀ pd, d.policyDecider = some pd →
    (c.decision pd d.selfPeerID).action = .deny → d.Forgotten c ∧ c.Shut pd d.selfPeerID

variable {d : Dispatcher} {past : List (Dispatcher × Input)} {i : Input} {c : Conn} {pd : Decider}

theorem inboundStart_inv {g : Flow} (h : inboundStart d i = some (p, g)) :
    ∃ wire addr r plain, i.event = .udp wire addr ∧
      d.authenticated wire addr = some (r, plain) ∧ p = d.idOf r ∧ g = (parsePacket plain).flow ∧
      (parsePacket plain).kind = .kindStart ∧ d.letsIn r plain i.now = true := by
  unfold inboundStart at h
  split at h
  · rename_i wire addr hev
    split at h
    · cases h
    · rename_i r plain hauth
      split at h
      · rename_i hc
        obtain ⟨rfl, rfl⟩ := Prod.mk.inj (Option.some.inj h)
        exact ⟨wire, addr, r, plain, hev, hauth, rfl, rfl, hc.2⟩
      · cases h
  · cases h

/-- The policy in force allows what it lets out. -/
theorem allow_of_letsOut {f : Flow} (hpd : d.policyDecider = some pd)
    (hf : f.proto ≠ 0) (h : d.letsOut r f = true) :
    (pd d.selfPeerID (d.idOf r) f.proto f.dstPort).action = .allow := by
  have hne : (pd d.selfPeerID (d.idOf r) f.proto f.dstPort).action ≠ .deny := by
    simpa [letsOut, outboundDecision, hpd, hf] using h
  cases ha : (pd d.selfPeerID (d.idOf r) f.proto f.dstPort).action with
  | allow => rfl
  | deny => exact absurd ha hne

/-- The policy in force allows the starts it lets in. -/
theorem allow_of_letsIn {plain : Bytes} {now : Int}
    (hpd : d.policyDecider = some pd) (hk : (parsePacket plain).kind = .kindStart)
    (h : d.letsIn r plain now = true) :
    (pd (d.idOf r) d.selfPeerID (parsePacket plain).flow.proto
      (parsePacket plain).flow.dstPort).action = .allow := by
  have he := ((parsePacket_reads plain).start hk).1
  rcases (letsIn_iff hpd he).mp h with ⟨-, ha⟩ | ⟨hne, -⟩
  · exact ha
  · exact absurd hk hne

/-- What opens a connection is a start, and the policy in force allows it. -/
theorem opening_inv (h : opening d i = some c) :
    (∃ pkt, (parsePacket pkt).kind = .kindStart ∧ (parsePacket pkt).flow = c.flow) ∧
      ∀ pd, d.policyDecider = some pd → (c.decision pd d.selfPeerID).action = .allow := by
  have houtbound {pkt : Bytes} {r : EntryRef} (hk : (parsePacket pkt).kind = .kindStart)
      (hfate : d.fate pkt i.now = .sent r ∨ d.fate pkt i.now = .held r)
      (hc : some (⟨d.idOf r, false, (parsePacket pkt).flow⟩ : Conn) = some c) :
      (∃ pkt, (parsePacket pkt).kind = .kindStart ∧ (parsePacket pkt).flow = c.flow) ∧
        ∀ pd, d.policyDecider = some pd → (c.decision pd d.selfPeerID).action = .allow := by
    obtain rfl := Option.some.inj hc
    refine ⟨⟨pkt, hk, rfl⟩, fun pd hpd => ?_⟩
    obtain ⟨-, -, hlet, -⟩ := forwardFate_of_fate hfate
    exact allow_of_letsOut hpd ((parsePacket_reads pkt).start hk).2.ne_zero hlet
  unfold opening at h
  split at h
  · split at h
    · rename_i pkt _ hk
      split at h
      · rename_i r hfate
        exact houtbound hk (.inl hfate) h
      · rename_i r hfate
        split at h
        · exact houtbound hk (.inr hfate) h
        · cases h
      · cases h
    · cases h
  · obtain ⟨⟨p, g⟩, hs, rfl⟩ := Option.map_eq_some_iff.mp h
    obtain ⟨wire, addr, r, plain, -, -, rfl, rfl, hk, hlets⟩ := inboundStart_inv hs
    exact ⟨⟨plain, hk, rfl⟩, fun pd hpd => allow_of_letsIn hpd hk hlets⟩

/-- The packets of an opened connection have a protocol and share one key. -/
theorem flow_of_opened (h : c ∈ openedIn past) :
    c.flow.proto ≠ 0 ∧ flowKey c.flow.reverse = flowKey c.flow := by
  obtain ⟨x, -, hx⟩ := List.mem_filterMap.mp h
  obtain ⟨⟨pkt, hk, hf⟩, -⟩ := opening_inv hx
  obtain ⟨he, htr⟩ := (parsePacket_reads pkt).start hk
  rw [← hf]
  exact ⟨htr.ne_zero, (parsePacket_tidy he (by simp [hk])).flowKey_reverse⟩

theorem proto_of_carries (h : c.Carries p pkt)
    (hc : c ∈ openedIn past) : (parsePacket pkt).flow.proto ≠ 0 := by
  obtain ⟨-, hf | hf⟩ := h
  · rw [hf]
    exact (flow_of_opened hc).1
  · rw [hf]
    exact (flow_of_opened hc).1

theorem flowKey_of_carries (h : c.Carries p pkt)
    (hc : c ∈ openedIn past) : flowKey (parsePacket pkt).flow = flowKey c.flow := by
  obtain ⟨-, hf | hf⟩ := h
  · rw [hf]
  · rw [hf]
    exact (flow_of_opened hc).2

/-- A packet of a shut connection gets no further than the policy. -/
theorem not_letsOut (hc : c ∈ openedIn past)
    (hpd : d.policyDecider = some pd) (hshut : c.Shut pd d.selfPeerID)
    (h : c.Carries (d.idOf r) pkt) : ¬d.letsOut r (parsePacket pkt).flow = true := by
  intro hlet
  have hallow := allow_of_letsOut hpd (proto_of_carries h hc) hlet
  rw [(hshut.denies h).2] at hallow
  cases hallow

theorem mem_openedIn_snoc :
    c ∈ openedIn (past ++ [(d, i)]) ↔ c ∈ openedIn past ∨ opening d i = some c := by
  rw [openedIn, List.filterMap_append, List.mem_append]
  refine or_congr_right ?_
  simp

/-- Only a store replaces the policy, and nothing the node's own key. -/
theorem next_policy (hi : ∀ pd, i.event ≠ .store pd) :
    (d.next i).policyDecider = d.policyDecider := by
  obtain ⟨now, event⟩ := i
  cases event with
  | tun pkt => exact (handleTunPacket_spec d pkt now).policyDecider
  | udp pkt addr => exact (handleUDPPacket_spec d pkt addr now).alike.policyDecider
  | store pd => exact absurd rfl (hi pd)
  | expire => rfl
  | flush r => rfl
  | peers t => rfl

theorem next_selfPeerID : (d.next i).selfPeerID = d.selfPeerID := by
  obtain ⟨now, event⟩ := i
  cases event with
  | tun pkt => exact (handleTunPacket_spec d pkt now).selfPeerID
  | udp pkt addr => exact (handleUDPPacket_spec d pkt addr now).alike.selfPeerID
  | store pd => rfl
  | expire => rfl
  | flush r => rfl
  | peers t => rfl

/-- A packet found in a queue was there before, or it was just held. -/
theorem queue_next (hi : Revocable past d i) (h : pkt ∈ ((d.next i).peers.entry r).holdQueue.val) :
    (d.next i).idOf r = d.idOf r ∧ (pkt ∈ (d.peers.entry r).holdQueue.val ∨
      (i.event = .tun pkt ∧ d.fate pkt i.now = .held r)) := by
  obtain ⟨now, event⟩ := i
  cases event with
  | tun pkt' =>
    have hs := handleTunPacket_spec d pkt' now
    refine ⟨hs.peers.id r, ?_⟩
    rcases hs.queues r pkt h with hold | ⟨hf, rfl⟩
    · exact .inl hold
    · exact .inr ⟨rfl, hf⟩
  | udp wire addr =>
    have hs := (handleUDPPacket_spec d wire addr now).settles
    exact ⟨hs.index.id r, .inl (hs.queues r pkt h)⟩
  | flush q =>
    have hs := (flushHoldQueue_spec d.peers q).1
    exact ⟨hs.index.id r, .inl (hs.queues r pkt h)⟩
  | peers t =>
    obtain ⟨hm, hid⟩ := hi.queues t rfl r pkt h
    exact ⟨hid, .inl hm⟩
  | store pd => exact ⟨rfl, .inl h⟩
  | expire => exact ⟨rfl, .inl h⟩

/-- As long as a policy shuts a connection, nothing new of it is kept. -/
theorem Forgotten.step (h : d.Forgotten c) (hc : c ∈ openedIn past) (hi : Revocable past d i)
    (hpd : d.policyDecider = some pd) (hshut : c.Shut pd d.selfPeerID) :
    (d.next i).Forgotten c := by
  constructor
  · intro e he hest
    rw [next_flowTable] at he
    have hnew : e.state ≠ .new := by simp [hest]
    rcases FlowTable.origin_of_not_new he hnew with ⟨e₀, hf, hst | ⟨-, hst⟩⟩ | ⟨g, hact, hkey⟩
    · exact h.flow e₀ hf (hst.symm.trans hest)
    · rw [hest] at hst
      cases hst
    · obtain ⟨wire, addr, r, plain, hev, hauth, hsrc, hk, hlets, rfl⟩ := act_eq_inStart hact
      have hstart : inboundStart d i = some (d.idOf r, (parsePacket plain).flow) := by
        simp [inboundStart, hev, hauth, hsrc, hk, hlets]
      have hpeer := hi.start _ _ hstart c hc hkey.symm
      have hcar : c.Carries (d.idOf r) plain := ⟨hpeer.symm, eq_or_reverse_of_flowKey hkey⟩
      have hallow := allow_of_letsIn hpd hk hlets
      rw [(hshut.denies hcar).1] at hallow
      cases hallow
  · intro r pkt hm hcar
    obtain ⟨hid, hold | ⟨-, hf⟩⟩ := queue_next hi hm
    · rw [hid] at hcar
      exact h.queue r pkt hold hcar
    · rw [hid] at hcar
      obtain ⟨-, -, hlet, -⟩ := forwardFate_of_fate (.inr hf)
      exact not_letsOut hc hpd hshut hcar hlet

theorem Silent.step (h : Silent past d) (hi : Revocable past d i) :
    Silent (past ++ [(d, i)]) (d.next i) := by
  intro c hc pd hpd hdeny
  rw [next_selfPeerID] at hdeny ⊢
  by_cases hstore : ∃ pd', i.event = .store pd'
  · obtain ⟨pd', hev⟩ := hstore
    have hnext : d.next i = { d with policyDecider := some pd' } := by
      simp only [next, Dispatcher.step, hev]
    rw [hnext] at hpd ⊢
    obtain rfl : pd' = pd := Option.some.inj hpd
    rcases mem_openedIn_snoc.mp hc with hc | hopen
    · obtain ⟨hforgot, hshut⟩ := hi.store pd' hev c hc hdeny
      exact ⟨⟨hforgot.flow, hforgot.queue⟩, hshut⟩
    · simp [opening, hev, inboundStart] at hopen
  · rw [next_policy fun pd' hev => hstore ⟨pd', hev⟩] at hpd
    rcases mem_openedIn_snoc.mp hc with hc | hopen
    · obtain ⟨hforgot, hshut⟩ := h c hc pd hpd hdeny
      exact ⟨hforgot.step hc hi hpd hshut, hshut⟩
    · rw [(opening_inv hopen).2 pd hpd] at hdeny
      cases hdeny

/-- A packet sent to a peer comes from its queue, or it was just read from the TUN. -/
theorem sent_inv (h : Output.sent p pkt wire ep ∈ (d.step i).2) :
    ∃ r, p = d.idOf r ∧ (pkt ∈ (d.peers.entry r).holdQueue.val ∨ d.fate pkt i.now = .sent r) := by
  obtain ⟨now, event⟩ := i
  cases event with
  | tun pkt' =>
    obtain ⟨r, hf, hp, rfl⟩ := (handleTunPacket_spec d pkt' now).sent p pkt wire ep h
    exact ⟨r, hp, .inr hf⟩
  | udp wire' addr =>
    obtain ⟨r, hp, hm⟩ := (handleUDPPacket_spec d wire' addr now).sent p pkt wire ep h
    exact ⟨r, hp, .inl hm⟩
  | flush r =>
    obtain ⟨plain, wire', ep', he, hm⟩ := (flushHoldQueue_spec d.peers r).2 _ h
    obtain ⟨rfl, rfl, -, -⟩ := Output.sent.inj he
    exact ⟨r, rfl, .inl hm⟩
  | expire => cases h
  | peers t => cases h
  | store pd => cases h

/-- A packet of a connection that is shut and forgotten is not delivered. -/
theorem not_delivered (hc : c ∈ openedIn past) (hpd : d.policyDecider = some pd)
    (hforgot : d.Forgotten c) (hshut : c.Shut pd d.selfPeerID)
    (hcar : c.Carries p pkt) : Output.delivered p pkt ∉ (d.step i).2 := by
  intro h
  obtain ⟨r, wire, addr, -, -, -, hlets, rfl⟩ := delivered_inv h
  cases he : (parsePacket pkt).err with
  | some msg => simp [letsIn, hpd, he] at hlets
  | none =>
    rcases (letsIn_iff hpd he).mp hlets with ⟨-, hallow⟩ | ⟨-, hest⟩
    · rw [(hshut.denies hcar).1] at hallow
      cases hallow
    · obtain ⟨e, hf, hs⟩ := find_of_isEstablished hest
      rw [flowKey_of_carries hcar hc] at hf
      exact hforgot.flow e hf hs

/-- Nor is it sent. -/
theorem not_sent (hc : c ∈ openedIn past) (hpd : d.policyDecider = some pd)
    (hforgot : d.Forgotten c) (hshut : c.Shut pd d.selfPeerID) (hcar : c.Carries p pkt) : Output.sent p pkt wire ep ∉ (d.step i).2 := by
  intro h
  obtain ⟨r, rfl, hm | hf⟩ := sent_inv h
  · exact hforgot.queue r pkt hm hcar
  · obtain ⟨-, -, hlet, -⟩ := forwardFate_of_fate (.inl hf)
    exact not_letsOut hc hpd hshut hcar hlet

/-- In every run in which each stored policy finds nothing left of the connections it denies, no
packet of a connection is delivered or sent while the current policy denies its start. -/
theorem revoked_silent {d₀ : Dispatcher} {is : List Input} {i : Input} {c : Conn} {p : PeerID}
    {pkt : Bytes} (h : Throughout next Revocable d₀ is) (hc : c ∈ openedIn (trail next d₀ is))
    (hdeny : (run next d₀ is).Denies c) (hcar : c.Carries p pkt) :
    Output.delivered p pkt ∉ ((run next d₀ is).step i).2 ∧
      ∀ wire ep, Output.sent p pkt wire ep ∉ ((run next d₀ is).step i).2 := by
  have hsilent : Silent (trail next d₀ is) (run next d₀ is) :=
    Throughout.invariant Silent h nofun fun past d i => Silent.step
  obtain ⟨pd, hpd, hd⟩ := hdeny
  obtain ⟨hforgot, hshut⟩ := hsilent c hc pd hpd hd
  exact ⟨not_delivered hc hpd hforgot hshut hcar,
    fun wire ep => not_sent hc hpd hforgot hshut hcar⟩

/-- A policy that denies everything. -/
def closedPolicy : CompiledPolicy := ⟨[], .deny, ∅, ∅⟩

/-- Peer 2 opens a connection and closes it before the policy is replaced; a late packet of it is
dropped. -/
theorem revoked_silent_closed :
    let d₀ := Sample.dispatcher Sample.sshPolicy
    let request : Input := ⟨0, Sample.datagram 2 0 (Sample.tcp 2 1 4000 22 Sample.syn)⟩
    let close : Input := ⟨second, Sample.datagram 2 1 (Sample.tcp 2 1 4000 22 Sample.fin)⟩
    let replace : Input := ⟨2 * second, .store (swapDecide (some closedPolicy))⟩
    let late := Sample.tcp 2 1 4000 22 Sample.ack
    Output.delivered 2 late ∉ ((run next d₀ [request, close, replace]).step
      ⟨3 * second, Sample.datagram 2 2 late⟩).2 := by
  intro d₀ request close replace late
  let c : Conn := ⟨2, true, (parsePacket (Sample.tcp 2 1 4000 22 Sample.syn)).flow⟩
  have hopen : openedIn (trail next d₀ [request, close]) = [c] := by decide +kernel
  have hrequest : Revocable [] d₀ request := ⟨nofun, nofun, nofun⟩
  have hclose : Revocable (trail next d₀ [request]) (run next d₀ [request]) close := by
    have hnone : inboundStart (run next d₀ [request]) close = none := by decide +kernel
    refine ⟨nofun, fun p g hg => ?_, nofun⟩
    cases hnone.symm.trans hg
  have hqueue (r : EntryRef) : ((run next d₀ [request, close]).peers.entry r).holdQueue.val = [] := by
    refine List.eq_nil_iff_forall_not_mem.mpr fun pkt hm => ?_
    obtain ⟨-, hm | ⟨hev, -⟩⟩ := queue_next hclose hm
    · obtain ⟨-, hm | ⟨hev, -⟩⟩ := queue_next hrequest hm
      · cases hm
      · cases hev
    · cases hev
  have hreplace : Revocable (trail next d₀ [request, close]) (run next d₀ [request, close])
      replace := by
    refine ⟨fun pd hpd c' hc' _ => ?_, nofun, nofun⟩
    obtain rfl := Event.store.inj hpd
    rw [hopen, List.mem_singleton] at hc'
    subst hc'
    refine ⟨⟨?_, fun r pkt hm => ?_⟩, fun _ _ => ⟨rfl, rfl⟩⟩
    · have hstate : ((run next d₀ [request, close]).flowTable.find (flowKey c.flow)).map
          (·.state) = some .closing := by decide +kernel
      intro e he
      rw [he] at hstate
      simp [Option.some.inj hstate]
    · rw [hqueue r] at hm
      cases hm
  have hrun : Throughout next Revocable d₀ ([] ++ [request] ++ [close] ++ [replace]) :=
    throughout_snoc.mpr ⟨throughout_snoc.mpr ⟨throughout_snoc.mpr
      ⟨throughout_nil, hrequest⟩, hclose⟩, hreplace⟩
  have hc : c ∈ openedIn (trail next d₀ [request, close, replace]) := by decide +kernel
  have hcar : c.Carries 2 late := by decide +kernel
  exact (revoked_silent hrun hc ⟨_, rfl, rfl⟩ hcar).1

/-- Peer 2 opens a connection to port 22; the policy is replaced by one that denies everything; the
next packet of the connection is delivered. -/
theorem revoked_connection_delivered :
    let d₀ := Sample.dispatcher Sample.sshPolicy
    let request : Input := ⟨0, Sample.datagram 2 0 (Sample.tcp 2 1 4000 22 Sample.syn)⟩
    let replace : Input := ⟨second, .store (swapDecide (some closedPolicy))⟩
    let later := Sample.tcp 2 1 4000 22 Sample.ack
    ∃ c ∈ openedIn (trail next d₀ [request, replace]), (run next d₀ [request, replace]).Denies c ∧
      c.Carries 2 later ∧ Output.delivered 2 later ∈
        ((run next d₀ [request, replace]).step ⟨2 * second, Sample.datagram 2 1 later⟩).2 := by
  intro d₀ request replace later
  let c : Conn := ⟨2, true, (parsePacket (Sample.tcp 2 1 4000 22 Sample.syn)).flow⟩
  have hc : c ∈ openedIn (trail next d₀ [request, replace]) := by decide +kernel
  exact ⟨c, hc, ⟨_, rfl, rfl⟩, by decide +kernel⟩

end Dispatcher

end Veld.Dataplane
