import Veld.Dataplane.Connections

/-!
# Peers and the connections they use

A flow gets past the state `New` only by a start some peer was allowed to send, and
the source check ties that peer to the source of the flow. In a mesh where every
address is vouched for by one peer, a delivered packet therefore belongs to a
connection of its own sender, provided an ICMP error quotes a flow of its sender
and no peer starts connections to another peer's address through this node.
-/

namespace Veld.Dataplane

open Acl Netip Peer

/-- The entry is the one its key is registered for. -/
def Current (t : Table) (r : EntryRef) : Prop := t.lookupByID (t.entry r).id = some r

/-- A table in which VPN addresses are distinct and routes of different peers do not overlap. -/
structure Separated (t : Table) : Prop where
  indexed : t.Indexed
  routes : ∀ r q, Current t r → Current t q → r ≠ q → ∀ p ∈ (t.entry r).subnetRoutes,
    ∀ p' ∈ (t.entry q).subnetRoutes, ∀ a, ¬(p.contains a = true ∧ p'.contains a = true)

namespace Dispatcher

variable {d : Dispatcher} {r q : EntryRef} {a : Addr} {plain : Bytes} {i : Input} {g : Flow}

/-- No other peer vouches for the address of a current peer. -/
theorem eq_of_vpnAddr (hi : d.peers.Indexed)
    (hr : Current d.peers r) (ha : a.isValid = true) (hown : a = (d.peers.entry r).vpnAddr)
    (hq : Current d.peers q) (hv : d.vouches q a = true) : r = q := by
  have hlook : d.peers.lookupByVPN a = some r := by
    rw [hown] at ha ⊢
    exact hi.vpn _ r hr ha
  by_cases hown' : a = (d.peers.entry q).vpnAddr
  · have hlook' : d.peers.lookupByVPN a = some q := by
      rw [hown'] at ha ⊢
      exact hi.vpn _ q hq ha
    exact Option.mem_unique hlook hlook'
  · by_contra hne
    simp [vouches, hown', hlook, hne] at hv

/-- Every address is vouched for by at most one current peer. -/
theorem vouches_unique (hs : Separated d.peers) (ha : a.isValid = true)
    (hr : Current d.peers r) (hvr : d.vouches r a = true) (hq : Current d.peers q)
    (hvq : d.vouches q a = true) : r = q := by
  by_cases hown : a = (d.peers.entry r).vpnAddr
  · exact eq_of_vpnAddr hs.indexed hr ha hown hq hvq
  · by_cases hown' : a = (d.peers.entry q).vpnAddr
    · exact (eq_of_vpnAddr hs.indexed hq ha hown' hr hvr).symm
    · have hroute {s : EntryRef} (hne : a ≠ (d.peers.entry s).vpnAddr)
          (hv : d.vouches s a = true) : ∃ p ∈ (d.peers.entry s).subnetRoutes, p.contains a = true := by
        simp only [vouches, hne, ite_false] at hv
        split_ifs at hv
        exact List.any_eq_true.mp hv
      obtain ⟨p, hp, hpa⟩ := hroute hown hvr
      obtain ⟨p', hp', hpa'⟩ := hroute hown' hvq
      by_contra hne
      exact hs.routes r q hr hq hne p hp p' hp' a ⟨hpa, hpa'⟩

theorem isValid_unmap_flowAddr (ipv6 : Bool) (ip : BitVec 128) :
    (flowAddr ipv6 ip).unmap.isValid = true := by
  cases ipv6 with
  | false => rfl
  | true =>
    simp only [flowAddr, ite_true, Addr.unmap]
    split <;> rfl

/-- The start a peer was allowed to send, with the key of the peer. -/
def inboundStart (d : Dispatcher) (i : Input) : Option (PeerID × Flow) :=
  match i.event with
  | .udp wire addr =>
    match d.authenticated wire addr with
    | none => none
    | some (r, plain) =>
      if d.sourceAllowed r plain ∧ (parsePacket plain).kind = .kindStart ∧ d.letsIn r plain i.now then
        some (d.idOf r, (parsePacket plain).flow)
      else none
  | _ => none

/-- Other components leave the peers as they are and the table indexed. -/
def KeepsPeers (d : Dispatcher) (i : Input) : Prop :=
  ∀ t, i.event = .peers t → d.peers.SamePeers t ∧ t.Indexed

/-- The flow an ICMP error quotes has an address of its sender, and a peer's start does not go to
an address of another peer. -/
def Honest (d : Dispatcher) (i : Input) : Prop :=
  ∀ wire addr r plain, i.event = .udp wire addr → d.authenticated wire addr = some (r, plain) →
    ((parsePacket plain).kind = .kindError →
      d.vouches r (srcAddr (parsePacket plain).flow).unmap = true ∨
      d.vouches r (dstAddr (parsePacket plain).flow).unmap = true) ∧
    ((parsePacket plain).kind = .kindStart → ∀ q, Current d.peers q →
      d.vouches q (dstAddr (parsePacket plain).flow).unmap = true → q = r)

/-- The table behind a flow entry: the peer that was allowed to start it. -/
structure StartedBy (d : Dispatcher) (r : EntryRef) (g : Flow) : Prop where
  current : Current d.peers r
  source : d.vouches r (srcAddr g).unmap = true
  target : ∀ q, Current d.peers q → d.vouches q (dstAddr g).unmap = true → q = r

/-- Every entry beyond `New` goes back to a start of one peer in the past of the run. -/
structure Ledger (d₀ : Dispatcher) (past : List (Dispatcher × Input)) (d : Dispatcher) : Prop where
  mesh : SameMesh d₀ d
  indexed : d.peers.Indexed
  opened : ∀ k e, d.flowTable.find k = some e → e.state ≠ .new →
    ∃ x ∈ past, ∃ r g, inboundStart x.1 x.2 = some (d₀.idOf r, g) ∧ flowKey g = k ∧
      StartedBy d₀ r g

theorem current_of_authenticated (hi : d.peers.Indexed) {wire plain : Bytes} {addr : AddrPort} (h : d.authenticated wire addr = some (r, plain)) : Current d.peers r := by
  unfold authenticated at h
  split at h
  · cases h
  · unfold openData at h
    split at h
    · cases h
    · rename_i q hq
      obtain ⟨ep, -, hep⟩ := Option.bind_eq_some_iff.mp hq
      simp only at h
      split at h
      · cases h
      · obtain ⟨rfl, -⟩ := Prod.mk.inj (Option.some.inj h)
        exact hi.endpoint ep q hep

/-- The source of a packet that passes the check is its sender's. -/
theorem vouches_of_sourceAllowed
    (hs : d.sourceAllowed r plain = true) (he : (parsePacket plain).err = none)
    (hk : (parsePacket plain).kind ≠ .kindError) :
    d.vouches r (srcAddr (parsePacket plain).flow).unmap = true := by
  simpa only [sourceAllowed, (extract_of_parsePacket he hk).1] using hs

/-- A peer's start is recorded only from a datagram that authenticates as the peer's. -/
theorem act_eq_inStart (h : d.act i = .inStart g) :
    ∃ wire addr r plain, i.event = .udp wire addr ∧ d.authenticated wire addr = some (r, plain) ∧
      d.sourceAllowed r plain = true ∧ (parsePacket plain).kind = .kindStart ∧
      d.letsIn r plain i.now = true ∧ (parsePacket plain).flow = g := by
  obtain ⟨now, event⟩ := i
  cases event with
  | tun pkt =>
    simp only [act, outboundAct] at h
    split at h
    · split at h <;> cases h
    · cases h
  | udp wire addr =>
    simp only [act, udpAct] at h
    split at h
    · cases h
    · rename_i r plain hauth
      split at h
      · rename_i hsrc
        unfold inboundAct at h
        split at h
        · cases h
        · rename_i pd hpd
          split at h
          · cases h
          · rename_i herr
            split at h
            · rename_i hk
              split at h
              · cases h
              · rename_i hdeny
                refine ⟨wire, addr, r, plain, rfl, hauth, hsrc, hk, ?_, FlowAct.inStart.inj h⟩
                simp [letsIn, hpd, herr, hk, hdeny]
            · cases h
            · cases h
      · cases h
  | expire => cases h
  | flush r => cases h
  | peers t => cases h
  | store pd => cases h

theorem next_mesh (h : KeepsPeers d i) (hi : d.peers.Indexed) :
    SameMesh d (d.next i) ∧ (d.next i).peers.Indexed := by
  obtain ⟨now, event⟩ := i
  cases event with
  | tun pkt =>
    have hs := handleTunPacket_spec d pkt now
    exact ⟨⟨hs.tun, hs.selfPeerID, hs.peers.toSamePeers⟩, hi.sameIndex hs.peers⟩
  | udp pkt addr =>
    have hs := handleUDPPacket_spec d pkt addr now
    exact ⟨hs.alike.toSameMesh, hi.sameIndex hs.settles.index⟩
  | expire => exact ⟨⟨rfl, rfl, .refl _⟩, hi⟩
  | flush r =>
    have hs := (flushHoldQueue_spec d.peers r).1.index
    exact ⟨⟨rfl, rfl, hs.toSamePeers⟩, hi.sameIndex hs⟩
  | peers t =>
    obtain ⟨hsame, hidx⟩ := h t rfl
    exact ⟨⟨rfl, rfl, hsame⟩, hidx⟩
  | store pd => exact ⟨⟨rfl, rfl, .refl _⟩, hi⟩

theorem SameMesh.current {d' : Dispatcher} (h : SameMesh d d') (r : EntryRef) :
    Current d'.peers r ↔ Current d.peers r := by
  unfold Current Table.lookupByID
  rw [h.peers.byID, h.peers.id]

/-- One step keeps the ledger: a new entry beyond `New` is a start of its sender. -/
theorem Ledger.step {d₀ : Dispatcher} {past : List (Dispatcher × Input)} {i : Input}
    (h : Ledger d₀ past d) (hkeep : KeepsPeers d i) (hhonest : Honest d i) :
    Ledger d₀ (past ++ [(d, i)]) (d.next i) := by
  obtain ⟨hmesh, hidx⟩ := next_mesh hkeep h.indexed
  refine ⟨h.mesh.trans hmesh, hidx, fun k e he hs => ?_⟩
  rw [next_flowTable] at he
  rcases FlowTable.origin_of_not_new he hs with ⟨e₀, hf, hst⟩ | ⟨g, hact, hkey⟩
  · have hs₀ : e₀.state ≠ .new := by
      rcases hst with hst | ⟨hst, -⟩
      · rwa [← hst]
      · simp [hst]
    obtain ⟨x, hx, rest⟩ := h.opened k e₀ hf hs₀
    exact ⟨x, List.mem_append_left _ hx, rest⟩
  · obtain ⟨wire, addr, r, plain, hev, hauth, hsrc, hk, hlets, hg⟩ := act_eq_inStart hact
    have he := ((parsePacket_reads plain).start hk).1
    refine ⟨(d, i), List.mem_append_right _ List.mem_cons_self, r, g, ?_, hkey, ?_, ?_, ?_⟩
    · simp [inboundStart, hev, hauth, hsrc, hk, hlets, h.mesh.idOf, hg]
    · exact (h.mesh.current r).mp (current_of_authenticated h.indexed hauth)
    · rw [← h.mesh.vouches, ← hg]
      exact vouches_of_sourceAllowed hsrc he (by simp [hk])
    · intro q hq hv
      refine (hhonest wire addr r plain hev hauth).2 hk q ((h.mesh.current q).mpr hq) ?_
      rw [h.mesh.vouches, hg]
      exact hv

/-- The start behind an established flow was sent by the peer that now uses the flow. -/
theorem StartedBy.sender_eq {f g : Flow} (hs : Separated d.peers)
    (h : StartedBy d q g) (hkey : flowKey f = flowKey g) (hr : Current d.peers r)
    (hv : d.vouches r (srcAddr f).unmap = true ∨ d.vouches r (dstAddr f).unmap = true) : r = q := by
  have hsrc {a : Addr} (ha : a = (srcAddr g).unmap) (hva : d.vouches r a = true) : r = q := by
    rw [ha] at hva
    exact vouches_unique hs (isValid_unmap_flowAddr ..) hr hva h.current h.source
  rcases eq_or_reverse_of_flowKey hkey with rfl | rfl
  · rcases hv with hv | hv
    · exact hsrc rfl hv
    · exact h.target r hr hv
  · rcases hv with hv | hv
    · exact h.target r hr hv
    · exact hsrc rfl hv

/-- A delivered packet comes from a datagram that authenticates as its peer's and is let in. -/
theorem delivered_inv {p : PeerID} (h : Output.delivered p plain ∈ (d.step i).2) :
    ∃ r wire addr, i.event = .udp wire addr ∧ d.authenticated wire addr = some (r, plain) ∧
      d.sourceAllowed r plain = true ∧ d.letsIn r plain i.now = true ∧ p = d.idOf r := by
  obtain ⟨now, event⟩ := i
  cases event with
  | tun pkt => exact absurd h ((handleTunPacket_spec d pkt now).notDelivered p plain)
  | udp wire addr =>
    obtain ⟨r, hauth, hsrc, hlets, -, hp⟩ :=
      ((handleUDPPacket_spec d wire addr now).delivered p plain).mp h
    exact ⟨r, wire, addr, rfl, hauth, hsrc, hlets, hp⟩
  | expire => cases h
  | flush r =>
    obtain ⟨_, _, _, he, -⟩ := (flushHoldQueue_spec d.peers r).2 _ h
    cases he
  | peers t => cases h
  | store pd => cases h

theorem find_of_isEstablished {k : FlowKey} {now : Int}
    (h : d.flowTable.isEstablished k now = true) :
    ∃ e, d.flowTable.find k = some e ∧ e.state = .established := by
  cases hl : d.flowTable.live k now with
  | none => simp [FlowTable.isEstablished, hl] at h
  | some e =>
    refine ⟨e, (FlowTable.live_eq_some_iff.mp hl).1, ?_⟩
    simpa [FlowTable.isEstablished, hl] using h

/-- In every run whose inputs are honest, a packet delivered from a peer is a start the policy
allows the peer at that moment, or it belongs to a connection the same peer was allowed to start
earlier in the run. -/
theorem delivered_own {d₀ : Dispatcher} {is : List Input} {i : Input} {p : PeerID} {plain : Bytes}
    {pd : Decider} (hfresh : d₀.Fresh) (hsep : Separated d₀.peers)
    (hkeep : Along next KeepsPeers d₀ (is ++ [i])) (hhonest : Along next Honest d₀ (is ++ [i]))
    (hpd : (run next d₀ is).policyDecider = some pd)
    (hdel : Output.delivered p plain ∈ ((run next d₀ is).step i).2) :
    ((parsePacket plain).kind = .kindStart ∧ (pd p d₀.selfPeerID (parsePacket plain).flow.proto
        (parsePacket plain).flow.dstPort).action = .allow) ∨
      ∃ x ∈ trail next d₀ is, ∃ g, inboundStart x.1 x.2 = some (p, g) ∧
        ((parsePacket plain).flow = g ∨ (parsePacket plain).flow = g.reverse) := by
  obtain ⟨hkeepPast, -⟩ := along_snoc.mp hkeep
  obtain ⟨hhonestPast, hnow⟩ := along_snoc.mp hhonest
  have hboth : Along next (fun d i => KeepsPeers d i ∧ Honest d i) d₀ is :=
    fun x hx => ⟨hkeepPast x hx, hhonestPast x hx⟩
  have hstart : Ledger d₀ [] d₀ := by
    refine ⟨.refl d₀, hsep.indexed, fun k e he => ?_⟩
    rw [FlowTable.find, hfresh, Lru.find_empty] at he
    cases he
  have hledger : Ledger d₀ (trail next d₀ is) (run next d₀ is) :=
    Along.invariant (Ledger d₀) hboth hstart fun past d i h hi => h.step hi.1 hi.2
  obtain ⟨r, wire, addr, hev, hauth, hsrc, hlets, rfl⟩ := delivered_inv hdel
  have hcur := current_of_authenticated hledger.indexed hauth
  rw [hledger.mesh.idOf]
  cases he : (parsePacket plain).err with
  | some msg => simp [letsIn, hpd, he] at hlets
  | none =>
    rcases (letsIn_iff hpd he).mp hlets with ⟨hk, hallow⟩ | ⟨hk, hest⟩
    · rw [hledger.mesh.idOf, hledger.mesh.selfPeerID] at hallow
      exact .inl ⟨hk, hallow⟩
    · obtain ⟨e, hf, hs⟩ := find_of_isEstablished hest
      obtain ⟨x, hx, q, g, hx', hkey, hby⟩ := hledger.opened _ e hf (by simp [hs])
      have hv : d₀.vouches r (srcAddr (parsePacket plain).flow).unmap = true ∨
          d₀.vouches r (dstAddr (parsePacket plain).flow).unmap = true := by
        rw [← hledger.mesh.vouches, ← hledger.mesh.vouches]
        by_cases herr : (parsePacket plain).kind = .kindError
        · exact (hnow wire addr r plain hev hauth).1 herr
        · exact .inl (vouches_of_sourceAllowed hsrc he herr)
      obtain rfl := hby.sender_eq hsep hkey.symm ((hledger.mesh.current r).mp hcur) hv
      exact .inr ⟨x, hx, g, hx', eq_or_reverse_of_flowKey hkey.symm⟩

private theorem lookup_pair {α : Type} [DecidableEq α] {a b x : α} {u v r : Nat}
    (h : ((AList.insert b v (∅ : AList fun _ : α => Nat)).insert a u).lookup x = some r) :
    (x = a ∧ r = u) ∨ (x = b ∧ r = v) := by
  by_cases ha : x = a
  · subst ha
    rw [AList.lookup_insert] at h
    exact .inl ⟨rfl, (Option.some.inj h).symm⟩
  · rw [AList.lookup_insert_ne ha] at h
    by_cases hb : x = b
    · subst hb
      rw [AList.lookup_insert] at h
      exact .inr ⟨rfl, (Option.some.inj h).symm⟩
    · rw [AList.lookup_insert_ne hb, AList.lookup_empty] at h
      cases h

theorem current_sample (h : Current Sample.table r) : r = 2 ∨ r = 3 :=
  (lookup_pair h).imp And.right And.right

theorem separated_sample : Separated Sample.table := by
  refine ⟨⟨fun ep r h => ?_, fun id r h _ => ?_⟩, ?_⟩
  · rcases lookup_pair h with ⟨-, rfl⟩ | ⟨-, rfl⟩ <;> decide
  · rcases lookup_pair h with ⟨-, rfl⟩ | ⟨-, rfl⟩ <;> decide
  · intro r q hr hq hne p hp
    exact absurd hp List.not_mem_nil

/-- A later packet of a connection the peer opened with a SYN. -/
theorem delivered_own_ack :
    let d₀ := Sample.dispatcher Sample.sshPolicy
    let request : Input := ⟨0, Sample.datagram 2 0 (Sample.tcp 2 1 4000 22 Sample.syn)⟩
    let confirm := Sample.tcp 2 1 4000 22 Sample.ack
    ∃ x ∈ trail next d₀ [request], ∃ g, inboundStart x.1 x.2 = some (2, g) ∧
      ((parsePacket confirm).flow = g ∨ (parsePacket confirm).flow = g.reverse) := by
  intro d₀ request confirm
  have hauth : d₀.authenticated (buildDataPacket 0 (Sample.tcp 2 1 4000 22 Sample.syn))
      (Sample.endpoint 2) = some (2, Sample.tcp 2 1 4000 22 Sample.syn) := by decide +kernel
  have hauth' : (d₀.next request).authenticated (buildDataPacket 1 confirm) (Sample.endpoint 2) =
      some (2, confirm) := by decide +kernel
  have hdel : Output.delivered 2 confirm ∈
      ((run next d₀ [request]).step ⟨second, Sample.datagram 2 1 confirm⟩).2 := by decide +kernel
  have hkeep : Along next KeepsPeers d₀ ([request] ++ [⟨second, Sample.datagram 2 1 confirm⟩]) := by
    refine along_cons.mpr ⟨nofun, along_cons.mpr ⟨nofun, along_nil⟩⟩
  have hhonest : Along next Honest d₀ ([request] ++ [⟨second, Sample.datagram 2 1 confirm⟩]) := by
    refine along_cons.mpr ⟨?_, along_cons.mpr ⟨?_, along_nil⟩⟩
    · intro wire addr r plain hev ha
      obtain ⟨rfl, rfl⟩ := Event.udp.inj hev
      obtain ⟨rfl, rfl⟩ := Prod.mk.inj (Option.mem_unique hauth ha)
      refine ⟨by decide +kernel, fun _ q hq => ?_⟩
      rcases current_sample hq with rfl | rfl <;> decide +kernel
    · intro wire addr r plain hev ha
      obtain ⟨rfl, rfl⟩ := Event.udp.inj hev
      obtain ⟨rfl, rfl⟩ := Prod.mk.inj (Option.mem_unique hauth' ha)
      have hk : (parsePacket confirm).kind = .kindOther := by decide +kernel
      rw [hk]
      exact ⟨nofun, nofun⟩
  have hfresh : d₀.Fresh := rfl
  refine (delivered_own hfresh separated_sample hkeep hhonest rfl hdel).resolve_left ?_
  decide +kernel

/-- An ICMP error of peer 3 that quotes the answer of this node to peer 2's SYN. -/
def foreignError : Bytes :=
  Sample.ipv4 1 (Sample.vpn 3) (Sample.vpn 1)
    ([3, 1, 0, 0, 0, 0, 0, 0] ++ (Sample.tcp 1 2 22 4000 Sample.synAck).take 28)

/-- Only peer 2 may start connections; once it has one, peer 3 gets an ICMP error about it
delivered, although no start was ever exchanged with peer 3. -/
theorem foreignError_delivered :
    let d₀ := Sample.dispatcher Sample.sshPolicy
    let request : Input := ⟨0, Sample.datagram 2 0 (Sample.tcp 2 1 4000 22 Sample.syn)⟩
    Separated d₀.peers ∧ (trail next d₀ [request]).map (fun x => inboundStart x.1 x.2) =
        [some (2, (parsePacket (Sample.tcp 2 1 4000 22 Sample.syn)).flow)] ∧
      (parsePacket foreignError).kind = .kindError ∧
      Output.delivered 3 foreignError ∈
        ((run next d₀ [request]).step ⟨second, Sample.datagram 3 0 foreignError⟩).2 :=
  ⟨separated_sample, by decide +kernel⟩

end Dispatcher

end Veld.Dataplane
