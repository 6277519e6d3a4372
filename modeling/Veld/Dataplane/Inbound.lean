import Veld.Acl.FlowAct
import Veld.Dataplane.Dispatcher

/-!
# The inbound path

A datagram that authenticates as a peer's is delivered when its source is the
peer's and the policy or the flow table lets it pass. What `handleUDPPacket`
leaves is described from the state before the call: opening a packet touches
sessions and may release held packets, the check uses the flow table.
-/

namespace Veld.Dataplane

open Acl Netip Peer

/-- The outputs are packets from the queue of one peer, sent to it. -/
def Releases (t : Table) (r : EntryRef) (out : List Output) : Prop :=
  ∀ o ∈ out, ∃ plain wire ep, o = .sent (t.entry r).id plain wire ep ∧
    plain ∈ (t.entry r).holdQueue.val

/-- A table change that keeps the peers and their indexes and adds nothing to a queue. -/
structure Settles (t t' : Table) : Prop where
  index : t.SameIndex t'
  queues : ∀ r p, p ∈ (t'.entry r).holdQueue.val → p ∈ (t.entry r).holdQueue.val

theorem Settles.refl (t : Table) : Settles t t := ⟨.refl t, fun _ _ h => h⟩

theorem Settles.trans {t t' t'' : Table} (h : Settles t t') (h' : Settles t' t'') :
    Settles t t'' :=
  ⟨h.index.trans h'.index, fun r p hp => h.queues r p (h'.queues r p hp)⟩

theorem settles_setSessionAt (t : Table) (s : SessionRef) (sess : Session) :
    Settles t (t.setSessionAt s sess) :=
  ⟨t.sameIndex_setSessionAt s sess, fun _ _ h => h⟩

/-- A change of one entry that keeps the immutable fields and adds nothing to the queue. -/
theorem settles_modify (t : Table) (r : EntryRef) {f : Entry → Entry}
    (hid : ∀ e, (f e).id = e.id) (hvpn : ∀ e, (f e).vpnAddr = e.vpnAddr)
    (hroutes : ∀ e, (f e).subnetRoutes = e.subnetRoutes)
    (hqueue : ∀ e p, p ∈ (f e).holdQueue.val → p ∈ e.holdQueue.val) :
    Settles t (t.modify r f) := by
  refine ⟨t.sameIndex_modify r hid hvpn hroutes, fun q p hp => ?_⟩
  rw [Table.entry_modify] at hp
  split at hp
  · exact hqueue _ p hp
  · exact hp

theorem settles_touch (t : Table) (r : EntryRef) (now : Int) :
    Settles t (t.modify r (·.touch now)) :=
  settles_modify t r (fun _ => rfl) (fun _ => rfl) (fun _ => rfl) fun _ _ h => h

theorem settles_drainQueue (t : Table) (r : EntryRef) : Settles t (t.modify r Entry.drainQueue) :=
  settles_modify t r (fun _ => rfl) (fun _ => rfl) (fun _ => rfl) fun _ _ h => absurd h List.not_mem_nil

theorem settles_promote (t : Table) (r : EntryRef) :
    Settles t (t.modify r Entry.promotePendingSession) := by
  have hfields (e : Entry) : e.promotePendingSession.id = e.id ∧
      e.promotePendingSession.vpnAddr = e.vpnAddr ∧
      e.promotePendingSession.subnetRoutes = e.subnetRoutes ∧
      e.promotePendingSession.holdQueue = e.holdQueue := by
    unfold Entry.promotePendingSession
    split <;> exact ⟨rfl, rfl, rfl, rfl⟩
  exact settles_modify t r (fun e => (hfields e).1) (fun e => (hfields e).2.1)
    (fun e => (hfields e).2.2.1) fun e p hp => (hfields e).2.2.2 ▸ hp

theorem sendHeld_spec (s : SessionRef) (peer : PeerID) (ep : AddrPort) (t : Table)
    (pkts : List Bytes) :
    Settles t (sendHeld s peer ep t pkts).1 ∧
      ∀ o ∈ (sendHeld s peer ep t pkts).2, ∃ plain wire, o = .sent peer plain wire ep ∧
        plain ∈ pkts := by
  induction pkts generalizing t with
  | nil => exact ⟨.refl t, nofun⟩
  | cons pkt rest ih =>
    obtain ⟨hset, hout⟩ := ih (t.setSessionAt s ((t.session s).encrypt pkt).1)
    have hrest : ∀ o ∈ (sendHeld s peer ep (t.setSessionAt s ((t.session s).encrypt pkt).1) rest).2,
        ∃ plain wire, o = .sent peer plain wire ep ∧ plain ∈ pkt :: rest := by
      intro o ho
      obtain ⟨plain, wire, he, hm⟩ := hout o ho
      exact ⟨plain, wire, he, List.mem_cons_of_mem _ hm⟩
    cases hseal : ((t.session s).encrypt pkt).2 with
    | none =>
      simp only [sendHeld, hseal]
      exact ⟨(settles_setSessionAt t s _).trans hset, hrest⟩
    | some sealed =>
      simp only [sendHeld, hseal]
      refine ⟨(settles_setSessionAt t s _).trans hset, ?_⟩
      intro o ho
      rcases List.mem_cons.mp ho with rfl | ho
      · exact ⟨pkt, _, rfl, List.mem_cons_self⟩
      · exact hrest o ho

theorem flushHoldQueue_spec (t : Table) (r : EntryRef) :
    Settles t (flushHoldQueue t r).1 ∧ Releases t r (flushHoldQueue t r).2 := by
  unfold flushHoldQueue
  split
  · exact ⟨.refl t, nofun⟩
  · split
    · exact ⟨.refl t, nofun⟩
    · rename_i s _ _
      obtain ⟨hset, hout⟩ := sendHeld_spec s (t.entry r).id (t.entry r).endpoint
        (t.modify r Entry.drainQueue) (t.entry r).holdQueue.val
      refine ⟨(settles_drainQueue t r).trans hset, fun o ho => ?_⟩
      obtain ⟨plain, wire, he, hm⟩ := hout o ho
      exact ⟨plain, wire, _, he, hm⟩

theorem settles_decryptWith (t : Table) (s : Option SessionRef) (nonce : UInt64) (payload : Bytes) :
    Settles t (decryptWith t s nonce payload).1 := by
  cases s with
  | none => exact .refl t
  | some s => exact settles_setSessionAt t s _

/-- Packets released after a change that adds nothing to the queues were held before it. -/
theorem Releases.of_settles {t t' : Table} {r : EntryRef} {out : List Output} (h : Settles t t')
    (hr : Releases t' r out) : Releases t r out := by
  intro o ho
  obtain ⟨plain, wire, ep, he, hm⟩ := hr o ho
  exact ⟨plain, wire, ep, by rw [he, h.index.id], h.queues r plain hm⟩

theorem decryptDataPacket_spec (t : Table) (r : EntryRef) (nonce : UInt64) (payload : Bytes) :
    Settles t (decryptDataPacket t r nonce payload).1 ∧
      Releases t r (decryptDataPacket t r nonce payload).2.1 := by
  have hactive := settles_decryptWith t (t.entry r).session nonce payload
  have hpending := hactive.trans (settles_decryptWith _ (t.entry r).pendingSession nonce payload)
  simp only [decryptDataPacket]
  split
  · exact ⟨hactive, nofun⟩
  · split
    · have hpromote := hpending.trans (settles_promote _ r)
      obtain ⟨hset, hout⟩ := flushHoldQueue_spec
        ((decryptWith (decryptWith t (t.entry r).session nonce payload).1
          (t.entry r).pendingSession nonce payload).1.modify r Entry.promotePendingSession) r
      exact ⟨hpromote.trans hset, hout.of_settles hpromote⟩
    · split
      · exact ⟨hpending.trans (settles_decryptWith _ _ nonce payload), nofun⟩
      · exact ⟨hpending, nofun⟩

namespace Dispatcher

/-- What a delivered packet of a peer does to the flow table. -/
def inboundAct (d : Dispatcher) (r : EntryRef) (plain : Bytes) : FlowAct :=
  match d.policyDecider with
  | none => .idle
  | some pd =>
    if (parsePacket plain).err.isSome then .idle
    else
      match (parsePacket plain).kind with
      | .kindStart =>
        if (pd (d.idOf r) d.selfPeerID (parsePacket plain).flow.proto
          (parsePacket plain).flow.dstPort).action = .deny then .idle
        else .inStart (parsePacket plain).flow
      | .kindEnd => .finish (parsePacket plain).flow
      | _ => .touch (parsePacket plain).flow

/-- Whether the policy, or for anything but a start the flow table, lets a packet in. -/
def letsIn (d : Dispatcher) (r : EntryRef) (plain : Bytes) (now : Int) : Bool :=
  match d.policyDecider with
  | none => true
  | some pd =>
    if (parsePacket plain).err.isSome then false
    else if (parsePacket plain).kind = .kindStart then
      (pd (d.idOf r) d.selfPeerID (parsePacket plain).flow.proto
        (parsePacket plain).flow.dstPort).action ≠ .deny
    else d.flowTable.isEstablished (flowKey (parsePacket plain).flow) now

/-- What the inbound check leaves: it only uses the flow table and the counters. -/
structure Checked (d : Dispatcher) (r : EntryRef) (plain : Bytes) (now : Int)
    (res : Dispatcher × List Output × Bool) : Prop where
  tun : res.1.tun = d.tun
  policyDecider : res.1.policyDecider = d.policyDecider
  selfPeerID : res.1.selfPeerID = d.selfPeerID
  peers : res.1.peers = d.peers
  flowTable : res.1.flowTable = d.flowTable.act (d.inboundAct r plain) now
  outputs : ∀ o ∈ res.2.1, o.isDecision = true
  pass : res.2.2 = d.letsIn r plain now

/-- The check of every packet that must belong to an established flow. -/
private theorem checked_established {d : Dispatcher} {r : EntryRef} {plain : Bytes} {now : Int}
    {pd : Decider} (hp : d.policyDecider = some pd) (he : (parsePacket plain).err.isSome = false)
    (hk : (parsePacket plain).kind ≠ .kindStart) (hend : (parsePacket plain).kind ≠ .kindEnd) :
    Checked d r plain now
      (if (d.flowTable.lookup (parsePacket plain).flow false .new now).created ||
          !(d.flowTable.lookup (parsePacket plain).flow false .new now).entry.any
            (·.state = .established) then
        ({ d with
            policyDecider := some pd
            flowTable := (d.flowTable.lookup (parsePacket plain).flow false .new now).table
          }.recordDrop (d.idOf r) noFlow, [], false)
      else
        ({ d with
            policyDecider := some pd
            flowTable := (d.flowTable.lookup (parsePacket plain).flow false .new now).table },
          [], true)) := by
  have hact : d.inboundAct r plain = .touch (parsePacket plain).flow := by
    unfold inboundAct
    simp [hp, he]
  have hpass : d.letsIn r plain now =
      d.flowTable.isEstablished (flowKey (parsePacket plain).flow) now := by
    simp [letsIn, hp, he, hk]
  rw [FlowTable.created_lookup_false, FlowTable.entry_lookup_any, Bool.false_or]
  cases hest : d.flowTable.isEstablished (flowKey (parsePacket plain).flow) now with
  | false =>
    simp only [Bool.not_false, ite_true]
    exact ⟨rfl, hp.symm, rfl, rfl, by rw [hact]; rfl, nofun, by rw [hpass, hest]⟩
  | true =>
    simp only [Bool.not_true, Bool.false_eq_true, ite_false]
    exact ⟨rfl, hp.symm, rfl, rfl, by rw [hact]; rfl, nofun, by rw [hpass, hest]⟩

theorem inboundCheck_spec (d : Dispatcher) (r : EntryRef) (plain : Bytes) (now : Int) :
    Checked d r plain now (d.inboundCheck r plain now) := by
  cases hp : d.policyDecider with
  | none =>
    simp only [inboundCheck, hp]
    refine ⟨rfl, rfl, rfl, rfl, ?_, List.forall_mem_nil _, ?_⟩
    · simp only [inboundAct, hp, FlowTable.act]
    · simp only [letsIn, hp]
  | some pd =>
    cases he : (parsePacket plain).err.isSome with
    | true =>
      simp only [inboundCheck, hp, he, ite_true]
      refine ⟨rfl, rfl, rfl, rfl, ?_, List.forall_mem_nil _, ?_⟩
      · simp [inboundAct, hp, he, FlowTable.act]
      · simp [letsIn, hp, he]
    | false =>
      cases hk : (parsePacket plain).kind with
      | kindStart =>
        by_cases hd : (pd (d.idOf r) d.selfPeerID (parsePacket plain).flow.proto
            (parsePacket plain).flow.dstPort).action = .deny
        · simp only [inboundCheck, hp, he, hk, hd, Bool.false_eq_true, ite_false, ite_true]
          refine ⟨rfl, rfl, rfl, rfl, ?_, List.forall_mem_singleton.mpr rfl, ?_⟩
          · simp only [inboundAct, hp, he, hk, hd, Bool.false_eq_true, ite_false, ite_true,
              FlowTable.act]
            rfl
          · simp [letsIn, hp, he, hk, hd]
        · simp only [inboundCheck, hp, he, hk, hd, Bool.false_eq_true, ite_false]
          refine ⟨rfl, hp.symm, rfl, rfl, ?_, List.forall_mem_singleton.mpr rfl, ?_⟩
          · simp [inboundAct, hp, he, hk, hd, FlowTable.act]
          · simp [letsIn, hp, he, hk, hd]
      | kindEnd =>
        have hact : d.inboundAct r plain = .finish (parsePacket plain).flow := by
          simp [inboundAct, hp, he, hk]
        have hpass : d.letsIn r plain now =
            d.flowTable.isEstablished (flowKey (parsePacket plain).flow) now := by
          simp [letsIn, hp, he, hk]
        simp only [inboundCheck, hp, he, hk, Bool.false_eq_true, ite_false,
          FlowTable.created_lookup_false, FlowTable.entry_lookup_any, Bool.not_false, Bool.true_and]
        cases hest : d.flowTable.isEstablished (flowKey (parsePacket plain).flow) now with
        | false =>
          simp only [Bool.false_eq_true, ite_false]
          refine ⟨rfl, hp.symm, rfl, rfl, ?_, List.forall_mem_nil _, by rw [hpass, hest]⟩
          simp only [hact, FlowTable.act, hest, Bool.false_eq_true, ite_false]
          rfl
        | true =>
          simp only [ite_true]
          refine ⟨rfl, hp.symm, rfl, rfl, ?_, List.forall_mem_nil _, by rw [hpass, hest]⟩
          simp [hact, FlowTable.act, hest]
      | kindOther =>
        simp only [inboundCheck, hp, he, hk, Bool.false_eq_true, ite_false]
        exact checked_established hp he (by simp [hk]) (by simp [hk])
      | kindFragment =>
        simp only [inboundCheck, hp, he, hk, Bool.false_eq_true, ite_false]
        exact checked_established hp he (by simp [hk]) (by simp [hk])
      | kindError =>
        simp only [inboundCheck, hp, he, hk, Bool.false_eq_true, ite_false]
        exact checked_established hp he (by simp [hk]) (by simp [hk])

/-- Dispatchers of one node with the same peers at the same addresses. -/
structure SameMesh (d d' : Dispatcher) : Prop where
  tun : d'.tun = d.tun
  selfPeerID : d'.selfPeerID = d.selfPeerID
  peers : d.peers.SamePeers d'.peers

/-- Dispatchers that differ only in sessions, queues, endpoints, counters and the flow table. -/
structure Alike (d d' : Dispatcher) : Prop extends SameMesh d d' where
  policyDecider : d'.policyDecider = d.policyDecider

theorem SameMesh.refl (d : Dispatcher) : SameMesh d d := ⟨rfl, rfl, .refl _⟩

theorem SameMesh.trans {d d' d'' : Dispatcher} (h : SameMesh d d') (h' : SameMesh d' d'') :
    SameMesh d d'' :=
  ⟨h'.tun.trans h.tun, h'.selfPeerID.trans h.selfPeerID, h.peers.trans h'.peers⟩

theorem Alike.refl (d : Dispatcher) : Alike d d := ⟨.refl d, rfl⟩

theorem Alike.trans {d d' d'' : Dispatcher} (h : Alike d d') (h' : Alike d' d'') : Alike d d'' :=
  ⟨h.toSameMesh.trans h'.toSameMesh, h'.policyDecider.trans h.policyDecider⟩

section SameMesh

variable {d d' : Dispatcher} (h : SameMesh d d')

include h

theorem SameMesh.idOf (r : EntryRef) : d'.idOf r = d.idOf r := h.peers.id r

theorem SameMesh.vouches (r : EntryRef) (src : Addr) : d'.vouches r src = d.vouches r src := by
  have hvpn : d'.peers.lookupByVPN src = d.peers.lookupByVPN src := by
    rw [Table.lookupByVPN, h.peers.byVPN, Table.lookupByVPN]
  dsimp only [Dispatcher.vouches]
  rw [h.tun, h.peers.vpnAddr, hvpn, h.peers.subnetRoutes]

theorem SameMesh.sourceAllowed (r : EntryRef) (pkt : Bytes) :
    d'.sourceAllowed r pkt = d.sourceAllowed r pkt := by
  simp only [Dispatcher.sourceAllowed, h.vouches]

end SameMesh

section Alike

variable {d d' : Dispatcher} (h : Alike d d')

include h

theorem Alike.inboundAct (r : EntryRef) (plain : Bytes) :
    d'.inboundAct r plain = d.inboundAct r plain := by
  simp only [Dispatcher.inboundAct, h.policyDecider, h.selfPeerID, h.idOf]

theorem Alike.letsIn (hft : d'.flowTable = d.flowTable) (r : EntryRef) (plain : Bytes)
    (now : Int) : d'.letsIn r plain now = d.letsIn r plain now := by
  simp only [Dispatcher.letsIn, h.policyDecider, h.selfPeerID, h.idOf, hft]

end Alike

/-- What a datagram does to the flow table. -/
def udpAct (d : Dispatcher) (pkt : Bytes) (addr : AddrPort) : FlowAct :=
  match d.authenticated pkt addr with
  | none => .idle
  | some (r, plain) => if d.sourceAllowed r plain then d.inboundAct r plain else .idle

/-- What the handling of a decrypted packet leaves. -/
structure Delivered (d : Dispatcher) (r : EntryRef) (plain : Bytes) (now : Int)
    (res : Dispatcher × List Output) : Prop where
  alike : Alike d res.1
  settles : Settles d.peers res.1.peers
  flowTable : res.1.flowTable = d.flowTable.act
    (if d.sourceAllowed r plain then d.inboundAct r plain else .idle) now
  delivered : ∀ o, o.isDelivery = true → (o ∈ res.2 ↔ o = .delivered (d.idOf r) plain ∧
    d.sourceAllowed r plain = true ∧ d.letsIn r plain now = true ∧ d.tun.isSome = true)
  outputs : ∀ o ∈ res.2, o.isDecision = true ∨ o.isDelivery = true

theorem deliver_spec (d : Dispatcher) (r : EntryRef) (plain : Bytes) (now : Int) :
    Delivered d r plain now (d.deliver r plain now) := by
  have hc := inboundCheck_spec d r plain now
  have hsame : Alike d (d.inboundCheck r plain now).1 :=
    ⟨⟨hc.tun, hc.selfPeerID, by rw [hc.peers]; exact .refl _⟩, hc.policyDecider⟩
  have hno {o : Output} (ho : o.isDelivery = true) (hm : o ∈ (d.inboundCheck r plain now).2.1) :
      False := by
    have hd := hc.outputs o hm
    cases o <;> simp [Output.isDelivery, Output.isDecision] at ho hd
  cases hs : d.sourceAllowed r plain with
  | false =>
    simp only [deliver, hs, Bool.not_false, ite_true]
    refine ⟨.refl d, .refl _, ?_, ?_, nofun⟩
    · simp [hs, FlowTable.act]
    · simp [hs]
  | true =>
    cases hpass : (d.inboundCheck r plain now).2.2 with
    | false =>
      simp only [deliver, hs, hpass, Bool.not_true, Bool.false_eq_true, ite_false, Bool.not_false,
        ite_true]
      refine ⟨hsame, by rw [hc.peers]; exact .refl _, ?_, ?_, fun o ho => .inl (hc.outputs o ho)⟩
      · simp [hc.flowTable, hs]
      · intro o ho
        rw [← hc.pass, hpass]
        simp only [Bool.false_eq_true, false_and, and_false, iff_false]
        exact hno ho
    | true =>
      simp only [deliver, hs, hpass, Bool.not_true, Bool.false_eq_true, ite_false]
      have htouch := settles_touch (d.inboundCheck r plain now).1.peers r now
      have hset : Settles d.peers (d.inboundCheck r plain now).1.peers := by
        rw [hc.peers]
        exact .refl _
      refine ⟨hsame.trans ⟨⟨rfl, rfl, htouch.index.toSamePeers⟩, rfl⟩, hset.trans htouch, ?_, ?_, ?_⟩
      · simp [hc.flowTable, hs]
      · intro o ho
        rw [← hc.pass, hpass, hc.tun, hsame.idOf, List.mem_append, or_iff_right (hno ho)]
        cases d.tun.isSome <;> simp [hs]
      · intro o ho
        rcases List.mem_append.mp ho with ho | ho
        · exact .inl (hc.outputs o ho)
        · split at ho
          · rw [List.mem_singleton.mp ho]
            exact .inr rfl
          · cases ho

/-- What `handleUDPPacket` leaves, described from the state before the call. -/
structure UdpHandled (d : Dispatcher) (pkt : Bytes) (addr : AddrPort) (now : Int)
    (res : Dispatcher × List Output) : Prop where
  alike : Alike d res.1
  settles : Settles d.peers res.1.peers
  flowTable : res.1.flowTable = d.flowTable.act (d.udpAct pkt addr) now
  delivered : ∀ p plain, Output.delivered p plain ∈ res.2 ↔
    ∃ r, d.authenticated pkt addr = some (r, plain) ∧ d.sourceAllowed r plain = true ∧
      d.letsIn r plain now = true ∧ d.tun.isSome = true ∧ p = d.idOf r
  sent : ∀ p plain wire ep, Output.sent p plain wire ep ∈ res.2 →
    ∃ r, p = d.idOf r ∧ plain ∈ (d.peers.entry r).holdQueue.val
  notQueued : ∀ p plain, Output.queued p plain ∉ res.2

theorem openData_spec (d : Dispatcher) (pkt : Bytes) (addr : AddrPort) :
    Alike d (d.openData pkt addr).1 ∧ Settles d.peers (d.openData pkt addr).1.peers ∧
      (d.openData pkt addr).1.flowTable = d.flowTable ∧
      ∃ r, Releases d.peers r (d.openData pkt addr).2.1 := by
  unfold openData
  split
  · exact ⟨.refl d, .refl _, rfl, 0, nofun⟩
  · rename_i r _
    obtain ⟨hset, hout⟩ := decryptDataPacket_spec d.peers r
      (parseHeader (pkt.take headerSize)).2 (pkt.drop headerSize)
    exact ⟨⟨⟨rfl, rfl, hset.index.toSamePeers⟩, rfl⟩, hset, rfl, r, hout⟩

/-- A datagram that authenticates as nobody's is not delivered. -/
private theorem udpHandled_idle {d d' : Dispatcher} {pkt : Bytes} {addr : AddrPort} {now : Int}
    {out : List Output} (hauth : d.authenticated pkt addr = none) (hal : Alike d d')
    (hset : Settles d.peers d'.peers) (hft : d'.flowTable = d.flowTable)
    (hout : (∃ r, Releases d.peers r out) ∨ out = [.handshakePacket pkt addr] ∨
      out = [.natProbePacket pkt addr]) : UdpHandled d pkt addr now (d', out) := by
  refine ⟨hal, hset, by simp only [hft, udpAct, hauth, FlowTable.act], ?_, ?_, ?_⟩
  · intro p plain
    simp only [hauth, reduceCtorEq, false_and, exists_false, iff_false]
    intro hm
    rcases hout with ⟨r, hr⟩ | rfl | rfl
    · obtain ⟨_, _, _, he, -⟩ := hr _ hm
      cases he
    · cases List.mem_singleton.mp hm
    · cases List.mem_singleton.mp hm
  · intro p plain wire ep hm
    rcases hout with ⟨r, hr⟩ | rfl | rfl
    · obtain ⟨plain', wire', ep', he, hq⟩ := hr _ hm
      obtain ⟨rfl, rfl, -, -⟩ := Output.sent.inj he
      exact ⟨r, rfl, hq⟩
    · cases List.mem_singleton.mp hm
    · cases List.mem_singleton.mp hm
  · intro p plain hm
    rcases hout with ⟨r, hr⟩ | rfl | rfl
    · obtain ⟨_, _, _, he, -⟩ := hr _ hm
      cases he
    · cases List.mem_singleton.mp hm
    · cases List.mem_singleton.mp hm

theorem handleUDPPacket_spec (d : Dispatcher) (pkt : Bytes) (addr : AddrPort) (now : Int) :
    UdpHandled d pkt addr now (d.handleUDPPacket pkt addr now) := by
  have hself : Alike d d := .refl d
  by_cases hlen : pkt.length < headerSize
  · have hauth : d.authenticated pkt addr = none := by
      simp [authenticated, hlen]
    simp only [handleUDPPacket, hlen, ite_true]
    exact udpHandled_idle hauth hself (.refl _) rfl (.inl ⟨0, nofun⟩)
  · by_cases hdata : (parseHeader (pkt.take headerSize)).1 = typeData
    · have hauth : d.authenticated pkt addr = (d.openData pkt addr).2.2 := by
        simp [authenticated, hlen, hdata]
      obtain ⟨hal, hset, hft, r', hrel⟩ := openData_spec d pkt addr
      cases hopen : (d.openData pkt addr).2.2 with
      | none =>
        simp only [handleUDPPacket, hlen, hdata, hopen, ite_false, ite_true]
        exact udpHandled_idle (hauth.trans hopen) hal hset hft (.inl ⟨r', hrel⟩)
      | some got =>
        obtain ⟨r, plain⟩ := got
        have hdel := deliver_spec (d.openData pkt addr).1 r plain now
        have hsrc := hal.sourceAllowed r plain
        have hget := hauth.trans hopen
        simp only [handleUDPPacket, hlen, hdata, hopen, ite_false, ite_true]
        refine ⟨hal.trans hdel.alike, hset.trans hdel.settles, ?_, ?_, ?_, ?_⟩
        · simp only [hdel.flowTable, hft, udpAct, hget, hsrc, hal.inboundAct]
        · intro p plain'
          have hrelno : Output.delivered p plain' ∉ (d.openData pkt addr).2.1 := by
            intro hm
            obtain ⟨_, _, _, he, -⟩ := hrel _ hm
            cases he
          rw [List.mem_append, or_iff_right hrelno, hdel.delivered _ rfl, hsrc, hal.letsIn hft,
            hal.tun, hal.idOf, hget]
          constructor
          · rintro ⟨he, hs, hl, ht⟩
            obtain ⟨rfl, rfl⟩ := Output.delivered.inj he
            exact ⟨r, rfl, hs, hl, ht, rfl⟩
          · rintro ⟨q, he, hs, hl, ht, rfl⟩
            obtain ⟨rfl, rfl⟩ := Prod.mk.inj (Option.some.inj he)
            exact ⟨rfl, hs, hl, ht⟩
        · intro p plain' wire ep hm
          rcases List.mem_append.mp hm with hm | hm
          · obtain ⟨_, _, _, he, hq⟩ := hrel _ hm
            obtain ⟨rfl, rfl, -, -⟩ := Output.sent.inj he
            exact ⟨r', rfl, hq⟩
          · rcases hdel.outputs _ hm with h | h <;> cases h
        · intro p plain' hm
          rcases List.mem_append.mp hm with hm | hm
          · obtain ⟨_, _, _, he, -⟩ := hrel _ hm
            cases he
          · rcases hdel.outputs _ hm with h | h <;> cases h
    · have hauth : d.authenticated pkt addr = none := by
        simp [authenticated, hdata]
      simp only [handleUDPPacket, hlen, hdata, ite_false]
      split_ifs
      · split
        · exact udpHandled_idle hauth hself (.refl _) rfl (.inl ⟨0, nofun⟩)
        · rename_i q _
          have htouch := settles_touch d.peers q now
          exact udpHandled_idle hauth ⟨⟨rfl, rfl, htouch.index.toSamePeers⟩, rfl⟩ htouch rfl
            (.inl ⟨0, nofun⟩)
      · exact udpHandled_idle hauth hself (.refl _) rfl (.inr (.inl rfl))
      · exact udpHandled_idle hauth hself (.refl _) rfl (.inr (.inr rfl))
      · exact udpHandled_idle hauth hself (.refl _) rfl (.inl ⟨0, nofun⟩)

end Dispatcher

end Veld.Dataplane
