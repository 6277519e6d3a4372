import Veld.Acl.FlowAct
import Veld.Dataplane.Dispatcher

/-!
# The outbound path

What becomes of a packet read from the TUN is decided by the state before the
call: it is dropped, denied, held for its peer or sent to it. The state and the
outputs `handleTunPacket` leaves are described from this fate.
-/

namespace Veld.Dataplane

open Acl Netip Peer

/-- What becomes of an outbound packet. -/
inductive Fate
  | dropped
  | denied (r : EntryRef) (dec : Decision)
  | held (r : EntryRef)
  | sent (r : EntryRef)
  deriving DecidableEq

namespace Dispatcher

variable {d : Dispatcher} {r : EntryRef} {pkt : Bytes} {now : Int}

/-- The peer has a session that may be used for new packets. -/
def usable (d : Dispatcher) (r : EntryRef) (now : Int) : Bool :=
  (d.peers.entry r).session.any fun s => !(d.peers.session s).needsRekey now

/-- The policy does not stand in the way of an outbound flow. -/
def letsOut (d : Dispatcher) (r : EntryRef) (flow : Flow) : Bool :=
  (d.outboundDecision r flow).all (·.action ≠ .deny)

/-- The fate of a packet that got past the policy. -/
def forwardFate (d : Dispatcher) (r : EntryRef) (now : Int) : Fate :=
  if !d.usable r now then .held r
  else if !(d.peers.entry r).endpoint.isValid then .dropped
  else .sent r

/-- The fate of an outbound packet. -/
def fate (d : Dispatcher) (pkt : Bytes) (now : Int) : Fate :=
  match d.outboundPeer pkt with
  | none => .dropped
  | some r =>
    if (parsePacket pkt).err.isSome then .dropped
    else
      match d.outboundDecision r (parsePacket pkt).flow with
      | none => d.forwardFate r now
      | some dec => if dec.action = .deny then .denied r dec else d.forwardFate r now

/-- The question asked of the policy about an outbound packet, with the answer. -/
def asked (d : Dispatcher) (pkt : Bytes) : Option Output :=
  match d.outboundPeer pkt with
  | none => none
  | some r =>
    if (parsePacket pkt).err.isSome then none
    else (d.outboundDecision r (parsePacket pkt).flow).map fun dec =>
      .decided d.selfPeerID (d.idOf r) (parsePacket pkt).flow.proto (parsePacket pkt).flow.dstPort
        dec.action

/-- What an outbound packet does to the flow table. -/
def outboundAct (d : Dispatcher) (pkt : Bytes) (now : Int) : FlowAct :=
  match d.fate pkt now with
  | .sent _ => if (parsePacket pkt).kind = .kindStart then .outStart (parsePacket pkt).flow else .idle
  | _ => .idle

/-- What `transmit` leaves: only mutable parts of the peer table and the flow table change. -/
structure Transmitted (d : Dispatcher) (r : EntryRef) (pkt : Bytes) (parsed : Parsed) (now : Int)
    (res : Dispatcher × List Output) : Prop where
  tun : res.1.tun = d.tun
  policyDecider : res.1.policyDecider = d.policyDecider
  selfPeerID : res.1.selfPeerID = d.selfPeerID
  peers : d.peers.SameIndex res.1.peers
  queues : ∀ q p, p ∈ (res.1.peers.entry q).holdQueue.val → p ∈ (d.peers.entry q).holdQueue.val ∨
    (q = r ∧ p = pkt ∧ Output.queued (d.idOf r) pkt ∈ res.2)
  flowTable : res.1.flowTable = if d.forwardFate r now = .sent r then d.recordStart parsed now
    else d.flowTable
  sent : ∀ p plain wire ep, Output.sent p plain wire ep ∈ res.2 →
    d.forwardFate r now = .sent r ∧ p = d.idOf r ∧ plain = pkt
  isSent : d.forwardFate r now = .sent r →
    ∃ wire, Output.sent (d.idOf r) pkt wire (d.peers.entry r).endpoint ∈ res.2
  queued : ∀ p plain, Output.queued p plain ∈ res.2 ↔ d.forwardFate r now = .held r ∧
    (d.peers.entry r).holdQueue.hasRoom ∧ p = d.idOf r ∧ plain = pkt
  quiet : ∀ o ∈ res.2, o.isDecision = false ∧ o.isDelivery = false

theorem sameIndex_enqueue (t : Table) (r : EntryRef) (pkt : Bytes) :
    t.SameIndex (t.modify r (·.enqueue pkt)) :=
  t.sameIndex_modify r (fun _ => rfl) (fun _ => rfl) fun _ => rfl

/-- A held packet waits in the queue of its peer, if there is room. -/
theorem transmitted_hold {parsed : Parsed} {t : Table} {callback : PeerID → Output} (ht : d.peers.SameIndex t)
    (hq : ∀ q, (t.entry q).holdQueue = (d.peers.entry q).holdQueue)
    (hf : d.forwardFate r now = .held r)
    (hc : callback = .handshakeRequired ∨ callback = .rekeyRequired) :
    Transmitted d r pkt parsed now
      ({ d with peers := (hold t r pkt callback).1 }, (hold t r pkt callback).2) := by
  have hid : (t.entry r).id = d.idOf r := ht.id r
  refine ⟨rfl, rfl, rfl, ht.trans (sameIndex_enqueue t r pkt), ?_, ?_, ?_, ?_, ?_, ?_⟩
  · intro q p hp
    simp only [hold, Table.entry_modify] at hp
    by_cases hqr : q = r
    · subst hqr
      simp only [ite_true, Entry.enqueue] at hp
      rcases HoldQueue.mem_enqueue hp with h | ⟨h, hroom⟩
      · exact .inl (by rw [← hq]; exact h)
      · exact .inr ⟨rfl, h, by simp only [hold, hroom, ite_true, hid]; exact List.mem_cons_self⟩
    · simp only [hqr, ite_false] at hp
      exact .inl (by rw [← hq]; exact hp)
  · simp [hf]
  · intro p plain wire ep hm
    simp only [hold] at hm
    rcases hc with rfl | rfl <;> split at hm <;> simp at hm
  · intro h
    rw [hf] at h
    cases h
  · intro p plain
    simp only [hold, hq, hid, hf, true_and]
    cases (d.peers.entry r).holdQueue.hasRoom <;> rcases hc with rfl | rfl <;> simp
  · intro o ho
    simp only [hold] at ho
    rcases hc with rfl | rfl <;> split at ho <;> simp at ho <;>
      rcases ho with rfl | rfl <;> exact ⟨rfl, rfl⟩

private theorem forwardFate_held (h : d.usable r now = false) : d.forwardFate r now = .held r := by
  simp [forwardFate, h]

private theorem forwardFate_usable (h : d.usable r now = true) : d.forwardFate r now =
      if (d.peers.entry r).endpoint.isValid then .sent r else .dropped := by
  cases hv : (d.peers.entry r).endpoint.isValid <;> simp [forwardFate, h, hv]

theorem transmit_spec (d : Dispatcher) (r : EntryRef) (pkt : Bytes) (parsed : Parsed) (now : Int) :
    Transmitted d r pkt parsed now (d.transmit r pkt parsed now) := by
  cases hs : (d.peers.entry r).session with
  | none =>
    have hu : d.usable r now = false := by simp [usable, hs]
    simp only [transmit, hs]
    exact transmitted_hold (.refl _) (fun _ => rfl) (forwardFate_held hu) (.inl rfl)
  | some s =>
    by_cases hr : (d.peers.session s).needsRekey now = true
    · have hu : d.usable r now = false := by
        simp [usable, hs, hr]
      simp only [transmit, hs, hr, ite_true]
      exact transmitted_hold (.refl _) (fun _ => rfl) (forwardFate_held hu) (.inr rfl)
    · have hr' : (d.peers.session s).needsRekey now = false := Bool.not_eq_true _ ▸ hr
      have hu : d.usable r now = true := by
        simp [usable, hs, hr']
      obtain ⟨⟨nonce, ct⟩, hseal⟩ := Option.isSome_iff_exists.mp (Session.encrypt_isSome hr' pkt)
      have hfate := forwardFate_usable hu
      have hsame := d.peers.sameIndex_setSessionAt s ((d.peers.session s).encrypt pkt).1
      simp only [transmit, hs, hr', Bool.false_eq_true, ite_false, hseal]
      cases hv : (d.peers.entry r).endpoint.isValid with
      | false =>
        simp only [hv, Bool.false_eq_true, ite_false] at hfate
        simp only [Bool.not_false, ite_true]
        refine ⟨rfl, rfl, rfl, hsame, fun _ _ hp => .inl hp, ?_, nofun, ?_, ?_, nofun⟩
        · simp [hfate]
        · intro h
          rw [hfate] at h
          cases h
        · intro p plain
          simp [hfate]
      | true =>
        simp only [hv, ite_true] at hfate
        simp only [Bool.not_true, Bool.false_eq_true, ite_false]
        refine ⟨rfl, rfl, rfl, hsame, fun _ _ hp => .inl hp, ?_, ?_, ?_, ?_, ?_⟩
        · simp [hfate]
        · intro p plain wire ep hm
          obtain ⟨rfl, rfl, -, -⟩ := Output.sent.inj (List.mem_singleton.mp hm)
          exact ⟨hfate, rfl, rfl⟩
        · intro _
          exact ⟨_, List.mem_singleton_self _⟩
        · intro p plain
          simp [hfate]
        · intro o ho
          rw [List.mem_singleton.mp ho]
          exact ⟨rfl, rfl⟩

/-- What `handleTunPacket` leaves, described from the state before the call. -/
structure TunHandled (d : Dispatcher) (pkt : Bytes) (now : Int) (res : Dispatcher × List Output) :
    Prop where
  tun : res.1.tun = d.tun
  policyDecider : res.1.policyDecider = d.policyDecider
  selfPeerID : res.1.selfPeerID = d.selfPeerID
  peers : d.peers.SameIndex res.1.peers
  /-- Only the packet itself is added to a queue, and only when it is held. -/
  queues : ∀ q p, p ∈ (res.1.peers.entry q).holdQueue.val → p ∈ (d.peers.entry q).holdQueue.val ∨
    (d.fate pkt now = .held q ∧ p = pkt)
  flowTable : res.1.flowTable = d.flowTable.act (d.outboundAct pkt now) now
  sent : ∀ p plain wire ep, Output.sent p plain wire ep ∈ res.2 →
    ∃ r, d.fate pkt now = .sent r ∧ p = d.idOf r ∧ plain = pkt
  isSent : ∀ r, d.fate pkt now = .sent r →
    ∃ wire, Output.sent (d.idOf r) pkt wire (d.peers.entry r).endpoint ∈ res.2
  queued : ∀ p plain, Output.queued p plain ∈ res.2 ↔ ∃ r, d.fate pkt now = .held r ∧
    (d.peers.entry r).holdQueue.hasRoom ∧ p = d.idOf r ∧ plain = pkt
  decided : ∀ o, o.isDecision = true → (o ∈ res.2 ↔ d.asked pkt = some o)
  notDelivered : ∀ p plain, Output.delivered p plain ∉ res.2

private theorem forwardFate_cases (d : Dispatcher) (r : EntryRef) (now : Int) :
    d.forwardFate r now = .held r ∨ d.forwardFate r now = .dropped ∨
      d.forwardFate r now = .sent r := by
  unfold forwardFate
  split
  · exact .inl rfl
  · split
    · exact .inr (.inl rfl)
    · exact .inr (.inr rfl)

theorem isDecision_of_asked {o : Output} (h : d.asked pkt = some o) : o.isDecision = true := by
  unfold asked at h
  split at h
  · cases h
  · split at h
    · cases h
    · obtain ⟨dec, -, rfl⟩ := Option.map_eq_some_iff.mp h
      rfl

/-- A call that gets past the policy. -/
private theorem tunHandled_of_transmitted
    {res : Dispatcher × List Output} (h : Transmitted d r pkt (parsePacket pkt) now res)
    (hfate : d.fate pkt now = d.forwardFate r now) :
    TunHandled d pkt now (res.1, (d.asked pkt).toList ++ res.2) := by
  have hother (o : Output) (ho : o.isDecision = false) :
      o ∈ (d.asked pkt).toList ++ res.2 ↔ o ∈ res.2 := by
    rw [List.mem_append, or_iff_right]
    intro hm
    rw [isDecision_of_asked (Option.mem_toList.mp hm)] at ho
    cases ho
  have hsame {q : EntryRef} (h : d.forwardFate r now = .held q ∨ d.forwardFate r now = .sent q) :
      r = q := by
    rcases forwardFate_cases d r now with hc | hc | hc <;> rw [hc] at h <;> simp at h <;> exact h
  refine ⟨h.tun, h.policyDecider, h.selfPeerID, h.peers, ?_, ?_, ?_, ?_, ?_, ?_, ?_⟩
  · intro q p hp
    rcases h.queues q p hp with hold | ⟨rfl, rfl, hm⟩
    · exact .inl hold
    · exact .inr ⟨hfate.trans ((h.queued _ _).mp hm).1, rfl⟩
  · rw [h.flowTable, outboundAct, hfate]
    rcases forwardFate_cases d r now with hf | hf | hf
    · simp [hf, FlowTable.act]
    · simp [hf, FlowTable.act]
    · simp only [hf, ite_true, recordStart]
      split <;> rfl
  · intro p plain wire ep hm
    obtain ⟨hf, hp, hpl⟩ := h.sent p plain wire ep ((hother _ rfl).mp hm)
    exact ⟨r, hfate.trans hf, hp, hpl⟩
  · intro q hq
    have hf : d.forwardFate r now = .sent q := hfate.symm.trans hq
    obtain rfl := hsame (.inr hf)
    obtain ⟨wire, hm⟩ := h.isSent hf
    exact ⟨wire, (hother _ rfl).mpr hm⟩
  · intro p plain
    rw [hother _ rfl, h.queued, hfate]
    constructor
    · rintro ⟨hf, hroom, hp, hpl⟩
      exact ⟨r, hf, hroom, hp, hpl⟩
    · rintro ⟨q, hf, hroom, hp, hpl⟩
      obtain rfl := hsame (.inl hf)
      exact ⟨hf, hroom, hp, hpl⟩
  · intro o ho
    rw [List.mem_append, Option.mem_toList, or_iff_left]
    intro hm
    rw [(h.quiet o hm).1] at ho
    cases ho
  · intro p plain hm
    exact Bool.noConfusion (h.quiet _ ((hother _ rfl).mp hm)).2

/-- A call that drops the packet shows at most its question and a rejection. -/
private theorem tunHandled_dropped {d d' : Dispatcher}
    {out : List Output} (htun : d'.tun = d.tun) (hpd : d'.policyDecider = d.policyDecider)
    (hself : d'.selfPeerID = d.selfPeerID) (hpeers : d'.peers = d.peers)
    (hft : d'.flowTable = d.flowTable)
    (hfate : (∀ r, d.fate pkt now ≠ .sent r) ∧ ∀ r, d.fate pkt now ≠ .held r)
    (hout : ∀ o ∈ out, o.isRejection = true) :
    TunHandled d pkt now (d', (d.asked pkt).toList ++ out) := by
  have hmem (o : Output) (ho : o.isRejection = false) :
      o ∈ (d.asked pkt).toList ++ out ↔ d.asked pkt = some o := by
    rw [List.mem_append, Option.mem_toList, or_iff_left]
    intro hm
    rw [hout o hm] at ho
    cases ho
  have hnot (o : Output) (hd : o.isDecision = false) (hr : o.isRejection = false) :
      o ∉ (d.asked pkt).toList ++ out := by
    rw [hmem o hr]
    intro h
    rw [isDecision_of_asked h] at hd
    cases hd
  refine ⟨htun, hpd, hself, ?_, ?_, ?_, ?_, ?_, ?_, ?_, ?_⟩
  · rw [hpeers]
    exact .refl _
  · intro q p hp
    exact .inl (by rw [← hpeers]; exact hp)
  · rw [hft, outboundAct]
    cases hf : d.fate pkt now with
    | sent r => exact absurd hf (hfate.1 r)
    | dropped => rfl
    | denied r dec => rfl
    | held r => rfl
  · intro p plain wire ep hm
    exact absurd hm (hnot _ rfl rfl)
  · intro r hr
    exact absurd hr (hfate.1 r)
  · intro p plain
    constructor
    · exact fun hm => absurd hm (hnot _ rfl rfl)
    · rintro ⟨r, hr, -⟩
      exact absurd hr (hfate.2 r)
  · intro o ho
    refine hmem o ?_
    cases o with
    | decided => rfl
    | _ => cases ho
  · exact fun p plain => hnot _ rfl rfl

/-- A denied packet is answered with a rejection. -/
theorem handleTunPacket_denied
    {dec : Decision} (hr : d.outboundPeer pkt = some r) (he : (parsePacket pkt).err.isSome = false)
    (hd : d.outboundDecision r (parsePacket pkt).flow = some dec) (hdeny : dec.action = .deny) :
    d.handleTunPacket pkt now = (d.recordDrop (d.idOf r) dec,
      (d.asked pkt).toList ++ d.sendReject (parsePacket pkt).flow pkt) := by
  simp [handleTunPacket, asked, hr, he, hd, hdeny]

theorem handleTunPacket_spec (d : Dispatcher) (pkt : Bytes) (now : Int) :
    TunHandled d pkt now (d.handleTunPacket pkt now) := by
  cases hr : d.outboundPeer pkt with
  | none =>
    have hfate : d.fate pkt now = .dropped := by simp only [fate, hr]
    have heq : d.handleTunPacket pkt now = (d, (d.asked pkt).toList ++ []) := by
      simp [handleTunPacket, asked, hr]
    rw [heq]
    exact tunHandled_dropped rfl rfl rfl rfl rfl (by simp [hfate]) nofun
  | some r =>
    cases he : (parsePacket pkt).err.isSome with
    | true =>
      have hfate : d.fate pkt now = .dropped := by simp [fate, hr, he]
      have heq : d.handleTunPacket pkt now = (d, (d.asked pkt).toList ++ []) := by
        simp [handleTunPacket, asked, hr, he]
      rw [heq]
      exact tunHandled_dropped rfl rfl rfl rfl rfl (by simp [hfate]) nofun
    | false =>
      have hsent := transmit_spec d r pkt (parsePacket pkt) now
      cases hd : d.outboundDecision r (parsePacket pkt).flow with
      | none =>
        have hfate : d.fate pkt now = d.forwardFate r now := by
          simp [fate, hr, he, hd]
        have heq : d.handleTunPacket pkt now = ((d.transmit r pkt (parsePacket pkt) now).1,
            (d.asked pkt).toList ++ (d.transmit r pkt (parsePacket pkt) now).2) := by
          simp [handleTunPacket, asked, hr, he, hd]
        rw [heq]
        exact tunHandled_of_transmitted hsent hfate
      | some dec =>
        by_cases hdeny : dec.action = .deny
        · have hfate : d.fate pkt now = .denied r dec := by
            simp [fate, hr, he, hd, hdeny]
          rw [handleTunPacket_denied hr he hd hdeny]
          refine tunHandled_dropped rfl rfl rfl rfl rfl (by simp [hfate]) fun o ho => ?_
          unfold sendReject at ho
          split at ho
          · cases ho
          · split at ho <;> rw [List.mem_singleton.mp ho] <;> rfl
        · have hfate : d.fate pkt now = d.forwardFate r now := by
            simp [fate, hr, he, hd, hdeny]
          have heq : d.handleTunPacket pkt now = ((d.transmit r pkt (parsePacket pkt) now).1,
              (d.asked pkt).toList ++ (d.transmit r pkt (parsePacket pkt) now).2) := by
            simp [handleTunPacket, asked, hr, he, hd, hdeny]
          rw [heq]
          exact tunHandled_of_transmitted hsent hfate

/-- The packet is sent to the peer or put in its queue. -/
def Forwards (out : List Output) (p : PeerID) (pkt : Bytes) : Prop :=
  (∃ wire ep, Output.sent p pkt wire ep ∈ out) ∨ Output.queued p pkt ∈ out

/-- A packet reaches a peer, or its queue, exactly when that is its fate. -/
theorem forwards_iff (d : Dispatcher) (pkt : Bytes) (now : Int) (p : PeerID) :
    Forwards (d.handleTunPacket pkt now).2 p pkt ↔
      ∃ r, (d.fate pkt now = .sent r ∨
        (d.fate pkt now = .held r ∧ (d.peers.entry r).holdQueue.hasRoom = true)) ∧
        p = d.idOf r := by
  have h := handleTunPacket_spec d pkt now
  constructor
  · rintro (⟨wire, ep, hm⟩ | hm)
    · obtain ⟨r, hf, hp, -⟩ := h.sent _ _ _ _ hm
      exact ⟨r, .inl hf, hp⟩
    · obtain ⟨r, hf, hroom, hp, -⟩ := (h.queued _ _).mp hm
      exact ⟨r, .inr ⟨hf, hroom⟩, hp⟩
  · rintro ⟨r, hf | ⟨hf, hroom⟩, rfl⟩
    · obtain ⟨wire, hm⟩ := h.isSent r hf
      exact .inl ⟨wire, _, hm⟩
    · exact .inr ((h.queued _ _).mpr ⟨r, hf, hroom, rfl, rfl⟩)

/-- A readable packet for a peer that the policy lets out goes on to that peer. -/
theorem fate_eq_forwardFate (now : Int)
    (hr : d.outboundPeer pkt = some r) (he : (parsePacket pkt).err = none)
    (hlet : d.letsOut r (parsePacket pkt).flow = true) :
    d.fate pkt now = d.forwardFate r now := by
  cases hd : d.outboundDecision r (parsePacket pkt).flow with
  | none => simp [fate, hr, he, hd]
  | some dec =>
    have ha : dec.action ≠ .deny := by simpa [letsOut, hd] using hlet
    simp [fate, hr, he, hd, ha]

/-- A readable packet for a peer that can take it: over a usable session with a known endpoint, or
in a queue with room. -/
def Deliverable (d : Dispatcher) (pkt : Bytes) (now : Int) : Prop :=
  ∃ r, d.outboundPeer pkt = some r ∧ (parsePacket pkt).err = none ∧
    if d.usable r now then (d.peers.entry r).endpoint.isValid = true
    else (d.peers.entry r).holdQueue.hasRoom = true

theorem forwardFate_iff (d : Dispatcher) (r : EntryRef) (now : Int) :
    (d.forwardFate r now = .sent r ∨
      (d.forwardFate r now = .held r ∧ (d.peers.entry r).holdQueue.hasRoom = true)) ↔
      if d.usable r now then (d.peers.entry r).endpoint.isValid = true
      else (d.peers.entry r).holdQueue.hasRoom = true := by
  cases hu : d.usable r now <;> cases hv : (d.peers.entry r).endpoint.isValid <;>
    simp [forwardFate, hu, hv]

/-- A packet that is sent or held is a readable one for that peer, and the policy lets it out. -/
theorem forwardFate_of_fate (h : d.fate pkt now = .sent r ∨ d.fate pkt now = .held r) :
    d.outboundPeer pkt = some r ∧ (parsePacket pkt).err = none ∧
      d.letsOut r (parsePacket pkt).flow = true ∧ d.fate pkt now = d.forwardFate r now := by
  cases hr : d.outboundPeer pkt with
  | none => simp [fate, hr] at h
  | some q =>
    cases he : (parsePacket pkt).err with
    | some msg => simp [fate, hr, he] at h
    | none =>
      have hlet : d.letsOut q (parsePacket pkt).flow = true := by
        cases hd : d.outboundDecision q (parsePacket pkt).flow with
        | none => simp [letsOut, hd]
        | some dec =>
          by_cases ha : dec.action = .deny
          · simp [fate, hr, he, hd, ha] at h
          · simp [letsOut, hd, ha]
      have hfate := fate_eq_forwardFate now hr he hlet
      obtain rfl : q = r := by
        rw [hfate] at h
        rcases forwardFate_cases d q now with hc | hc | hc <;> rw [hc] at h <;> simp at h <;> exact h
      exact ⟨rfl, rfl, hlet, hfate⟩

/-- Every forwarded packet was asked about and allowed, exactly when its protocol is not 0 or it
cannot be forwarded anyway. -/
theorem mediated_iff {d : Dispatcher} {pd : Decider} (hpd : d.policyDecider = some pd)
    (pkt : Bytes) (now : Int) :
    (∀ p, Forwards (d.handleTunPacket pkt now).2 p pkt →
      Output.decided d.selfPeerID p (parsePacket pkt).flow.proto (parsePacket pkt).flow.dstPort
        .allow ∈ (d.handleTunPacket pkt now).2) ↔
      (parsePacket pkt).flow.proto ≠ 0 ∨ ¬d.Deliverable pkt now := by
  have hspec := handleTunPacket_spec d pkt now
  constructor
  · intro h
    by_contra hno
    obtain ⟨hproto, r, hr, he, hcan⟩ := by simpa only [not_or, not_not] using hno
    have hnone : d.outboundDecision r (parsePacket pkt).flow = none := by
      simp [outboundDecision, hpd, hproto]
    have hfate := fate_eq_forwardFate now hr he (by simp [letsOut, hnone])
    have hfwd : Forwards (d.handleTunPacket pkt now).2 (d.idOf r) pkt := by
      refine (forwards_iff d pkt now _).mpr ⟨r, ?_, rfl⟩
      rw [hfate]
      exact (forwardFate_iff d r now).mpr hcan
    have hasked := (hspec.decided _ rfl).mp (h _ hfwd)
    simp [asked, hr, he, hnone] at hasked
  · intro h p hp
    obtain ⟨r, hfate, rfl⟩ := (forwards_iff d pkt now p).mp hp
    obtain ⟨hr, he, hlet, heq⟩ := forwardFate_of_fate (hfate.imp_right And.left)
    rw [heq] at hfate
    rcases h with hproto | hno
    · have hd : d.outboundDecision r (parsePacket pkt).flow = some (pd d.selfPeerID (d.idOf r)
          (parsePacket pkt).flow.proto (parsePacket pkt).flow.dstPort) := by
        simp [outboundDecision, hpd, hproto]
      have ha : (pd d.selfPeerID (d.idOf r) (parsePacket pkt).flow.proto
          (parsePacket pkt).flow.dstPort).action = .allow := by
        cases ha : (pd d.selfPeerID (d.idOf r) (parsePacket pkt).flow.proto
          (parsePacket pkt).flow.dstPort).action with
        | allow => rfl
        | deny => simp [letsOut, hd, ha] at hlet
      rw [hspec.decided _ rfl]
      simp [asked, hr, he, hd, ha]
    · exact absurd ⟨r, hr, he, (forwardFate_iff d r now).mp hfate⟩ hno

/-- The question about a SYN to the peer, which is allowed and sent. -/
theorem mediated_iff_syn :
    let d := Sample.dispatcher Sample.outboundPolicy
    let request := Sample.tcp 1 2 1000 22 Sample.syn
    Output.decided 1 2 protoTCP 22 .allow ∈ (d.handleTunPacket request 0).2 := by
  intro d request
  have hproto : (parsePacket request).flow.proto ≠ 0 := by decide +kernel
  have hsent : Forwards (d.handleTunPacket request 0).2 2 request :=
    .inl ⟨buildDataPacket 0 request, Sample.endpoint 2, by decide +kernel⟩
  have hflow : (parsePacket request).flow.proto = protoTCP ∧ (parsePacket request).flow.dstPort = 22 := by
    decide +kernel
  have h := (mediated_iff (d := d) rfl request 0).mpr (.inl hproto) 2 hsent
  rw [hflow.1, hflow.2] at h
  exact h

/-- A later fragment of protocol 0 for the peer, under a policy that denies everything. -/
def hopByHopFragment : Bytes :=
  [0x45, 0, 0, 28, 0, 0, 0, 1, 64, 0, 0, 0, 10, 0, 0, 1, 10, 0, 0, 2, 0, 0, 0, 0, 0, 0, 0, 0]

/-- The fragment is sent although the policy denies everything, and it is never asked. -/
theorem hopByHopFragment_unmediated :
    let d := Sample.dispatcher fun _ _ _ _ => Sample.denied
    (parsePacket hopByHopFragment).err = none ∧
      Output.sent 2 hopByHopFragment (buildDataPacket 0 hopByHopFragment) (Sample.endpoint 2) ∈
        (d.handleTunPacket hopByHopFragment 0).2 ∧
      ∀ o ∈ (d.handleTunPacket hopByHopFragment 0).2, o.isDecision = false := by
  decide +kernel

end Dispatcher

end Veld.Dataplane
