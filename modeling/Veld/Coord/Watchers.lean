import Mathlib.Data.Finset.Basic
import Veld.Core.Run
import Veld.Coord.Outcome

/-!
# What watchers hold

A watcher holds the peers whose last event was a JOIN. What it will have been told
once everything planned so far has reached it is the last of the events it
received, the rest of its snapshot, its queue and the events calls have yet to
publish. When the events of one peer are published in the order of the
transactions and no channel is full, this agrees with the registry at any time.
-/

namespace Veld.Coord

namespace PeerEvent

/-- What an event tells about a peer: that it is there, or that it is gone. -/
def tells (id : String) (ev : PeerEvent) : Option Bool :=
  match ev.type, ev.peer with
  | .join, some p => if p.id = id then some true else none
  | .leave, some p => if p.id = id then some false else none
  | _, _ => none

/-- The peers held after an event. -/
def hold (held : Finset String) (ev : PeerEvent) : Finset String :=
  match ev.type, ev.peer with
  | .join, some p => insert p.id held
  | .leave, some p => held.erase p.id
  | _, _ => held

theorem mem_hold {held : Finset String} {ev : PeerEvent} {id : String} :
    id ∈ ev.hold held ↔ (ev.tells id).getD (id ∈ held) = true := by
  unfold hold tells
  split
  · rename_i p _ _
    by_cases hid : p.id = id
    · simp [hid]
    · simp [hid, Ne.symm hid]
  · rename_i p _ _
    by_cases hid : p.id = id
    · simp [hid]
    · simp [hid, Ne.symm hid]
  · simp

theorem tells_of_not_about {ev : PeerEvent} {id : String} (h : ev.about id = false) :
    ev.tells id = none := by
  unfold tells
  split
  · rename_i p _ hp
    rw [about, hp] at h
    simpa using h
  · rename_i p _ hp
    rw [about, hp] at h
    simpa using h
  · rfl

end PeerEvent

/-- The last thing some events tell about a peer. -/
def told (id : String) (evs : List PeerEvent) : Option Bool :=
  (evs.filterMap (PeerEvent.tells id)).getLast?

section Told

variable {id : String} {evs evs' : List PeerEvent}

@[simp] theorem told_nil : told id [] = none := rfl

theorem told_singleton (ev : PeerEvent) : told id [ev] = ev.tells id := by
  cases h : ev.tells id <;> simp [told, h]

theorem told_append : told id (evs ++ evs') = (told id evs').or (told id evs) := by
  rw [told, List.filterMap_append, List.getLast?_append]
  rfl

/-- A watcher holds the peers it was last told to be there. -/
theorem mem_foldl_hold : id ∈ evs.foldl PeerEvent.hold ∅ ↔ told id evs = some true := by
  induction evs using List.reverseRecOn with
  | nil => simp [told]
  | append_singleton evs ev ih =>
    rw [List.foldl_append, List.foldl_cons, List.foldl_nil, PeerEvent.mem_hold, told_append]
    rw [told_singleton]
    cases hs : ev.tells id with
    | none => simp [ih]
    | some b => simp

/-- Only the events about the peer matter. -/
theorem told_filter_about : told id (evs.filter (PeerEvent.about id)) = told id evs := by
  rw [told, told, List.filterMap_filter]
  congr 1
  refine List.filterMap_congr fun ev _ => ?_
  cases h : ev.about id with
  | true => rfl
  | false => simp [PeerEvent.tells_of_not_about h]

/-- Events that all tell of a departure. -/
theorem told_of_forall_leave (h : ∀ ev ∈ evs, ev.tells id = some false) :
    told id evs = if evs = [] then none else some false := by
  rcases List.eq_nil_or_concat evs with rfl | ⟨rest, ev, rfl⟩
  · rfl
  · have hev : ev.tells id = some false := h ev (by simp)
    rw [List.concat_eq_append, told_append, told_singleton, hev]
    simp

end Told

namespace Action

/-- The action publishes an event about a peer in a network. -/
def announces (networkID id : String) : Action → Bool
  | publish n ev => n = networkID && ev.about id
  | _ => false

/-- The network an action publishes to. -/
def network? : Action → Option String
  | publish n _ => some n
  | _ => none

/-- The event an action publishes. -/
def event? : Action → Option PeerEvent
  | publish _ ev => some ev
  | _ => none

end Action

namespace Registry

/-- The peer is stored in a network. -/
def present (r : Registry) (networkID id : String) : Bool :=
  (r.identityOf id).any (·.networkID = networkID)

/-- The events about a peer that a call publishes in a network. -/
def news (networkID id : String) (acts : List Action) : List PeerEvent :=
  (acts.filter (Action.announces networkID id)).filterMap Action.event?

variable {simpleFold : Char → Char} {r : Registry} {op : Op} {n id : String}

theorem present_congr {r' : Registry} (h : r'.identityOf id = r.identityOf id) :
    r'.present n id = r.present n id := by
  rw [present, present, h]

theorem present_of_identityOf {i : Identity} (h : r.identityOf id = some i) :
    r.present n id = decide (i.networkID = n) := by
  rw [present, h, Option.any_some]

theorem mem_listPeers_iff (h : r.Keyed) :
    id ∈ (r.listPeers n).map (·.id) ↔ r.present n id = true := by
  have hids : (r.listPeers n).map (·.id) = (r.networkPeers n).map (·.id) := by
    rw [listPeers, applyEndpoints, List.map_map]
    rfl
  rw [hids, List.mem_map, present, identityOf, Option.any_map]
  constructor
  · rintro ⟨rec, hrec, rfl⟩
    obtain ⟨hval, hn⟩ := List.mem_filter.mp hrec
    obtain ⟨k, hk⟩ := mem_values.mp hval
    rw [h k rec hk, hk]
    exact hn
  · intro hany
    obtain ⟨rec, hrec, hn⟩ := (Option.any_eq_true _ _).mp hany
    exact ⟨rec, List.mem_filter.mpr ⟨mem_values.mpr ⟨id, hrec⟩, hn⟩, h id rec hrec⟩

theorem news_register (p : PeerRecord) (i : Identity) :
    news n id [.setEndpoint p.id p.endpoint, .publish i.networkID (joinEvent p i.vpnAddr)] =
      if i.networkID = n ∧ p.id = id then [joinEvent p i.vpnAddr] else [] := by
  have habout : (joinEvent p i.vpnAddr).about id = decide (p.id = id) := rfl
  by_cases hn : i.networkID = n <;> by_cases hid : p.id = id <;>
    simp [news, Action.announces, Action.event?, habout, hn, hid]

/-- The departures a removal publishes, if any, are those of the peer. -/
theorem mem_news_remove {removed : List PeerRecord} {ev : PeerEvent} :
    ev ∈ news n id (removed.map (.dropEndpoint ·.id) ++ removed.map publishLeave) ↔
      ∃ rec ∈ removed, rec.networkID = n ∧ rec.id = id ∧ leaveEvent rec = ev := by
  simp only [news, List.mem_filterMap, List.mem_filter, List.mem_append, List.mem_map]
  constructor
  · rintro ⟨a, ⟨⟨rec, -, rfl⟩ | ⟨rec, hrec, rfl⟩, hann⟩, hev⟩
    · cases hann
    · have habout : (leaveEvent rec).about id = decide (rec.id = id) := rfl
      simp only [publishLeave, Action.announces, habout, Bool.and_eq_true,
        decide_eq_true_eq] at hann
      exact ⟨rec, hrec, hann.1, hann.2, Option.some.inj hev⟩
  · rintro ⟨rec, hrec, rfl, rfl, rfl⟩
    exact ⟨publishLeave rec, ⟨.inr ⟨rec, hrec, rfl⟩, by
      simp [publishLeave, Action.announces, PeerEvent.about, leaveEvent]⟩, rfl⟩

/-- The events of a call tell what its transaction changed. -/
theorem present_commit {acts : List Action} (hout : Outcome simpleFold r op acts) :
    (r.commit simpleFold op).present n id =
      (told id (news n id acts)).getD (r.present n id) := by
  cases hout with
  | keep _ same => exact present_congr (same id)
  | endpoint _ _ same => exact present_congr (same id)
  | @register p i _ _ _ _ before after others =>
    rw [news_register]
    by_cases hid : p.id = id
    · subst hid
      rw [present_of_identityOf after]
      by_cases hn : i.networkID = n
      · rw [if_pos ⟨hn, rfl⟩, told_singleton]
        simp [PeerEvent.tells, joinEvent, PeerRecord.toV1, hn]
      · rw [if_neg fun h => hn h.1]
        rcases before with before | ⟨before, -⟩
        · simp [present_of_identityOf before]
        · simp [present, before, hn]
    · rw [if_neg fun h => hid h.2]
      exact present_congr (others id (Ne.symm hid))
  | @remove removed _ stored gone =>
    have hleave : ∀ ev ∈ news n id (removed.map (.dropEndpoint ·.id) ++
        removed.map publishLeave), ev.tells id = some false := by
      intro ev hev
      obtain ⟨rec, -, -, hid, rfl⟩ := mem_news_remove.mp hev
      simp [PeerEvent.tells, leaveEvent, hid]
    have hafter := gone id
    rw [told_of_forall_leave hleave]
    by_cases hin : ∃ rec ∈ removed, rec.networkID = n ∧ rec.id = id
    · obtain ⟨rec, hrec, hn, hid⟩ := hin
      rw [if_pos (List.mem_map.mpr ⟨rec, hrec, hid⟩)] at hafter
      rw [if_neg (List.ne_nil_of_mem (mem_news_remove.mpr ⟨rec, hrec, hn, hid, rfl⟩)), present,
        hafter]
      rfl
    · have hnone : news n id (removed.map (.dropEndpoint ·.id) ++ removed.map publishLeave) = [] := by
        refine List.eq_nil_iff_forall_not_mem.mpr fun ev hev => hin ?_
        obtain ⟨rec, hrec, hn, hid, -⟩ := mem_news_remove.mp hev
        exact ⟨rec, hrec, hn, hid⟩
      rw [if_pos hnone, Option.getD_none]
      split at hafter
      · rename_i hmem
        obtain ⟨rec, hrec, hid⟩ := List.mem_map.mp hmem
        have hbefore : r.identityOf id = some rec.identity := by
          rw [identityOf, ← hid, stored rec hrec]
          rfl
        have hn : ¬rec.identity.networkID = n := fun hn => hin ⟨rec, hrec, hn, hid⟩
        rw [present_of_identityOf hbefore, present, hafter, decide_eq_false hn]
        rfl
      · exact present_congr hafter

end Registry

namespace Watcher

/-- The events of the snapshot that were not sent yet; the endpoints do not matter here. -/
def upcoming (w : Watcher) : List PeerEvent :=
  match w.phase with
  | .subscribed => []
  | .listed peers => snapshotEvents w.peerID peers
  | .sending rest => rest

/-- All events that were sent or will be, in order. -/
def account (w : Watcher) : List PeerEvent := w.received ++ w.upcoming ++ w.queue

/-- The peers a watcher holds. -/
def held (w : Watcher) : Finset String := w.received.foldl PeerEvent.hold ∅

theorem offer_eq (w : Watcher) (n : String) (ev : PeerEvent) :
    (w.offer n ev).networkID = w.networkID ∧ (w.offer n ev).peerID = w.peerID ∧
      (w.offer n ev).phase = w.phase ∧ (w.offer n ev).isOpen = w.isOpen := by
  unfold offer
  split <;> exact ⟨rfl, rfl, rfl, rfl⟩

theorem peerID_list (w : Watcher) (r : Registry) : (w.list r).peerID = w.peerID := by
  unfold list
  split <;> rfl

theorem peerID_fill (w : Watcher) (r : Registry) : (w.fill r).peerID = w.peerID := by
  unfold fill
  split <;> rfl

theorem peerID_deliver (w : Watcher) : w.deliver.peerID = w.peerID := by
  unfold deliver
  split <;> rfl

theorem peerID_signal (w : Watcher) (sig : SignalEvent) : (w.signal sig).peerID = w.peerID := by
  unfold signal
  split <;> rfl

end Watcher

/-- What was told about a peer agrees with its presence; after the snapshot a peer that is there was
told of. -/
structure Fits (snapshot : Prop) (t : Option Bool) (present : Bool) : Prop where
  agrees : ∀ b ∈ t, b = present
  complete : snapshot → t = none → present = false

theorem Fits.or {snapshot : Prop} {t new : Option Bool} {present : Bool}
    (h : Fits snapshot t present) : Fits snapshot (new.or t) (new.getD present) := by
  cases new with
  | none => exact h
  | some b => exact ⟨fun b' hb => (Option.some.inj hb).symm, fun _ hnone => nomatch hnone⟩

theorem Fits.eq_some_true_iff {snapshot : Prop} {t : Option Bool} {present : Bool}
    (h : Fits snapshot t present) (hs : snapshot) : t = some true ↔ present = true := by
  cases t with
  | none => simp [h.complete hs rfl]
  | some b => simp [h.agrees b rfl]

/-- A snapshot tells of all peers that are there, before anything told later. -/
theorem Fits.snapshot {before after : Prop} {t u : Option Bool} {present : Bool}
    (h : Fits before (t.or u) present) :
    Fits after (t.or ((if present then some true else none).or u)) present := by
  cases t with
  | some b => exact ⟨h.agrees, fun _ hnone => nomatch hnone⟩
  | none =>
    cases present with
    | true => exact ⟨fun b hb => (Option.some.inj hb).symm, fun _ hnone => nomatch hnone⟩
    | false => exact ⟨h.agrees, fun _ _ => rfl⟩

namespace Coordinator

variable {simpleFold : Char → Char} {c : Coordinator} {w : Watcher} {id : String}

/-- The events about a peer that calls have yet to publish in a network. -/
def pending (c : Coordinator) (networkID id : String) : List PeerEvent :=
  (c.calls.left (Action.announces networkID id)).filterMap Action.event?

/-- What a watcher will have been told agrees with the registry. -/
def Informed (c : Coordinator) (w : Watcher) (id : String) : Prop :=
  Fits (w.phase ≠ .subscribed) (told id (w.account ++ c.pending w.networkID id))
    (c.registry.present w.networkID id)

/-- The events in progress agree with the registry, for all networks and watchers. -/
structure Converging (c : Coordinator) : Prop where
  keyed : c.registry.Keyed
  pending : ∀ n id, Fits False (told id (c.pending n id)) (c.registry.present n id)
  watchers : ∀ w ∈ c.watchers, w.isOpen = true → ∀ id ≠ w.peerID, c.Informed w id

/-- The events about one peer are published in the order of the transactions. -/
def PublishesInOrder (c : Coordinator) : CoordStep → Prop
  | .perform k => ∀ a ∈ c.calls.next? k, ∀ ev ∈ a.event?, ∀ p ∈ ev.peer, ∀ n ∈ a.network?,
      c.calls.IsOldest (Action.announces n p.id) k
  | _ => True

/-- No channel an event is published to is full. -/
def NoneFull (c : Coordinator) : CoordStep → Prop
  | .perform k => ∀ a ∈ c.calls.next? k, ∀ n ∈ a.network?,
      ∀ w ∈ c.watchers, w.subscribes n = true → w.queue.length < channelCap
  | _ => True

theorem Converging.new : Converging Coordinator.new where
  keyed := fun _ _ h => nomatch h
  pending _ _ := { agrees := nofun, complete := False.elim }
  watchers := nofun

/-- A transaction and its events. -/
theorem Converging.commit (h : c.Converging) (op : Op) :
    (c.next simpleFold (.commit op)).Converging := by
  have hout := Registry.outcome simpleFold h.keyed op
  have hpending (n id : String) : (c.next simpleFold (.commit op)).pending n id =
      c.pending n id ++ Registry.news n id (c.registry.followUp simpleFold op) := by
    rw [Coordinator.pending, Coordinator.pending, Registry.news, ← List.filterMap_append,
      ← Backlog.left_append]
    rfl
  have hpresent (n id : String) : (c.next simpleFold (.commit op)).registry.present n id =
      (told id (Registry.news n id (c.registry.followUp simpleFold op))).getD
        (c.registry.present n id) := Registry.present_commit hout
  refine ⟨h.keyed.commit op, fun n id => ?_, fun w hw hopen id hid => ?_⟩
  · rw [hpending, told_append, hpresent]
    exact (h.pending n id).or
  · rw [Informed, hpending, ← List.append_assoc, told_append, hpresent]
    exact Fits.or (h.watchers w hw hopen id hid)

/-- The event that is published next is the first one pending about its peer. -/
theorem pending_advance {k : Nat} {a : Action} (ha : c.calls.next? k = some a)
    (hin : PublishesInOrder c (.perform k)) (n id : String) :
    c.pending n id =
      Registry.news n id [a] ++ { c.act a with calls := c.calls.advance k }.pending n id := by
  have hleft := Backlog.left_advance (p := Action.announces n id) ha fun hann => by
    cases a with
    | setEndpoint peerID endpoint => cases hann
    | dropEndpoint peerID => cases hann
    | publish m ev =>
      rw [Action.announces, Bool.and_eq_true, decide_eq_true_eq] at hann
      obtain ⟨rfl, habout⟩ := hann
      obtain ⟨p, hp, hid⟩ := (Option.any_eq_true _ _).mp habout
      obtain rfl := of_decide_eq_true hid
      exact hin (.publish m ev) ha ev rfl p hp m rfl
  rw [pending, hleft, List.filterMap_append]
  rfl

/-- A published event moves from the pending ones to the queue. -/
theorem told_offer {n : String} {ev : PeerEvent} {rest : List PeerEvent} (hopen : w.isOpen = true)
    (hfull : w.subscribes n = true → w.queue.length < channelCap) :
    told id ((w.offer n ev).account ++ rest) =
      told id (w.account ++ (Registry.news w.networkID id [.publish n ev] ++ rest)) := by
  by_cases hn : w.networkID = n
  · have hsub : w.subscribes n = true := by simp [Watcher.subscribes, hopen, hn]
    have haccount : (w.offer n ev).account = w.account ++ [ev] := by
      have hcond : (w.subscribes n && decide (w.queue.length < channelCap)) = true := by
        simp [hsub, hfull hsub]
      rw [Watcher.offer, if_pos hcond, Watcher.account, Watcher.account, List.append_assoc _ _ [ev]]
      rfl
    rw [haccount, List.append_assoc]
    cases habout : ev.about id with
    | true =>
      have hnews : Registry.news w.networkID id [.publish n ev] = [ev] := by
        simp [Registry.news, Action.announces, Action.event?, hn, habout]
      rw [hnews]
    | false =>
      have hnews : Registry.news w.networkID id [.publish n ev] = [] := by
        simp [Registry.news, Action.announces, habout]
      rw [hnews, told_append, told_append, told_append, told_singleton,
        PeerEvent.tells_of_not_about habout]
      simp
  · have hsame : w.offer n ev = w := by simp [Watcher.offer, Watcher.subscribes, hn]
    have hnews : Registry.news w.networkID id [.publish n ev] = [] := by
      simp [Registry.news, Action.announces, Ne.symm hn]
    rw [hsame, hnews, List.nil_append]

theorem Converging.perform (h : c.Converging) {k : Nat} (hin : PublishesInOrder c (.perform k))
    (hfull : NoneFull c (.perform k)) : (c.next simpleFold (.perform k)).Converging := by
  cases ha : c.calls.next? k with
  | none =>
    simp only [next, ha]
    exact h
  | some a =>
    simp only [next, ha]
    have hpresent (n id : String) : (c.act a).registry.present n id = c.registry.present n id :=
      Registry.present_congr (identityOf_act a id)
    have hpending := pending_advance ha hin
    refine ⟨keyed_act h.keyed a, fun n id => ?_, fun w hw hopen id hid => ?_⟩
    · refine ⟨fun b hb => ?_, False.elim⟩
      refine ((h.pending n id).agrees b ?_).trans (hpresent n id).symm
      rw [hpending, told_append, hb]
      rfl
    · cases a with
      | setEndpoint peerID endpoint =>
        have hinf := h.watchers w hw hopen id hid
        rw [Informed, hpending] at hinf
        exact hinf
      | dropEndpoint peerID =>
        have hinf := h.watchers w hw hopen id hid
        rw [Informed, hpending] at hinf
        exact hinf
      | publish n ev =>
        obtain ⟨w, hw₀, rfl⟩ := List.mem_map.mp hw
        obtain ⟨hnet, hpeer, hphase, hopen'⟩ := w.offer_eq n ev
        rw [hopen'] at hopen
        rw [hpeer] at hid
        have hinf := h.watchers w hw₀ hopen id hid
        rw [Informed, hpending, ← told_offer hopen (hfull _ ha n rfl w hw₀)] at hinf
        rw [Informed, hnet, hphase]
        exact hinf

theorem Converging.subscribe (h : c.Converging) (n own : String) :
    (c.next simpleFold (.subscribe n own)).Converging := by
  refine ⟨h.keyed, h.pending, fun w hw hopen id hid => ?_⟩
  rcases List.mem_append.mp hw with hw | hw
  · exact h.watchers w hw hopen id hid
  · obtain rfl := List.mem_singleton.mp hw
    exact ⟨(h.pending n id).agrees, fun hphase => absurd rfl hphase⟩

/-- Steps of an open watcher that keep what it will have been told. -/
theorem Converging.modify (h : c.Converging) (k : Nat) {f : Watcher → Watcher}
    (hf : ∀ w, w.isOpen = true → (∀ id ≠ w.peerID, c.Informed w id) → (f w).isOpen = true →
      ∀ id ≠ (f w).peerID, c.Informed (f w) id) : (c.modify k f).Converging := by
  refine ⟨h.keyed, h.pending, fun w hw hopen => ?_⟩
  obtain ⟨j, hj⟩ := List.mem_iff_getElem?.mp hw
  rw [Coordinator.modify, List.getElem?_modify] at hj
  obtain ⟨w₀, hw₀, hw₁⟩ := Option.map_eq_some_iff.mp hj
  have hmem : w₀ ∈ c.watchers := List.mem_of_getElem? hw₀
  have hinf := h.watchers w₀ hmem
  subst hw₁
  split at hopen
  · rename_i hk
    simp only [hk, ite_true] at hopen ⊢
    split at hopen
    · rename_i hopen₀
      simp only [hopen₀, ite_true] at hopen ⊢
      exact hf w₀ hopen₀ (hinf hopen₀) hopen
    · rename_i hclosed
      exact absurd hopen hclosed
  · rename_i hk
    simp only [hk, ite_false] at hopen ⊢
    exact hinf hopen

/-- A step that keeps a watcher's account. -/
theorem Informed.of_account {w' : Watcher} (h : c.Informed w id)
    (hnet : w'.networkID = w.networkID) (hacc : told id w'.account = told id w.account)
    (hphase : w'.phase ≠ .subscribed → w.phase ≠ .subscribed) : c.Informed w' id := by
  rw [Informed, told_append] at h ⊢
  rw [hnet, hacc]
  exact ⟨h.agrees, fun hp => h.complete (hphase hp)⟩

/-- The snapshot tells of the peers that are stored. -/
theorem told_snapshotEvents {r : Registry} {n own : String} (hkeyed : r.Keyed) (hid : id ≠ own) :
    told id (snapshotEvents own (r.networkPeers n)) =
      if r.present n id then some true else none := by
  rw [← told_filter_about, filter_snapshotEvents (Ne.symm hid), filter_networkPeers hkeyed,
    Registry.present, Registry.identityOf]
  cases hl : r.peers.lookup id with
  | none => rfl
  | some rec =>
    by_cases hn : rec.networkID = n
    · simp [hn, told, PeerEvent.tells, PeerRecord.toV1, PeerRecord.identity, hkeyed id rec hl,
        Option.filter]
    · simp [hn, told, PeerRecord.identity, Option.filter]

theorem Informed.list (h : c.Informed w id) (hkeyed : c.registry.Keyed) (hid : id ≠ w.peerID) :
    c.Informed (w.list c.registry) id := by
  cases hp : w.phase with
  | listed peers => simpa only [Watcher.list, hp] using h
  | sending rest => simpa only [Watcher.list, hp] using h
  | subscribed =>
    rw [Watcher.list, hp]
    rw [Informed, Watcher.account, Watcher.upcoming, hp] at h
    rw [Informed, Watcher.account, Watcher.upcoming]
    simp only [told_append, told_snapshotEvents hkeyed hid, told_nil, Option.none_or] at h ⊢
    rw [← Option.or_assoc] at h ⊢
    exact h.snapshot

theorem told_applyEndpoints (r : Registry) (own : String) (peers : List PeerRecord) :
    told id (snapshotEvents own (r.applyEndpoints peers)) =
      told id (snapshotEvents own peers) := by
  simp only [told, snapshotEvents, Registry.applyEndpoints, List.filter_map, List.filterMap_map,
    List.map_map]
  rfl

theorem Informed.fill (h : c.Informed w id) : c.Informed (w.fill c.registry) id := by
  cases hp : w.phase with
  | subscribed => simpa only [Watcher.fill, hp] using h
  | sending rest => simpa only [Watcher.fill, hp] using h
  | listed peers =>
    refine h.of_account ?_ ?_ fun _ => by rw [hp]; exact Phase.noConfusion
    · rw [Watcher.fill, hp]
    · rw [Watcher.fill, hp]
      simp only [Watcher.account, Watcher.upcoming, hp, told_append, told_applyEndpoints]

theorem Informed.deliver (h : c.Informed w id) : c.Informed w.deliver id := by
  unfold Watcher.deliver
  split
  · rename_i ev rest _ hp
    refine h.of_account rfl ?_ fun _ => by rw [hp]; exact Phase.noConfusion
    simp [Watcher.account, Watcher.upcoming, hp]
  · rename_i ev rest hp hq
    refine h.of_account rfl ?_ fun _ => by rw [hp]; exact Phase.noConfusion
    simp [Watcher.account, Watcher.upcoming, hp, hq]
  · exact h

theorem Informed.signal (h : c.Informed w id) (sig : SignalEvent) :
    c.Informed (w.signal sig) id := by
  unfold Watcher.signal
  split
  · rename_i hp
    refine h.of_account rfl ?_ fun _ => by rw [hp]; exact Phase.noConfusion
    have hnone : told id [{ type := .signal, signal := some sig }] = none := told_singleton _
    simp only [Watcher.account, Watcher.upcoming, hp, told_append, hnone, told_nil, Option.none_or]
  · exact h

/-- Every step keeps the agreement. -/
theorem Converging.next (h : c.Converging) {i : CoordStep} (hin : PublishesInOrder c i)
    (hfull : NoneFull c i) : (c.next simpleFold i).Converging := by
  cases i with
  | commit op => exact h.commit op
  | perform k => exact h.perform hin hfull
  | subscribe n own => exact h.subscribe n own
  | list k =>
    refine h.modify k fun w _ hinf _ id hid => ?_
    rw [Watcher.peerID_list] at hid
    exact (hinf id hid).list h.keyed hid
  | fill k =>
    refine h.modify k fun w _ hinf _ id hid => ?_
    rw [Watcher.peerID_fill] at hid
    exact (hinf id hid).fill
  | deliver k =>
    refine h.modify k fun w _ hinf _ id hid => ?_
    rw [Watcher.peerID_deliver] at hid
    exact (hinf id hid).deliver
  | signal k sig =>
    refine h.modify k fun w _ hinf _ id hid => ?_
    rw [Watcher.peerID_signal] at hid
    exact (hinf id hid).signal sig
  | close k => exact h.modify k fun w _ _ hopen => nomatch hopen

/-- No call is in progress. -/
def Idle (c : Coordinator) : Prop := c.calls.left (fun _ => true) = []

/-- A watcher that has received its snapshot and everything queued for it. -/
structure CaughtUp (c : Coordinator) (w : Watcher) : Prop where
  mem : w ∈ c.watchers
  isOpen : w.isOpen = true
  phase : w.phase = .sending []
  queue : w.queue = []

/-- When the events of each peer are published in the order of the transactions and no channel is
ever full, a watcher that has received everything while no call is in progress holds the peers
`ListPeers` returns, apart from itself. -/
theorem held_iff_listed {steps : List CoordStep}
    (hin : Along (next simpleFold) PublishesInOrder Coordinator.new steps)
    (hfull : Along (next simpleFold) NoneFull Coordinator.new steps)
    (hidle : (run (next simpleFold) Coordinator.new steps).Idle)
    (hw : (run (next simpleFold) Coordinator.new steps).CaughtUp w) (hid : id ≠ w.peerID) :
    id ∈ w.held ↔ id ∈ ((run (next simpleFold) Coordinator.new steps).registry.listPeers
      w.networkID).map (·.id) := by
  have hboth : Along (next simpleFold) (fun c i => PublishesInOrder c i ∧ NoneFull c i)
      Coordinator.new steps := fun x hx => ⟨hin x hx, hfull x hx⟩
  have hconv := hboth.keeps Converging .new fun c i h hi => h.next hi.1 hi.2
  generalize run (next simpleFold) Coordinator.new steps = c at hidle hw hconv ⊢
  have hinf := hconv.watchers w hw.mem hw.isOpen id hid
  have hnone : c.pending w.networkID id = [] := by
    rw [pending, ← Backlog.left_filter (p := fun _ : Action => true) (fun _ _ => rfl), hidle]
    rfl
  have haccount : w.account = w.received := by
    rw [Watcher.account, Watcher.upcoming, hw.phase, hw.queue, List.append_nil, List.append_nil]
  rw [Informed, hnone, List.append_nil, haccount] at hinf
  rw [Watcher.held, mem_foldl_hold, Registry.mem_listPeers_iff hconv.keyed]
  exact hinf.eq_some_true_iff (by rw [hw.phase]; exact Phase.noConfusion)

instance (c : Coordinator) : (i : CoordStep) → Decidable (PublishesInOrder c i)
  | .perform k => inferInstanceAs (Decidable (∀ a ∈ c.calls.next? k, ∀ ev ∈ a.event?,
      ∀ p ∈ ev.peer, ∀ n ∈ a.network?, c.calls.IsOldest (Action.announces n p.id) k))
  | .commit _ | .subscribe _ _ | .list _ | .fill _ | .deliver _ | .signal _ _ | .close _ =>
    inferInstanceAs (Decidable True)

instance (c : Coordinator) : (i : CoordStep) → Decidable (NoneFull c i)
  | .perform k => inferInstanceAs (Decidable (∀ a ∈ c.calls.next? k, ∀ n ∈ a.network?,
      ∀ w ∈ c.watchers, w.subscribes n = true → w.queue.length < channelCap))
  | .commit _ | .subscribe _ _ | .list _ | .fill _ | .deliver _ | .signal _ _ | .close _ =>
    inferInstanceAs (Decidable True)

instance (c : Coordinator) : Decidable c.Idle := inferInstanceAs (Decidable (c.calls.left _ = []))

end Coordinator

namespace Coordinator

/-- A registration and a departure of one peer commit in this order, but the departure is published
first. No call is in progress, the watcher has received both events, and it holds a peer that is
not stored. -/
theorem absent_peer_held :
    let steps := [CoordStep.commit Sample.create, .subscribe "net" "me", .list 0, .fill 0,
      .commit (Sample.register "a" "laptop"), .commit (.removePeer second "a"), .perform 2,
      .perform 2, .perform 1, .perform 1, .deliver 0, .deliver 0]
    let c := Sample.coordinator steps
    Along (next id) NoneFull Coordinator.new steps ∧ c.Idle ∧
      c.watchers.map (fun w => (w.isOpen, w.phase, w.queue)) = [(true, .sending [], [])] ∧
      c.watchers.map (fun w => decide ("a" ∈ w.held)) = [true] ∧
      (c.registry.listPeers "net").map (·.id) = [] := by
  decide +kernel

/-- A peer registers while a watcher subscribes, and the watcher hears of it twice. -/
theorem held_iff_listed_twice :
    let steps := [CoordStep.commit Sample.create, .subscribe "net" "me",
      .commit (Sample.register "a" "laptop"), .list 0, .perform 1, .perform 1, .fill 0, .deliver 0,
      .deliver 0]
    let join : PeerEvent :=
      { type := .join, peer := some ⟨"a", "laptop", Sample.addr 1, "", "", "", []⟩ }
    let w : Watcher := ⟨"net", "me", .sending [], [], [join, join], true⟩
    w ∈ (Sample.coordinator steps).watchers ∧ ("a" ∈ w.held ↔
      "a" ∈ ((Sample.coordinator steps).registry.listPeers "net").map (·.id)) := by
  intro steps join w
  have hmem : w ∈ (Sample.coordinator steps).watchers := by decide +kernel
  refine ⟨hmem, held_iff_listed ?_ ?_ ?_ ⟨hmem, rfl, rfl, rfl⟩ (by decide)⟩
  · decide +kernel
  · decide +kernel
  · decide +kernel

end Coordinator

end Veld.Coord
