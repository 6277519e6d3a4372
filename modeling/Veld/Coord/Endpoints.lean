import Veld.Core.Run
import Veld.Coord.Outcome

/-!
# Stored peers and endpoints in memory

A call commits its transaction first and updates the endpoints afterwards, and
nothing orders the updates of two calls. When the updates of one peer are made in
the order of the transactions, the endpoints in memory are those of the stored
peers whenever no update is left, with the value that was given last.
-/

namespace Veld.Coord

namespace Action

/-- The peer whose endpoint the action updates. -/
def updated : Action → Option String
  | setEndpoint peerID _ => some peerID
  | dropEndpoint peerID => some peerID
  | publish _ _ => none

/-- The action updates the endpoint of a peer. -/
def touches (id : String) (a : Action) : Bool := a.updated = some id

/-- What an update makes of the endpoint of its peer. -/
def give (last : Option String) : Action → Option String
  | setEndpoint _ endpoint => some endpoint
  | dropEndpoint _ => none
  | publish _ _ => last

end Action

namespace Registry

/-- The endpoint of a peer after a transaction, when it had `last` before: nothing if the peer is
absent, else what the call gives. -/
def given (simpleFold : Char → Char) (id : String) (r : Registry) (last : Option String) (op : Op) :
    Option String :=
  if ((r.commit simpleFold op).peers.lookup id).isNone then none
  else match r.gives simpleFold op with
    | some (peerID, endpoint) => if peerID = id then some endpoint else last
    | none => last

variable {simpleFold : Char → Char} {r : Registry} {id : String} {last : Option String} {op : Op}

/-- A value that is there exactly for stored peers, and then as the call gives it. -/
theorem given_eq {v : Option String}
    (hv : v.isSome = ((r.commit simpleFold op).identityOf id).isSome)
    (hgives : v.isSome → v = match r.gives simpleFold op with
      | some (peerID, endpoint) => if peerID = id then some endpoint else last
      | none => last) : r.given simpleFold id last op = v := by
  rw [isSome_identityOf] at hv
  rw [given]
  cases hl : (r.commit simpleFold op).peers.lookup id with
  | none =>
    rw [hl] at hv
    exact (Option.not_isSome_iff_eq_none.mp (by rw [hv]; exact Bool.false_ne_true)).symm
  | some rec =>
    rw [hl] at hv
    exact (hgives hv).symm

theorem filter_touches_publishLeave (removed : List PeerRecord) :
    (removed.map publishLeave).filter (Action.touches id) = [] := by
  refine List.filter_eq_nil_iff.mpr fun a ha => ?_
  obtain ⟨rec, -, rfl⟩ := List.mem_map.mp ha
  exact Bool.false_ne_true

/-- Dropping a peer any number of times leaves no endpoint, not dropping it changes nothing. -/
theorem foldl_give_drops (removed : List PeerRecord) (last : Option String) :
    ((removed.map (Action.dropEndpoint ·.id)).filter (Action.touches id)).foldl Action.give last =
      if id ∈ removed.map (·.id) then none else last := by
  induction removed generalizing last with
  | nil => rfl
  | cons rec rest ih =>
    by_cases hid : rec.id = id
    · have htouch : (Action.dropEndpoint rec.id).touches id = true := by simp [Action.touches,
        Action.updated, hid]
      rw [List.map_cons, List.filter_cons_of_pos htouch, List.foldl_cons, ih, Action.give]
      simp [hid]
    · have htouch : ¬(Action.dropEndpoint rec.id).touches id = true := by simp [Action.touches,
        Action.updated, hid]
      rw [List.map_cons, List.filter_cons_of_neg htouch, ih]
      simp [Ne.symm hid]

theorem foldl_give_setEndpoint (peerID endpoint : String) (last : Option String) :
    ([Action.setEndpoint peerID endpoint].filter (Action.touches id)).foldl Action.give last =
      if peerID = id then some endpoint else last := by
  by_cases hid : peerID = id
  · simp [Action.touches, Action.updated, hid, Action.give]
  · simp [Action.touches, Action.updated, hid]

/-- The updates of a call give what its transaction says, an endpoint to every stored peer. -/
theorem foldl_give_outcome {acts : List Action} (hout : Outcome simpleFold r op acts)
    (h : last.isSome = (r.identityOf id).isSome) :
    (acts.filter (Action.touches id)).foldl Action.give last = r.given simpleFold id last op ∧
      (r.given simpleFold id last op).isSome =
        ((r.commit simpleFold op).identityOf id).isSome := by
  suffices hv : ((acts.filter (Action.touches id)).foldl Action.give last).isSome =
      ((r.commit simpleFold op).identityOf id).isSome ∧
      (((acts.filter (Action.touches id)).foldl Action.give last).isSome →
        (acts.filter (Action.touches id)).foldl Action.give last =
          match r.gives simpleFold op with
          | some (peerID, endpoint) => if peerID = id then some endpoint else last
          | none => last) by
    rw [given_eq hv.1 hv.2]
    exact ⟨rfl, hv.1⟩
  cases hout with
  | keep hgives same =>
    rw [hgives, same, ← h]
    exact ⟨rfl, fun _ => rfl⟩
  | @endpoint peerID ep hgives stored same =>
    rw [foldl_give_setEndpoint, hgives, same, ← h]
    refine ⟨?_, fun _ => rfl⟩
    split
    · rename_i hid
      rw [h, ← hid, stored]
      rfl
    · rfl
  | @register p i _ hgives _ _ _ after others =>
    have hfilter : [Action.setEndpoint p.id p.endpoint,
        .publish i.networkID (joinEvent p i.vpnAddr)].filter (Action.touches id) =
          [Action.setEndpoint p.id p.endpoint].filter (Action.touches id) := by
      simp [List.filter_cons, Action.touches, Action.updated]
    rw [hfilter, foldl_give_setEndpoint, hgives]
    refine ⟨?_, fun _ => rfl⟩
    split
    · rename_i hid
      rw [← hid, after]
      rfl
    · rename_i hid
      rw [others id (Ne.symm hid), h]
  | @remove removed hgives _ gone =>
    rw [List.filter_append, filter_touches_publishLeave, List.append_nil, foldl_give_drops, hgives,
      gone]
    split
    · exact ⟨rfl, fun hsome => nomatch hsome⟩
    · exact ⟨h, fun _ => rfl⟩

end Registry

namespace Coordinator

/-- The endpoint of a peer after a step; only transactions give endpoints. -/
def givenStep (simpleFold : Char → Char) (id : String) (last : Option String)
    (x : Coordinator × CoordStep) : Option String :=
  match x.2 with
  | .commit op => x.1.registry.given simpleFold id last op
  | _ => last

/-- The endpoint given to a peer by the last committed call since it was last absent. -/
def lastGiven (simpleFold : Char → Char) (id : String) (past : List (Coordinator × CoordStep)) :
    Option String :=
  past.foldl (givenStep simpleFold id) none

/-- The updates of one peer's endpoint are made in the order of the transactions. -/
def UpdatesInOrder (c : Coordinator) : CoordStep → Prop
  | .perform k => ∀ a ∈ c.calls.next? k, ∀ id ∈ a.updated, c.calls.IsOldest (Action.touches id) k
  | _ => True

instance (c : Coordinator) : (i : CoordStep) → Decidable (UpdatesInOrder c i)
  | .perform k => inferInstanceAs (Decidable (∀ a ∈ c.calls.next? k, ∀ id ∈ a.updated,
      c.calls.IsOldest (Action.touches id) k))
  | .commit _ | .subscribe _ _ | .list _ | .fill _ | .deliver _ | .signal _ _ | .close _ =>
    inferInstanceAs (Decidable True)

variable {simpleFold : Char → Char} {past : List (Coordinator × CoordStep)} {c : Coordinator}

theorem lastGiven_snoc (id : String) (x : Coordinator × CoordStep) :
    lastGiven simpleFold id (past ++ [x]) =
      givenStep simpleFold id (lastGiven simpleFold id past) x := by
  rw [lastGiven, List.foldl_append]
  rfl

/-- The updates that are left make of the endpoints in memory what was given last, and an endpoint
was given to every stored peer. -/
structure Settling (simpleFold : Char → Char) (past : List (Coordinator × CoordStep))
    (c : Coordinator) : Prop where
  keyed : c.registry.Keyed
  stored : ∀ id, (lastGiven simpleFold id past).isSome = (c.registry.identityOf id).isSome
  endpoint : ∀ id, (c.calls.left (Action.touches id)).foldl Action.give
    (c.registry.endpoints.lookup id) = lastGiven simpleFold id past

theorem Settling.new : Settling simpleFold [] Coordinator.new where
  keyed := fun _ _ h => nomatch h
  stored _ := rfl
  endpoint _ := rfl

theorem lookup_endpoints_act (a : Action) (id : String) :
    (c.act a).registry.endpoints.lookup id = if a.touches id then
      a.give (c.registry.endpoints.lookup id) else c.registry.endpoints.lookup id := by
  cases a with
  | setEndpoint peerID endpoint =>
    by_cases hid : peerID = id
    · subst hid
      simp [act, Action.touches, Action.updated, Action.give]
    · simp [act, Action.touches, Action.updated, hid, AList.lookup_insert_ne (Ne.symm hid)]
  | dropEndpoint peerID =>
    by_cases hid : peerID = id
    · subst hid
      simp [act, Action.touches, Action.updated, Action.give]
    · simp [act, Action.touches, Action.updated, hid, AList.lookup_erase_ne (Ne.symm hid)]
  | publish networkID ev => rfl

theorem Settling.commit (h : Settling simpleFold past c) (op : Op) :
    Settling simpleFold (past ++ [(c, .commit op)]) (c.next simpleFold (.commit op)) := by
  have hlast (id : String) : lastGiven simpleFold id (past ++ [(c, .commit op)]) =
      c.registry.given simpleFold id (lastGiven simpleFold id past) op := lastGiven_snoc id _
  have hout := Registry.outcome simpleFold h.keyed op
  refine ⟨h.keyed.commit op, fun id => ?_, fun id => ?_⟩
  · rw [hlast]
    exact (Registry.foldl_give_outcome hout (h.stored id)).2
  · have hendpoints : (c.next simpleFold (.commit op)).registry.endpoints =
        c.registry.endpoints := by
      cases op <;> rfl
    rw [hlast, hendpoints]
    show List.foldl _ _ (Backlog.left _ (c.calls ++ [c.registry.followUp simpleFold op])) = _
    rw [Backlog.left_append, List.foldl_append, h.endpoint]
    exact (Registry.foldl_give_outcome hout (h.stored id)).1

theorem Settling.perform (h : Settling simpleFold past c) {k : Nat}
    (hin : UpdatesInOrder c (.perform k)) :
    Settling simpleFold (past ++ [(c, .perform k)]) (c.next simpleFold (.perform k)) := by
  have hlast (id : String) : lastGiven simpleFold id (past ++ [(c, .perform k)]) =
      lastGiven simpleFold id past := lastGiven_snoc id _
  cases ha : c.calls.next? k with
  | none =>
    simp only [Coordinator.next, ha]
    exact ⟨h.keyed, fun id => by rw [hlast, h.stored], fun id => by rw [hlast, h.endpoint]⟩
  | some a =>
    simp only [Coordinator.next, ha]
    refine ⟨?_, fun id => ?_, fun id => ?_⟩
    · exact keyed_act h.keyed a
    · rw [hlast, h.stored]
      exact congrArg Option.isSome (identityOf_act a id).symm
    · have hleft := Backlog.left_advance (p := Action.touches id) ha fun htouch =>
        hin a ha id (of_decide_eq_true htouch)
      rw [hlast, ← h.endpoint, hleft, List.foldl_append]
      show List.foldl _ ((c.act a).registry.endpoints.lookup id) _ = _
      rw [lookup_endpoints_act]
      cases htouch : a.touches id <;> simp [htouch]

theorem Settling.next (h : Settling simpleFold past c) {i : CoordStep}
    (hin : UpdatesInOrder c i) :
    Settling simpleFold (past ++ [(c, i)]) (c.next simpleFold i) := by
  have hother (hgiven : ∀ id last, givenStep simpleFold id last (c, i) = last) {c' : Coordinator}
      (hr : c'.registry = c.registry) (hc : c'.calls = c.calls) :
      Settling simpleFold (past ++ [(c, i)]) c' := by
    refine ⟨hr ▸ h.keyed, fun id => ?_, fun id => ?_⟩
    · rw [lastGiven_snoc, hgiven, hr, h.stored]
    · rw [lastGiven_snoc, hgiven, hr, hc, h.endpoint]
  cases i with
  | commit op => exact h.commit op
  | perform k => exact h.perform hin
  | subscribe networkID peerID => exact hother (fun _ _ => rfl) rfl rfl
  | list w => exact hother (fun _ _ => rfl) rfl rfl
  | fill w => exact hother (fun _ _ => rfl) rfl rfl
  | deliver w => exact hother (fun _ _ => rfl) rfl rfl
  | signal w sig => exact hother (fun _ _ => rfl) rfl rfl
  | close w => exact hother (fun _ _ => rfl) rfl rfl

/-- No call is between its transaction and its last update of the endpoints. -/
def EndpointsIdle (c : Coordinator) : Prop := c.calls.left (fun a => a.updated.isSome) = []

/-- When the updates of each peer are made in the order of the transactions, the endpoints in
memory are those of the stored peers whenever no update is left, each as it was given last. -/
theorem endpoints_eq_lastGiven {steps : List CoordStep}
    (h : Along (next simpleFold) UpdatesInOrder Coordinator.new steps)
    (hidle : (run (next simpleFold) Coordinator.new steps).EndpointsIdle) (id : String) :
    ((run (next simpleFold) Coordinator.new steps).registry.endpoints.lookup id).isSome =
        ((run (next simpleFold) Coordinator.new steps).registry.peers.lookup id).isSome ∧
      (run (next simpleFold) Coordinator.new steps).registry.endpoints.lookup id =
        lastGiven simpleFold id (trail (next simpleFold) Coordinator.new steps) := by
  have hinv := Along.invariant (Settling simpleFold) h .new fun past c i hc hi => hc.next hi
  have hnone : Backlog.left (Action.touches id)
      (run (next simpleFold) Coordinator.new steps).calls = [] := by
    rw [← Backlog.left_filter (p := fun a : Action => a.updated.isSome), hidle]
    · rfl
    · intro a ha
      rw [of_decide_eq_true ha]
      rfl
  have heq := hinv.endpoint id
  rw [hnone, List.foldl_nil] at heq
  refine ⟨?_, heq⟩
  rw [heq, hinv.stored, Registry.isSome_identityOf]

end Coordinator

namespace Coordinator

instance (c : Coordinator) : Decidable c.EndpointsIdle :=
  inferInstanceAs (Decidable (c.calls.left _ = []))

/-- A registration and a removal of one peer commit in this order, but the removal drops the
endpoint before the registration sets it. Both calls are over, the peer is gone and its endpoint
stays. -/
theorem endpoint_of_removed_peer :
    let c := Sample.coordinator [.commit Sample.create,
      .commit (Sample.registerAt "a" "192.0.2.1:51820"), .commit (.removePeer second "a"),
      .perform 2, .perform 1]
    c.EndpointsIdle ∧ c.registry.peers.lookup "a" = none ∧
      c.registry.endpoints.lookup "a" = some "192.0.2.1:51820" := by
  decide +kernel

/-- A peer registers and moves to another endpoint, and the updates are made in this order. -/
theorem endpoints_eq_lastGiven_moved :
    let steps := [CoordStep.commit Sample.create,
      .commit (Sample.registerAt "a" "192.0.2.1:51820"),
      .commit (.updateEndpoint second "a" "192.0.2.7:51820"), .perform 1, .perform 2]
    (Sample.coordinator steps).registry.endpoints.lookup "a" =
        lastGiven id "a" (trail (next id) Coordinator.new steps) ∧
      (Sample.coordinator steps).registry.endpoints.lookup "a" = some "192.0.2.7:51820" := by
  intro steps
  refine ⟨(endpoints_eq_lastGiven ?_ ?_ "a").2, by decide +kernel⟩
  · decide +kernel
  · decide +kernel

end Coordinator

end Veld.Coord
