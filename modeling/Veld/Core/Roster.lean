import Mathlib.Data.List.Induction
import Mathlib.Logic.Function.Basic

/-!
# Replicas of a roster with exclusive slots

A roster gives some keys a value, and every value occupies a slot. A replica takes
changes one at a time and refuses a value whose slot another key occupies. The
original only makes fair changes, which it does not refuse itself. A replica may
start with anything the original has at some time from an older state on. When it
takes the members of the current state in any order and then all changes made
since the older state, it ends at the current state, whatever it refuses on the
way.
-/

namespace Veld

/-- Some keys have a value. -/
abbrev Roster (κ β : Type) := κ → Option β

/-- A key gets a value, or it is dropped. -/
inductive Change (κ β : Type)
  | join (k : κ) (v : β)
  | leave (k : κ)
  deriving DecidableEq

namespace Roster

variable {κ β α : Type} [DecidableEq κ] (slot : β → α)

/-- Another key occupies the slot of a value. -/
def Occupied (t : Roster κ β) (k : κ) (v : β) : Prop :=
  ∃ k' v', k' ≠ k ∧ t k' = some v' ∧ slot v' = slot v

open Classical in
/-- A replica takes a change unless the slot is occupied. -/
noncomputable def apply (t : Roster κ β) : Change κ β → Roster κ β
  | .join k v => if Occupied slot t k v then t else Function.update t k (some v)
  | .leave k => Function.update t k none

/-- A replica takes some changes, one after another. -/
noncomputable def replay (t : Roster κ β) (l : List (Change κ β)) : Roster κ β :=
  l.foldl (apply slot) t

/-- A change the original may make: a member keeps its value while it is there, and no two share a
slot. -/
def Fair (t : Roster κ β) : Change κ β → Prop
  | .join k v => (∀ v' ∈ t k, v' = v) ∧ ¬Occupied slot t k v
  | .leave _ => True

/-- All changes are fair when they are made. -/
def Lawful (t : Roster κ β) : List (Change κ β) → Prop
  | [] => True
  | c :: l => Fair slot t c ∧ Lawful (apply slot t c) l

/-- No two keys have values with one slot. -/
def Exclusive (t : Roster κ β) : Prop :=
  ∀ k k' v v', t k = some v → t k' = some v' → slot v = slot v' → k = k'

/-- A key has a value at some time while changes are made. -/
def Visits (t : Roster κ β) : List (Change κ β) → κ → β → Prop
  | [], k, v => t k = some v
  | c :: l, k, v => t k = some v ∨ Visits (apply slot t c) l k v

/-- A key has a value all the time while changes are made. -/
def Stays (t : Roster κ β) : List (Change κ β) → κ → β → Prop
  | [], k, v => t k = some v
  | c :: l, k, v => t k = some v ∧ Stays (apply slot t c) l k v

variable {slot} {t b r : Roster κ β} {k k' : κ} {v v' : β} {c : Change κ β}
  {l l' : List (Change κ β)}

@[simp] theorem replay_nil : replay slot t [] = t := rfl

@[simp] theorem replay_cons : replay slot t (c :: l) = replay slot (apply slot t c) l := rfl

theorem replay_append : replay slot t (l ++ l') = replay slot (replay slot t l) l' :=
  List.foldl_append

theorem lawful_append :
    Lawful slot t (l ++ l') ↔ Lawful slot t l ∧ Lawful slot (replay slot t l) l' := by
  induction l generalizing t with
  | nil => simp [Lawful]
  | cons c l ih => simp [Lawful, ih, replay_cons, and_assoc]

theorem apply_join_of_not (h : ¬Occupied slot t k v) :
    apply slot t (.join k v) = Function.update t k (some v) := by
  rw [apply, if_neg h]

/-- Other keys are not affected by a change. -/
theorem apply_join_of_ne (hk : k' ≠ k) : apply slot t (.join k v) k' = t k' := by
  rw [apply]
  split
  · rfl
  · exact Function.update_of_ne hk _ _

theorem apply_leave_of_ne (hk : k' ≠ k) : apply slot t (.leave k) k' = t k' :=
  Function.update_of_ne hk _ _

/-- A refused key keeps what it had. -/
theorem apply_join_self (slot : β → α) (t : Roster κ β) (k : κ) (v : β) :
    apply slot t (.join k v) k = some v ∨
      apply slot t (.join k v) k = t k ∧ Occupied slot t k v := by
  by_cases h : Occupied slot t k v
  · refine .inr ⟨?_, h⟩
    rw [apply, if_pos h]
  · refine .inl ?_
    rw [apply_join_of_not h, Function.update_self]

theorem Exclusive.apply (h : Exclusive slot t) (hc : Fair slot t c) :
    Exclusive slot (apply slot t c) := by
  cases c with
  | leave k =>
    intro k₁ k₂ v₁ v₂ h₁ h₂
    have hne {k' : κ} {v' : β} (h' : Roster.apply slot t (.leave k) k' = some v') : k' ≠ k := by
      rintro rfl
      rw [Roster.apply, Function.update_self] at h'
      cases h'
    rw [apply_leave_of_ne (hne h₁)] at h₁
    rw [apply_leave_of_ne (hne h₂)] at h₂
    exact h k₁ k₂ v₁ v₂ h₁ h₂
  | join k v =>
    intro k₁ k₂ v₁ v₂ h₁ h₂ hslot
    rw [apply_join_of_not hc.2] at h₁ h₂
    by_cases hk₁ : k₁ = k <;> by_cases hk₂ : k₂ = k
    · rw [hk₁, hk₂]
    · rw [hk₁, Function.update_self] at h₁
      rw [Function.update_of_ne hk₂] at h₂
      obtain rfl := Option.some.inj h₁
      exact absurd ⟨k₂, v₂, hk₂, h₂, hslot.symm⟩ hc.2
    · rw [hk₂, Function.update_self] at h₂
      rw [Function.update_of_ne hk₁] at h₁
      obtain rfl := Option.some.inj h₂
      exact absurd ⟨k₁, v₁, hk₁, h₁, hslot⟩ hc.2
    · rw [Function.update_of_ne hk₁] at h₁
      rw [Function.update_of_ne hk₂] at h₂
      exact h k₁ k₂ v₁ v₂ h₁ h₂ hslot

theorem Exclusive.replay (h : Exclusive slot t) (hl : Lawful slot t l) :
    Exclusive slot (replay slot t l) := by
  induction l generalizing t with
  | nil => exact h
  | cons c l ih => exact ih (h.apply hl.1) hl.2

theorem visits_of_eq (h : t k = some v) : Visits slot t l k v := by
  cases l with
  | nil => exact h
  | cons c l => exact .inl h

theorem Visits.append (h : Visits slot t l k v) : Visits slot t (l ++ l') k v := by
  induction l generalizing t with
  | nil => exact visits_of_eq h
  | cons c l ih => exact h.imp_right ih

theorem visits_of_replay (h : replay slot t l k = some v) : Visits slot t l k v := by
  induction l generalizing t with
  | nil => exact h
  | cons c l ih => exact .inr (ih h)

theorem Stays.start (h : Stays slot t l k v) : t k = some v := by
  cases l with
  | nil => exact h
  | cons c l => exact h.1

theorem Stays.replay (h : Stays slot t l k v) : replay slot t l k = some v := by
  induction l generalizing t with
  | nil => exact h
  | cons c l ih => exact ih h.2

theorem Stays.eq_value (h : Stays slot t l k v) (hv : Visits slot t l k v') : v' = v := by
  induction l generalizing t with
  | nil => exact Option.mem_unique hv h
  | cons c l ih =>
    rcases hv with hv | hv
    · exact Option.mem_unique hv h.1
    · exact ih h.2 hv

/-- Nobody shares a slot with a key that stays. -/
theorem Stays.eq_of_visits (h : Stays slot t l k v) (ht : Exclusive slot t)
    (hl : Lawful slot t l) (hv : Visits slot t l k' v') (hslot : slot v = slot v') : k = k' := by
  induction l generalizing t with
  | nil => exact ht k k' v v' h hv hslot
  | cons c l ih =>
    rcases hv with hv | hv
    · exact ht k k' v v' h.1 hv hslot
    · exact ih h.2 (ht.apply hl.1) hl.2 hv

/-- A replica that will agree with a roster `b` once both have made some changes: what it has is
had at some time, and it has what stays. -/
structure CatchesUp (slot : β → α) (t b : Roster κ β) (l : List (Change κ β)) : Prop where
  sound : ∀ k v, t k = some v → Visits slot b l k v
  complete : ∀ k v, Stays slot b l k v → t k = some v

/-- A value that outlives a change of its key was had after the change. -/
theorem visits_apply (hv : Visits slot b (c :: l) k v)
    (hkeep : b k = some v → apply slot b c k = some v) : Visits slot (apply slot b c) l k v :=
  hv.elim (fun h => visits_of_eq (hkeep h)) id

theorem CatchesUp.leave (h : CatchesUp slot t b (.leave k :: l)) :
    CatchesUp slot (Roster.apply slot t (.leave k)) (Roster.apply slot b (.leave k)) l := by
  constructor
  · intro k' v hk'
    by_cases hk : k' = k
    · rw [hk, Roster.apply, Function.update_self] at hk'
      cases hk'
    · rw [apply_leave_of_ne hk] at hk'
      refine visits_apply (h.sound k' v hk') fun hb => ?_
      rw [apply_leave_of_ne hk, hb]
  · intro k' v hstays
    have hk : k' ≠ k := by
      rintro rfl
      have hstart := hstays.start
      rw [Roster.apply, Function.update_self] at hstart
      cases hstart
    rw [apply_leave_of_ne hk]
    refine h.complete k' v ⟨?_, hstays⟩
    rw [← hstays.start, apply_leave_of_ne hk]

theorem CatchesUp.join (h : CatchesUp slot t b (.join k v :: l)) (hb : Exclusive slot b)
    (hl : Lawful slot b (.join k v :: l)) :
    CatchesUp slot (Roster.apply slot t (.join k v)) (Roster.apply slot b (.join k v)) l := by
  obtain ⟨⟨hkeep, hfree⟩, hrest⟩ := hl
  have hnew : Roster.apply slot b (.join k v) k = some v := by
    rw [apply_join_of_not hfree, Function.update_self]
  have hafter : Exclusive slot (Roster.apply slot b (.join k v)) := hb.apply ⟨hkeep, hfree⟩
  constructor
  · intro k' v' hk'
    by_cases hk : k' = k
    · subst hk
      rcases apply_join_self slot t k' v with hin | ⟨hin, -⟩
      · obtain rfl := Option.mem_unique hin hk'
        exact visits_of_eq hnew
      · rw [hin] at hk'
        refine visits_apply (h.sound k' v' hk') fun hold => ?_
        rw [hkeep v' hold, hnew]
    · rw [apply_join_of_ne hk] at hk'
      refine visits_apply (h.sound k' v' hk') fun hold => ?_
      rw [apply_join_of_ne hk, hold]
  · intro k' v' hstays
    by_cases hk : k' = k
    · subst hk
      obtain rfl := Option.mem_unique hnew hstays.start
      -- whoever is in its way was there before, where the change is fair, or comes later, where
      -- the key stays
      have hfree' : ¬Occupied slot t k' v := by
        rintro ⟨k₁, v₁, hne, hk₁, hslot⟩
        rcases h.sound k₁ v₁ hk₁ with hold | hlater
        · exact hfree ⟨k₁, v₁, hne, hold, hslot⟩
        · exact hne (hstays.eq_of_visits hafter hrest hlater hslot.symm).symm
      rw [apply_join_of_not hfree', Function.update_self]
    · rw [apply_join_of_ne hk]
      refine h.complete k' v' ⟨?_, hstays⟩
      rw [← hstays.start, apply_join_of_ne hk]

/-- A replica that catches up ends where the roster ends. -/
theorem CatchesUp.replay_eq (h : CatchesUp slot t b l) (hb : Exclusive slot b)
    (hl : Lawful slot b l) : replay slot t l = replay slot b l := by
  induction l generalizing t b with
  | nil =>
    funext k
    show t k = b k
    cases hk : b k with
    | some v => exact h.complete k v hk
    | none =>
      cases ht : t k with
      | none => rfl
      | some v =>
        have hvisits : b k = some v := h.sound k v ht
        rw [hk] at hvisits
        cases hvisits
  | cons c l ih =>
    have hnext : CatchesUp slot (apply slot t c) (apply slot b c) l := by
      cases c with
      | leave k => exact h.leave
      | join k v => exact h.join hb hl
    exact ih hnext (hb.apply hl.1) hl.2

/-- A replica that only has what is had at some time catches up when it is given the members of the
final state, in any order. -/
theorem catchesUp_replay_members {members : List (κ × β)} (hb : Exclusive slot b)
    (hl : Lawful slot b l) (hsound : ∀ k v, t k = some v → Visits slot b l k v)
    (hmem : ∀ k v, (k, v) ∈ members ↔ replay slot b l k = some v) :
    CatchesUp slot (replay slot t (members.map fun m => .join m.1 m.2)) b l := by
  -- after a part of the members: nothing foreign came in, and whoever stays and is in the part
  -- was let in
  suffices hpart : ∀ (part : List (κ × β)), (∀ m ∈ part, Visits slot b l m.1 m.2) →
      ∀ t : Roster κ β, (∀ k v, t k = some v → Visits slot b l k v) →
      (∀ k v, replay slot t (part.map fun m => .join m.1 m.2) k = some v →
        Visits slot b l k v) ∧
      ∀ k v, Stays slot b l k v → (k, v) ∈ part ∨ t k = some v →
        replay slot t (part.map fun m => .join m.1 m.2) k = some v by
    obtain ⟨hsound, hcomplete⟩ :=
      hpart members (fun m hm => visits_of_replay ((hmem m.1 m.2).mp hm)) t hsound
    exact ⟨hsound, fun k v hk => hcomplete k v hk (.inl ((hmem k v).mpr hk.replay))⟩
  intro part
  induction part with
  | nil =>
    intro _ t ht
    exact ⟨ht, fun k v _ h => h.resolve_left List.not_mem_nil⟩
  | cons m part ih =>
    intro hm t ht
    have hsound : ∀ k v, apply slot t (.join m.1 m.2) k = some v → Visits slot b l k v := by
      intro k v hk
      by_cases hkm : k = m.1
      · subst hkm
        rcases apply_join_self slot t m.1 m.2 with hin | ⟨hin, -⟩
        · obtain rfl := Option.mem_unique hin hk
          exact hm m List.mem_cons_self
        · exact ht _ v (hin ▸ hk)
      · rw [apply_join_of_ne hkm] at hk
        exact ht k v hk
    obtain ⟨hsound', hcomplete⟩ := ih (fun m' hm' => hm m' (List.mem_cons_of_mem _ hm')) _ hsound
    refine ⟨hsound', fun k v hstays hin => hcomplete k v hstays ?_⟩
    have hfree : ¬Occupied slot t k v := by
      rintro ⟨k', v', hne, hk', hslot⟩
      exact hne (hstays.eq_of_visits hb hl (ht k' v' hk') hslot.symm).symm
    rcases hin with hin | hin
    · rcases List.mem_cons.mp hin with rfl | hin
      · refine .inr ?_
        rw [apply_join_of_not hfree, Function.update_self]
      · exact .inl hin
    · refine .inr ?_
      by_cases hkm : k = m.1
      · subst hkm
        rcases apply_join_self slot t m.1 m.2 with hnew | ⟨hold, -⟩
        · have hv := hstays.eq_value (hm m List.mem_cons_self)
          rw [hnew, hv]
        · rw [hold, hin]
      · rw [apply_join_of_ne hkm, hin]

/-- A replica is behind by some changes: it only has what the original has at some time from an
older state on, and the changes lead from there to the current state. -/
def Behind (slot : β → α) (t : Roster κ β) (l : List (Change κ β)) (r : Roster κ β) : Prop :=
  ∃ b, Exclusive slot b ∧ Lawful slot b l ∧ replay slot b l = r ∧
    ∀ k v, t k = some v → Visits slot b l k v

theorem behind_nil (hr : Exclusive slot r) : Behind slot (fun _ => none) [] r :=
  ⟨r, hr, trivial, rfl, nofun⟩

/-- The original makes more changes. -/
theorem Behind.append (h : Behind slot t l r) (hl' : Lawful slot r l') :
    Behind slot t (l ++ l') (replay slot r l') := by
  obtain ⟨b, hb, hl, rfl, hsound⟩ := h
  exact ⟨b, hb, lawful_append.mpr ⟨hl, hl'⟩, replay_append, fun k v hk => (hsound k v hk).append⟩

/-- A replica without members may leave out the first changes. -/
theorem Behind.of_append (h : Behind slot (fun _ => none) (l ++ l') r) :
    Behind slot (fun _ => none) l' r := by
  obtain ⟨b, hb, hl, hr, -⟩ := h
  obtain ⟨hpast, hrest⟩ := lawful_append.mp hl
  exact ⟨replay slot b l, hb.replay hpast, hrest, replay_append.symm.trans hr, nofun⟩

/-- A replica may start with members of the current state. -/
theorem Behind.start (h : Behind slot (fun _ => none) l r)
    (ht : ∀ k v, t k = some v → r k = some v) : Behind slot t l r := by
  obtain ⟨b, hb, hl, rfl, -⟩ := h
  exact ⟨b, hb, hl, rfl, fun k v hk => visits_of_replay (ht k v hk)⟩

/-- Given the members of the current state and the changes, a replica that is behind gets there. -/
theorem Behind.replay_members (h : Behind slot t l r) {members : List (κ × β)}
    (hmem : ∀ k v, (k, v) ∈ members ↔ r k = some v) :
    replay slot t ((members.map fun m => .join m.1 m.2) ++ l) = r := by
  obtain ⟨b, hb, hl, rfl, hsound⟩ := h
  rw [replay_append]
  exact (catchesUp_replay_members hb hl hsound hmem).replay_eq hb hl

/-- Departures are always fair and drop their keys. -/
theorem lawful_leaves (ks : List κ) : Lawful slot t (ks.map .leave) := by
  induction ks generalizing t with
  | nil => trivial
  | cons k ks ih => exact ⟨trivial, ih⟩

theorem replay_leaves (ks : List κ) (k : κ) :
    replay slot t (ks.map .leave) k = if k ∈ ks then none else t k := by
  induction ks generalizing t with
  | nil => rfl
  | cons k' ks ih =>
    rw [List.map_cons, replay_cons, ih]
    by_cases hk : k = k'
    · subst hk
      simp [apply]
    · simp [hk, apply_leave_of_ne hk]

end Roster

end Veld
