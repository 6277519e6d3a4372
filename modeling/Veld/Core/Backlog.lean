import Mathlib.Data.List.Basic

/-!
# Tasks with actions left to take

Tasks run side by side, each with a list of actions it still has to take, one at
a time. The tasks are kept in the order in which they were started. Actions of
one kind that are always taken by the oldest task that has one left are taken in
the order in which they were planned, whatever the other actions do.
-/

namespace Veld

/-- The actions each task still has to take, the oldest task first. -/
abbrev Backlog (α : Type) := List (List α)

namespace Backlog

variable {α : Type}

/-- The next action of a task. -/
def next? (b : Backlog α) (k : Nat) : Option α := b[k]?.bind List.head?

/-- The backlog after a task took its next action. -/
def advance (b : Backlog α) (k : Nat) : Backlog α := b.modify k List.tail

/-- The actions of a kind that are left, in the order in which they were planned. -/
def left (p : α → Bool) (b : Backlog α) : List α := b.flatten.filter p

/-- No older task has an action of the kind left. -/
def IsOldest (p : α → Bool) (b : Backlog α) (k : Nat) : Prop :=
  ∀ l ∈ b.take k, ∀ x ∈ l, p x = false

instance (p : α → Bool) (b : Backlog α) (k : Nat) : Decidable (IsOldest p b k) :=
  inferInstanceAs (Decidable (∀ l ∈ b.take k, ∀ x ∈ l, p x = false))

variable {p q : α → Bool} {b : Backlog α} {k : Nat} {a : α}

theorem left_cons (l : List α) : left p (l :: b) = l.filter p ++ left p b := by
  simp [left]

theorem left_append (l : List α) : left p (b ++ [l]) = left p b ++ l.filter p := by
  simp [left]

/-- An action of another kind changes nothing, and one of the kind is the first one left when no
older task has one. -/
theorem left_advance (h : b.next? k = some a) (hp : p a = true → IsOldest p b k) :
    left p b = [a].filter p ++ left p (b.advance k) := by
  induction b generalizing k with
  | nil => cases h
  | cons l b ih =>
    cases k with
    | zero =>
      cases l with
      | nil => cases h
      | cons x rest =>
        obtain rfl : x = a := Option.some.inj h
        have hadv : advance ((x :: rest) :: b) 0 = rest :: b := rfl
        rw [hadv, left_cons, left_cons, ← List.append_assoc, ← List.filter_append]
        rfl
    | succ k =>
      have hadv : advance (l :: b) (k + 1) = l :: advance b k := rfl
      have hrest : p a = true → IsOldest p b k :=
        fun ha l' hl' => hp ha l' (List.mem_cons_of_mem l hl')
      rw [hadv, left_cons, left_cons, ih h hrest]
      cases ha : p a with
      | false => simp [ha]
      | true =>
        have hnone : l.filter p = [] := by
          refine List.filter_eq_nil_iff.mpr fun x hx => ?_
          rw [hp ha l List.mem_cons_self x hx]
          exact Bool.false_ne_true
        rw [hnone, List.nil_append, List.nil_append]

/-- What is left of a smaller kind. -/
theorem left_filter (hq : ∀ x, q x = true → p x = true) : (left p b).filter q = left q b := by
  rw [left, left, List.filter_filter]
  refine List.filter_congr fun x _ => ?_
  cases hx : q x with
  | false => rfl
  | true => simp [hq x hx]

end Backlog

end Veld
