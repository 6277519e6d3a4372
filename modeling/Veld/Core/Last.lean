import Mathlib.Data.List.Basic
import Mathlib.Data.List.Pairwise

/-!
# The last elements of a list

`lastN n l` are the last elements of a list, at most `n`. Along a list in which a
predicate stays true once it is true, cutting and filtering commute.
-/

namespace Veld

variable {α : Type} {n : Nat} {l l' : List α} {p : α → Bool}

/-- The last `n` elements, or all if there are fewer. -/
def lastN (n : Nat) (l : List α) : List α := l.drop (l.length - n)

theorem length_lastN_le : (lastN n l).length ≤ n := by
  rw [lastN, List.length_drop]
  omega

theorem lastN_sublist : (lastN n l).Sublist l := List.drop_sublist _ _

/-- Only the last elements matter for the last elements of a longer list. -/
theorem lastN_append : lastN n (lastN n l ++ l') = lastN n (l ++ l') := by
  simp only [lastN, List.length_append, List.length_drop, List.drop_append, List.drop_drop]
  congr 2 <;> omega

theorem lastN_append_singleton_ne_nil {a : α} (h : 0 < n) : lastN n (l ++ [a]) ≠ [] := by
  rw [lastN, ne_eq, List.drop_eq_nil_iff, List.length_append, List.length_singleton]
  omega

theorem mem_lastN_append_singleton {a : α} (h : 0 < n) : a ∈ lastN n (l ++ [a]) := by
  rw [lastN, List.length_append, List.length_singleton, List.drop_append]
  refine List.mem_append_right _ ?_
  rw [Nat.sub_eq_zero_of_le (by omega), List.drop_zero]
  exact List.mem_singleton_self a

/-- A list splits where a predicate becomes true that stays true. -/
theorem filter_eq_drop (h : l.Pairwise fun a b => p a = true → p b = true) :
    ∃ i, i ≤ l.length ∧ l.filter p = l.drop i ∧ ∀ a ∈ l.take i, p a = false := by
  induction l with
  | nil => exact ⟨0, Nat.le_refl _, rfl, nofun⟩
  | cons a l ih =>
    obtain ⟨hhead, htail⟩ := List.pairwise_cons.mp h
    cases ha : p a with
    | true =>
      refine ⟨0, Nat.zero_le _, ?_, nofun⟩
      rw [List.drop_zero, List.filter_eq_self]
      intro b hb
      rcases List.mem_cons.mp hb with rfl | hb
      · exact ha
      · exact hhead b hb ha
    | false =>
      obtain ⟨i, hi, hfilter, hnone⟩ := ih htail
      refine ⟨i + 1, Nat.succ_le_succ hi, ?_, ?_⟩
      · rw [List.filter_cons_of_neg (by simp [ha]), hfilter, List.drop_succ_cons]
      · intro b hb
        rw [List.take_succ_cons] at hb
        rcases List.mem_cons.mp hb with rfl | hb
        · exact ha
        · exact hnone b hb

theorem filter_lastN (h : l.Pairwise fun a b => p a = true → p b = true) :
    (lastN n l).filter p = lastN n (l.filter p) := by
  obtain ⟨i, hi, hfilter, hnone⟩ := filter_eq_drop h
  rw [hfilter, lastN, lastN, List.length_drop, List.drop_drop]
  by_cases hle : i ≤ l.length - n
  · -- The last elements all satisfy the predicate.
    rw [List.filter_eq_self.mpr, show i + (l.length - i - n) = l.length - n by omega]
    intro a ha
    rw [show l.length - n = i + (l.length - n - i) by omega, ← List.drop_drop, ← hfilter] at ha
    have hmem := List.mem_of_mem_drop ha
    exact (List.mem_filter.mp hmem).2
  · have hsplit : l.drop (l.length - n) = (l.take i).drop (l.length - n) ++ l.drop i := by
      rw [List.drop_take]
      conv_lhs => rw [← List.take_append_drop (i - (l.length - n)) (l.drop (l.length - n))]
      rw [List.drop_drop, show l.length - n + (i - (l.length - n)) = i by omega]
    have hfront : ((l.take i).drop (l.length - n)).filter p = [] := by
      refine List.filter_eq_nil_iff.mpr fun a ha => ?_
      simp [hnone a (List.mem_of_mem_drop ha)]
    rw [hsplit, List.filter_append, hfront, List.nil_append, ← hfilter, List.filter_filter,
      show i + (l.length - i - n) = i by omega, ← hfilter]
    simp

end Veld
