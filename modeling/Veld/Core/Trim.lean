import Mathlib.Data.List.DropRight

/-!
# Trimming

`strings.Trim` and `strings.TrimRight` for one character. What is left begins and ends
with another character, and a text that does is left alone.
-/

namespace Veld

variable {α : Type} [DecidableEq α] {c : α} {s t : List α}

/-- `strings.TrimRight`. -/
def trimRight (c : α) (s : List α) : List α := s.rdropWhile (· = c)

/-- `strings.Trim`. -/
def trim (c : α) (s : List α) : List α := trimRight c (s.dropWhile (· = c))

theorem trimRight_isPrefix (c : α) (s : List α) : trimRight c s <+: s := s.rdropWhile_prefix _

theorem mem_of_mem_trim {x : α} (h : x ∈ trim c s) : x ∈ s :=
  (List.dropWhile_suffix _).subset ((trimRight_isPrefix c _).subset h)

theorem getLast?_trimRight_ne : (trimRight c s).getLast? ≠ some c := by
  intro h
  have hne : trimRight c s ≠ [] := by
    intro he
    rw [he] at h
    cases h
  rw [List.getLast?_eq_getLast_of_ne_nil hne, Option.some.injEq] at h
  exact List.rdropWhile_last_not _ _ hne (decide_eq_true h)

theorem trimRight_ne_nil (h : ∃ x ∈ s, x ≠ c) : trimRight c s ≠ [] := by
  obtain ⟨x, hx, hne⟩ := h
  rw [trimRight, Ne, List.rdropWhile_eq_nil_iff]
  intro hall
  exact hne (of_decide_eq_true (hall x hx))

omit [DecidableEq α] in
/-- A prefix begins as the whole list does. -/
theorem head?_of_isPrefix (h : t <+: s) (hne : t ≠ []) : t.head? = s.head? := by
  obtain ⟨rest, rfl⟩ := h
  rw [List.head?_append_of_ne_nil _ hne]

theorem head?_trim_ne : (trim c s).head? ≠ some c := by
  intro h
  have hne : trim c s ≠ [] := by
    intro he
    rw [he] at h
    cases h
  rw [trim] at h hne
  rw [head?_of_isPrefix (trimRight_isPrefix c _) hne] at h
  have hnot := List.head?_dropWhile_not (fun x => decide (x = c)) s
  rw [h] at hnot
  simp at hnot

theorem trimRight_eq_self (h : s.getLast? ≠ some c) : trimRight c s = s := by
  refine List.rdropWhile_eq_self_iff.mpr fun hne hlast => h ?_
  rw [List.getLast?_eq_getLast_of_ne_nil hne, of_decide_eq_true hlast]

theorem trim_eq_self (hhead : s.head? ≠ some c) (hlast : s.getLast? ≠ some c) : trim c s = s := by
  have hdrop : s.dropWhile (· = c) = s := by
    cases s with
    | nil => rfl
    | cons x s =>
      rw [List.dropWhile_cons, if_neg]
      rintro hx
      exact hhead (by rw [of_decide_eq_true hx]; rfl)
  rw [trim, hdrop, trimRight_eq_self hlast]

end Veld
