import Mathlib.Data.List.Basic

/-!
# Splitting at a separator

`strings.Split` and `strings.Contains` for a separator of one character: the parts of
a list hold no separator, and a list with one separator falls into its two sides.
-/

namespace Veld

variable {α : Type} [BEq α] [LawfulBEq α] {a : α} {l x y : List α}

omit [BEq α] [LawfulBEq α] in
theorem not_mem_append_cons_iff {b : α} (hab : a ≠ b) :
    a ∉ x ++ b :: y ↔ a ∉ x ∧ a ∉ y := by
  rw [List.mem_append, List.mem_cons, not_or, not_or]
  exact ⟨fun h => ⟨h.1, h.2.2⟩, fun h => ⟨h.1, hab, h.2⟩⟩

/-- The first separator is in one place. -/
theorem append_cons_inj_of_not_mem {l' : List α} (hx : a ∉ x) (hy : a ∉ y)
    (h : x ++ a :: l = y ++ a :: l') : x = y ∧ l = l' := by
  have hsplit := congrArg (List.splitOn a) h
  rw [List.splitOn_append_cons_self_of_not_mem hx,
    List.splitOn_append_cons_self_of_not_mem hy] at hsplit
  obtain ⟨rfl, -⟩ := List.cons.inj hsplit
  exact ⟨rfl, (List.cons.inj (List.append_cancel_left h)).2⟩

theorem splitOn_eq_singleton_iff : l.splitOn a = [x] ↔ l = x ∧ a ∉ x := by
  constructor
  · intro h
    by_cases ha : a ∈ l
    · obtain ⟨before, after, rfl, hbefore⟩ := List.eq_append_cons_of_mem ha
      rw [List.splitOn_append_cons_self_of_not_mem hbefore] at h
      exact absurd (List.cons.inj h).2 (List.splitOn_ne_nil a after)
    · rw [List.splitOn_eq_singleton ha] at h
      obtain rfl := (List.cons.inj h).1
      exact ⟨rfl, ha⟩
  · rintro ⟨rfl, ha⟩
    exact List.splitOn_eq_singleton ha

theorem splitOn_eq_pair_iff : l.splitOn a = [x, y] ↔ l = x ++ a :: y ∧ a ∉ x ∧ a ∉ y := by
  constructor
  · intro h
    by_cases ha : a ∈ l
    · obtain ⟨before, after, rfl, hbefore⟩ := List.eq_append_cons_of_mem ha
      rw [List.splitOn_append_cons_self_of_not_mem hbefore] at h
      obtain ⟨rfl, hafter⟩ := List.cons.inj h
      obtain ⟨rfl, hy⟩ := splitOn_eq_singleton_iff.mp hafter
      exact ⟨rfl, hbefore, hy⟩
    · rw [List.splitOn_eq_singleton ha] at h
      cases h
  · rintro ⟨rfl, hx, hy⟩
    rw [List.splitOn_append_cons_self_of_not_mem hx, List.splitOn_eq_singleton hy]

/-- A list is determined by its parts. -/
theorem splitOn_inj : l.splitOn a = x.splitOn a ↔ l = x := by
  constructor
  · intro h
    calc
      l = [a].intercalate (l.splitOn a) := (List.intercalate_splitOn a).symm
      _ = [a].intercalate (x.splitOn a) := by rw [h]
      _ = x := List.intercalate_splitOn a
  · rintro rfl
    rfl

/-- A change of elements that leaves the separators where they are is made part by part. -/
theorem splitOn_map {f : α → α} (hf : ∀ b, f b = a ↔ b = a) (l : List α) :
    (l.map f).splitOn a = (l.splitOn a).map (List.map f) := by
  induction l with
  | nil => rfl
  | cons b l ih =>
    rw [List.map_cons, List.splitOn_cons_eq_if_modifyHead, List.splitOn_cons_eq_if_modifyHead, ih]
    by_cases hb : b = a
    · have hfb : f b = a := (hf b).mpr hb
      rw [if_pos (beq_iff_eq.mpr hfb), if_pos (beq_iff_eq.mpr hb)]
      rfl
    · have hfb : f b ≠ a := fun h => hb ((hf b).mp h)
      rw [if_neg (fun h => hfb (beq_iff_eq.mp h)), if_neg (fun h => hb (beq_iff_eq.mp h))]
      cases l.splitOn a with
      | nil => rfl
      | cons part parts => rfl

end Veld
