import Mathlib.Tactic.SplitIfs

/-!
# Comparing strings without regard to case

`strings.EqualFold`, with `unicode.SimpleFold` as a parameter. Strings that differ
in the case of ASCII letters only are equal to it, whatever the table of Unicode
says about other letters.
-/

namespace Veld

/-- The walk of `strings.EqualFold` through the letters equivalent to `lo`. -/
def foldWalk (simpleFold : Char → Char) (lo hi : Char) : Nat → Char → Char
  | 0, r => r
  | fuel + 1, r => if r ≠ lo ∧ r < hi then foldWalk simpleFold lo hi fuel (simpleFold r) else r

/-- The comparison of two letters in `strings.EqualFold`; `simpleFold` is `unicode.SimpleFold`. -/
def equalFoldChar (simpleFold : Char → Char) (s t : Char) : Bool :=
  let lo := if t < s then t else s
  let hi := if t < s then s else t
  if s = t then true
  else if hi.toNat < 0x80 then 'A' ≤ lo && lo ≤ 'Z' && hi.toNat = lo.toNat + 32
  else foldWalk simpleFold lo hi 0x110000 (simpleFold lo) = hi

/-- `strings.EqualFold`. -/
def equalFold (simpleFold : Char → Char) : List Char → List Char → Bool
  | [], [] => true
  | s :: ss, t :: ts => equalFoldChar simpleFold s t && equalFold simpleFold ss ts
  | _, _ => false

/-- Two names are equal when the case of ASCII letters is ignored. -/
def SameName (s t : String) : Prop := s.toList.map Char.toLower = t.toList.map Char.toLower

instance (s t : String) : Decidable (SameName s t) := inferInstanceAs (Decidable (_ = _))

private theorem isUpper_iff (c : Char) :
    (c.val ≥ 'A'.val ∧ c.val ≤ 'Z'.val) ↔ 65 ≤ c.toNat ∧ c.toNat ≤ 90 := by
  rw [ge_iff_le, UInt32.le_iff_toNat_le, UInt32.le_iff_toNat_le]
  exact Iff.rfl

private theorem toNat_toLower (c : Char) :
    c.toLower.toNat = if 65 ≤ c.toNat ∧ c.toNat ≤ 90 then c.toNat + 32 else c.toNat := by
  unfold Char.toLower
  by_cases h : c.val ≥ 'A'.val ∧ c.val ≤ 'Z'.val
  · have h' := (isUpper_iff c).mp h
    rw [dif_pos h, if_pos h']
    have hval : (c.val + ('a'.val - 'A'.val)).toNat = c.val.toNat + 32 := by
      rw [UInt32.toNat_add]
      exact Nat.mod_eq_of_lt (by change c.toNat + 32 < _; omega)
    exact hval
  · rw [dif_neg h, if_neg (mt (isUpper_iff c).mpr h)]

/-- Letters that differ in case only are equal to `strings.EqualFold`. -/
theorem equalFoldChar_of_toLower (simpleFold : Char → Char) {s t : Char}
    (h : s.toLower = t.toLower) : equalFoldChar simpleFold s t = true := by
  by_cases hst : s = t
  · simp [equalFoldChar, hst]
  · have hne : s.toNat ≠ t.toNat := fun he => hst (Char.toNat_inj.mp he)
    have hlow := congrArg Char.toNat h
    rw [toNat_toLower, toNat_toLower] at hlow
    have hlt (c d : Char) : c < d ↔ c.toNat < d.toNat := by
      rw [Char.lt_def, UInt32.lt_iff_toNat_lt]
      exact Iff.rfl
    have hle (c d : Char) : c ≤ d ↔ c.toNat ≤ d.toNat := by
      rw [Char.le_def, UInt32.le_iff_toNat_le]
      exact Iff.rfl
    have hA : 'A'.toNat = 65 := rfl
    have hZ : 'Z'.toNat = 90 := rfl
    by_cases hts : t < s
    · have hgt := (hlt t s).mp hts
      have hup : (65 ≤ t.toNat ∧ t.toNat ≤ 90) ∧ s.toNat = t.toNat + 32 := by
        split_ifs at hlow <;> omega
      simp only [equalFoldChar, hst, hts, ite_true, ite_false, hle, hA, hZ, hup, decide_true,
        Bool.and_self]
      rw [if_pos (by omega)]
    · have hgt := mt (hlt t s).mpr hts
      have hup : (65 ≤ s.toNat ∧ s.toNat ≤ 90) ∧ t.toNat = s.toNat + 32 := by
        split_ifs at hlow <;> omega
      simp only [equalFoldChar, hst, hts, ite_false, hle, hA, hZ, hup, decide_true, Bool.and_self]
      rw [if_pos (by omega)]

theorem equalFold_of_map_toLower (simpleFold : Char → Char) {s t : List Char}
    (h : s.map Char.toLower = t.map Char.toLower) : equalFold simpleFold s t = true := by
  induction s generalizing t with
  | nil =>
    obtain rfl : t = [] := List.map_eq_nil_iff.mp h.symm
    rfl
  | cons c s ih =>
    cases t with
    | nil => cases h
    | cons d t =>
      obtain ⟨hc, ht⟩ := List.cons.inj h
      rw [equalFold, equalFoldChar_of_toLower simpleFold hc, ih ht, Bool.and_self]

end Veld
