import Veld.Core.Utf8

/-!
# Byte strings in lower case

`strings.ToLower` of a byte string, with the lower case of the runes beyond ASCII as a
parameter. A text of ASCII bytes is lowered byte by byte; a byte that belongs to no rune
becomes U+FFFD.
-/

namespace Veld

/-- The lower case of an ASCII letter; other bytes are unchanged. -/
def lowerByte (b : UInt8) : UInt8 := if 0x41 ≤ b ∧ b ≤ 0x5A then b + 0x20 else b

/-- `unicode.ToLower` on the encodings of runes. Nothing it returns is a capital of ASCII. -/
structure LowerCase where
  lowerRune : Bytes → Bytes
  lowered : ∀ rune, (lowerRune rune).map lowerByte = lowerRune rune

def toLowerLoop (u : LowerCase) : Nat → Bytes → Bytes
  | 0, _ => []
  | _ + 1, [] => []
  | fuel + 1, b :: rest =>
    match Utf8.runeTail b rest with
    | none => Utf8.replacement ++ toLowerLoop u fuel rest
    | some 0 => lowerByte b :: toLowerLoop u fuel rest
    | some n => u.lowerRune (b :: rest.take n) ++ toLowerLoop u fuel (rest.drop n)

/-- `strings.ToLower`. -/
def toLower (u : LowerCase) (s : Bytes) : Bytes := toLowerLoop u s.length s

theorem forall_uint8 {P : UInt8 → Prop} (h : ∀ n < 256, P (UInt8.ofNat n)) (b : UInt8) : P b := by
  have hb := h b.toNat b.toNat_lt
  rwa [UInt8.ofNat_toNat] at hb

theorem lowerByte_lowerByte (b : UInt8) : lowerByte (lowerByte b) = lowerByte b := by
  revert b
  exact forall_uint8 (by decide +kernel)

theorem toLowerLoop_lowered (u : LowerCase) (fuel : Nat) (s : Bytes) :
    (toLowerLoop u fuel s).map lowerByte = toLowerLoop u fuel s := by
  induction fuel generalizing s with
  | zero => rfl
  | succ fuel ih =>
    cases s with
    | nil => rfl
    | cons b rest =>
      rw [toLowerLoop]
      split
      · have hreplacement : Utf8.replacement.map lowerByte = Utf8.replacement := by decide
        rw [List.map_append, hreplacement, ih]
      · rw [List.map_cons, lowerByte_lowerByte, ih]
      · rw [List.map_append, u.lowered, ih]

/-- A lowered text has no capitals of ASCII. -/
theorem toLower_lowered (u : LowerCase) (s : Bytes) : (toLower u s).map lowerByte = toLower u s :=
  toLowerLoop_lowered u s.length s

theorem runeTail_of_ascii {b : UInt8} (h : b < 0x80) (rest : Bytes) :
    Utf8.runeTail b rest = some 0 := by
  simp [Utf8.runeTail, Utf8.lead, h]

theorem toLowerLoop_of_ascii (u : LowerCase) {fuel : Nat} {s : Bytes} (hfuel : s.length ≤ fuel)
    (hs : ∀ b ∈ s, b < 0x80) : toLowerLoop u fuel s = s.map lowerByte := by
  induction fuel generalizing s with
  | zero =>
    rw [List.length_eq_zero_iff.mp (Nat.le_zero.mp hfuel)]
    rfl
  | succ fuel ih =>
    cases s with
    | nil => rfl
    | cons b rest =>
      obtain ⟨hb, hrest⟩ := List.forall_mem_cons.mp hs
      have hlen : rest.length ≤ fuel := Nat.le_of_succ_le_succ hfuel
      rw [toLowerLoop, runeTail_of_ascii hb, List.map_cons]
      exact congrArg (lowerByte b :: ·) (ih hlen hrest)

theorem toLower_of_ascii (u : LowerCase) {s : Bytes} (hs : ∀ b ∈ s, b < 0x80) :
    toLower u s = s.map lowerByte :=
  toLowerLoop_of_ascii u (Nat.le_refl _) hs

end Veld
