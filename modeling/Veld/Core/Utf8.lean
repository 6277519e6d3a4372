import Veld.Core.Bytes

/-!
# UTF-8 texts

The longest rune a byte string starts with, by the lead byte and the range of the
byte after it. `coerce` is what a writer of JSON makes of a byte string: each byte
that does not belong to a rune becomes U+FFFD. It leaves UTF-8 texts alone. The
bytes of two texts compare as the texts do, character by character.
-/

namespace Veld.Utf8

/-- The continuation bytes after a lead byte, and the range of the first of them. -/
def lead (b : UInt8) : Option (Nat × UInt8 × UInt8) :=
  if b < 0x80 then some (0, 0x80, 0xBF)
  else if b < 0xC2 then none
  else if b ≤ 0xDF then some (1, 0x80, 0xBF)
  else if b = 0xE0 then some (2, 0xA0, 0xBF)
  else if b = 0xED then some (2, 0x80, 0x9F)
  else if b ≤ 0xEF then some (2, 0x80, 0xBF)
  else if b = 0xF0 then some (3, 0x90, 0xBF)
  else if b ≤ 0xF3 then some (3, 0x80, 0xBF)
  else if b = 0xF4 then some (3, 0x80, 0x8F)
  else none

def isContinuation (b : UInt8) : Bool := 0x80 ≤ b && b ≤ 0xBF

/-- The number of bytes after the first one of the rune a byte string starts with. -/
def runeTail (b : UInt8) (rest : Bytes) : Option Nat := do
  let (n, lo, hi) ← lead b
  let tail := rest.take n
  if tail.length = n && (tail.take 1).all (fun c => lo ≤ c && c ≤ hi) &&
      (tail.drop 1).all isContinuation then
    some n
  else none

/-- The encoding of U+FFFD. -/
def replacement : Bytes := [0xEF, 0xBF, 0xBD]

def validLoop : Nat → Bytes → Bool
  | 0, b => b.isEmpty
  | _ + 1, [] => true
  | fuel + 1, b :: rest =>
    match runeTail b rest with
    | some n => validLoop fuel (rest.drop n)
    | none => false

/-- `utf8.ValidString`. -/
def valid (b : Bytes) : Bool := validLoop b.length b

def coerceLoop : Nat → Bytes → Bytes
  | 0, b => b
  | _ + 1, [] => []
  | fuel + 1, b :: rest =>
    match runeTail b rest with
    | some n => b :: rest.take n ++ coerceLoop fuel (rest.drop n)
    | none => replacement ++ coerceLoop fuel rest

/-- The text with every byte replaced that is not part of a rune. -/
def coerce (b : Bytes) : Bytes := coerceLoop b.length b

theorem coerceLoop_of_valid {fuel : Nat} {b : Bytes} (h : validLoop fuel b = true) :
    coerceLoop fuel b = b := by
  induction fuel generalizing b with
  | zero => rfl
  | succ fuel ih =>
    cases b with
    | nil => rfl
    | cons c rest =>
      rw [validLoop] at h
      rw [coerceLoop]
      cases hn : runeTail c rest with
      | none =>
        rw [hn] at h
        cases h
      | some n =>
        rw [hn] at h
        show c :: rest.take n ++ coerceLoop fuel (rest.drop n) = c :: rest
        rw [ih h, List.cons_append, List.take_append_drop]

theorem coerce_of_valid {b : Bytes} (h : valid b = true) : coerce b = b := coerceLoop_of_valid h

/-- A byte that no rune has does not survive. -/
example : coerce [0x31, 0xFF, 0xC3, 0xA9] = [0x31, 0xEF, 0xBF, 0xBD, 0xC3, 0xA9] := by decide

section Order

variable {n m : Nat} (hn : n < 256) (hm : m < 256)
include hn hm

theorem ofNat_lt_ofNat : UInt8.ofNat n < UInt8.ofNat m ↔ n < m := by
  rw [UInt8.lt_iff_toNat_lt, UInt8.toNat_ofNat_of_lt' hn, UInt8.toNat_ofNat_of_lt' hm]

theorem ofNat_eq_ofNat : UInt8.ofNat n = UInt8.ofNat m ↔ n = m := by
  rw [← UInt8.toNat_inj, UInt8.toNat_ofNat_of_lt' hn, UInt8.toNat_ofNat_of_lt' hm]

end Order

theorem val_toNat_lt (c : Char) : c.val.toNat < 1114112 := by
  rcases c.valid with h | h
  · omega
  · omega

/-- The encoding of a smaller character is smaller, whatever follows. -/
theorem utf8EncodeChar_append_lt {c d : Char} (h : c < d) (x y : Bytes) :
    String.utf8EncodeChar c ++ x < String.utf8EncodeChar d ++ y := by
  have hlt : c.val.toNat < d.val.toNat := h
  have hd := val_toNat_lt d
  unfold String.utf8EncodeChar
  generalize c.val.toNat = v at hlt
  generalize d.val.toNat = w at hlt hd
  -- the bytes are the digits to the base 64, below a lead byte that tells their number
  have hdigit (n : Nat) : n / 4096 = n / 64 / 64 ∧ n / 262144 = n / 64 / 64 / 64 := by omega
  simp only [hdigit]
  split_ifs <;>
    simp (disch := omega) only [List.cons_append, List.nil_append, List.cons_lt_cons_iff,
      ofNat_lt_ofNat, ofNat_eq_ofNat] <;>
    omega

theorem append_lt_append (p : Bytes) {x y : Bytes} (h : x < y) : p ++ x < p ++ y := by
  induction p with
  | nil => exact h
  | cons b p ih => exact List.cons_lt_cons_iff.mpr (.inr ⟨rfl, ih⟩)

/-- The encoding keeps the order of texts. -/
theorem flatMap_utf8EncodeChar_lt {s t : List Char} (h : s < t) :
    s.flatMap String.utf8EncodeChar < t.flatMap String.utf8EncodeChar := by
  induction s generalizing t with
  | nil =>
    cases t with
    | nil => exact absurd h (List.lt_irrefl [])
    | cons d t =>
      obtain ⟨b, l, hb⟩ := List.exists_cons_of_ne_nil (String.utf8EncodeChar_ne_nil (c := d))
      rw [List.flatMap_nil, List.flatMap_cons, hb]
      exact List.nil_lt_cons b _
  | cons c s ih =>
    cases t with
    | nil => exact absurd h (List.not_lt_nil _)
    | cons d t =>
      rw [List.flatMap_cons, List.flatMap_cons]
      rcases List.cons_lt_cons_iff.mp h with hcd | ⟨rfl, hst⟩
      · exact utf8EncodeChar_append_lt hcd _ _
      · exact append_lt_append _ (ih hst)

/-- The bytes of texts are in the order of the texts. -/
theorem flatMap_utf8EncodeChar_lt_iff {s t : List Char} :
    s.flatMap String.utf8EncodeChar < t.flatMap String.utf8EncodeChar ↔ s < t := by
  refine ⟨fun h => ?_, flatMap_utf8EncodeChar_lt⟩
  rcases Std.lt_trichotomy s t with hst | rfl | hts
  · exact hst
  · exact absurd h (List.lt_irrefl _)
  · exact absurd h (List.lt_asymm (flatMap_utf8EncodeChar_lt hts))

end Veld.Utf8
