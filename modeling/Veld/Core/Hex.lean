import Veld.Core.Bytes

/-!
# Hexadecimal texts

Bytes are written with two lower-case digits each. Digits of both cases are read.
-/

namespace Veld.Hex

/-- The digit of a number below 16. -/
def digit (n : Nat) : Char :=
  if n < 10 then Char.ofNat (48 + n) else Char.ofNat (87 + n)

/-- The number of a digit. -/
def value (c : Char) : Option Nat :=
  if 48 ≤ c.toNat ∧ c.toNat ≤ 57 then some (c.toNat - 48)
  else if 97 ≤ c.toNat ∧ c.toNat ≤ 102 then some (c.toNat - 87)
  else if 65 ≤ c.toNat ∧ c.toNat ≤ 70 then some (c.toNat - 55)
  else none

/-- `hex.EncodeToString`. -/
def encodeToString (b : Bytes) : String :=
  String.ofList (b.flatMap fun x => [digit (x.toNat / 16), digit (x.toNat % 16)])

/-- The bytes of a list of digits, two each. -/
def decodeDigits : List Char → Option Bytes
  | [] => some []
  | [_] => none
  | c :: d :: rest => do
    let hi ← value c
    let lo ← value d
    let b ← decodeDigits rest
    some (UInt8.ofNat (hi * 16 + lo) :: b)

/-- `hex.DecodeString`. -/
def decodeString (s : String) : Option Bytes := decodeDigits s.toList

theorem value_digit : ∀ n < 16, value (digit n) = some n := by decide

theorem decodeString_encodeToString (b : Bytes) : decodeString (encodeToString b) = some b := by
  rw [decodeString, encodeToString, String.toList_ofList]
  induction b with
  | nil => rfl
  | cons x b ih =>
    have hlt : x.toNat < 256 := x.toNat_lt
    have hx : UInt8.ofNat (x.toNat / 16 * 16 + x.toNat % 16) = x := by
      rw [Nat.div_add_mod']
      exact UInt8.ofNat_toNat
    rw [List.flatMap_cons, List.cons_append, List.cons_append, List.nil_append, decodeDigits,
      value_digit _ (by omega), value_digit _ (by omega), ih]
    simp only [Option.bind_eq_bind, Option.bind_some, hx]

end Veld.Hex
