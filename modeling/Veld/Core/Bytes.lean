import Mathlib.Data.BitVec

/-!
# Checked computations and byte strings

A slice expression or an index that would leave its byte string is `none` here.
`Yields` is the total-correctness reading of such a computation: it returns, and
what it returns satisfies a postcondition. Its rules follow the computation step
by step, so that a reader of a byte string is shown never to leave it and what it
reads is described by the same proof. Numbers are read big-endian.
-/

namespace Veld

/-- The computation returns a value, and this value satisfies the postcondition. -/
def Yields {α : Type} (x : Option α) (post : α → Prop) : Prop := ∃ a, x = some a ∧ post a

namespace Yields

variable {α β : Type} {x y : Option α} {post : α → Prop}

theorem pure {a : α} (h : post a) : Yields (Pure.pure a : Option α) post := ⟨a, rfl, h⟩

/-- Sequencing: the continuation is verified for every value the first part may return. -/
theorem bind {f : α → Option β} {mid : α → Prop} {post : β → Prop} (hx : Yields x mid)
    (hf : ∀ a, mid a → Yields (f a) post) : Yields (x >>= f) post := by
  obtain ⟨a, rfl, ha⟩ := hx
  exact hf a ha

/-- An early return and the code after it are verified under the test and its negation. -/
theorem ite {c : Prop} [Decidable c] (ht : c → Yields x post) (he : ¬c → Yields y post) :
    Yields (if c then x else y) post := by
  by_cases h : c
  · rw [if_pos h]
    exact ht h
  · rw [if_neg h]
    exact he h

theorem mono {post' : α → Prop} (hx : Yields x post) (h : ∀ a, post a → post' a) :
    Yields x post' := by
  obtain ⟨a, he, ha⟩ := hx
  exact ⟨a, he, h a ha⟩

theorem isSome (h : Yields x post) : x.isSome := by
  obtain ⟨a, rfl, _⟩ := h
  rfl

theorem get (h : Yields x post) : post (x.get h.isSome) := by
  obtain ⟨a, rfl, ha⟩ := h
  exact ha

end Yields

/-- A check before a computation that can fail: it was passed if there is a result. -/
theorem ite_error_eq_ok {ε α : Type} {c : Prop} [Decidable c] {e : ε} {x : Except ε α} {a : α} :
    (if c then .error e else x) = .ok a ↔ ¬c ∧ x = .ok a := by
  split <;> simp [*]

/-- A Go byte slice; the nil slice is the empty one. -/
abbrev Bytes := List UInt8

namespace Bytes

variable {b : Bytes} {i : Nat}

/-- The slice `b[i:]`, defined when `i` is at most the length. -/
def sliceFrom (b : Bytes) (i : Nat) : Option Bytes :=
  if i ≤ b.length then some (b.drop i) else none

/-- The slice `b[i:j]`, defined when `i ≤ j` and `j` is at most the length. -/
def slice (b : Bytes) (i j : Nat) : Option Bytes :=
  if i ≤ j ∧ j ≤ b.length then some ((b.drop i).take (j - i)) else none

/-- The big-endian number a byte string writes. -/
def beNat (b : Bytes) : Nat := b.foldl (fun n x => n * 256 + x.toNat) 0

/-- The last `k` bytes of a number, written big-endian. -/
def ofNatBE : Nat → Nat → Bytes
  | 0, _ => []
  | k + 1, n => ofNatBE k (n / 256) ++ [UInt8.ofNat n]

/-- `binary.BigEndian.Uint16` of the two bytes at offset `i`. -/
def uint16At (b : Bytes) (i : Nat) : Option UInt16 :=
  (b.slice i (i + 2)).map fun s => UInt16.ofNat s.beNat

theorem yields_getElem (h : i < b.length) : Yields b[i]? (· = b.get ⟨i, h⟩) :=
  ⟨_, List.getElem?_eq_getElem h, rfl⟩

theorem yields_sliceFrom (h : i ≤ b.length) : Yields (b.sliceFrom i) (· = b.drop i) :=
  ⟨_, by simp [sliceFrom, h], rfl⟩

theorem yields_slice {i j : Nat} (hij : i ≤ j) (h : j ≤ b.length) :
    Yields (b.slice i j) (· = (b.drop i).take (j - i)) :=
  ⟨_, by simp [slice, hij, h], rfl⟩

/-- The two bytes inside the string always read as a number. -/
theorem yields_uint16At (h : i + 2 ≤ b.length) :
    Yields (b.uint16At i) (· = UInt16.ofNat (beNat ((b.drop i).take 2))) := by
  obtain ⟨s, hs, he⟩ := yields_slice (Nat.le_add_right i 2) h
  rw [Nat.add_sub_cancel_left] at he
  exact ⟨_, by rw [uint16At, hs, Option.map_some], by rw [he]⟩

end Bytes

end Veld
