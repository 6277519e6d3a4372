import Mathlib.Data.List.Sort
import Veld.Core.Bytes

/-!
# Self-delimiting encodings

An encoding of values as lists is self-delimiting when a value can be read off the
front of any list, whatever follows it: two lists that start with encodings are
equal only if they start with the same value and go on in the same way. Fixed-width
numbers, byte strings after their length and lists after their number of elements
are encoded in this way, and a record of such fields is taken apart field by field.
-/

namespace Veld

section SelfDelimiting

variable {α β : Type}

/-- The encoded values of a domain end where they end, whatever comes after them. -/
def SelfDelimiting (dom : α → Prop) (enc : α → List β) : Prop :=
  ∀ ⦃a b : α⦄, dom a → dom b → ∀ ⦃x y : List β⦄, enc a ++ x = enc b ++ y → a = b ∧ x = y

variable {dom : α → Prop} {enc : α → List β}

/-- Encodings of one length that are different for different values. -/
theorem SelfDelimiting.of_length {n : Nat} (hlen : ∀ a, (enc a).length = n)
    (hinj : ∀ a b, dom a → dom b → enc a = enc b → a = b) : SelfDelimiting dom enc := by
  intro a b ha hb x y h
  obtain ⟨hab, hxy⟩ := List.append_inj h ((hlen a).trans (hlen b).symm)
  exact ⟨hinj a b ha hb hab, hxy⟩

theorem SelfDelimiting.eq (h : SelfDelimiting dom enc) {a b : α} (ha : dom a) (hb : dom b)
    (he : enc a = enc b) : a = b :=
  (h ha hb (congrArg (· ++ []) he)).1

/-- Lists of one length, one element after another. -/
theorem SelfDelimiting.flatMap (h : SelfDelimiting dom enc) {l l' : List α}
    (hlen : l.length = l'.length) (hl : ∀ a ∈ l, dom a) (hl' : ∀ a ∈ l', dom a) {x y : List β}
    (he : l.flatMap enc ++ x = l'.flatMap enc ++ y) : l = l' ∧ x = y := by
  induction l generalizing l' with
  | nil =>
    obtain rfl := List.length_eq_zero_iff.mp hlen.symm
    exact ⟨rfl, he⟩
  | cons a l ih =>
    cases l' with
    | nil => cases hlen
    | cons b l' =>
      obtain ⟨ha, hrest⟩ := List.forall_mem_cons.mp hl
      obtain ⟨hb, hrest'⟩ := List.forall_mem_cons.mp hl'
      rw [List.flatMap_cons, List.flatMap_cons, List.append_assoc, List.append_assoc] at he
      obtain ⟨rfl, htail⟩ := h ha hb he
      obtain ⟨rfl, hxy⟩ := ih (Nat.succ.inj hlen) hrest hrest' htail
      exact ⟨rfl, hxy⟩

end SelfDelimiting

namespace Bytes

@[simp] theorem length_ofNatBE (k n : Nat) : (ofNatBE k n).length = k := by
  induction k generalizing n with
  | zero => rfl
  | succ k ih => rw [ofNatBE, List.length_append, ih, List.length_singleton]

/-- A number of `k` bytes is determined by them. -/
theorem ofNatBE_inj {k n m : Nat} (hn : n < 256 ^ k) (hm : m < 256 ^ k)
    (h : ofNatBE k n = ofNatBE k m) : n = m := by
  induction k generalizing n m with
  | zero =>
    rw [Nat.pow_zero, Nat.lt_one_iff] at hn hm
    rw [hn, hm]
  | succ k ih =>
    obtain ⟨hhigh, hlow⟩ := List.append_inj' h rfl
    have hn' : n / 256 < 256 ^ k := Nat.div_lt_of_lt_mul (by rwa [← Nat.pow_succ'])
    have hm' : m / 256 < 256 ^ k := Nat.div_lt_of_lt_mul (by rwa [← Nat.pow_succ'])
    have hdiv := ih hn' hm' hhigh
    have hmod : n % 256 = m % 256 := by
      simpa using congrArg UInt8.toNat (List.singleton_inj.mp hlow)
    omega

theorem selfDelimiting_ofNatBE (k : Nat) : SelfDelimiting (· < 256 ^ k) (ofNatBE k) :=
  .of_length (length_ofNatBE k) fun _ _ => ofNatBE_inj

/-- A byte string after its length. -/
def prefixed (k : Nat) (b : Bytes) : Bytes := ofNatBE k b.length ++ b

theorem selfDelimiting_prefixed (k : Nat) :
    SelfDelimiting (fun b : Bytes => b.length < 256 ^ k) (prefixed k) := by
  intro a b ha hb x y h
  rw [prefixed, prefixed, List.append_assoc, List.append_assoc] at h
  obtain ⟨hlen, h⟩ := selfDelimiting_ofNatBE k ha hb h
  exact List.append_inj h hlen

/-- The elements of a list after their number. -/
def counted {α : Type} (k : Nat) (enc : α → Bytes) (l : List α) : Bytes :=
  ofNatBE k l.length ++ l.flatMap enc

theorem selfDelimiting_counted {α : Type} {dom : α → Prop} {enc : α → Bytes} (k : Nat)
    (henc : SelfDelimiting dom enc) :
    SelfDelimiting (fun l : List α => l.length < 256 ^ k ∧ ∀ a ∈ l, dom a) (counted k enc) := by
  intro l l' hl hl' x y h
  rw [counted, counted, List.append_assoc, List.append_assoc] at h
  obtain ⟨hlen, h⟩ := selfDelimiting_ofNatBE k hl.1 hl'.1 h
  exact henc.flatMap hlen hl.2 hl'.2 h

end Bytes

section Sorting

variable {α : Type} {le : α → α → Bool}

/-- Lists sort to the same list exactly if they are permutations of each other. -/
theorem mergeSort_eq_mergeSort_iff (trans : ∀ a b c, le a b = true → le b c = true → le a c = true)
    (total : ∀ a b, (le a b || le b a) = true)
    (antisymm : ∀ a b, le a b = true → le b a = true → a = b) {l l' : List α} :
    l.mergeSort le = l'.mergeSort le ↔ l.Perm l' := by
  constructor
  · intro h
    exact (List.mergeSort_perm l le).symm.trans (h ▸ List.mergeSort_perm l' le)
  · intro h
    refine List.Perm.eq_of_pairwise (fun a b _ _ => antisymm a b)
      (List.pairwise_mergeSort trans total l) (List.pairwise_mergeSort trans total l') ?_
    exact (List.mergeSort_perm l le).trans (h.trans (List.mergeSort_perm l' le).symm)

end Sorting

end Veld
