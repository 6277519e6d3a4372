import Mathlib.Data.List.Nodup
import Mathlib.Data.List.Basic

/-!
# Keyed lists in order of use

Entries of an arbitrary type, each with a key, the most recently used first and
no key twice. `push` puts an entry in front in place of the one with its key,
`evictBelow` drops entries from the old end until fewer than a bound are left.
Every operation is described by what it does to the entry stored under one key.
-/

namespace Veld

/-- Entries with pairwise distinct keys, most recently used first. -/
structure Lru {κ ε : Type} (key : ε → κ) where
  entries : List ε
  nodup : (entries.map key).Nodup

namespace Lru

variable {κ ε : Type} {key : ε → κ} {bound : Nat} {l : Lru key} {k : κ} {e : ε}

/-- The list without entries. -/
def empty : Lru key := ⟨[], List.nodup_nil⟩

/-- The number of entries. -/
def length (l : Lru key) : Nat := l.entries.length

/-- Only the entries that pass a test remain, in their order. -/
def keep (l : Lru key) (p : ε → Bool) : Lru key :=
  ⟨l.entries.filter p, l.nodup.sublist (List.filter_sublist.map key)⟩

/-- The entry used longest ago leaves. -/
def dropOldest (l : Lru key) : Lru key :=
  ⟨l.entries.dropLast, l.nodup.sublist ((List.dropLast_sublist l.entries).map key)⟩

/-- `dropOldest` while at least `bound` entries are left, at most `fuel` times. -/
def evictLoop (bound : Nat) : Nat → Lru key → Lru key
  | 0, l => l
  | fuel + 1, l => if bound ≤ l.length then evictLoop bound fuel l.dropOldest else l

/-- Entries leave from the old end until fewer than `bound` are left. -/
def evictBelow (l : Lru key) (bound : Nat) : Lru key := evictLoop bound l.length l

theorem length_keep_le (l : Lru key) (p : ε → Bool) : (l.keep p).length ≤ l.length :=
  List.length_filter_le p l.entries

theorem length_dropOldest (l : Lru key) : l.dropOldest.length = l.length - 1 := by
  simp [length, dropOldest]

theorem length_evictLoop (hb : 0 < bound) (fuel : Nat) (l : Lru key)
    (hf : l.length ≤ fuel) : (evictLoop bound fuel l).length < bound := by
  induction fuel generalizing l with
  | zero =>
    unfold evictLoop
    omega
  | succ fuel ih =>
    unfold evictLoop
    by_cases h : bound ≤ l.length
    · rw [if_pos h]
      exact ih l.dropOldest (by rw [length_dropOldest]; omega)
    · rw [if_neg h]
      omega

/-- The eviction loop ends with room for one more entry. -/
theorem length_evictBelow (hb : 0 < bound) (l : Lru key) : (l.evictBelow bound).length < bound :=
  length_evictLoop hb l.length l (Nat.le_refl _)

/-- A list that is not too long loses at most one entry. -/
theorem evictBelow_eq (hb : 0 < bound) (h : l.length ≤ bound) :
    l.evictBelow bound = if bound ≤ l.length then l.dropOldest else l := by
  have hloop (fuel : Nat) (l : Lru key) (hl : l.length < bound) : evictLoop bound fuel l = l := by
    cases fuel with
    | zero => rfl
    | succ fuel => rw [evictLoop, if_neg (Nat.not_le_of_lt hl)]
  rw [evictBelow]
  split
  · rename_i hfull
    have hlen : l.length = (l.length - 1) + 1 := by omega
    rw [hlen, evictLoop, if_pos hfull, hloop]
    rw [length_dropOldest]
    omega
  · exact hloop _ l (by omega)

variable [DecidableEq κ]

/-- The entry stored under a key. -/
def find (l : Lru key) (k : κ) : Option ε := l.entries.find? fun e => key e = k

/-- The entry under a key leaves. -/
def erase (l : Lru key) (k : κ) : Lru key := l.keep fun e => key e ≠ k

/-- An entry comes to the front, in place of the one that had its key. -/
def push (l : Lru key) (e : ε) : Lru key :=
  ⟨e :: (l.erase (key e)).entries, by
    rw [List.map_cons, List.nodup_cons]
    refine ⟨?_, (l.erase (key e)).nodup⟩
    intro hm
    obtain ⟨x, hx, he⟩ := List.mem_map.mp hm
    have hne := (List.mem_filter.mp hx).2
    simp only [decide_eq_true_eq] at hne
    exact hne he⟩

@[simp] theorem find_empty (k : κ) : (empty : Lru key).find k = none := rfl

theorem key_of_find (h : l.find k = some e) : key e = k := by
  simpa only [decide_eq_true_eq] using List.find?_some h

theorem mem_of_find (h : l.find k = some e) : e ∈ l.entries :=
  List.mem_of_find?_eq_some h

/-- The entry under a key is the only one with that key. -/
theorem find_eq_some_iff : l.find k = some e ↔ e ∈ l.entries ∧ key e = k := by
  refine ⟨fun h => ⟨mem_of_find h, key_of_find h⟩, ?_⟩
  rintro ⟨hm, rfl⟩
  cases hf : l.find (key e) with
  | none =>
    have hn := List.find?_eq_none.mp hf e hm
    simp at hn
  | some x =>
    have hx := mem_of_find hf
    have hinj := List.inj_on_of_nodup_map l.nodup hx hm (key_of_find hf)
    rw [hinj]

theorem find_eq_none_iff : l.find k = none ↔ ∀ e ∈ l.entries, key e ≠ k := by
  simp [find]

/-- A test on the entries is the same test on what is found. -/
theorem find_keep (l : Lru key) (p : ε → Bool) (k : κ) :
    (l.keep p).find k = (l.find k).filter p := by
  ext e
  simp only [Option.filter_eq_some_iff, find_eq_some_iff, keep, List.mem_filter]
  exact and_right_comm

@[simp] theorem find_erase_self (l : Lru key) (k : κ) : (l.erase k).find k = none := by
  rw [find_eq_none_iff]
  intro e he
  simpa only [decide_eq_true_eq] using (List.mem_filter.mp he).2

theorem find_erase_ne (l : Lru key) {k k' : κ} (h : k' ≠ k) :
    (l.erase k).find k' = l.find k' := by
  rw [erase, find_keep]
  cases hf : l.find k' with
  | none => rfl
  | some e =>
    have hk : key e ≠ k := key_of_find hf ▸ h
    simp [Option.filter_some, hk]

@[simp] theorem find_push_self (l : Lru key) (e : ε) : (l.push e).find (key e) = some e := by
  simp [find, push]

theorem find_push_ne (l : Lru key) (e : ε) (h : k ≠ key e) : (l.push e).find k = l.find k := by
  have hb : decide (key e = k) = false := decide_eq_false (Ne.symm h)
  rw [← find_erase_ne l h]
  simp only [find, push, List.find?_cons, hb]

/-- Dropping the oldest entry leaves every other key alone. -/
theorem find_dropOldest (l : Lru key) (k : κ) :
    l.dropOldest.find k = l.find k ∨ l.dropOldest.find k = none := by
  cases hf : l.dropOldest.find k with
  | none => exact .inr rfl
  | some e =>
    obtain ⟨hm, hk⟩ := find_eq_some_iff.mp hf
    exact .inl (find_eq_some_iff.mpr ⟨(List.dropLast_sublist l.entries).subset hm, hk⟩).symm

theorem find_evictLoop (bound fuel : Nat) (l : Lru key) (k : κ) :
    (evictLoop bound fuel l).find k = l.find k ∨ (evictLoop bound fuel l).find k = none := by
  induction fuel generalizing l with
  | zero => exact .inl rfl
  | succ fuel ih =>
    unfold evictLoop
    by_cases hb : bound ≤ l.length
    · rw [if_pos hb]
      rcases ih l.dropOldest with he | hn
      · rw [he]
        exact find_dropOldest l k
      · exact .inr hn
    · rw [if_neg hb]
      exact .inl rfl

/-- Eviction keeps what is stored under a key or removes it. -/
theorem find_evictBelow (l : Lru key) (bound : Nat) (k : κ) :
    (l.evictBelow bound).find k = l.find k ∨ (l.evictBelow bound).find k = none :=
  find_evictLoop bound l.length l k

theorem length_push_le (l : Lru key) (e : ε) : (l.push e).length ≤ l.length + 1 :=
  Nat.succ_le_succ (length_keep_le l _)

/-- Replacing an entry that is there adds none. -/
theorem length_push_of_find {e x : ε} (h : l.find (key e) = some x) :
    (l.push e).length ≤ l.length := by
  have hlt : ((l.erase (key e)).entries).length < l.entries.length := by
    apply List.length_filter_lt_length_iff_exists.mpr
    refine ⟨x, mem_of_find h, ?_⟩
    simp [key_of_find h]
  exact hlt

end Lru

end Veld
