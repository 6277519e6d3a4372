import Mathlib.Algebra.BigOperators.Fin

/-!
# Sums over places

Natural numbers attached to the elements of a list, or to the values of a
function on a finite type, and their sum when one place changes.
-/

namespace Veld

section List

variable {α : Type}

/-- The sum of a quantity over the elements of a list. -/
def tally (f : α → Nat) (l : List α) : Nat := (l.map f).sum

variable {f : α → Nat} {l : List α} {k : Nat} {a b : α}

@[simp] theorem tally_nil : tally f [] = 0 := rfl

theorem tally_cons : tally f (a :: l) = f a + tally f l := List.sum_cons

theorem tally_append (l' : List α) : tally f (l ++ l') = tally f l + tally f l' := by
  rw [tally, List.map_append, List.sum_append]
  rfl

/-- One element is replaced. -/
theorem tally_set (h : l[k]? = some a) : tally f (l.set k b) + f a = tally f l + f b := by
  induction l generalizing k with
  | nil => cases h
  | cons c l ih =>
    cases k with
    | zero =>
      obtain rfl : c = a := Option.some.inj h
      rw [List.set_cons_zero, tally_cons, tally_cons]
      omega
    | succ k =>
      have hrest := ih h
      rw [List.set_cons_succ, tally_cons, tally_cons]
      omega

/-- The places of a list with one element replaced. -/
theorem getElem?_set_eq_some {j : Nat} (h : (l.set k b)[j]? = some a) :
    (j = k ∧ a = b) ∨ (j ≠ k ∧ l[j]? = some a) := by
  by_cases hj : j = k
  · subst hj
    rw [List.getElem?_set_self'] at h
    obtain ⟨_, _, rfl⟩ := Option.map_eq_some_iff.mp h
    exact .inl ⟨rfl, rfl⟩
  · rw [List.getElem?_set_ne (Ne.symm hj)] at h
    exact .inr ⟨hj, h⟩

/-- The places of a list with one element more. -/
theorem getElem?_snoc_eq_some {j : Nat} :
    (l ++ [b])[j]? = some a ↔ l[j]? = some a ∨ (j = l.length ∧ a = b) := by
  rcases Nat.lt_trichotomy j l.length with hlt | rfl | hgt
  · rw [List.getElem?_append_left hlt]
    exact ⟨.inl, fun h => h.resolve_right fun hj => hlt.ne hj.1⟩
  · rw [List.getElem?_concat_length, List.getElem?_eq_none le_rfl]
    simp [eq_comm]
  · have hlen : (l ++ [b]).length ≤ j := by
      rw [List.length_append, List.length_singleton]
      exact hgt
    rw [List.getElem?_eq_none hlen, List.getElem?_eq_none hgt.le]
    simp [hgt.ne']

theorem set_eq_self (hk : l[k]? = some a) : l.set k a = l := by
  obtain ⟨hlt, rfl⟩ := List.getElem?_eq_some_iff.mp hk
  exact List.set_getElem_self hlt

theorem filterMap_set {γ : Type} (g : α → Option γ) (hk : l[k]? = some a) (b : α) :
    (l.set k b).filterMap g =
      (l.take k).filterMap g ++ ((g b).toList ++ (l.drop (k + 1)).filterMap g) := by
  obtain ⟨hlt, -⟩ := List.getElem?_eq_some_iff.mp hk
  rw [List.set_eq_take_append_cons_drop, if_pos hlt, List.filterMap_append, List.filterMap_cons]
  cases g b with
  | none => rfl
  | some c => rfl

/-- A place that gives nothing before and after it changes. -/
theorem filterMap_set_of_none {γ : Type} {g : α → Option γ} (hk : l[k]? = some a) (ha : g a = none)
    (hb : g b = none) : (l.set k b).filterMap g = l.filterMap g := by
  rw [filterMap_set g hk b, hb, ← ha, ← filterMap_set g hk a, set_eq_self hk]

/-- The one place that gives something. -/
theorem filterMap_set_of_forall {γ : Type} {g : α → Option γ} (hk : l[k]? = some a)
    (hothers : ∀ j c, j ≠ k → l[j]? = some c → g c = none) :
    (l.set k b).filterMap g = (g b).toList := by
  rw [filterMap_set g hk b, List.filterMap_eq_nil_iff.mpr, List.filterMap_eq_nil_iff.mpr,
    List.append_nil, List.nil_append]
  · intro c hc
    obtain ⟨j, hj⟩ := List.getElem?_of_mem hc
    rw [List.getElem?_drop] at hj
    exact hothers _ c (by omega) hj
  · intro c hc
    obtain ⟨j, hj⟩ := List.getElem?_of_mem hc
    rw [List.getElem?_take] at hj
    split at hj
    · rename_i hlt
      exact hothers j c (Nat.ne_of_lt hlt) hj
    · cases hj

theorem le_tally (h : a ∈ l) : f a ≤ tally f l := by
  induction l with
  | nil => cases h
  | cons c l ih =>
    rw [tally_cons]
    rcases List.mem_cons.mp h with rfl | h
    · exact Nat.le_add_right _ _
    · exact (ih h).trans (Nat.le_add_left _ _)

theorem tally_eq_zero (h : ∀ a ∈ l, f a = 0) : tally f l = 0 := by
  induction l with
  | nil => rfl
  | cons c l ih =>
    rw [tally_cons, h c List.mem_cons_self, ih fun a ha => h a (List.mem_cons_of_mem c ha)]

/-- All but one element contribute nothing. -/
theorem tally_eq_of_others (hk : l[k]? = some a)
    (h : ∀ j b, j ≠ k → l[j]? = some b → f b = 0) : tally f l = f a := by
  induction l generalizing k with
  | nil => cases hk
  | cons c l ih =>
    cases k with
    | zero =>
      obtain rfl : c = a := Option.some.inj hk
      have hrest : tally f l = 0 := by
        refine tally_eq_zero fun b hb => ?_
        obtain ⟨j, hj⟩ := List.getElem?_of_mem hb
        exact h (j + 1) b (Nat.succ_ne_zero j) hj
      rw [tally_cons, hrest, Nat.add_zero]
    | succ k =>
      have hc : f c = 0 := h 0 c (Nat.succ_ne_zero k).symm rfl
      rw [tally_cons, hc, Nat.zero_add]
      exact ih hk fun j b hj => h (j + 1) b (fun he => hj (Nat.succ.inj he))

end List

section Fintype

variable {ι β : Type} [Fintype ι] [DecidableEq ι]

/-- One value of a function is replaced. -/
theorem sum_update (f : β → Nat) (g : ι → β) (i : ι) (v : β) :
    ∑ j, f (Function.update g i v j) + f (g i) = ∑ j, f (g j) + f v := by
  have hrest : ∑ j ∈ Finset.univ.erase i, f (Function.update g i v j) =
      ∑ j ∈ Finset.univ.erase i, f (g j) := by
    refine Finset.sum_congr rfl fun j hj => ?_
    rw [Function.update_of_ne (Finset.ne_of_mem_erase hj)]
  have hnew := Finset.add_sum_erase Finset.univ (fun j => f (Function.update g i v j))
    (Finset.mem_univ i)
  have hold := Finset.add_sum_erase Finset.univ (fun j => f (g j)) (Finset.mem_univ i)
  simp only [Function.update_self] at hnew
  omega

end Fintype

end Veld
