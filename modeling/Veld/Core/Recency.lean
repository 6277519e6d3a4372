import Mathlib.Data.Finset.Card
import Mathlib.Data.List.Nodup

/-!
# Bounded lists in order of last use

`touch` brings an element to the front of a list and cuts the list at a bound. An
element that was touched leaves the list only after as many other elements as the
bound were touched since. The rule for one touch is `Since.touch`.
-/

namespace Veld

variable {α : Type} [DecidableEq α] {cap : Nat} {a b : α} {l : List α} {seen : Finset α}

/-- An element comes to the front, and the list is cut at the bound. -/
def touch (cap : Nat) (a : α) (l : List α) : List α := (a :: l.filter (· ≠ a)).take cap

theorem nodup_touch (h : l.Nodup) : (touch cap a l).Nodup := by
  refine List.Nodup.sublist (List.take_sublist _ _) (List.nodup_cons.mpr ⟨?_, h.filter _⟩)
  simp

/-- The element is in the list, behind elements that were seen; or as many others as the bound
were seen. -/
def Since (cap : Nat) (a : α) (l : List α) (seen : Finset α) : Prop :=
  (∃ ahead behind, l = ahead ++ a :: behind ∧ ∀ x ∈ ahead, x ∈ seen.erase a) ∨
    cap ≤ (seen.erase a).card

theorem since_cons (l : List α) : Since cap a (a :: l) seen := .inl ⟨[], l, rfl, nofun⟩

theorem Since.mono {seen' : Finset α} (h : Since cap a l seen) (hsub : seen ⊆ seen') :
    Since cap a l seen' := by
  have herase := Finset.erase_subset_erase a hsub
  rcases h with ⟨ahead, behind, hl, hahead⟩ | hcard
  · exact .inl ⟨ahead, behind, hl, fun x hx => herase (hahead x hx)⟩
  · exact .inr (hcard.trans (Finset.card_le_card herase))

/-- A touch of any element, which counts as seen. -/
theorem Since.touch (hcap : 0 < cap) (hl : l.Nodup) (h : Since cap a l seen) (b : α) :
    Since cap a (touch cap b l) (insert b seen) := by
  by_cases hab : b = a
  · subst hab
    rw [Veld.touch, List.take_cons hcap]
    exact since_cons _
  rcases h with ⟨ahead, behind, rfl, hahead⟩ | hcard
  · have hsplit : b :: (ahead ++ a :: behind).filter (· ≠ b) =
        (b :: ahead.filter (· ≠ b)) ++ a :: behind.filter (· ≠ b) := by
      simp [Ne.symm hab]
    have hfront : ∀ x ∈ b :: ahead.filter (· ≠ b), x ∈ (insert b seen).erase a := by
      intro x hx
      rcases List.mem_cons.mp hx with rfl | hx
      · exact Finset.mem_erase.mpr ⟨hab, Finset.mem_insert_self _ _⟩
      · obtain ⟨hne, hseen⟩ := Finset.mem_erase.mp (hahead x (List.mem_of_mem_filter hx))
        exact Finset.mem_erase.mpr ⟨hne, Finset.mem_insert_of_mem hseen⟩
    rw [Veld.touch, hsplit]
    by_cases hlen : (b :: ahead.filter (· ≠ b)).length < cap
    · refine .inl ⟨_, (behind.filter (· ≠ b)).take
        (cap - (b :: ahead.filter (· ≠ b)).length - 1), ?_, hfront⟩
      rw [List.take_append, List.take_of_length_le hlen.le,
        List.take_cons (Nat.sub_pos_of_lt hlen)]
    · -- The elements in front of it are distinct and fill the list.
      have hnodup : (b :: ahead.filter (· ≠ b)).Nodup := by
        refine List.nodup_cons.mpr ⟨by simp, List.Nodup.filter _ ?_⟩
        exact hl.sublist (List.sublist_append_left _ _)
      refine .inr ((Nat.le_of_not_lt hlen).trans ?_)
      rw [← List.toFinset_card_of_nodup hnodup]
      exact Finset.card_le_card fun x hx => hfront x (List.mem_toFinset.mp hx)
  · have hmono := Finset.erase_subset_erase a (Finset.subset_insert b seen)
    exact .inr (hcard.trans (Finset.card_le_card hmono))

/-- An element that has left the list was followed by as many others as the bound. -/
theorem Since.le_card (h : Since cap a l seen) (ha : a ∉ l) : cap ≤ (seen.erase a).card := by
  rcases h with ⟨ahead, behind, rfl, -⟩ | hcard
  · exact absurd (List.mem_append_right _ List.mem_cons_self) ha
  · exact hcard

end Veld
