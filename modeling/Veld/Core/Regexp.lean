import Mathlib.Data.List.Basic

/-!
# Leftmost-first matching

The regular expressions of Go's `regexp` package, as far as they are built from classes of
characters, with the preference of its matcher: the left side of an alternative and the
longer repetition first. A match is given by the text behind it.
-/

namespace Veld

inductive Regexp
  | char (p : Char → Bool)
  /-- One or more characters of a class. -/
  | plus (p : Char → Bool)
  | seq (a b : Regexp)
  | alt (a b : Regexp)
  | empty

namespace Regexp

def plusEnds (p : Char → Bool) : List Char → List (List Char)
  | [] => []
  | c :: s => if p c then plusEnds p s ++ [s] else []

/-- What is left of the text behind each match at its start, the most preferred one first. -/
@[simp] def ends : Regexp → List Char → List (List Char)
  | char p, s => if s.head?.any p then [s.tail] else []
  | plus p, s => plusEnds p s
  | seq a b, s => (ends a s).flatMap (ends b)
  | alt a b, s => ends a s ++ ends b s
  | empty, s => [s]

def opt (a : Regexp) : Regexp := alt a empty

def first (r : Regexp) (s : List Char) : Option (List Char) := (ends r s).head?

/-- `ReplaceAllStringFunc`, for an expression that does not match the empty text. -/
def replaceAll (r : Regexp) (f : List Char → List Char) : Nat → List Char → List Char
  | 0, s => s
  | _ + 1, [] => []
  | fuel + 1, c :: s =>
    match r.first (c :: s) with
    | some rest => f ((c :: s).take ((c :: s).length - rest.length)) ++ replaceAll r f fuel rest
    | none => c :: replaceAll r f fuel s

variable {r a b : Regexp} {p : Char → Bool} {f : List Char → List Char} {s t u : List Char}

theorem first_char {c : Char} (h : p c = true) : (char p).first (c :: s) = some s := by
  simp [first, h]

theorem first_seq (ha : a.first s = some t) (hb : b.first t = some u) :
    (seq a b).first s = some u := by
  obtain ⟨rest, hrest⟩ := List.head?_eq_some_iff.mp ha
  rw [first, ends, hrest, List.flatMap_cons, List.head?_append, ← first, hb]
  rfl

theorem first_alt_left (h : a.first s = some t) : (alt a b).first s = some t := by
  rw [first, ends, List.head?_append, ← first, h]
  rfl

theorem first_alt_right (h : a.ends s = []) : (alt a b).first s = b.first s := by
  rw [first, ends, h, List.nil_append, first]

theorem ends_char_eq_nil (h : ∀ c ∈ s.head?, p c = false) : (char p).ends s = [] := by
  cases s with
  | nil => rfl
  | cons c s => simp [h c rfl]

theorem ends_seq_eq_nil (h : a.ends s = []) : (seq a b).ends s = [] := by
  rw [ends, h]
  rfl

/-- A repetition takes all characters of its class. -/
theorem first_plus (hne : t ≠ []) (ht : ∀ c ∈ t, p c = true) (hs : ∀ c ∈ s.head?, p c = false) :
    (plus p).first (t ++ s) = some s := by
  have hend : plusEnds p s = [] := by
    cases s with
    | nil => rfl
    | cons c s => rw [plusEnds, hs c rfl, if_neg Bool.false_ne_true]
  induction t with
  | nil => exact absurd rfl hne
  | cons c t ih =>
    obtain ⟨hc, ht⟩ := List.forall_mem_cons.mp ht
    rw [first, ends, List.cons_append, plusEnds, if_pos hc, List.head?_append]
    cases t with
    | nil => rw [List.nil_append, hend]; rfl
    | cons d t =>
      have hrest : (plusEnds p (d :: t ++ s)).head? = some s := ih (List.cons_ne_nil d t) ht
      rw [hrest]
      rfl

/-- Text in which no match begins is copied. -/
theorem replaceAll_append (h : ∀ c ∈ t, ∀ s, r.first (c :: s) = none) (fuel : Nat) :
    r.replaceAll f (t.length + fuel) (t ++ s) = t ++ r.replaceAll f fuel s := by
  induction t with
  | nil => rw [List.length_nil, Nat.zero_add]; rfl
  | cons c t ih =>
    obtain ⟨hc, ht⟩ := List.forall_mem_cons.mp h
    rw [List.length_cons, Nat.add_right_comm, List.cons_append, replaceAll, hc, ih ht]
    rfl

theorem replaceAll_match (h : r.first (t ++ s) = some s) (hne : t ≠ []) (fuel : Nat) :
    r.replaceAll f (fuel + 1) (t ++ s) = f t ++ r.replaceAll f fuel s := by
  obtain ⟨c, t, rfl⟩ := List.exists_cons_of_ne_nil hne
  rw [List.cons_append] at h ⊢
  rw [replaceAll, h]
  dsimp only
  rw [← List.cons_append, List.length_append, Nat.add_sub_cancel, List.take_left]

/-- One match between two texts in which none begins. -/
theorem replaceAll_between (ht : ∀ c ∈ t, ∀ s, r.first (c :: s) = none)
    (hu : ∀ c ∈ u, ∀ s, r.first (c :: s) = none) (h : r.first (s ++ u) = some u) (hne : s ≠ []) :
    r.replaceAll f (t ++ (s ++ u)).length (t ++ (s ++ u)) = t ++ (f s ++ u) := by
  have hpos := List.length_pos_iff.mpr hne
  have hfuel : (t ++ (s ++ u)).length = t.length + (u.length + (s.length - 1) + 1) := by
    simp only [List.length_append]
    omega
  have hrest := replaceAll_append (s := []) (f := f) hu (s.length - 1)
  have hnil : r.replaceAll f (s.length - 1) [] = [] := by cases s.length - 1 <;> rfl
  rw [hnil, List.append_nil] at hrest
  rw [hfuel, replaceAll_append ht, replaceAll_match h hne, hrest]

end Regexp

end Veld
