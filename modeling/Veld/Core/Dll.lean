import Mathlib.Data.List.Nodup
import Mathlib.Logic.Function.Basic

/-!
# Intrusive doubly linked lists

Nodes of an arbitrary type with pointers to their neighbours, and pointers to
the first and the last node. An end of the list is treated as a neighbour of the
node there: what follows nothing is the head, what precedes nothing is the tail.
With this reading a memory holds a list exactly when, wherever the list is cut in
two, the last node before the cut and the first one after it point at each other.
-/

namespace Veld

/-- The pointers of a doubly linked list. -/
structure Dll (ρ : Type) where
  head : Option ρ := none
  tail : Option ρ := none
  prev : ρ → Option ρ := fun _ => none
  next : ρ → Option ρ := fun _ => none

namespace Dll

variable {ρ : Type}

/-- The pointer away from a node in the direction of the tail; the head is what follows nothing. -/
def after (d : Dll ρ) : Option ρ → Option ρ
  | some x => d.next x
  | none => d.head

/-- The pointer in the direction of the head; the tail is what precedes nothing. -/
def before (d : Dll ρ) : Option ρ → Option ρ
  | some x => d.prev x
  | none => d.tail

/-- The pointers hold a list of nodes, from head to tail, each once. -/
structure Links (d : Dll ρ) (xs : List ρ) : Prop where
  nodup : xs.Nodup
  cut : ∀ l r, xs = l ++ r → d.after l.getLast? = r.head? ∧ d.before r.head? = l.getLast?

theorem links_nil : Links ({} : Dll ρ) [] where
  nodup := List.nodup_nil
  cut l r h := by
    obtain ⟨rfl, rfl⟩ := List.append_eq_nil_iff.mp h.symm
    exact ⟨rfl, rfl⟩

section Links

variable {d : Dll ρ} {xs l r : List ρ} {x : ρ}

theorem Links.head_eq (h : d.Links xs) : d.head = xs.head? := (h.cut [] xs rfl).1

theorem Links.tail_eq (h : d.Links xs) : d.tail = xs.getLast? :=
  (h.cut xs [] (List.append_nil xs).symm).2

theorem Links.prev_eq (h : d.Links (l ++ x :: r)) : d.prev x = l.getLast? :=
  (h.cut l (x :: r) rfl).2

theorem Links.next_eq (h : d.Links (l ++ x :: r)) : d.next x = r.head? := by
  have hcut := (h.cut (l ++ [x]) r (by simp)).1
  rwa [List.getLast?_concat] at hcut

/-- Nonempty ends of a list without repetitions have ends of their own. -/
private theorem getLast?_append_ne {l m : List ρ} (h : (l ++ m).Nodup) (hm : m ≠ []) :
    (l ++ m).getLast? ≠ l.getLast? := by
  intro he
  rw [List.getLast?_append_of_ne_nil l hm, List.getLast?_eq_some_getLast hm] at he
  exact (List.nodup_append.mp h).2.2 _ (List.mem_of_getLast? he.symm) _ (List.getLast_mem hm) rfl

private theorem head?_append_ne {m r : List ρ} (h : (m ++ r).Nodup) (hm : m ≠ []) :
    r.head? ≠ (m ++ r).head? := by
  intro he
  rw [List.head?_append_of_ne_nil m hm, List.head?_eq_some_head hm] at he
  exact (List.nodup_append.mp h).2.2 _ (List.head_mem hm) _ (List.mem_of_head? he) rfl

/-- The list read from the other end. -/
def flip (d : Dll ρ) : Dll ρ := ⟨d.tail, d.head, d.next, d.prev⟩

theorem Links.flip (h : d.Links xs) : d.flip.Links xs.reverse where
  nodup := List.nodup_reverse.mpr h.nodup
  cut l r he := by
    have hxs : xs = r.reverse ++ l.reverse := by
      rw [← List.reverse_append, ← he, List.reverse_reverse]
    obtain ⟨hafter, hbefore⟩ := h.cut _ _ hxs
    rw [List.getLast?_reverse, List.head?_reverse] at hafter hbefore
    have hflip : d.flip.after = d.before ∧ d.flip.before = d.after :=
      ⟨funext fun o => by cases o <;> rfl, funext fun o => by cases o <;> rfl⟩
    rw [hflip.1, hflip.2]
    exact ⟨hbefore, hafter⟩

end Links

variable [DecidableEq ρ]

def setAfter (d : Dll ρ) (o v : Option ρ) : Dll ρ :=
  match o with
  | some x => { d with next := Function.update d.next x v }
  | none => { d with head := v }

def setBefore (d : Dll ρ) (o v : Option ρ) : Dll ρ :=
  match o with
  | some x => { d with prev := Function.update d.prev x v }
  | none => { d with tail := v }

/-- The neighbours of a node are joined and its own pointers cleared. -/
def unlink (d : Dll ρ) (x : ρ) : Dll ρ :=
  let d := d.setAfter (d.prev x) (d.next x)
  let d := d.setBefore (d.next x) (d.prev x)
  (d.setBefore (some x) none).setAfter (some x) none

/-- A node becomes the head, and the tail if there is none. -/
def linkFront (d : Dll ρ) (x : ρ) : Dll ρ :=
  let d := { d with next := Function.update d.next x d.head, prev := Function.update d.prev x none }
  let d := match d.head with
    | some h => { d with prev := Function.update d.prev h (some x) }
    | none => d
  let d := { d with head := some x }
  if d.tail = none then { d with tail := some x } else d

/-- A node becomes the tail, and the head if there is none. -/
def linkBack (d : Dll ρ) (x : ρ) : Dll ρ :=
  let d := { d with prev := Function.update d.prev x d.tail, next := Function.update d.next x none }
  let d := match d.tail with
    | some t => { d with next := Function.update d.next t (some x) }
    | none => d
  let d := { d with tail := some x }
  if d.head = none then { d with head := some x } else d

/-- A node moves to the front. -/
def moveToFront (d : Dll ρ) (x : ρ) : Dll ρ := (d.unlink x).linkFront x

/-- The tail is unlinked. -/
def pop (d : Dll ρ) : Dll ρ × Option ρ :=
  match d.tail with
  | some x => (d.unlink x, some x)
  | none => (d, none)

section Pointers

variable (d : Dll ρ) (o o' v : Option ρ)

theorem after_setAfter : (d.setAfter o v).after o' = if o' = o then v else d.after o' := by
  cases o <;> cases o' <;> simp [setAfter, after, Function.update_apply]

@[simp] theorem before_setAfter : (d.setAfter o v).before = d.before := by
  cases o <;> rfl

theorem before_setBefore : (d.setBefore o v).before o' = if o' = o then v else d.before o' := by
  cases o <;> cases o' <;> simp [setBefore, before, Function.update_apply]

@[simp] theorem after_setBefore : (d.setBefore o v).after = d.after := by
  cases o <;> rfl

end Pointers

section Unlink

variable {d : Dll ρ} {l r : List ρ} {x : ρ}

/-- The two neighbours of a node once it is unlinked. -/
theorem after_unlink (o : Option ρ) :
    (d.unlink x).after o =
      if o = some x then none else if o = d.prev x then d.next x else d.after o := by
  unfold unlink
  simp only [after_setAfter, after_setBefore]

theorem before_unlink (o : Option ρ) :
    (d.unlink x).before o =
      if o = some x then none else if o = d.next x then d.prev x else d.before o := by
  have hprev : (d.setAfter (d.prev x) (d.next x)).prev x = d.prev x :=
    congrFun (before_setAfter d (d.prev x) (d.next x)) (some x)
  have hnext : (d.setAfter (d.prev x) (d.next x)).next x = d.next x := by
    have := after_setAfter d (d.prev x) (some x) (d.next x)
    split at this <;> exact this
  unfold unlink
  simp only [before_setAfter, before_setBefore, hprev, hnext]

/-- A node of the list leaves it. -/
theorem Links.unlink (h : d.Links (l ++ x :: r)) : (d.unlink x).Links (l ++ r) := by
  have hx : x ∉ l ++ r := (List.nodup_middle.mp h.nodup |> List.nodup_cons.mp).1
  have hnodup : (l ++ r).Nodup := (List.nodup_middle.mp h.nodup |> List.nodup_cons.mp).2
  refine ⟨hnodup, fun l' r' heq => ?_⟩
  have hl' : l'.getLast? ≠ some x := fun he =>
    hx (heq ▸ List.mem_append_left _ (List.mem_of_getLast? he))
  have hr' : r'.head? ≠ some x := fun he =>
    hx (heq ▸ List.mem_append_right _ (List.mem_of_head? he))
  rw [after_unlink, before_unlink, h.prev_eq, h.next_eq, if_neg hl', if_neg hr']
  rcases List.append_eq_append_iff.mp heq with ⟨m, rfl, rfl⟩ | ⟨m, rfl, rfl⟩
  · rcases eq_or_ne m [] with rfl | hm
    · simp
    · -- a cut behind the node is a cut of the old list as well
      have hnodup' : (l ++ m).Nodup := hnodup.sublist (by simp)
      have hlast : (l ++ x :: m).getLast? = (l ++ m).getLast? := by
        rw [List.append_cons, List.getLast?_append_of_ne_nil _ hm,
          List.getLast?_append_of_ne_nil _ hm]
      have hcut := h.cut (l ++ x :: m) r' (by simp)
      rw [hlast] at hcut
      rw [if_neg (getLast?_append_ne hnodup' hm),
        if_neg (head?_append_ne (hnodup.sublist (List.sublist_append_right _ _)) hm)]
      exact hcut
  · rcases eq_or_ne m [] with rfl | hm
    · simp
    · have hnodup' : (m ++ r).Nodup := hnodup.sublist (by simp)
      have hhead : (m ++ x :: r).head? = (m ++ r).head? := by
        rw [List.head?_append_of_ne_nil _ hm, List.head?_append_of_ne_nil _ hm]
      have hcut := h.cut l' (m ++ x :: r) (by simp)
      rw [hhead] at hcut
      rw [if_neg (getLast?_append_ne (hnodup.sublist (List.sublist_append_left _ _)) hm).symm,
        if_neg (head?_append_ne hnodup' hm).symm]
      exact hcut

end Unlink

section Link

variable {d : Dll ρ} {xs : List ρ} {x : ρ}

/-- What follows a node once another one is put in front. -/
theorem after_linkFront (o : Option ρ) :
    (d.linkFront x).after o =
      if o = none then some x else if o = some x then d.head else d.after o := by
  unfold linkFront
  cases hh : d.head <;> cases ht : d.tail <;> cases o <;>
    simp [after, Function.update_apply]

theorem before_linkFront (hends : d.head = none ↔ d.tail = none) (o : Option ρ) :
    (d.linkFront x).before o =
      if o = d.head then some x else if o = some x then none else d.before o := by
  unfold linkFront
  cases hh : d.head <;> cases ht : d.tail <;> cases o <;>
    simp_all [before, Function.update_apply]

/-- A new node comes to the front. -/
theorem Links.linkFront (h : d.Links xs) (hx : x ∉ xs) : (d.linkFront x).Links (x :: xs) := by
  have hends : d.head = none ↔ d.tail = none := by
    rw [h.head_eq, h.tail_eq, List.head?_eq_none_iff, List.getLast?_eq_none_iff]
  refine ⟨List.nodup_cons.mpr ⟨hx, h.nodup⟩, fun l r he => ?_⟩
  rw [after_linkFront, before_linkFront hends, h.head_eq]
  cases l with
  | nil =>
    subst he
    have hne : xs.head? ≠ some x := fun hhead => hx (List.mem_of_head? hhead)
    simp [hne.symm]
  | cons y l =>
    obtain ⟨rfl, rfl⟩ : x = y ∧ xs = l ++ r := List.cons.inj he
    have hr : r.head? ≠ some x := fun hhead =>
      hx (List.mem_append_right _ (List.mem_of_head? hhead))
    rcases eq_or_ne l [] with rfl | hl
    · simp
    · have hlast : (x :: l).getLast? = l.getLast? := by
        rw [← List.singleton_append, List.getLast?_append_of_ne_nil _ hl]
      obtain ⟨z, hz⟩ := Option.ne_none_iff_exists'.mp (mt List.getLast?_eq_none_iff.mp hl)
      have hzx : z ≠ x := fun hzx =>
        hx (hzx ▸ List.mem_append_left _ (List.mem_of_getLast? hz))
      have hcut := h.cut l r rfl
      rw [hlast, if_neg (head?_append_ne h.nodup hl), if_neg hr, hz]
      rw [hz] at hcut
      simpa [hzx] using hcut

/-- Putting a node at the end is putting it in front of the list read backwards. -/
theorem linkBack_eq : d.linkBack x = (d.flip.linkFront x).flip := by
  unfold linkBack linkFront flip
  cases d.tail <;> cases d.head <;> rfl

theorem Links.linkBack (h : d.Links xs) (hx : x ∉ xs) : (d.linkBack x).Links (xs ++ [x]) := by
  have hlink := (h.flip.linkFront (mt List.mem_reverse.mp hx)).flip
  rwa [List.reverse_cons, List.reverse_reverse, ← linkBack_eq] at hlink

theorem Links.moveToFront {l r : List ρ} (h : d.Links (l ++ x :: r)) :
    (d.moveToFront x).Links (x :: (l ++ r)) :=
  h.unlink.linkFront (List.nodup_cons.mp (List.nodup_middle.mp h.nodup)).1

/-- The empty list has nothing to pop. -/
theorem Links.pop_nil (h : d.Links []) : d.pop = (d, none) := by
  rw [pop, h.tail_eq]
  rfl

theorem Links.pop_concat (h : d.Links (xs ++ [x])) : d.pop = (d.unlink x, some x) := by
  rw [pop, h.tail_eq, List.getLast?_concat]

theorem Links.unlink_last (h : d.Links (xs ++ [x])) : (d.unlink x).Links xs := by
  have := Links.unlink (r := []) h
  rwa [List.append_nil] at this

end Link

end Dll

end Veld
