import Mathlib.Tactic.Basic

/-!
# Programs that fail

A program runs on a state and may fail, and then it leaves the state it had reached. A view
of the state is safe from a program that changes it only after everything that can fail. A
transaction runs a program on a copy, which replaces the state only if the program and the
commit succeed.
-/

namespace Veld

variable {ε ε' σ τ ν α β : Type}

/-- Where the program fails, the view is as it was. -/
def FailsClean (view : σ → ν) (m : EStateM ε σ α) : Prop :=
  ∀ s e s', m.run s = .error e s' → view s' = view s

/-- The program never changes the view. -/
def Reads (view : σ → ν) (m : EStateM ε σ α) : Prop :=
  FailsClean view m ∧ ∀ s a s', m.run s = .ok a s' → view s' = view s

def Infallible (m : EStateM ε σ α) : Prop := ∀ s e s', m.run s ≠ .error e s'

/-- The error a run ends with. -/
def errorOf : EStateM.Result ε σ α → Option ε
  | .ok _ _ => none
  | .error e _ => some e

/-- The result of a check that reads no state. -/
def ofExcept : Except ε α → EStateM ε σ α
  | .ok a => pure a
  | .error e => throw e

/-- The body runs on a copy of the state. -/
def transact (commit : σ → Except ε Unit) (body : EStateM ε σ α) : EStateM ε σ α := fun s =>
  match body.run s with
  | .error e _ => .error e s
  | .ok a s' =>
    match commit s' with
    | .error e => .error e s
    | .ok () => .ok a s'

/-- A program on a part of the state. -/
def within (get : σ → τ) (set : σ → τ → σ) (m : EStateM ε τ α) : EStateM ε σ α := fun s =>
  match m.run (get s) with
  | .error e t => .error e (set s t)
  | .ok a t => .ok a (set s t)

section Rules

variable {view : σ → ν} {m : EStateM ε σ α} {f : α → EStateM ε σ β} {s s' : σ} {e : ε} {a : α}
  {commit : σ → Except ε Unit} {t : τ}

theorem run_bind_of_ok (h : m.run s = .ok a s') : (m >>= f).run s = (f a).run s' := by
  rw [EStateM.run_bind, h]

theorem run_bind_of_error (h : m.run s = .error e s') : (m >>= f).run s = .error e s' := by
  rw [EStateM.run_bind, h]

theorem run_bind_eq_error : (m >>= f).run s = .error e s' ↔
    m.run s = .error e s' ∨ ∃ a s₁, m.run s = .ok a s₁ ∧ (f a).run s₁ = .error e s' := by
  cases h : m.run s with
  | ok a s₁ =>
    rw [run_bind_of_ok h]
    constructor
    · exact fun hf => .inr ⟨a, s₁, rfl, hf⟩
    · rintro (hm | ⟨_, _, hm, hf⟩)
      · cases hm
      · cases hm
        exact hf
  | error e₁ s₁ =>
    rw [run_bind_of_error h]
    constructor
    · intro hf
      cases hf
      exact .inl rfl
    · rintro (hm | ⟨_, _, hm, -⟩)
      · cases hm
        rfl
      · cases hm

theorem exists_of_errorOf (h : errorOf (m.run s) = some e) : ∃ s', m.run s = .error e s' := by
  cases hrun : m.run s with
  | ok a s' =>
    rw [hrun] at h
    cases h
  | error e' s' =>
    rw [hrun] at h
    cases h
    exact ⟨s', rfl⟩

theorem run_ofExcept {x : Except ε α} (h : x = .ok a) :
    (ofExcept x : EStateM ε σ α).run s = .ok a s := by
  rw [h]
  rfl

theorem infallible_pure (a : α) : Infallible (pure a : EStateM ε σ α) := by
  intro s e s' h
  cases h

theorem infallible_get : Infallible (get : EStateM ε σ σ) := by
  intro s e s' h
  cases h

theorem infallible_modifyGet (g : σ → α × σ) : Infallible (modifyGet g : EStateM ε σ α) := by
  intro s e s' h
  cases h

theorem Infallible.failsClean (h : Infallible m) : FailsClean view m :=
  fun s e s' hrun => absurd hrun (h s e s')

theorem reads_get : Reads view (get : EStateM ε σ σ) := by
  refine ⟨infallible_get.failsClean, fun s a s' h => ?_⟩
  cases h
  rfl

theorem reads_modifyGet {g : σ → α × σ} (h : ∀ s, view (g s).2 = view s) :
    Reads view (modifyGet g : EStateM ε σ α) := by
  refine ⟨(infallible_modifyGet g).failsClean, fun s a s' hrun => ?_⟩
  cases hrun
  exact h s

theorem reads_ofExcept (x : Except ε α) : Reads view (ofExcept x : EStateM ε σ α) := by
  constructor
  · intro s e s' h
    cases x with
    | ok a => cases h
    | error e =>
      cases h
      rfl
  · intro s a s' h
    cases x with
    | ok a =>
      cases h
      rfl
    | error e => cases h

theorem Infallible.bind (hm : Infallible m) (hf : ∀ a, Infallible (f a)) :
    Infallible (m >>= f) := by
  intro s e s' h
  rcases run_bind_eq_error.mp h with h | ⟨a, s₁, -, h⟩
  · exact hm s e s' h
  · exact hf a s₁ e s' h

/-- What changes nothing may come first. -/
theorem Reads.bind (hm : Reads view m) (hf : ∀ a, FailsClean view (f a)) :
    FailsClean view (m >>= f) := by
  intro s e s' h
  rcases run_bind_eq_error.mp h with h | ⟨a, s₁, hok, h⟩
  · exact hm.1 s e s' h
  · exact (hf a s₁ e s' h).trans (hm.2 s a s₁ hok)

/-- What cannot fail may come last. -/
theorem FailsClean.bind (hm : FailsClean view m) (hf : ∀ a, Infallible (f a)) :
    FailsClean view (m >>= f) := by
  intro s e s' h
  rcases run_bind_eq_error.mp h with h | ⟨a, s₁, -, h⟩
  · exact hm s e s' h
  · exact absurd h (hf a s₁ e s')

theorem run_adaptExcept (h : m.run s = .ok a s') (g : ε → ε') :
    (m.adaptExcept g).run s = .ok a s' := by
  rw [EStateM.run] at h ⊢
  rw [EStateM.adaptExcept, h]

theorem run_adaptExcept_error (h : m.run s = .error e s') (g : ε → ε') :
    (m.adaptExcept g).run s = .error (g e) s' := by
  rw [EStateM.run] at h ⊢
  rw [EStateM.adaptExcept, h]

theorem FailsClean.adaptExcept (h : FailsClean view m) (g : ε → ε') :
    FailsClean view (m.adaptExcept g) := by
  intro s e s' hrun
  cases hm : m.run s with
  | ok a s₁ =>
    rw [run_adaptExcept hm] at hrun
    cases hrun
  | error e₁ s₁ =>
    rw [run_adaptExcept_error hm] at hrun
    cases hrun
    exact h s e₁ _ hm

theorem transact_of_error (h : m.run s = .error e s') : (transact commit m).run s = .error e s := by
  rw [EStateM.run, transact, h]

theorem transact_of_ok (h : m.run s = .ok a s')
    (hcommit : commit s' = .ok ()) : (transact commit m).run s = .ok a s' := by
  rw [EStateM.run, transact, h]
  simp only [hcommit]

/-- A transaction that fails leaves everything, wherever its body had come. -/
theorem failsClean_transact (commit : σ → Except ε Unit) (body : EStateM ε σ α) :
    FailsClean id (transact commit body) := by
  intro s e s' h
  cases hbody : body.run s with
  | error e₁ s₁ =>
    rw [transact_of_error hbody] at h
    cases h
    rfl
  | ok a s₁ =>
    rw [EStateM.run, transact, hbody] at h
    cases hcommit : commit s₁ with
    | error e₁ =>
      simp only [hcommit] at h
      cases h
      rfl
    | ok u =>
      simp only [hcommit] at h
      cases h

variable {part : σ → τ} {put : σ → τ → σ} {n : EStateM ε τ α}

theorem FailsClean.within (h : FailsClean id n) (hput : ∀ s, put s (part s) = s) :
    FailsClean view (Veld.within part put n) := by
  intro s e s' hrun
  rw [EStateM.run, Veld.within] at hrun
  cases hn : n.run (part s) with
  | ok a t =>
    rw [hn] at hrun
    cases hrun
  | error e₁ t =>
    rw [hn] at hrun
    cases hrun
    have ht : t = part s := h _ _ _ hn
    rw [ht, hput]

theorem within_of_ok (h : n.run (part s) = .ok a t) :
    (within part put n).run s = .ok a (put s t) := by
  rw [EStateM.run, within, h]

theorem within_of_error (h : n.run (part s) = .error e t) :
    (within part put n).run s = .error e (put s t) := by
  rw [EStateM.run, within, h]

end Rules

end Veld
