import Mathlib.Data.List.Induction

/-!
# Runs of a deterministic system

A system is a function from a state and an input to the next state. `run` takes
the inputs one after another, `trail` lists the steps of a run, each as the
state it started in and its input. Conditions on a run are conditions on the
steps of its trail, and what a run keeps is proved by one induction, in which
the invariant may speak about the trail so far. `Ends` is what every run reaches in the
end. Clock readings are integers, in nanoseconds.
-/

namespace Veld

/-- `time.Second`. -/
def second : Int := 1000000000

/-- `time.Millisecond`. -/
def millisecond : Int := 1000000

section Run

variable {σ ι : Type} (next : σ → ι → σ) {i : ι} {is : List ι}

/-- The state after all inputs. -/
def run (s : σ) (is : List ι) : σ := is.foldl next s

/-- The steps of a run: the state before each input, with that input. -/
def trail (s : σ) : List ι → List (σ × ι)
  | [] => []
  | i :: is => (s, i) :: trail (next s i) is

/-- Every step of the run meets a condition on its input and the state before it. -/
def Along (cond : σ → ι → Prop) (s : σ) (is : List ι) : Prop :=
  ∀ x ∈ trail next s is, cond x.1 x.2

/-- Every step of the run meets a condition that may also mention the steps before it. -/
def Throughout (cond : List (σ × ι) → σ → ι → Prop) (s : σ) (is : List ι) : Prop :=
  ∀ past i rest, is = past ++ i :: rest → cond (trail next s past) (run next s past) i

variable {next} {s : σ} {cond cond' : σ → ι → Prop}

@[simp] theorem run_nil : run next s [] = s := rfl

@[simp] theorem run_cons (i : ι) (is : List ι) : run next s (i :: is) = run next (next s i) is :=
  rfl

@[simp] theorem trail_cons (i : ι) (is : List ι) :
    trail next s (i :: is) = (s, i) :: trail next (next s i) is := rfl

theorem run_append (is js : List ι) : run next s (is ++ js) = run next (run next s is) js :=
  List.foldl_append

theorem run_snoc (is : List ι) (i : ι) : run next s (is ++ [i]) = next (run next s is) i :=
  run_append is [i]

theorem trail_append (is js : List ι) :
    trail next s (is ++ js) = trail next s is ++ trail next (run next s is) js := by
  induction is generalizing s with
  | nil => rfl
  | cons i is ih => rw [List.cons_append, trail_cons, ih, trail_cons, run_cons, List.cons_append]

theorem trail_snoc (is : List ι) (i : ι) :
    trail next s (is ++ [i]) = trail next s is ++ [(run next s is, i)] :=
  trail_append is [i]

instance [∀ s i, Decidable (cond s i)] (is : List ι) : Decidable (Along next cond s is) :=
  inferInstanceAs (Decidable (∀ x ∈ trail next s is, cond x.1 x.2))

@[simp] theorem along_nil : Along next cond s [] := nofun

@[simp] theorem along_cons :
    Along next cond s (i :: is) ↔ cond s i ∧ Along next cond (next s i) is :=
  List.forall_mem_cons

theorem along_append {is js : List ι} :
    Along next cond s (is ++ js) ↔
      Along next cond s is ∧ Along next cond (run next s is) js := by
  simp only [Along, trail_append, List.forall_mem_append]

theorem along_snoc :
    Along next cond s (is ++ [i]) ↔ Along next cond s is ∧ cond (run next s is) i := by
  rw [along_append, along_cons]
  exact and_congr_right' (and_iff_left along_nil)

theorem Along.mono {is : List ι} (h : Along next cond s is)
    (himp : ∀ s i, cond s i → cond' s i) : Along next cond' s is :=
  fun x hx => himp x.1 x.2 (h x hx)

/-- What holds at the start and is kept by every step that meets the condition
holds after every run of such steps. The invariant may mention the trail. -/
theorem Along.invariant (inv : List (σ × ι) → σ → Prop) {is : List ι}
    (h : Along next cond s is) (start : inv [] s)
    (step : ∀ past s i, inv past s → cond s i → inv (past ++ [(s, i)]) (next s i)) :
    inv (trail next s is) (run next s is) := by
  induction is using List.reverseRecOn with
  | nil => exact start
  | append_singleton is i ih =>
    obtain ⟨hpast, hi⟩ := along_snoc.mp h
    rw [trail_snoc, run_snoc]
    exact step _ _ i (ih hpast) hi

/-- The invariant rule for invariants of the state alone. -/
theorem Along.keeps (inv : σ → Prop) {is : List ι} (h : Along next cond s is) (start : inv s)
    (step : ∀ s i, inv s → cond s i → inv (next s i)) : inv (run next s is) :=
  Along.invariant (fun _ => inv) h start fun _ => step

/-- Such an invariant holds before every step of the run. -/
theorem Along.keeps_trail (inv : σ → Prop) (h : Along next cond s is) (start : inv s)
    (step : ∀ s i, inv s → cond s i → inv (next s i)) : ∀ x ∈ trail next s is, inv x.1 := by
  induction is generalizing s with
  | nil => exact List.forall_mem_nil _
  | cons i is ih =>
    obtain ⟨hi, his⟩ := along_cons.mp h
    rw [trail_cons, List.forall_mem_cons]
    exact ⟨start, ih his (step s i start hi)⟩

/-- Steps that each leave less to do are not more than there is to do. -/
theorem Along.length_le (work : σ → Nat) (h : Along next cond s is)
    (step : ∀ s i, cond s i → work (next s i) < work s) : is.length ≤ work s := by
  induction is generalizing s with
  | nil => exact Nat.zero_le _
  | cons i is ih =>
    obtain ⟨hi, his⟩ := along_cons.mp h
    have hrest := ih his
    have hlt := step s i hi
    rw [List.length_cons]
    omega

@[simp] theorem length_trail (is : List ι) : (trail next s is).length = is.length := by
  induction is generalizing s with
  | nil => rfl
  | cons i is ih => rw [trail_cons, List.length_cons, ih, List.length_cons]

theorem snd_mem_of_mem_trail {x : σ × ι} (h : x ∈ trail next s is) : x.2 ∈ is := by
  induction is generalizing s with
  | nil => cases h
  | cons i is ih =>
    rcases List.mem_cons.mp h with rfl | h
    · exact List.mem_cons_self
    · exact List.mem_cons_of_mem _ (ih h)

theorem throughout_nil {cond : List (σ × ι) → σ → ι → Prop} : Throughout next cond s [] :=
  fun _ _ _ h => absurd h (by simp)

theorem throughout_snoc {cond : List (σ × ι) → σ → ι → Prop} : Throughout next cond s (is ++ [i]) ↔
      Throughout next cond s is ∧ cond (trail next s is) (run next s is) i := by
  constructor
  · intro h
    refine ⟨fun past j rest he => h past j (rest ++ [i]) ?_, h is i [] rfl⟩
    rw [he, List.append_assoc, List.cons_append]
  · rintro ⟨h, hi⟩ past j rest he
    rcases List.eq_nil_or_concat rest with rfl | ⟨rest', k, rfl⟩
    · obtain ⟨rfl, hj⟩ := List.append_inj' he rfl
      obtain rfl : i = j := List.cons.inj hj |>.1
      exact hi
    · rw [List.concat_eq_append, ← List.cons_append, ← List.append_assoc] at he
      obtain ⟨rfl, -⟩ := List.append_inj' he rfl
      exact h past j rest' rfl

theorem throughout_iff_forall_fin {cond : List (σ × ι) → σ → ι → Prop} :
    Throughout next cond s is ↔ ∀ k : Fin is.length,
      cond (trail next s (is.take k)) (run next s (is.take k)) (is.get k) := by
  constructor
  · intro h k
    apply h _ _ (is.drop (k + 1))
    rw [List.get_eq_getElem, ← List.drop_eq_getElem_cons k.isLt, List.take_append_drop]
  · rintro h past i rest rfl
    have hk : past.length < (past ++ i :: rest).length := by
      rw [List.length_append, List.length_cons]
      omega
    simpa using h ⟨past.length, hk⟩

instance {cond : List (σ × ι) → σ → ι → Prop} [∀ past s i, Decidable (cond past s i)]
    (is : List ι) : Decidable (Throughout next cond s is) :=
  decidable_of_iff _ throughout_iff_forall_fin.symm

/-- The invariant rule for conditions that mention the past of the run. -/
theorem Throughout.invariant {cond : List (σ × ι) → σ → ι → Prop}
    (inv : List (σ × ι) → σ → Prop) {is : List ι} (h : Throughout next cond s is)
    (start : inv [] s)
    (step : ∀ past s i, inv past s → cond past s i → inv (past ++ [(s, i)]) (next s i)) :
    inv (trail next s is) (run next s is) := by
  induction is using List.reverseRecOn with
  | nil => exact start
  | append_singleton is i ih =>
    obtain ⟨hpast, hi⟩ := throughout_snoc.mp h
    rw [trail_snoc, run_snoc]
    exact step _ _ i (ih hpast) hi

end Run

section Ends

variable {σ ι : Type} (next : σ → ι → σ)

/-- Whatever the inputs are, a state of some kind is reached. -/
inductive Ends (goal : σ → Prop) : σ → Prop
  | here {s : σ} (h : goal s) : Ends goal s
  | step {s : σ} (h : ∀ i, Ends goal (next s i)) : Ends goal s

variable {next} {goal goal' : σ → Prop} {s s' : σ}

/-- A step that does not depend on the input. -/
theorem Ends.of_next (h : ∀ i, next s i = s') (hends : Ends next goal s') : Ends next goal s :=
  .step fun i => h i ▸ hends

/-- With any sequence of inputs there is a first part that reaches the goal. -/
theorem Ends.exists_run (h : Ends next goal s) (f : Nat → ι) :
    ∃ n, goal (run next s ((List.range n).map f)) := by
  induction h generalizing f with
  | here h => exact ⟨0, h⟩
  | step _ ih =>
    obtain ⟨n, hn⟩ := ih (f 0) fun n => f (n + 1)
    refine ⟨n + 1, ?_⟩
    rw [List.range_succ_eq_map, List.map_cons, List.map_map, run_cons]
    exact hn

end Ends

end Veld
