import Mathlib.Data.List.Forall2
import Veld.Core.Assoc

/-!
# Computations that check their input

What a checked computation in `Except` says when it succeeds: the steps of a sequence
all did, a loop over a list related each element to its result, and a loop that fills a
map with new keys left exactly the values it computed.
-/

namespace Veld

variable {ε ε' α β : Type} {x : Except ε α} {f : α → Except ε β} {b : β} {a : α}

theorem bind_eq_ok : x >>= f = .ok b ↔ ∃ a, x = .ok a ∧ f a = .ok b := by
  cases x with
  | error e => exact ⟨nofun, nofun⟩
  | ok a => exact ⟨fun h => ⟨a, rfl, h⟩, fun ⟨_, rfl, h⟩ => h⟩

/-- A check that throws before the rest of a sequence. -/
theorem guard_eq_ok {c : Prop} [Decidable c] {e : ε} {k : β → Except ε α} :
    (if c then throw e >>= k else x) = .ok a ↔ ¬c ∧ x = .ok a := by
  by_cases hc : c
  · rw [if_pos hc]
    exact ⟨nofun, fun h => absurd hc h.1⟩
  · rw [if_neg hc]
    exact ⟨fun h => ⟨hc, h⟩, fun h => h.2⟩

theorem mapError_eq_ok {f : ε → ε'} : x.mapError f = .ok a ↔ x = .ok a := by
  cases x with
  | error e => exact ⟨nofun, nofun⟩
  | ok b => exact ⟨fun h => by cases h; rfl, fun h => by cases h; rfl⟩

theorem exists_of_toOption_map {f : α → β}
    (h : x.toOption.map f = some b) : ∃ a, x = .ok a ∧ f a = b := by
  cases x with
  | error e => cases h
  | ok a => exact ⟨a, rfl, Option.some.inj h⟩

theorem mapM_eq_ok {as : List α} {bs : List β} :
    as.mapM f = .ok bs ↔ List.Forall₂ (fun a b => f a = .ok b) as bs := by
  induction as generalizing bs with
  | nil =>
    rw [List.mapM_nil, List.forall₂_nil_left_iff]
    exact ⟨fun h => by cases h; rfl, fun h => by cases h; rfl⟩
  | cons a as ih =>
    rw [List.mapM_cons, bind_eq_ok, List.forall₂_cons_left_iff]
    constructor
    · rintro ⟨b, hb, hrest⟩
      obtain ⟨bs', hbs, hcons⟩ := bind_eq_ok.mp hrest
      exact ⟨b, bs', hb, ih.mp hbs, by cases hcons; rfl⟩
    · rintro ⟨b, bs', hb, hbs, rfl⟩
      exact ⟨b, hb, bind_eq_ok.mpr ⟨bs', ih.mpr hbs, rfl⟩⟩

section Related

variable {R : α → β → Prop} {as : List α} {bs : List β} {a : α}

theorem exists_getElem?_of_forall₂ (h : List.Forall₂ R as bs) {i : Nat} (ha : as[i]? = some a) :
    ∃ b, bs[i]? = some b ∧ R a b := by
  induction h generalizing i with
  | nil => cases ha
  | cons hab _ ih =>
    cases i with
    | zero =>
      cases ha
      exact ⟨_, rfl, hab⟩
    | succ i => exact ih ha

theorem exists_mem_of_forall₂ (h : List.Forall₂ R as bs) (ha : a ∈ as) : ∃ b ∈ bs, R a b := by
  obtain ⟨i, hi⟩ := List.mem_iff_getElem?.mp ha
  obtain ⟨b, hb, hab⟩ := exists_getElem?_of_forall₂ h hi
  exact ⟨b, List.mem_of_getElem? hb, hab⟩

end Related

section Fill

variable {κ : Type} [DecidableEq κ] {γ : Type}

/-- A loop that inserts under keys that are not there yet. -/
theorem lookup_foldlM_insert
    {step : (AList fun _ : κ => β) → (Σ _ : κ, γ) → Except ε (AList fun _ : κ => β)}
    {f : (Σ _ : κ, γ) → Except ε β}
    (hstep : ∀ m e m', step m e = .ok m' → ∃ v, f e = .ok v ∧ m.lookup e.1 = none ∧
      m' = m.insert e.1 v)
    {entries : List (Σ _ : κ, γ)} {m m' : AList fun _ : κ => β}
    (h : entries.foldlM step m = .ok m') (k : κ) (v : β) :
    m'.lookup k = some v ↔ m.lookup k = some v ∨ ∃ e ∈ entries, e.1 = k ∧ f e = .ok v := by
  induction entries generalizing m with
  | nil =>
    rw [List.foldlM_nil] at h
    cases h
    simp
  | cons e entries ih =>
    rw [List.foldlM_cons] at h
    obtain ⟨m₁, hm₁, hrest⟩ := bind_eq_ok.mp h
    obtain ⟨w, hw, hnew, rfl⟩ := hstep m e m₁ hm₁
    rw [ih hrest, lookup_insert_eq_some, List.exists_mem_cons_iff, hw]
    constructor
    · rintro ((⟨rfl, rfl⟩ | ⟨-, hv⟩) | hlater)
      · exact .inr (.inl ⟨rfl, rfl⟩)
      · exact .inl hv
      · exact .inr (.inr hlater)
    · rintro (hv | ⟨rfl, hv⟩ | hlater)
      · refine .inl (.inr ⟨?_, hv⟩)
        rintro rfl
        rw [hnew] at hv
        cases hv
      · cases hv
        exact .inl (.inl ⟨rfl, rfl⟩)
      · exact .inr hlater

end Fill

end Veld
