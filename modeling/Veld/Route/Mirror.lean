import Veld.Route.Manager

/-!
# Announced and installed routes

What it means that the kernel has the routes the peers announce, over any set of
peers, and when adding the routes of one peer or removing them keeps it so. The
invariant also says what the manager remembers: a route is a peer's own there
unless another peer announces it too.
-/

namespace Veld.Route

open Netip

variable {κ : Type} (ok : Prefix → Prop) (A : κ → Option (Addr × List Prefix))

/-- A peer announces an acceptable route through its address. -/
def Announces (k : κ) (pfx : Prefix) (via : Addr) : Prop :=
  ∃ pfxs, A k = some (via, pfxs) ∧ pfx ∈ pfxs ∧ ok pfx

/-- Another peer announces the same route. -/
def Shared (k : κ) (pfx : Prefix) : Prop :=
  ∃ k' pfx' via', k' ≠ k ∧ Announces ok A k' pfx' via' ∧ pfx'.masked = pfx.masked

/-- The kernel has the routes that are announced and no others, each through a peer that
announces it. -/
structure Mirrors (m : Manager) : Prop where
  installed : ∀ dst gw, m.kernel.lookup dst = some gw →
    ∃ k pfx via, Announces ok A k pfx via ∧ pfx.masked = dst ∧ gateway via = gw
  announced : ∀ k pfx via, Announces ok A k pfx via → (m.kernel.lookup pfx.masked).isSome

/-- Moreover the manager remembers a peer's own routes as the peer's. -/
structure Tracks (m : Manager) : Prop extends Mirrors ok A m where
  acceptable : ∀ pfx via, m.routes.lookup pfx = some via → ok pfx
  own : ∀ k pfx via, Announces ok A k pfx via →
    Shared ok A k pfx ∨ m.routes.lookup pfx = some via

variable {ok A} [DecidableEq κ] {m : Manager} {k k' : κ} {pfx : Prefix} {via v : Addr}
  {pfxs : List Prefix}

omit [DecidableEq κ] in
theorem Announces.of_some (h : Announces ok A k pfx v) (hA : A k = some (via, pfxs)) :
    v = via ∧ pfx ∈ pfxs ∧ ok pfx := by
  obtain ⟨l, hl, hmem, hok⟩ := h
  obtain ⟨rfl, rfl⟩ := Prod.mk.inj (Option.mem_unique hl hA)
  exact ⟨rfl, hmem, hok⟩

theorem announces_update_of_ne {x : Option (Addr × List Prefix)} (hk : k' ≠ k) :
    Announces ok (Function.update A k x) k' pfx v ↔ Announces ok A k' pfx v := by
  rw [Announces, Announces, Function.update_of_ne hk]

/-- A peer's routes are added after it announced at least the ones it had. -/
theorem Tracks.join [DecidablePred ok] (h : Tracks ok A m) (via : Addr)
    (hkeep : ∀ pfx v, Announces ok A k pfx v → ∃ q ∈ pfxs, ok q ∧ q.masked = pfx.masked) :
    Tracks ok (Function.update A k (some (via, pfxs))) (m.addAll ok via pfxs) := by
  have hself {q : Prefix} (hq : q ∈ pfxs) (hok : ok q) :
      Announces ok (Function.update A k (some (via, pfxs))) k q via :=
    ⟨pfxs, Function.update_self .., hq, hok⟩
  constructor
  · constructor
    · intro dst gw hgw
      rw [Manager.lookup_kernel_addAll] at hgw
      split at hgw
      · rename_i hex
        obtain ⟨q, hq, hok, hdst⟩ := hex
        exact ⟨k, q, via, hself hq hok, hdst, Option.some.inj hgw⟩
      · rename_i hnew
        obtain ⟨k', q, v, hann, hdst, hv⟩ := h.installed dst gw hgw
        have hk : k' ≠ k := by
          rintro rfl
          obtain ⟨q', hq', hok, hmask⟩ := hkeep q v hann
          exact hnew ⟨q', hq', hok, hmask.trans hdst⟩
        exact ⟨k', q, v, (announces_update_of_ne hk).mpr hann, hdst, hv⟩
    · intro k' q v hann
      rw [Manager.lookup_kernel_addAll]
      split
      · rfl
      · rename_i hnew
        by_cases hk : k' = k
        · subst hk
          obtain ⟨-, hq, hok⟩ := hann.of_some (Function.update_self ..)
          exact absurd ⟨q, hq, hok, rfl⟩ hnew
        · exact h.announced k' q v ((announces_update_of_ne hk).mp hann)
  · intro q v hv
    rw [Manager.lookup_routes_addAll] at hv
    split at hv
    · rename_i hq
      exact hq.2
    · exact h.acceptable q v hv
  · intro k' q v hann
    rw [Manager.lookup_routes_addAll]
    by_cases hk : k' = k
    · subst hk
      obtain ⟨rfl, hq⟩ := hann.of_some (Function.update_self ..)
      exact .inr (if_pos hq)
    · have hold := (announces_update_of_ne hk).mp hann
      split
      · -- the new entry announces the very prefix
        rename_i hq
        exact .inl ⟨k, q, via, Ne.symm hk, hself hq.1 hq.2, rfl⟩
      · refine (h.own k' q v hold).imp_left ?_
        rintro ⟨k'', q', v', hne, hann', hmask⟩
        by_cases hk' : k'' = k
        · subst hk'
          obtain ⟨q'', hq, hok, hmask'⟩ := hkeep q' v' hann'
          exact ⟨k'', q'', via, hne, hself hq hok, hmask'.trans hmask⟩
        · exact ⟨k'', q', v', hne, (announces_update_of_ne hk').mpr hann', hmask⟩

/-- The kernel has the routes of a peer through this peer if no other peer announces them. -/
theorem Tracks.takes (h : Tracks ok A m) (hann : Announces ok A k pfx via)
    (hown : ¬Shared ok A k pfx) : m.Takes pfx.masked pfx := by
  refine ⟨rfl, via, (h.own k pfx via hann).resolve_left hown, ?_⟩
  obtain ⟨gw, hgw⟩ := Option.isSome_iff_exists.mp (h.announced k pfx via hann)
  obtain ⟨k', q, v, hann', hmask, rfl⟩ := h.installed _ gw hgw
  by_cases hk : k' = k
  · subst hk
    obtain ⟨pfxs, hA, -⟩ := hann
    rw [hgw, (hann'.of_some hA).1]
  · exact absurd ⟨k', q, v, hk, hann', hmask⟩ hown

/-- A peer leaves that shares no route with another one. -/
theorem Tracks.leave (h : Tracks ok A m) (hA : A k = some (via, pfxs))
    (hown : ∀ pfx v, Announces ok A k pfx v → ¬Shared ok A k pfx) :
    Tracks ok (Function.update A k none) (m.removeAll pfxs) := by
  have hnone {q : Prefix} {v : Addr} : ¬Announces ok (Function.update A k none) k q v := by
    rintro ⟨l, hl, -⟩
    rw [Function.update_self] at hl
    cases hl
  -- what the prefixes of the peer take along are routes of the peer
  have hmine {q dst : Prefix} (hq : q ∈ pfxs) (htakes : m.Takes dst q) :
      Announces ok A k q via := by
    obtain ⟨-, v, hroute, -⟩ := htakes
    exact ⟨pfxs, hA, hq, h.acceptable q v hroute⟩
  have hother {k' : κ} {q : Prefix} {v : Addr} (hk : k' ≠ k) (hann : Announces ok A k' q v) :
      ∀ p ∈ pfxs, ¬m.Takes q.masked p := by
    intro p hp htakes
    exact hown p via (hmine hp htakes) ⟨k', q, v, hk, hann, htakes.1.symm⟩
  constructor
  · constructor
    · intro dst gw hgw
      have hkept : ∀ q ∈ pfxs, ¬m.Takes dst q := by
        intro q hq htakes
        rw [Manager.lookup_kernel_removeAll_of_takes hq htakes] at hgw
        cases hgw
      rw [Manager.lookup_kernel_removeAll_of_not hkept] at hgw
      obtain ⟨k', q, v, hann, rfl, hv⟩ := h.installed dst gw hgw
      have hk : k' ≠ k := by
        rintro rfl
        exact hkept q (hann.of_some hA).2.1 (h.takes hann (hown q v hann))
      exact ⟨k', q, v, (announces_update_of_ne hk).mpr hann, rfl, hv⟩
    · intro k' q v hann
      by_cases hk : k' = k
      · subst hk
        exact absurd hann hnone
      · have hold := (announces_update_of_ne hk).mp hann
        rw [Manager.lookup_kernel_removeAll_of_not (hother hk hold)]
        exact h.announced k' q v hold
  · intro q v hv
    rw [Manager.lookup_routes_removeAll] at hv
    split at hv
    · cases hv
    · exact h.acceptable q v hv
  · intro k' q v hann
    by_cases hk : k' = k
    · subst hk
      exact absurd hann hnone
    · have hold := (announces_update_of_ne hk).mp hann
      have hq : q ∉ pfxs := by
        intro hq
        have hok : ok q := hold.choose_spec.2.2
        exact hown q via ⟨pfxs, hA, hq, hok⟩ ⟨k', q, v, hk, hold, rfl⟩
      rw [Manager.lookup_routes_removeAll, if_neg hq]
      refine (h.own k' q v hold).imp_left ?_
      rintro ⟨k'', q', v', hne, hann', hmask⟩
      have hk' : k'' ≠ k := by
        rintro rfl
        exact hown q' v' hann' ⟨k', q, v, hk, hold, hmask.symm⟩
      exact ⟨k'', q', v', hne, (announces_update_of_ne hk').mpr hann', hmask⟩

/-- A peer without routes leaves nothing behind. -/
theorem Tracks.leave_of_none (h : Tracks ok A m) (hA : A k = none) :
    Tracks ok (Function.update A k none) m := by
  rwa [← hA, Function.update_eq_self]

end Veld.Route
