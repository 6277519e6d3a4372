import Mathlib.Data.List.AList
import Veld.Core.Assoc
import Veld.Core.Bytes
import Veld.Core.Overlap

/-!
# Routes of the operating system

`CheckPeerRoute` of `internal/route/route.go` and the Linux route manager of
`internal/route/route_linux.go` over a kernel that has one route for each masked
prefix and whose netlink calls succeed. The manager remembers its routes under
the prefixes as they were written, the kernel has them under the masked ones, so
two prefixes of the manager may stand for one route.
-/

namespace Veld.Route

open Netip

/-- `CheckPeerRoute`; `str` is the `String` method of a prefix. -/
def checkPeerRoute (str : Prefix → String) (pfx mesh : Prefix) : Except String Unit :=
  let addr := pfx.masked.ip
  let min := if addr.is4 then 8 else 16
  if !pfx.isValid then .error "invalid prefix"
  else if addr.is4In6 then .error (str pfx ++ ": IPv4-mapped prefixes are not supported")
  else if pfx.bits < min then .error (str pfx ++ ": broader than /" ++ toString min)
  else if addr.isLoopback || addr.isLinkLocalUnicast || addr.isMulticast ||
      addr.isInterfaceLocalMulticast || addr.isUnspecified then
    .error (str pfx ++ ": reserved address range")
  else if mesh.isValid && pfx.overlaps mesh.masked then
    .error (str pfx ++ ": overlaps the mesh " ++ str mesh.masked)
  else .ok ()

/-- A route beside the given mesh may be installed. -/
def Accepts (str : Prefix → String) (mesh pfx : Prefix) : Prop :=
  checkPeerRoute str pfx mesh = .ok ()

instance (str : Prefix → String) (mesh pfx : Prefix) : Decidable (Accepts str mesh pfx) :=
  decidable_of_iff ((checkPeerRoute str pfx mesh).toOption = some ()) <| by
    rw [Accepts]
    cases checkPeerRoute str pfx mesh <;> simp [Except.toOption]

/-- An installed route does not touch the mesh it was checked against. -/
theorem Accepts.not_overlaps {str : Prefix → String} {mesh pfx : Prefix}
    (h : Accepts str mesh pfx) : pfx.overlaps mesh.masked = false := by
  simp only [Accepts, checkPeerRoute, ite_error_eq_ok] at h
  obtain ⟨-, -, -, -, hmesh, -⟩ := h
  by_contra hover
  rw [Bool.not_eq_false] at hover
  have hvalid : mesh.isValid = true := by
    rw [← Prefix.isValid_masked]
    exact (Prefix.overlaps_iff.mp hover).2.1
  exact hmesh (by rw [hvalid, hover, Bool.and_self])

/-- The next hop as netlink is told it: the bytes of an address have no zone. -/
def gateway (via : Addr) : Addr := via.withoutZone

/-- `linuxManager`, with the routes of the kernel at its metric. -/
structure Manager where
  /-- The prefixes as they were added, with their next hops. -/
  routes : AList fun _ : Prefix => Addr := ∅
  /-- The kernel's next hop for each masked prefix. -/
  kernel : AList fun _ : Prefix => Addr := ∅

namespace Manager

/-- `RouteReplace`. -/
def routeReplace (m : Manager) (dst : Prefix) (gw : Addr) : Manager :=
  { m with kernel := m.kernel.insert dst gw }

/-- `RouteDel`: a route with another next hop stays. That there is no such route is not an error
for the manager. -/
def routeDel (m : Manager) (dst : Prefix) (gw : Addr) : Manager :=
  if m.kernel.lookup dst = some gw then { m with kernel := m.kernel.erase dst } else m

def add (m : Manager) (pfx : Prefix) (via : Addr) : Manager :=
  let m := m.routeReplace pfx.masked (gateway via)
  { m with routes := m.routes.insert pfx via }

def remove (m : Manager) (pfx : Prefix) : Manager :=
  match m.routes.lookup pfx with
  | none => m
  | some via =>
    let m := m.routeDel pfx.masked (gateway via)
    { m with routes := m.routes.erase pfx }

/-- The acceptable prefixes of a peer are added. -/
def addAll (ok : Prefix → Prop) [DecidablePred ok] (via : Addr) (m : Manager)
    (pfxs : List Prefix) : Manager :=
  pfxs.foldl (fun m pfx => if ok pfx then m.add pfx via else m) m

def removeAll (m : Manager) (pfxs : List Prefix) : Manager := pfxs.foldl remove m

variable {ok : Prefix → Prop} [DecidablePred ok] {via : Addr} {m : Manager} {pfxs : List Prefix}
  {pfx dst : Prefix}

theorem addAll_congr {p : Prefix → Prop} [DecidablePred p] (h : ∀ pfx, ok pfx ↔ p pfx) (via : Addr)
    (m : Manager) (pfxs : List Prefix) : m.addAll ok via pfxs = m.addAll p via pfxs := by
  simp only [addAll, h]

theorem routes_remove : (m.remove pfx).routes = m.routes.erase pfx := by
  unfold remove
  split
  · rename_i h
    exact (erase_of_lookup_none h).symm
  · rename_i gw h
    show (m.routeDel pfx.masked (gateway gw)).routes.erase pfx = m.routes.erase pfx
    unfold routeDel
    split <;> rfl

/-- A prefix takes its route along if the kernel still has it as the manager added it. -/
def Takes (m : Manager) (dst pfx : Prefix) : Prop :=
  pfx.masked = dst ∧ ∃ via, m.routes.lookup pfx = some via ∧ m.kernel.lookup dst = some (gateway via)

theorem lookup_kernel_remove_of_takes (h : m.Takes dst pfx) :
    (m.remove pfx).kernel.lookup dst = none := by
  obtain ⟨rfl, via, hroute, hkernel⟩ := h
  simp [remove, hroute, routeDel, hkernel]

theorem lookup_kernel_remove_of_not (h : ¬m.Takes dst pfx) :
    (m.remove pfx).kernel.lookup dst = m.kernel.lookup dst := by
  unfold remove
  split
  · rfl
  · rename_i via hroute
    show (m.routeDel pfx.masked (gateway via)).kernel.lookup dst = m.kernel.lookup dst
    unfold routeDel
    split
    · rename_i hkernel
      by_cases hdst : pfx.masked = dst
      · subst hdst
        exact absurd ⟨rfl, via, hroute, hkernel⟩ h
      · exact AList.lookup_erase_ne (Ne.symm hdst)
    · rfl

/-- The kernel after a peer's routes were added. -/
theorem lookup_kernel_addAll :
    (m.addAll ok via pfxs).kernel.lookup dst =
      if ∃ pfx ∈ pfxs, ok pfx ∧ pfx.masked = dst then some (gateway via)
      else m.kernel.lookup dst := by
  induction pfxs using List.reverseRecOn with
  | nil => simp [addAll]
  | append_singleton pfxs q ih =>
    rw [addAll, List.foldl_append, List.foldl_cons, List.foldl_nil, ← addAll]
    by_cases hq : ok q
    · rw [if_pos hq]
      show ((m.addAll ok via pfxs).kernel.insert q.masked (gateway via)).lookup dst = _
      by_cases hdst : q.masked = dst
      · subst hdst
        rw [AList.lookup_insert, if_pos ⟨q, by simp, hq, rfl⟩]
      · rw [AList.lookup_insert_ne (Ne.symm hdst), ih]
        simp [or_and_right, exists_or, hdst]
    · rw [if_neg hq, ih]
      simp [or_and_right, exists_or, hq]

/-- The prefixes the manager remembers after a peer's routes were added. -/
theorem lookup_routes_addAll :
    (m.addAll ok via pfxs).routes.lookup pfx =
      if pfx ∈ pfxs ∧ ok pfx then some via else m.routes.lookup pfx := by
  induction pfxs using List.reverseRecOn with
  | nil => simp [addAll]
  | append_singleton pfxs q ih =>
    rw [addAll, List.foldl_append, List.foldl_cons, List.foldl_nil, ← addAll]
    by_cases hq : ok q
    · rw [if_pos hq]
      show ((m.addAll ok via pfxs).routes.insert q via).lookup pfx = _
      by_cases hpfx : pfx = q
      · subst hpfx
        rw [AList.lookup_insert, if_pos ⟨by simp, hq⟩]
      · rw [AList.lookup_insert_ne hpfx, ih]
        simp [hpfx]
    · rw [if_neg hq, ih]
      by_cases hpfx : pfx = q
      · subst hpfx
        simp [hq]
      · simp [hpfx]

theorem lookup_routes_removeAll :
    (m.removeAll pfxs).routes.lookup pfx = if pfx ∈ pfxs then none else m.routes.lookup pfx := by
  induction pfxs generalizing m with
  | nil => simp [removeAll]
  | cons q pfxs ih =>
    rw [removeAll, List.foldl_cons, ← removeAll, ih, routes_remove]
    by_cases hpfx : pfx = q
    · subst hpfx
      simp [AList.lookup_erase]
    · simp [AList.lookup_erase_ne hpfx, hpfx]

/-- The kernel loses the routes that one of the prefixes takes along. -/
theorem lookup_kernel_removeAll_of_takes (hpfx : pfx ∈ pfxs) (h : m.Takes dst pfx) :
    (m.removeAll pfxs).kernel.lookup dst = none := by
  -- once a route is gone it stays so, since removing adds nothing
  have hgone : ∀ (m : Manager) (pfxs : List Prefix), m.kernel.lookup dst = none →
      (m.removeAll pfxs).kernel.lookup dst = none := by
    intro m pfxs hnone
    induction pfxs generalizing m with
    | nil => exact hnone
    | cons q pfxs ih =>
      refine ih (m.remove q) ?_
      rw [lookup_kernel_remove_of_not, hnone]
      rintro ⟨-, via, -, hkernel⟩
      rw [hnone] at hkernel
      cases hkernel
  induction pfxs generalizing m with
  | nil => cases hpfx
  | cons q pfxs ih =>
    rw [removeAll, List.foldl_cons, ← removeAll]
    by_cases hq : m.Takes dst q
    · exact hgone _ _ (lookup_kernel_remove_of_takes hq)
    · have hne : pfx ≠ q := by
        rintro rfl
        exact hq h
      refine ih ((List.mem_cons.mp hpfx).resolve_left hne) ?_
      obtain ⟨hdst, via, hroute, hkernel⟩ := h
      refine ⟨hdst, via, ?_, ?_⟩
      · rw [routes_remove, AList.lookup_erase_ne hne, hroute]
      · rw [lookup_kernel_remove_of_not hq, hkernel]

/-- The kernel keeps the routes that none of the prefixes takes along. -/
theorem lookup_kernel_removeAll_of_not (h : ∀ pfx ∈ pfxs, ¬m.Takes dst pfx) :
    (m.removeAll pfxs).kernel.lookup dst = m.kernel.lookup dst := by
  induction pfxs generalizing m with
  | nil => rfl
  | cons q pfxs ih =>
    have hq := lookup_kernel_remove_of_not (h q List.mem_cons_self)
    rw [removeAll, List.foldl_cons, ← removeAll, ih, hq]
    rintro pfx hpfx ⟨hdst, via, hroute, hkernel⟩
    rw [routes_remove] at hroute
    rw [hq] at hkernel
    exact h pfx (List.mem_cons_of_mem _ hpfx)
      ⟨hdst, via, (lookup_erase_eq_some.mp hroute).2, hkernel⟩

/-- Removing adds nothing. -/
theorem lookup_kernel_of_removeAll {gw : Addr}
    (h : (m.removeAll pfxs).kernel.lookup dst = some gw) : m.kernel.lookup dst = some gw := by
  rw [← h]
  refine (lookup_kernel_removeAll_of_not fun pfx hpfx htakes => ?_).symm
  rw [lookup_kernel_removeAll_of_takes hpfx htakes] at h
  cases h

end Manager

end Veld.Route
