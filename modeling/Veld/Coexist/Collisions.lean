import Veld.Core.Nesting
import Veld.Core.NetipText

/-!
# Route collisions

`FindCollisions` of `internal/coexist/coexist.go` against the routing decision of the
kernel. The report compares lengths of overlapping prefixes; the kernel follows, for
each address, the longest prefix that contains it and then the lowest metric. As
prefixes with a common address are nested, the report tells for every address of a
mesh prefix whether the mesh gets its packets.
-/

namespace Veld.Coexist

open Netip

/-- A route of the host, with what collision checks read of it. -/
structure RouteEntry where
  dst : Prefix
  iface : String
  metric : Int
  table : Int
  deriving DecidableEq

/-- The routes of a `Snapshot`. -/
structure Snapshot where
  routes : List RouteEntry

inductive CollisionKind
  | equal
  | inside
  | broader
  deriving DecidableEq, Repr

structure Collision where
  mesh : Prefix
  route : Prefix
  iface : String
  kind : CollisionKind
  advice : String
  deriving DecidableEq

/-- The Linux table of the routes to the host's own addresses. -/
def rtTableLocal : Int := 255

/-- `0.0.0.0/0` or `::/0`. -/
def isDefault (dst : Prefix) : Bool :=
  dst = ⟨.v4 0, 0, Nat.zero_le _, rfl⟩ || dst = ⟨.v6 0 "", 0, Nat.zero_le _, rfl⟩

/-- How a route that overlaps a mesh prefix collides with it. -/
def collision (p : Prefix) (r : RouteEntry) : Collision :=
  let route := "route " ++ r.dst.string ++ " via " ++ r.iface
  if p.bits = r.dst.bits then
    { mesh := p, route := r.dst, iface := r.iface, kind := .equal
      advice := route ++ " is an exact conflict; Veldmesh installs its route at metric 0, so it " ++
        "takes precedence while up — a VPN route at a higher metric is left in place, but a VPN " ++
        "route at metric 0 is displaced and not restored on close; prefer moving one side to a " ++
        "different CIDR" }
  else if r.dst.bits < p.bits then
    { mesh := p, route := r.dst, iface := r.iface, kind := .broader
      advice := route ++ " covers " ++ p.string ++ ", but Veldmesh's more-specific route takes " ++
        "precedence via longest-prefix match — no action needed" }
  else
    { mesh := p, route := r.dst, iface := r.iface, kind := .inside
      advice := route ++ " is more specific than " ++ p.string ++ " — traffic to " ++
        r.dst.string ++ " follows the other route and never reaches the mesh; change the mesh " ++
        "CIDR or remove the other route" }

/-- The routes that are never a conflict: those of the own interface, if its name is known, the
default routes and the local ones. -/
def ignored (selfIface : String) (r : RouteEntry) : Bool :=
  (selfIface ≠ "" && r.iface = selfIface) || isDefault r.dst || r.table = rtTableLocal

/-- `FindCollisions`. -/
def findCollisions (s : Snapshot) (selfIface : String) (prefixes : List Prefix) : List Collision :=
  prefixes.flatMap fun p =>
    if !p.masked.isValid then []
    else s.routes.filterMap fun r =>
      if ignored selfIface r || !p.masked.overlaps r.dst then none
      else some (collision p.masked r)

section Reported

variable {s : Snapshot} {selfIface : String} {p : Prefix} {c : Collision} {r : RouteEntry}

/-- What is reported for one prefix. -/
theorem mem_findCollisions : c ∈ findCollisions s selfIface [p] ↔
    ∃ r ∈ s.routes, ignored selfIface r = false ∧ p.masked.overlaps r.dst = true ∧
      c = collision p.masked r := by
  simp only [findCollisions, List.flatMap_cons, List.flatMap_nil, List.append_nil]
  constructor
  · intro h
    split at h
    · cases h
    · obtain ⟨r, hr, hc⟩ := List.mem_filterMap.mp h
      split at hc
      · cases hc
      · next hkept =>
        simp only [Bool.or_eq_true, Bool.not_eq_true', not_or, Bool.not_eq_true,
          Bool.not_eq_false] at hkept
        cases hc
        exact ⟨r, hr, hkept.1, hkept.2, rfl⟩
  · rintro ⟨r, hr, hkept, hover, rfl⟩
    have hvalid : p.masked.isValid = true := (Prefix.overlaps_iff.mp hover).1
    rw [hvalid]
    refine List.mem_filterMap.mpr ⟨r, hr, ?_⟩
    rw [hkept, hover]
    rfl

@[simp] theorem route_collision (p : Prefix) (r : RouteEntry) : (collision p r).route = r.dst := by
  unfold collision
  dsimp only
  split
  · rfl
  · split <;> rfl

theorem kind_collision (p : Prefix) (r : RouteEntry) : (collision p r).kind =
    if p.bits = r.dst.bits then .equal else if r.dst.bits < p.bits then .broader else .inside := by
  unfold collision
  dsimp only
  split
  · rfl
  · split <;> rfl

theorem kind_eq_inside_iff : (collision p r).kind = .inside ↔ p.bits < r.dst.bits := by
  rw [kind_collision]
  split
  · exact iff_of_false (by decide) (by omega)
  · split
    · exact iff_of_false (by decide) (by omega)
    · exact iff_of_true rfl (by omega)

/-- A route that is no longer than the mesh prefix contains all of it. -/
theorem contains_of_collision (hc : c ∈ findCollisions s selfIface [p]) (hkind : c.kind ≠ .inside)
    {b : Addr} (hb : p.contains b = true) : c.route.contains b = true := by
  obtain ⟨r, -, -, hover, rfl⟩ := mem_findCollisions.mp hc
  rw [Ne, kind_eq_inside_iff, not_lt] at hkind
  rw [route_collision]
  refine Prefix.contains_of_overlaps hover hkind ?_
  rwa [Prefix.contains_masked]

end Reported

/-- A route as the kernel compares it, and whether it leads to the mesh. -/
structure KernelRoute where
  dst : Prefix
  metric : Int
  mesh : Bool
  deriving DecidableEq

/-- The route `Add` installs for a mesh prefix. -/
def meshRoute (p : Prefix) : KernelRoute := ⟨p.masked, 0, true⟩

/-- The routes of others that decide about packets: not the local ones, not those of the own
interface, and not the one that the mesh route displaces. -/
def otherRoutes (s : Snapshot) (selfIface : String) (p : Prefix) : List RouteEntry :=
  s.routes.filter fun r => r.table ≠ rtTableLocal && !(selfIface ≠ "" && r.iface = selfIface) &&
    !(r.dst = p.masked && r.metric = 0)

/-- The routing table while the mesh route is up. -/
def routingTable (s : Snapshot) (selfIface : String) (p : Prefix) : List KernelRoute :=
  meshRoute p :: (otherRoutes s selfIface p).map fun r => ⟨r.dst, r.metric, false⟩

/-- A packet follows the longest prefix that contains its destination and then the lowest
metric. -/
structure Follows (table : List KernelRoute) (a : Addr) (e : KernelRoute) : Prop where
  mem : e ∈ table
  contains : e.dst.contains a = true
  longest : ∀ e' ∈ table, e'.dst.contains a = true → e'.dst.bits ≤ e.dst.bits
  cheapest : ∀ e' ∈ table, e'.dst.contains a = true → e'.dst.bits = e.dst.bits →
    e.metric ≤ e'.metric

section Routing

variable {s : Snapshot} {selfIface : String} {p : Prefix} {a : Addr}

theorem mem_otherRoutes {r : RouteEntry} : r ∈ otherRoutes s selfIface p ↔
    r ∈ s.routes ∧ r.table ≠ rtTableLocal ∧ ¬(selfIface ≠ "" ∧ r.iface = selfIface) ∧
      ¬(r.dst = p.masked ∧ r.metric = 0) := by
  simp only [otherRoutes, List.mem_filter, Bool.and_eq_true, decide_eq_true_eq, Bool.not_eq_true',
    Bool.and_eq_false_iff, decide_eq_false_iff_not, not_and_or, and_assoc]

theorem not_isDefault_of_lt {dst : Prefix} {n : Nat} (h : n < dst.bits) : isDefault dst = false := by
  simp only [isDefault, Bool.or_eq_false_iff, decide_eq_false_iff_not]
  constructor
  · rintro rfl
    exact absurd h (Nat.not_lt_zero n)
  · rintro rfl
    exact absurd h (Nat.not_lt_zero n)

/-- The longer routes to an address of the mesh prefix are those reported to be inside it. -/
theorem exists_longer_iff (ha : p.contains a = true) :
    (∃ r ∈ otherRoutes s selfIface p, p.bits < r.dst.bits ∧ r.dst.contains a = true) ↔
      ∃ c ∈ findCollisions s selfIface [p], c.kind = .inside ∧ c.route.contains a = true := by
  constructor
  · rintro ⟨r, hr, hlonger, hin⟩
    obtain ⟨hr, htable, hself, -⟩ := mem_otherRoutes.mp hr
    have hkept : ignored selfIface r = false := by
      simp only [ignored, Bool.or_eq_false_iff, not_isDefault_of_lt hlonger, Bool.and_eq_false_iff,
        decide_eq_false_iff_not, htable, not_false_eq_true, and_true]
      exact not_and_or.mp hself
    have hover : p.masked.overlaps r.dst = true := by
      rw [Prefix.overlaps_masked]
      exact Prefix.overlaps_of_contains ha hin
    refine ⟨_, mem_findCollisions.mpr ⟨r, hr, hkept, hover, rfl⟩, ?_, ?_⟩
    · rwa [kind_eq_inside_iff, Prefix.bits_masked]
    · rwa [route_collision]
  · rintro ⟨c, hc, hkind, hin⟩
    obtain ⟨r, hr, hkept, -, rfl⟩ := mem_findCollisions.mp hc
    rw [kind_eq_inside_iff, Prefix.bits_masked] at hkind
    rw [route_collision] at hin
    simp only [ignored, Bool.or_eq_false_iff, Bool.and_eq_false_iff, decide_eq_false_iff_not]
      at hkept
    refine ⟨r, mem_otherRoutes.mpr ⟨hr, hkept.2, not_and_or.mpr hkept.1.1, ?_⟩, hkind, hin⟩
    rintro ⟨hsame, -⟩
    rw [hsame, Prefix.bits_masked] at hkind
    exact absurd hkind (lt_irrefl _)

theorem contains_meshRoute (ha : p.contains a = true) : (meshRoute p).dst.contains a = true := by
  rw [meshRoute, Prefix.contains_masked]
  exact ha

/-- The mesh gets a packet exactly if no longer route contains its destination. -/
theorem follows_meshRoute_iff (hmetric : ∀ r ∈ s.routes, 0 ≤ r.metric) (ha : p.contains a = true) :
    Follows (routingTable s selfIface p) a (meshRoute p) ↔
      ¬∃ r ∈ otherRoutes s selfIface p, p.bits < r.dst.bits ∧ r.dst.contains a = true := by
  constructor
  · rintro h ⟨r, hr, hlonger, hin⟩
    have hle := h.longest ⟨r.dst, r.metric, false⟩
      (List.mem_cons_of_mem _ (List.mem_map.mpr ⟨r, hr, rfl⟩)) hin
    rw [meshRoute, Prefix.bits_masked] at hle
    exact absurd hlonger (not_lt.mpr hle)
  · intro hnone
    refine ⟨List.mem_cons_self, contains_meshRoute ha, ?_, ?_⟩
    · intro e he hin
      rcases List.mem_cons.mp he with rfl | he
      · exact le_rfl
      · obtain ⟨r, hr, rfl⟩ := List.mem_map.mp he
        rw [meshRoute, Prefix.bits_masked]
        by_contra hlonger
        exact hnone ⟨r, hr, not_le.mp hlonger, hin⟩
    · intro e he _ _
      rcases List.mem_cons.mp he with rfl | he
      · exact le_rfl
      · obtain ⟨r, hr, rfl⟩ := List.mem_map.mp he
        exact hmetric r (mem_otherRoutes.mp hr).1

/-- Then there is no other route it could follow. -/
theorem eq_meshRoute_of_follows (hmasked : ∀ r ∈ s.routes, r.dst.masked = r.dst)
    (hmetric : ∀ r ∈ s.routes, 0 ≤ r.metric) {e : KernelRoute}
    (hmesh : Follows (routingTable s selfIface p) a (meshRoute p))
    (he : Follows (routingTable s selfIface p) a e) : e = meshRoute p := by
  have hlen := le_antisymm (he.longest _ hmesh.mem hmesh.contains)
    (hmesh.longest _ he.mem he.contains)
  have hcost := he.cheapest _ hmesh.mem hmesh.contains hlen
  rcases List.mem_cons.mp he.mem with rfl | hmem
  · rfl
  · -- a route of the same length is one for the same prefix, which was displaced at metric 0
    obtain ⟨r, hr, rfl⟩ := List.mem_map.mp hmem
    obtain ⟨hr, -, -, hdisplaced⟩ := mem_otherRoutes.mp hr
    have hin := hmesh.contains
    rw [meshRoute, Prefix.contains_masked] at hin
    rw [meshRoute, Prefix.bits_masked] at hlen
    have hsame := Prefix.masked_eq_of_contains hin he.contains hlen
    rw [hmasked r hr] at hsame
    exact absurd ⟨hsame.symm, le_antisymm hcost (hmetric r hr)⟩ hdisplaced

/-- Every reported collision agrees with the routing decision. The mesh gets a packet to an address
of its prefix exactly if no route reported to be inside the prefix contains the address, and then
it is the only choice; the other reported routes contain the whole prefix. -/
theorem collisions_agree_with_routing (hmasked : ∀ r ∈ s.routes, r.dst.masked = r.dst)
    (hmetric : ∀ r ∈ s.routes, 0 ≤ r.metric) (ha : p.contains a = true) :
    (Follows (routingTable s selfIface p) a (meshRoute p) ↔
      ∀ c ∈ findCollisions s selfIface [p], c.kind = .inside → c.route.contains a = false) ∧
    (Follows (routingTable s selfIface p) a (meshRoute p) →
      ∀ e, Follows (routingTable s selfIface p) a e → e = meshRoute p) ∧
    ∀ c ∈ findCollisions s selfIface [p], c.kind = .broader ∨ c.kind = .equal →
      ∀ b, p.contains b = true → c.route.contains b = true := by
  refine ⟨?_, fun hmesh e => eq_meshRoute_of_follows hmasked hmetric hmesh, ?_⟩
  · rw [follows_meshRoute_iff hmetric ha, exists_longer_iff ha]
    simp
  · intro c hc hkind b hb
    refine contains_of_collision hc ?_ hb
    rcases hkind with hkind | hkind <;> rw [hkind] <;> decide

end Routing

namespace Sample

/-- `10.0.0.0/8`. -/
def mesh8 : Prefix := ⟨.v4 0x0a000000#32, 8, by decide, rfl⟩

/-- A VPN with routes for `10.0.0.0/8` and, inside it, for `10.1.0.0/16`. -/
def vpn : Snapshot :=
  ⟨[⟨mesh8, "tun0", 50, 254⟩, ⟨⟨.v4 0x0a010000#32, 16, by decide, rfl⟩, "tun0", 50, 254⟩]⟩

end Sample

theorem collisions_agree_with_routing_vpn :
    Follows (routingTable Sample.vpn "veld0" Sample.mesh8) (.v4 0x0a020001#32)
      (meshRoute Sample.mesh8) ∧
    ¬Follows (routingTable Sample.vpn "veld0" Sample.mesh8) (.v4 0x0a010001#32)
      (meshRoute Sample.mesh8) := by
  have hmasked : ∀ r ∈ Sample.vpn.routes, r.dst.masked = r.dst := by decide
  have hmetric : ∀ r ∈ Sample.vpn.routes, 0 ≤ r.metric := by decide
  constructor
  · exact (collisions_agree_with_routing hmasked hmetric (by decide)).1.mpr (by decide)
  · rw [(collisions_agree_with_routing hmasked hmetric (by decide)).1]
    decide

end Veld.Coexist
