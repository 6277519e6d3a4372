import Veld.Coexist.Collisions

/-!
# Replacement prefixes

`SuggestAlternative` of `internal/coexist/coexist.go`, against the collision report and
the routing decision of the kernel for the prefix it suggests.
-/

namespace Veld.Coexist

open Netip

/-- The addresses candidates are derived from, in the order they are tried. -/
def altAnchors : List Addr :=
  [.v4 0x0A640000#32, .v4 0x0A6D0000#32, .v4 0x0A6E0000#32, .v4 0x0AC80000#32,
    .v4 0xAC100000#32, .v4 0xAC140000#32, .v4 0xAC1E0000#32, .v4 0xC0A86400#32]

/-- `10.0.0.0/8`, `172.16.0.0/12` and `192.168.0.0/16`. -/
def privateBlocks : List Prefix :=
  [.prefixFrom (.v4 0x0A000000#32) 8, .prefixFrom (.v4 0xAC100000#32) 12,
    .prefixFrom (.v4 0xC0A80000#32) 16]

def altCandidates (bits : Nat) : List Prefix :=
  (altAnchors.map fun a => (Prefix.prefixFrom a bits).masked).filter fun cand =>
    cand.isValid && privateBlocks.any fun b => b.contains cand.ip && b.bits ≤ cand.bits

/-- `SuggestAlternative`, with `none` for `false`. -/
def suggestAlternative (bad : Prefix) (s : Snapshot) : Option Prefix :=
  if !bad.masked.isValid || !bad.masked.ip.is4 then none
  else (altCandidates bad.masked.bits).find? fun cand =>
    !(cand = bad.masked || cand.overlaps bad.masked) &&
      !s.routes.any fun r => !isDefault r.dst && r.dst.overlaps cand

section Suggested

variable {bad alt : Prefix} {s : Snapshot} {n : Nat}

theorem bits_of_mem_altCandidates (h : alt ∈ altCandidates n) : alt.bits = n := by
  obtain ⟨hmap, hkept⟩ := List.mem_filter.mp h
  obtain ⟨a, -, rfl⟩ := List.mem_map.mp hmap
  rw [Prefix.isValid_masked, Bool.and_eq_true] at hkept
  rw [Prefix.bits_masked]
  unfold Prefix.prefixFrom at hkept ⊢
  split
  · rfl
  · next hlong =>
    rw [dif_neg hlong] at hkept
    cases hkept.1

/-- A candidate fits entirely inside a private block. -/
theorem private_of_mem_altCandidates (h : alt ∈ altCandidates n) :
    ∃ b ∈ privateBlocks, ∀ a, alt.contains a = true → b.contains a = true := by
  obtain ⟨-, hblock⟩ := Bool.and_eq_true_iff.mp (List.mem_filter.mp h).2
  obtain ⟨b, hb, hfits⟩ := List.any_eq_true.mp hblock
  rw [Bool.and_eq_true, decide_eq_true_eq] at hfits
  obtain ⟨hvalid, -, hfamily, -, hin⟩ := Prefix.contains_iff.mp hfits.1
  refine ⟨b, hb, fun a ha => ?_⟩
  obtain ⟨-, hvalid', hfamily', hzone, hin'⟩ := Prefix.contains_iff.mp ha
  exact Prefix.contains_iff.mpr ⟨hvalid, hvalid', hfamily'.trans hfamily, hzone,
    (Addr.leading_congr hin' hfits.2).trans hin⟩

/-- A suggested prefix has the size of the one it replaces and is private, and the two share no
address. No collision is reported for it, and while it is up every packet to it follows the mesh. -/
theorem suggestAlternative_free (h : suggestAlternative bad s = some alt) :
    alt.bits = bad.bits ∧
    (∃ b ∈ privateBlocks, ∀ a, alt.contains a = true → b.contains a = true) ∧
    (∀ a, alt.contains a = true → bad.contains a = false) ∧
    ∀ selfIface, findCollisions s selfIface [alt] = [] ∧
      ((∀ r ∈ s.routes, 0 ≤ r.metric) → ∀ a, alt.contains a = true →
        Follows (routingTable s selfIface alt) a (meshRoute alt)) := by
  unfold suggestAlternative at h
  split at h
  · cases h
  have hcand := List.mem_of_find?_eq_some h
  have hfree := List.find?_some h
  simp only [Bool.and_eq_true, Bool.not_eq_true', Bool.or_eq_false_iff, List.any_eq_false,
    not_and] at hfree
  have hnone (selfIface : String) : findCollisions s selfIface [alt] = [] := by
    refine List.eq_nil_iff_forall_not_mem.mpr fun c hc => ?_
    obtain ⟨r, hr, hkept, hover, -⟩ := mem_findCollisions.mp hc
    simp only [ignored, Bool.or_eq_false_iff] at hkept
    rw [Prefix.overlaps_masked, Prefix.overlaps_iff] at hover
    refine hfree.2 r hr hkept.1.2 (Prefix.overlaps_iff.mpr ⟨hover.2.1, hover.1, hover.2.2.1.symm, ?_⟩)
    rw [min_comm]
    exact hover.2.2.2.symm
  refine ⟨(bits_of_mem_altCandidates hcand).trans bad.bits_masked,
    private_of_mem_altCandidates hcand, fun a ha => ?_, fun selfIface => ⟨hnone selfIface, ?_⟩⟩
  · by_contra hbad
    rw [Bool.not_eq_false, ← Prefix.contains_masked] at hbad
    exact Bool.false_ne_true (hfree.1.2.symm.trans (Prefix.overlaps_of_contains ha hbad))
  · intro hmetric a ha
    rw [follows_meshRoute_iff hmetric ha, exists_longer_iff ha, hnone]
    rintro ⟨c, hc, -⟩
    exact List.not_mem_nil hc

end Suggested

namespace Sample

/-- `10.1.0.0/16`, which collides with both routes of the VPN. -/
def mesh16 : Prefix := .prefixFrom (.v4 0x0A010000#32) 16

/-- `172.16.0.0/16`. -/
def private16 : Prefix := .prefixFrom (.v4 0xAC100000#32) 16

end Sample

theorem suggestAlternative_free_vpn :
    Follows (routingTable Sample.vpn "veld0" Sample.private16) (.v4 0xAC100001#32)
      (meshRoute Sample.private16) := by
  have hsuggested : suggestAlternative Sample.mesh16 Sample.vpn = some Sample.private16 := by decide
  exact ((suggestAlternative_free hsuggested).2.2.2 "veld0").2 (by decide) _ (by decide)

end Veld.Coexist
