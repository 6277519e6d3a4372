import Veld.Core.Nesting
import Veld.Route.Manager

/-!
# Reserved addresses in the routes of peers

`CheckPeerRoute` looks at the network address of a prefix only. For every accepted
prefix this decides about all of its addresses, with two exceptions: a prefix around
`169.254.0.0/16` begins before it, and so does one around the IPv4-mapped block
`::ffff:0:0/96`.
-/

namespace Veld.Route

variable {str : Prefix → String} {mesh pfx : Prefix}

open Netip

/-- An address that no route of a peer may capture. -/
def Reserved (a : Addr) : Prop :=
  a.isLoopback = true ∨ a.isLinkLocalUnicast = true ∨ a.isMulticast = true ∨
    a.isUnspecified = true ∨ a.is4In6 = true

instance (a : Addr) : Decidable (Reserved a) :=
  inferInstanceAs (Decidable (_ ∨ _ ∨ _ ∨ _ ∨ _))

theorem reserved_v4_iff (b : BitVec 32) : Reserved (.v4 b) ↔
    b.extractLsb' 24 8 = 127#8 ∨ b.extractLsb' 16 16 = 0xa9fe#16 ∨ b.extractLsb' 28 4 = 0xe#4 ∨
      b = 0#32 := by
  simp only [Reserved, Addr.isLoopback, Addr.isLinkLocalUnicast, Addr.isMulticast,
    Addr.isUnspecified, Addr.is4In6, Addr.unmap, beq_iff_eq, decide_eq_true_eq,
    Bool.false_eq_true, or_false]
  exact Iff.rfl

/-- All mapped addresses are reserved; of the others some blocks are. -/
theorem reserved_v6_iff (b : BitVec 128) : Reserved (.v6 b "") ↔
    b.extractLsb' 32 96 = 0xffff#96 ∨ b = 1#128 ∨ b.extractLsb' 118 10 = 0x3fa#10 ∨
      b.extractLsb' 120 8 = 0xff#8 ∨ b = 0#128 := by
  by_cases hmap : b.extractLsb' 32 96 = 0xffff#96
  · have h4 : (Addr.v6 b "").is4In6 = true := beq_iff_eq.mpr hmap
    exact iff_of_true (.inr (.inr (.inr (.inr h4)))) (.inl hmap)
  · have h4 : (Addr.v6 b "").is4In6 = false := beq_eq_false_iff_ne.mpr hmap
    have hself : (Addr.v6 b "").unmap = .v6 b "" := by
      rw [Addr.unmap, h4]
      rfl
    simp only [Reserved, Addr.isLoopback, Addr.isLinkLocalUnicast, Addr.isMulticast,
      Addr.isUnspecified, hself, h4, hmap, beq_iff_eq, decide_true, Bool.and_true,
      decide_eq_true_eq, Bool.false_eq_true, or_false, false_or]
    exact Iff.rfl

/-- `169.254.0.0`, the first IPv4 link-local address. -/
def linkLocal4 : Addr := .v4 0xa9fe0000#32

/-- `::ffff:0.0.0.0`, the first IPv4-mapped address. -/
def mapped4 : Addr := .v6 0xffff00000000#128 ""

/-- What the checks say about the network address of an accepted prefix. -/
structure Screened (pfx : Prefix) : Prop where
  valid : pfx.isValid = true
  not_mapped : pfx.masked.ip.is4In6 = false
  min_le_bits : (if pfx.ip.is4 then 8 else 16) ≤ pfx.bits
  not_loopback : pfx.masked.ip.isLoopback = false
  not_linkLocal : pfx.masked.ip.isLinkLocalUnicast = false
  not_multicast : pfx.masked.ip.isMulticast = false
  not_unspecified : pfx.masked.ip.isUnspecified = false

theorem Accepts.screened (h : Accepts str mesh pfx) : Screened pfx := by
  simp only [Accepts, checkPeerRoute, ite_error_eq_ok, Bool.or_eq_true, not_or,
    Bool.not_eq_true, Bool.not_eq_false', Prefix.is4_masked, not_lt] at h
  obtain ⟨hvalid, hmapped, hbits, ⟨⟨⟨⟨hloop, hlink⟩, hmulti⟩, -⟩, hunspec⟩, -⟩ := h
  exact ⟨hvalid, hmapped, hbits, hloop, hlink, hmulti, hunspec⟩

/-- Accepted routes and the mesh have no common address. -/
theorem Accepts.disjoint (h : Accepts str mesh pfx)
    {a : Addr} (ha : pfx.contains a = true) : mesh.contains a = false := by
  by_contra hmesh
  rw [Bool.not_eq_false, ← Prefix.contains_masked] at hmesh
  have hover := Prefix.overlaps_of_contains ha hmesh
  rw [h.not_overlaps] at hover
  cases hover

namespace Screened

variable {pfx : Prefix} {a : Addr}

/-- The network address, by any address of the prefix. -/
theorem not_reserved_leading (h : Screened pfx) (ha : pfx.contains a = true) :
    ¬Reserved (a.leading pfx.bits) := by
  rw [← Prefix.ip_masked_of_contains ha]
  simp [Reserved, h.not_loopback, h.not_linkLocal, h.not_multicast, h.not_unspecified, h.not_mapped]

theorem eight_le_bits (h : Screened pfx) (h4 : pfx.ip.is4 = true) : 8 ≤ pfx.bits := by
  have hmin := h.min_le_bits
  rwa [h4] at hmin

theorem sixteen_le_bits (h : Screened pfx) (h4 : pfx.ip.is4 = false) : 16 ≤ pfx.bits := by
  have hmin := h.min_le_bits
  rwa [h4] at hmin

/-- A prefix with a link-local address that is not longer than their block begins before it. -/
theorem contains_linkLocal4 {b : BitVec 32} (ha : pfx.contains (.v4 b) = true)
    (hb : b.extractLsb' 16 16 = 0xa9fe#16) (hbits : pfx.bits ≤ 16) :
    pfx.contains linkLocal4 = true := by
  obtain ⟨hvalid, -, hfamily, -, hleading⟩ := Prefix.contains_iff.mp ha
  have hfield : b.extractLsb' 16 (32 - 16) = (0xa9fe0000#32).extractLsb' 16 (32 - 16) := hb
  have htop := clear_low_congr (n := 32 - pfx.bits) (clear_low_of_extractLsb' hfield) (by omega)
  refine Prefix.contains_iff.mpr ⟨hvalid, rfl, hfamily, rfl, ?_⟩
  rw [← hleading]
  exact congrArg Addr.v4 htop.symm

theorem contains_mapped4 {b : BitVec 128} (ha : pfx.contains (.v6 b "") = true)
    (hb : b.extractLsb' 32 96 = 0xffff#96) (hbits : pfx.bits ≤ 96) :
    pfx.contains mapped4 = true := by
  obtain ⟨hvalid, -, hfamily, -, hleading⟩ := Prefix.contains_iff.mp ha
  have hfield : b.extractLsb' 32 (128 - 32) = (0xffff00000000#128).extractLsb' 32 (128 - 32) := hb
  have htop := clear_low_congr (n := 128 - pfx.bits) (clear_low_of_extractLsb' hfield) (by omega)
  refine Prefix.contains_iff.mpr ⟨hvalid, rfl, hfamily, rfl, ?_⟩
  rw [← hleading]
  exact congrArg (Addr.v6 · "") htop.symm

/-- The checks of the network address reach every IPv4 address but the link-local ones. -/
theorem not_reserved_v4 {b : BitVec 32} (h : Screened pfx) (ha : pfx.contains (.v4 b) = true)
    (hlink : pfx.contains linkLocal4 = false) : ¬Reserved (.v4 b) := by
  have hbits := h.eight_le_bits (Prefix.contains_iff.mp ha).2.2.1.symm
  have hnet := h.not_reserved_leading ha
  have hfield {m k : Nat} (hm : 32 - pfx.bits ≤ m) :
      ((b >>> (32 - pfx.bits)) <<< (32 - pfx.bits)).extractLsb' m k = b.extractLsb' m k :=
    extractLsb'_clear_low b hm
  rw [Addr.leading, reserved_v4_iff, hfield (m := 24) (by omega), hfield (m := 28) (by omega)]
    at hnet
  rw [reserved_v4_iff]
  rintro (hb | hb | hb | rfl)
  · exact hnet (.inl hb)
  · by_cases hlen : pfx.bits ≤ 16
    · rw [contains_linkLocal4 ha hb hlen] at hlink
      cases hlink
    · rw [hfield (by omega)] at hnet
      exact hnet (.inr (.inl hb))
  · exact hnet (.inr (.inr (.inl hb)))
  · exact hnet (.inr (.inr (.inr (by simp))))

/-- Of the bits of `::1` only the last one is set. -/
theorem clear_low_one {n : Nat} (h : 0 < n) : ((1#128) >>> n) <<< n = 0#128 := by
  have hshift : (1#128) >>> n = 0#128 := by
    apply BitVec.eq_of_toNat_eq
    rw [BitVec.toNat_ushiftRight, Nat.shiftRight_eq_div_pow]
    exact Nat.div_eq_of_lt (Nat.one_lt_two_pow (by omega))
  rw [hshift, BitVec.zero_shiftLeft]

/-- They reach every IPv6 address but the mapped ones. -/
theorem not_reserved_v6 {b : BitVec 128} (h : Screened pfx) (ha : pfx.contains (.v6 b "") = true)
    (hmapped : pfx.contains mapped4 = false) : ¬Reserved (.v6 b "") := by
  have hbits := h.sixteen_le_bits (Prefix.contains_iff.mp ha).2.2.1.symm
  have hnet := h.not_reserved_leading ha
  have hfield {m k : Nat} (hm : 128 - pfx.bits ≤ m) :
      ((b >>> (128 - pfx.bits)) <<< (128 - pfx.bits)).extractLsb' m k = b.extractLsb' m k :=
    extractLsb'_clear_low b hm
  rw [Addr.leading, reserved_v6_iff, hfield (m := 118) (by omega), hfield (m := 120) (by omega)]
    at hnet
  rw [reserved_v6_iff]
  rintro (hb | rfl | hb | hb | rfl)
  · by_cases hlen : pfx.bits ≤ 96
    · rw [contains_mapped4 ha hb hlen] at hmapped
      cases hmapped
    · rw [hfield (by omega)] at hnet
      exact hnet (.inl hb)
  · -- shorter prefixes around `::1` begin at `::`
    by_cases hlen : pfx.bits = 128
    · exact hnet (.inr (.inl (by rw [hlen]; rfl)))
    · have hfits : pfx.bits ≤ 128 := by
        have := pfx.fits
        cases hip : pfx.ip <;> simp only [hip, Addr.bitLen] at this <;> omega
      exact hnet (.inr (.inr (.inr (.inr (clear_low_one (by omega))))))
  · exact hnet (.inr (.inr (.inl hb)))
  · exact hnet (.inr (.inr (.inr (.inl hb))))
  · exact hnet (.inr (.inr (.inr (.inr (by simp)))))

theorem not_reserved (h : Screened pfx) (hlink : pfx.contains linkLocal4 = false)
    (hmapped : pfx.contains mapped4 = false) (ha : pfx.contains a = true) : ¬Reserved a := by
  cases a with
  | zero => cases (Prefix.contains_iff.mp ha).2.1
  | v4 b => exact h.not_reserved_v4 ha hlink
  | v6 b z =>
    obtain rfl : z = "" := (Prefix.contains_iff.mp ha).2.2.2.1
    exact h.not_reserved_v6 ha hmapped

end Screened

/-- Accepted routes are not broad and capture nothing of the mesh. They capture no reserved address
at all unless they begin before the IPv4 link-local block or before the IPv4-mapped block and
contain it. -/
theorem accepted_route_spares (h : Accepts str mesh pfx) :
    (if pfx.ip.is4 then 8 else 16) ≤ pfx.bits ∧
    (∀ a, pfx.contains a = true → mesh.contains a = false) ∧
    ((∀ a, pfx.contains a = true → ¬Reserved a) ↔
      pfx.contains linkLocal4 = false ∧ pfx.contains mapped4 = false) := by
  refine ⟨h.screened.min_le_bits, fun a ha => h.disjoint ha, ?_⟩
  constructor
  · intro hall
    constructor
    · by_contra hin
      exact hall linkLocal4 (Bool.not_eq_false _ ▸ hin) (by decide)
    · by_contra hin
      exact hall mapped4 (Bool.not_eq_false _ ▸ hin) (by decide)
  · rintro ⟨hlink, hmapped⟩ a ha
    exact h.screened.not_reserved hlink hmapped ha

namespace Sample

/-- `192.168.1.0/24`. -/
def lan24 : Prefix := ⟨.v4 0xc0a80100#32, 24, by decide, rfl⟩

/-- `169.0.0.0/8`. -/
def around169 : Prefix := ⟨.v4 0xa9000000#32, 8, by decide, rfl⟩

/-- `::8000:0:0/81`. -/
def aroundMapped : Prefix := ⟨.v6 0x800000000000#128 "", 81, by decide, rfl⟩

end Sample

theorem accepted_route_spares_lan :
    Accepts (fun _ => "") .zero Sample.lan24 ∧
      ∀ a, Sample.lan24.contains a = true → ¬Reserved a :=
  have h : Accepts (fun _ => "") .zero Sample.lan24 := by decide
  ⟨h, (accepted_route_spares h).2.2.mpr (by decide)⟩

/-- `169.254.0.1` and `::ffff:10.0.0.1` are captured by routes that are accepted. -/
theorem reserved_captured :
    (Accepts (fun _ => "") .zero Sample.around169 ∧
      Sample.around169.contains (.v4 0xa9fe0001#32) = true ∧
      (Addr.v4 0xa9fe0001#32).isLinkLocalUnicast = true) ∧
    Accepts (fun _ => "") .zero Sample.aroundMapped ∧
      Sample.aroundMapped.contains (.v6 0xffff0a000001#128 "") = true ∧
      (Addr.v6 0xffff0a000001#128 "").is4In6 = true := by
  decide

end Veld.Route
