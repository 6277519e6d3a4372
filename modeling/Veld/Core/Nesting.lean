import Veld.Core.Overlap

/-!
# Nesting of prefixes

An address is in a prefix exactly if it belongs to its address family, has no zone
and agrees with it in the leading bits. So two prefixes with a common address are
nested: the shorter one contains everything of the longer one. Prefixes overlap
exactly if they have a common address.
-/

namespace Veld.Netip

section LeadingBits

variable {w : Nat} {b c : BitVec w} {m n : Nat}

theorem xor_ushiftRight_eq_zero_iff :
    (b ^^^ c) >>> n = 0 ↔ (b >>> n) <<< n = (c >>> n) <<< n := by
  rw [BitVec.ushiftRight_xor_distrib]
  apply BitVec.xor_eq_zero_iff.trans
  constructor
  · intro h
    rw [h]
  · intro h
    rw [← ushiftRight_clear_low b, h, ushiftRight_clear_low]

/-- Numbers that agree above one bit agree above every higher bit. -/
theorem clear_low_congr (h : (b >>> m) <<< m = (c >>> m) <<< m) (hmn : m ≤ n) :
    (b >>> n) <<< n = (c >>> n) <<< n := by
  rw [← clear_low_of_le b hmn, h, clear_low_of_le c hmn]

/-- A field above the bits that are cleared. -/
theorem extractLsb'_clear_low (b : BitVec w) {len : Nat} (h : m ≤ n) :
    ((b >>> m) <<< m).extractLsb' n len = b.extractLsb' n len := by
  apply BitVec.eq_of_getLsbD_eq
  intro i hi
  have hlow : ¬n + i < m := by omega
  have hbit : m + (n + i - m) = n + i := by omega
  by_cases hw : n + i < w
  · simp [BitVec.getLsbD_extractLsb', hlow, hbit, hw]
  · simp [BitVec.getLsbD_extractLsb', BitVec.getLsbD_of_ge b (n + i) (not_lt.mp hw), hw]

/-- Numbers that agree in the field above a bit agree above it. -/
theorem clear_low_of_extractLsb' (h : b.extractLsb' n (w - n) = c.extractLsb' n (w - n)) :
    (b >>> n) <<< n = (c >>> n) <<< n := by
  apply BitVec.eq_of_getLsbD_eq
  intro i hi
  simp only [BitVec.getLsbD_shiftLeft, BitVec.getLsbD_ushiftRight]
  by_cases hn : i < n
  · simp [hn]
  · have hbit := congrArg (·.getLsbD (i - n)) h
    have hlt : i - n < w - n := by omega
    simp only [BitVec.getLsbD_extractLsb', hlt, decide_true, Bool.true_and] at hbit
    rw [hbit]

end LeadingBits

namespace Addr

variable {a b : Addr} {m n : Nat}

/-- Fewer leading bits agree if more do. -/
theorem leading_congr (h : a.leading n = b.leading n) (hmn : m ≤ n) :
    a.leading m = b.leading m := by
  cases a with
  | zero =>
    cases b with
    | zero => rfl
    | v4 y => cases h
    | v6 y z => cases h
  | v4 x =>
    cases b with
    | zero => cases h
    | v4 y => exact congrArg v4 (clear_low_congr (v4.inj h) (Nat.sub_le_sub_left hmn 32))
    | v6 y z => cases h
  | v6 x w =>
    cases b with
    | zero => cases h
    | v4 y => cases h
    | v6 y z =>
      have hbits := clear_low_congr (v6.inj h).1 (Nat.sub_le_sub_left hmn 128)
      rw [leading, leading, hbits]

end Addr

namespace Prefix

variable {p o : Prefix} {a : Addr}

/-- The addresses of a prefix. -/
theorem contains_iff : p.contains a = true ↔
    p.isValid = true ∧ a.isValid = true ∧ a.is4 = p.ip.is4 ∧ a.zone = "" ∧
      a.leading p.bits = p.ip.leading p.bits := by
  obtain ⟨ip, n, hfits, hzone⟩ := p
  cases ip with
  | zero => exact iff_of_false Bool.false_ne_true fun h => Bool.false_ne_true h.1
  | v4 q =>
    cases a with
    | zero => exact iff_of_false Bool.false_ne_true fun h => Bool.false_ne_true h.2.1
    | v4 b =>
      simp only [contains, beq_iff_eq, xor_ushiftRight_eq_zero_iff, Addr.leading, Addr.v4.injEq]
      exact ⟨fun h => ⟨rfl, rfl, rfl, rfl, h⟩, fun h => h.2.2.2.2⟩
    | v6 b z => exact iff_of_false Bool.false_ne_true fun h => Bool.false_ne_true h.2.2.1
  | v6 q w =>
    cases a with
    | zero => exact iff_of_false Bool.false_ne_true fun h => Bool.false_ne_true h.2.1
    | v4 b => exact iff_of_false Bool.false_ne_true fun h => Bool.false_ne_true h.2.2.1.symm
    | v6 b z =>
      simp only [contains, Bool.and_eq_true, beq_iff_eq, xor_ushiftRight_eq_zero_iff, Addr.leading,
        Addr.v6.injEq, and_true]
      exact ⟨fun h => ⟨rfl, rfl, rfl, h⟩, fun h => h.2.2.2⟩

/-- Of two overlapping prefixes the shorter one contains the other. -/
theorem contains_of_overlaps (h : p.overlaps o = true) (hbits : o.bits ≤ p.bits)
    (ha : p.contains a = true) : o.contains a = true := by
  obtain ⟨-, ho, hfamily, hleading⟩ := overlaps_iff.mp h
  obtain ⟨-, hvalid, hsame, hzone, hin⟩ := contains_iff.mp ha
  rw [min_eq_right hbits] at hleading
  exact contains_iff.mpr ⟨ho, hvalid, hsame.trans hfamily, hzone,
    (Addr.leading_congr hin hbits).trans hleading⟩

theorem overlaps_of_contains (hp : p.contains a = true) (ho : o.contains a = true) :
    p.overlaps o = true := by
  obtain ⟨hvalid, -, hfamily, -, hin⟩ := contains_iff.mp hp
  obtain ⟨hvalid', -, hfamily', -, hin'⟩ := contains_iff.mp ho
  refine overlaps_iff.mpr ⟨hvalid, hvalid', hfamily.symm.trans hfamily', ?_⟩
  exact (Addr.leading_congr hin (min_le_left _ _)).symm.trans
    (Addr.leading_congr hin' (min_le_right _ _))

/-- A masked prefix is written with its leading bits. -/
theorem ip_masked (p : Prefix) : p.masked.ip = p.ip.leading p.bits := by
  obtain ⟨ip, n, hfits, hzone⟩ := p
  cases ip with
  | zero => rfl
  | v4 q => rfl
  | v6 q z =>
    have hz : z = "" := hzone
    subst hz
    rfl

/-- The network address, by any address of the prefix. -/
theorem ip_masked_of_contains (h : p.contains a = true) : p.masked.ip = a.leading p.bits := by
  rw [ip_masked, (contains_iff.mp h).2.2.2.2]

/-- Prefixes of one length with a common address are written for the same network. -/
theorem masked_eq_of_contains (hp : p.contains a = true) (ho : o.contains a = true)
    (hbits : p.bits = o.bits) : p.masked = o.masked := by
  apply Prefix.ext
  · rw [ip_masked_of_contains hp, ip_masked_of_contains ho, hbits]
  · rw [bits_masked, bits_masked, hbits]

end Prefix

end Veld.Netip
