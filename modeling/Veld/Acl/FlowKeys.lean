import Veld.Acl.FlowTable
import Veld.Acl.Headers

/-!
# Which flows share a key

`NormalizeFlowKey` compares the last four bytes of IPv4 addresses and stores all
sixteen, so both directions of a flow get one key only if the other bytes are zero.
The parser writes IPv4 addresses into the last four bytes of a cleared flow, except
for an IPv4 packet that an ICMPv6 error quotes: that one is written over the addresses
of the outer IPv6 header.
-/

namespace Veld.Acl

open Bytes

/-- The first twelve bytes of an address. -/
def first12 (ip : BitVec 128) : BitVec 96 := ip.extractLsb' 32 96

@[simp] theorem first12_setLast4 (ip : BitVec 128) (b : Bytes) :
    first12 (setLast4 ip b) = first12 ip := by
  simp only [first12, setLast4, BitVec.extractLsb'_append_eq_left]

/-- The first twelve bytes are zero when the address is that of its last four. -/
theorem first12_eq_zero_iff (ip : BitVec 128) : first12 ip = 0 ↔ ip.toNat < 2 ^ 32 := by
  rw [← BitVec.toNat_inj, first12, BitVec.extractLsb'_toNat, Nat.shiftRight_eq_div_pow]
  have hip := ip.isLt
  have hz : (0 : BitVec 96).toNat = 0 := rfl
  rw [hz]
  omega

theorem tidy_iff (f : Flow) :
    f.Tidy ↔ (f.ipv6 = false → first12 f.srcIP = 0 ∧ first12 f.dstIP = 0) := by
  simp only [Flow.Tidy, first12_eq_zero_iff]

/-- A report that calls its flow IPv4 left the first twelve bytes as they were. -/
def KeepsFirst12 (flow : Flow) (r : Parsed) : Prop :=
  r.flow.ipv6 = false →
    first12 r.flow.srcIP = first12 flow.srcIP ∧ first12 r.flow.dstIP = first12 flow.dstIP

section Quoted

variable (flow : Flow)

theorem parseICMPErrorIPv4_keepsFirst12 (quoted : Bytes) :
    Yields (parseICMPErrorIPv4 flow quoted) (KeepsFirst12 flow) := by
  unfold parseICMPErrorIPv4
  refine .ite (fun _ => .pure fun _ => ⟨rfl, rfl⟩) fun h20 => ?_
  refine (yields_getElem (by omega)).bind fun b0 _ => ?_
  refine .ite (fun _ => .pure fun _ => ⟨rfl, rfl⟩) fun hihl => ?_
  refine .ite (fun _ => .pure fun _ => ⟨rfl, rfl⟩) fun hlen => ?_
  refine (yields_getElem (by omega)).bind fun proto _ => ?_
  refine (yields_slice (by omega) (by omega)).bind fun src _ => ?_
  refine (yields_slice (by omega) (by omega)).bind fun dst _ => ?_
  -- from here on every return carries the two quoted addresses
  have hkept : first12 (setLast4 flow.srcIP src) = first12 flow.srcIP ∧
      first12 (setLast4 flow.dstIP dst) = first12 flow.dstIP :=
    ⟨first12_setLast4 _ _, first12_setLast4 _ _⟩
  refine (yields_sliceFrom (by omega)).bind fun transport _ => ?_
  refine .ite (fun _ => .pure fun _ => hkept) fun h4 => ?_
  refine .ite (fun _ => ?_) fun _ => .pure fun _ => hkept
  refine (yields_uint16At (by omega)).bind fun srcPort _ => ?_
  exact (yields_uint16At (by omega)).bind fun dstPort _ => .pure fun _ => hkept

theorem parseICMPErrorIPv6_keepsFirst12 (quoted : Bytes) :
    Yields (parseICMPErrorIPv6 flow quoted) (KeepsFirst12 flow) := by
  have hquoted (f : Flow) (hf : f.ipv6 = true) : KeepsFirst12 flow (accept f .kindError) :=
    fun h => Bool.noConfusion (hf.symm.trans h)
  unfold parseICMPErrorIPv6
  refine .ite (fun _ => .pure fun _ => ⟨rfl, rfl⟩) fun h40 => ?_
  refine (yields_getElem (by omega)).bind fun nextHeader _ => ?_
  refine (yields_slice (by omega) (by omega)).bind fun src _ => ?_
  refine (yields_slice (by omega) (by omega)).bind fun dst _ => ?_
  refine .ite (fun _ => .pure (hquoted _ rfl)) fun h44 => ?_
  refine (yields_sliceFrom (by omega)).bind fun transport _ => ?_
  refine .ite (fun h => ?_) fun _ => .pure (hquoted _ rfl)
  refine (yields_uint16At (by omega)).bind fun srcPort _ => ?_
  exact (yields_uint16At (by omega)).bind fun dstPort _ => .pure (hquoted _ rfl)

theorem parseICMPError_keepsFirst12 (icmp : Bytes) :
    Yields (parseICMPError flow icmp) (KeepsFirst12 flow) := by
  unfold parseICMPError
  refine .ite (fun _ => .pure fun _ => ⟨rfl, rfl⟩) fun h28 => ?_
  refine (yields_sliceFrom (by omega)).bind fun quoted _ => ?_
  refine .ite (fun _ => .pure fun _ => ⟨rfl, rfl⟩) fun h20 => ?_
  refine (yields_getElem (by omega)).bind fun b0 _ => ?_
  refine .ite (fun _ => parseICMPErrorIPv4_keepsFirst12 flow quoted) fun _ => ?_
  refine .ite (fun _ => parseICMPErrorIPv6_keepsFirst12 flow quoted) fun _ => ?_
  exact .pure fun _ => ⟨rfl, rfl⟩

end Quoted

/-- Of what a segment is reported with, only a quoted IPv6 packet changes these bytes. -/
theorem Segment.keepsFirst12 {flow : Flow} {p : Proto} {seg : Bytes} {r : Parsed}
    (h : Segment flow p seg r) (he : r.err = none) : KeepsFirst12 flow r := by
  cases h with
  | rejected flow' e hr =>
    rw [hr] at he
    cases he
  | tcp hp h hr =>
    rw [hr]
    exact fun _ => ⟨rfl, rfl⟩
  | udp hp h hr =>
    rw [hr]
    exact fun _ => ⟨rfl, rfl⟩
  | icmp hp h hmsg hr =>
    rw [hr]
    exact fun _ => ⟨rfl, rfl⟩
  | error hp h hmsg hr =>
    obtain ⟨r', hr', hkeeps⟩ := parseICMPError_keepsFirst12 flow seg
    rwa [Option.mem_unique hr hr']

/-- The parser as a whole keeps the first twelve bytes of the outer addresses. -/
theorem parsePacket_keepsFirst12 {pkt : Bytes} (he : (parsePacket pkt).err = none) :
    KeepsFirst12 (outerFlow pkt) (parsePacket pkt) := by
  cases parsePacket_outcome pkt with
  | rejected h => exact absurd he h
  | headless p k hr hk h =>
    rw [hr]
    exact fun _ => ⟨rfl, rfl⟩
  | carried p seg h hr => exact (segment_of_parseTransport hr).keepsFirst12 he

theorem first12_outerFlow {pkt : Bytes} (h : pkt.headD 0 >>> 4 = 4) :
    first12 (outerFlow pkt).srcIP = 0 ∧ first12 (outerFlow pkt).dstIP = 0 := by
  rw [outerFlow, if_pos h, first12_setLast4, first12_setLast4]
  exact ⟨rfl, rfl⟩

/-- The packet is parsed without an error, and an IPv6 packet to an IPv6 flow: it is no ICMPv6
error that quotes an IPv4 packet. -/
structure OwnFamily (pkt : Bytes) : Prop where
  parsed : (parsePacket pkt).err = none
  family : pkt.headD 0 >>> 4 = 6 → (parsePacket pkt).flow.ipv6 = true

instance (pkt : Bytes) : Decidable (OwnFamily pkt) :=
  decidable_of_iff ((parsePacket pkt).err = none ∧
    (pkt.headD 0 >>> 4 = 6 → (parsePacket pkt).flow.ipv6 = true))
    ⟨fun h => ⟨h.1, h.2⟩, fun h => ⟨h.parsed, h.family⟩⟩

theorem OwnFamily.tidy {pkt : Bytes} (h : OwnFamily pkt) : (parsePacket pkt).flow.Tidy := by
  rw [tidy_iff]
  intro hv
  rcases (parsePacket_reads pkt).long h.parsed with ⟨h4, _⟩ | ⟨h6, _⟩
  · obtain ⟨hsrc, hdst⟩ := parsePacket_keepsFirst12 h.parsed hv
    obtain ⟨hsrc0, hdst0⟩ := first12_outerFlow h4
    exact ⟨hsrc.trans hsrc0, hdst.trans hdst0⟩
  · exact Bool.noConfusion ((h.family h6).symm.trans hv)

section Direction

variable {f : Flow}

theorem Flow.eq_reverse_iff : f = f.reverse ↔
    f.srcIP.toNat = f.dstIP.toNat ∧ f.srcPort.toNat = f.dstPort.toNat := by
  constructor
  · intro h
    exact ⟨congrArg (·.srcIP.toNat) h, congrArg (·.srcPort.toNat) h⟩
  · rintro ⟨hip, hport⟩
    obtain ⟨src, dst, srcPort, dstPort, proto, ipv6⟩ := f
    obtain rfl : src = dst := BitVec.eq_of_toNat_eq hip
    obtain rfl : srcPort = dstPort := UInt16.toNat_inj.mp hport
    rfl

/-- The flag of a tidy flow compares its ends, address first. -/
theorem Flow.Tidy.flag_eq_false_iff (h : f.Tidy) : (normalizeFlowKey f).2 = false ↔
    f.srcIP.toNat < f.dstIP.toNat ∨
      f.srcIP.toNat = f.dstIP.toNat ∧ f.srcPort.toNat ≤ f.dstPort.toNat := by
  have hcmp : (compare f.srcIP.toNat f.dstIP.toNat = .lt ∨
      compare f.srcIP.toNat f.dstIP.toNat = .eq ∧ f.srcPort ≤ f.dstPort) ↔
      f.srcIP.toNat < f.dstIP.toNat ∨
        f.srcIP.toNat = f.dstIP.toNat ∧ f.srcPort.toNat ≤ f.dstPort.toNat := by
    rw [compare_lt_iff_lt, compare_eq_iff_eq, UInt16.le_iff_toNat_le]
  rw [← hcmp]
  simp only [normalizeFlowKey, h.compareIPs_eq]
  split
  · next hc => exact ⟨fun _ => hc, fun _ => rfl⟩
  · next hc => exact ⟨fun hflag => Bool.noConfusion hflag, fun hc' => absurd hc' hc⟩

/-- The two directions of a tidy flow differ in their flags, unless they are one. -/
theorem Flow.Tidy.flag_reverse_ne_iff (h : f.Tidy) :
    (normalizeFlowKey f.reverse).2 ≠ (normalizeFlowKey f).2 ↔ f ≠ f.reverse := by
  have hflag := h.flag_eq_false_iff
  have hrev : (normalizeFlowKey f.reverse).2 = false ↔ f.dstIP.toNat < f.srcIP.toNat ∨
      f.dstIP.toNat = f.srcIP.toNat ∧ f.dstPort.toNat ≤ f.srcPort.toNat :=
    h.reverse.flag_eq_false_iff
  rw [Ne, Ne, Flow.eq_reverse_iff]
  cases hf : (normalizeFlowKey f).2 <;> cases hr : (normalizeFlowKey f.reverse).2 <;>
    simp only [hf, hr, true_iff, reduceCtorEq, false_iff, not_true_eq_false, not_false_eq_true]
      at hflag hrev ⊢ <;> omega

/-- Tidy flows share a key exactly when they are the two directions of one flow. -/
theorem Flow.Tidy.flowKey_eq_iff {g : Flow} (hf : f.Tidy) :
    flowKey f = flowKey g ↔ g = f ∨ g = f.reverse := by
  constructor
  · intro h
    exact eq_or_reverse_of_flowKey h.symm
  · rintro (rfl | rfl)
    · rfl
    · exact hf.flowKey_reverse.symm

end Direction

namespace Sample

/-- An IPv4 header of 20 bytes with a UDP header. -/
def datagram : Bytes :=
  [0x45, 0, 0, 28, 0, 0, 0, 0, 64, 17, 0, 0, 10, 0, 0, 1, 10, 0, 0, 1] ++
    [0, 53, 0, 53, 0, 8, 0, 0]

/-- An IPv6 header from 2001:: to fd00:: in front of an ICMPv6 message. -/
def icmpv6Header (payloadLen : UInt8) : Bytes :=
  [0x60, 0, 0, 0, 0, payloadLen, 58, 64] ++ ([0x20, 0x01] ++ List.replicate 14 0) ++
    ([0xfd] ++ List.replicate 15 0)

/-- Destination unreachable, quoting the IPv4 packet. -/
def quoting : Bytes := icmpv6Header 36 ++ [1, 1, 0, 0, 0, 0, 0, 0] ++ datagram

end Sample

end Veld.Acl
