import Veld.Acl.Transport

/-!
# What a packet carries

`Carries` says of any byte string that it is an IPv4 or IPv6 packet with a transport
protocol and a segment, not a later fragment. The segment starts behind the IPv4
header with its options, or behind a chain of extension headers that fit the packet
and the payload length. `ParsePacket` reads the segment of such a packet; of any
other byte string it reports an error, or a flow without ports.
-/

namespace Veld.Acl

open Bytes

section Accesses

variable {b : Bytes} {i j : Nat}

theorem getElem?_zero (h : 0 < b.length) : b[0]? = some (b.headD 0) := by
  cases b with
  | nil => cases h
  | cons x rest => rfl

theorem slice_eq (hij : i ≤ j) (h : j ≤ b.length) : b.slice i j = some ((b.drop i).take (j - i)) := by
  rw [slice, if_pos ⟨hij, h⟩]

theorem sliceFrom_eq (h : i ≤ b.length) : b.sliceFrom i = some (b.drop i) := by
  rw [sliceFrom, if_pos h]

end Accesses

/-- The length of an IPv4 header, by its first byte. -/
def headerLen (pkt : Bytes) : Nat := (pkt.headD 0 &&& 0x0F).toNat * 4

/-- An IPv4 packet that is not a later fragment. -/
structure Carries4 (pkt : Bytes) (p : Proto) (seg : Bytes) : Prop where
  version : pkt.headD 0 >>> 4 = 4
  header : 20 ≤ headerLen pkt
  fits : headerLen pkt ≤ pkt.length
  offset : ∃ w, pkt.uint16At 6 = some w ∧ ¬w &&& 0x1FFF > 0
  proto : pkt[9]? = some p
  segment : seg = pkt.drop (headerLen pkt)

/-- From a header at an offset, with some bytes of the payload length left, a chain of extension
headers leads to a transport protocol at another offset. -/
inductive Reaches (pkt : Bytes) : Nat → Int → Proto → Nat → Proto → Prop
  | here {offset : Nat} {remaining : Int} {p : Proto} (hr : 0 ≤ remaining) (hp : IsTransport p) :
    Reaches pkt offset remaining p offset p
  | skip {offset o : Nat} {remaining : Int} {proto next p : Proto} {len : UInt8} {name : String}
    {scale : Nat} (hkind : skippedHeader proto = some (name, scale))
    (hnext : pkt[offset]? = some next) (hlen : pkt[offset + 1]? = some len)
    (hfit : offset + (8 + len.toNat * scale) ≤ pkt.length)
    (hrest : Reaches pkt (offset + (8 + len.toNat * scale))
      (remaining - (8 + len.toNat * scale : Nat)) next o p) :
    Reaches pkt offset remaining proto o p
  | fragment {offset o : Nat} {remaining : Int} {next p : Proto} {w : UInt16}
    (hfit : offset + 8 ≤ pkt.length) (hnext : pkt[offset]? = some next)
    (hword : pkt.uint16At (offset + 2) = some w) (hfirst : ¬w >>> 3 > 0)
    (hrest : Reaches pkt (offset + 8) (remaining - 8) next o p) :
    Reaches pkt offset remaining 44 o p

/-- An IPv6 packet whose extension headers lead to a transport protocol. -/
structure Carries6 (pkt : Bytes) (p : Proto) (seg : Bytes) : Prop where
  version : pkt.headD 0 >>> 4 = 6
  long : 40 ≤ pkt.length
  chain : ∃ payloadLen next o, pkt.uint16At 4 = some payloadLen ∧ pkt[6]? = some next ∧
    Reaches pkt 40 payloadLen.toNat next o p ∧ o ≤ pkt.length ∧ seg = pkt.drop o

/-- The packet has a segment of a transport protocol, complete or not. -/
def Carries (pkt : Bytes) (p : Proto) (seg : Bytes) : Prop := Carries4 pkt p seg ∨ Carries6 pkt p seg

section Chains

variable {pkt : Bytes} {flow : Flow} {fuel offset o : Nat} {remaining : Int} {proto p : Proto}

theorem Reaches.nonneg (h : Reaches pkt offset remaining proto o p) : 0 ≤ remaining := by
  induction h with
  | here hr hp => exact hr
  | skip hkind hnext hlen hfit hrest ih => omega
  | fragment hfit hnext hword hfirst hrest ih => omega

/-- The protocols the loop of `parseIPv6` tells apart. -/
theorem skippedHeader_some {name : String} {scale : Nat}
    (h : skippedHeader proto = some (name, scale)) :
    ¬IsTransport proto ∧ proto ≠ 44 ∧ proto ≠ 50 := by
  unfold skippedHeader at h
  split at h
  · next hp =>
    subst hp
    decide
  · split at h
    · next hp =>
      subst hp
      decide
    · split at h
      · next hp =>
        subst hp
        decide
      · split at h
        · next hp =>
          subst hp
          decide
        · cases h

/-- The loop follows the chain to the segment. -/
theorem Reaches.walkExtensions (h : Reaches pkt offset remaining proto o p) (ho : o < pkt.length)
    (hfuel : pkt.length < offset + fuel) :
    walkExtensions pkt flow fuel offset remaining proto =
      parseTransport { flow with proto := p } p (pkt.drop o) := by
  have hnonneg := h.nonneg
  induction h generalizing fuel with
  | @here offset remaining p hr hp =>
    cases fuel with
    | zero => omega
    | succ fuel =>
      have hp' : p = protoTCP ∨ p = protoUDP ∨ p = protoICMP ∨ p = protoICMPv6 := hp
      rw [Acl.walkExtensions, if_neg (by omega), if_pos hp']
      dsimp only
      rw [if_neg (by omega), sliceFrom_eq ho.le]
      rfl
  | @skip offset o remaining proto next p len name scale hkind hnext hlen hfit hrest ih =>
    cases fuel with
    | zero => omega
    | succ fuel =>
      obtain ⟨htransport, h44, h50⟩ := skippedHeader_some hkind
      have hext : extensionHeader pkt name scale offset =
          some (.ok (next, 8 + len.toNat * scale)) := by
        have hin : ¬offset + 2 > pkt.length := by omega
        have hsize : ¬offset + (8 + len.toNat * scale) > pkt.length := by omega
        simp only [extensionHeader, hin, hnext, hlen, hsize, ite_false, Option.bind_eq_bind,
          Option.bind_some]
        rfl
      have hother : ¬(proto = protoTCP ∨ proto = protoUDP ∨ proto = protoICMP ∨
          proto = protoICMPv6) := htransport
      rw [Acl.walkExtensions, if_neg (by omega), if_neg hother, if_neg h44, if_neg h50]
      simp only [hkind, hext, Option.bind_eq_bind, Option.bind_some]
      exact ih ho (by omega) hrest.nonneg
  | @fragment offset o remaining next p w hfit hnext hword hfirst hrest ih =>
    cases fuel with
    | zero => omega
    | succ fuel =>
      have hother : ¬((44 : Proto) = protoTCP ∨ (44 : Proto) = protoUDP ∨ (44 : Proto) = protoICMP ∨
          (44 : Proto) = protoICMPv6) := by decide
      rw [Acl.walkExtensions, if_neg (by omega), if_neg hother, if_pos rfl, if_neg (by omega)]
      simp only [hnext, hword, hfirst, ite_false, Option.bind_eq_bind, Option.bind_some]
      exact ih ho (by omega) hrest.nonneg

end Chains

section Forward

variable {pkt seg : Bytes} {p : Proto}

theorem Carries4.parsePacketChecked (h : Carries4 pkt p seg) (hseg : 4 ≤ seg.length) :
    parsePacketChecked pkt = parseTransport { outerFlow pkt with proto := p } p seg := by
  obtain ⟨w, hw, hoffset⟩ := h.offset
  have hheader := h.header
  have hfits := h.fits
  have hlen : headerLen pkt + 4 ≤ pkt.length := by
    rw [h.segment, List.length_drop] at hseg
    omega
  have hihl : ¬(pkt.headD 0 &&& 0x0F).toNat < 5 := by
    rw [headerLen] at hheader
    omega
  have hlen20 : ¬pkt.length < 20 := by omega
  have hlenHeader : ¬pkt.length < headerLen pkt := by omega
  have hlenTransport : ¬pkt.length < headerLen pkt + 4 := by omega
  have hihlEq : (pkt.headD 0 &&& 0x0F).toNat * 4 = headerLen pkt := rfl
  simp only [Acl.parsePacketChecked, parseIPv4, hlen20, getElem?_zero (b := pkt) (by omega),
    h.version, hihl, hihlEq, hlenHeader, hw, h.proto, hoffset, hlenTransport,
    slice_eq (b := pkt) (i := 12) (j := 16) (by omega) (by omega),
    slice_eq (b := pkt) (i := 16) (j := 20) (by omega) (by omega), sliceFrom_eq hfits,
    Option.bind_eq_bind, Option.bind_some, ite_true, ite_false]
  simp only [outerFlow, h.version, ite_true, h.segment]

theorem Carries6.parsePacketChecked (h : Carries6 pkt p seg) (hseg : 4 ≤ seg.length) :
    parsePacketChecked pkt = parseTransport { outerFlow pkt with proto := p } p seg := by
  obtain ⟨payloadLen, next, o, hpayload, hnext, hchain, ho, rfl⟩ := h.chain
  have hlong := h.long
  have hend : o < pkt.length := by
    rw [List.length_drop] at hseg
    omega
  have hlen20 : ¬pkt.length < 20 := by omega
  have hlen40 : ¬pkt.length < 40 := by omega
  have h64 : ¬(6 : UInt8) = 4 := by decide
  simp only [Acl.parsePacketChecked, parseIPv6, hlen20, hlen40,
    getElem?_zero (b := pkt) (by omega), h.version, h64, hpayload, hnext,
    slice_eq (b := pkt) (i := 8) (j := 24) (by omega) (by omega),
    slice_eq (b := pkt) (i := 24) (j := 40) (by omega) (by omega),
    Option.bind_eq_bind, Option.bind_some, ite_true, ite_false]
  rw [hchain.walkExtensions hend (by omega)]
  simp only [outerFlow, h.version, h64, ite_false]

/-- The segment of a packet is what is parsed. -/
theorem Carries.parsePacketChecked (h : Carries pkt p seg) (hseg : 4 ≤ seg.length) :
    parsePacketChecked pkt = parseTransport { outerFlow pkt with proto := p } p seg :=
  h.elim (·.parsePacketChecked hseg) (·.parsePacketChecked hseg)

theorem parsePacket_eq {r : Parsed} (hr : Acl.parsePacketChecked pkt = some r) :
    parsePacket pkt = r := by
  simp [parsePacket, hr]

theorem Carries.parsePacket {r : Parsed} (h : Carries pkt p seg) (hseg : 4 ≤ seg.length)
    (hr : parseTransport { outerFlow pkt with proto := p } p seg = some r) :
    Acl.parsePacket pkt = r :=
  parsePacket_eq ((h.parsePacketChecked hseg).trans hr)

/-- A packet reported as a fragment has no segment to read. -/
theorem Carries.length_lt_of_fragment {r : Parsed} (h : Carries pkt p seg)
    (hr : Acl.parsePacketChecked pkt = some r) (hk : r.kind = .kindFragment) : seg.length < 4 := by
  by_contra hlong
  rw [h.parsePacketChecked (not_lt.mp hlong)] at hr
  exact (segment_of_parseTransport hr).kind_ne hk

end Forward

/-- Where the loop of `parseIPv6` ends. -/
inductive Walked (pkt : Bytes) (flow : Flow) (offset : Nat) (remaining : Int) (proto : Proto)
    (r : Parsed) : Prop
  | rejected (h : r.err ≠ none)
  | later (p : Proto) (hr : r = accept { flow with proto := p } .kindFragment)
  | reached (o : Nat) (p : Proto) (h : Reaches pkt offset remaining proto o p)
    (ho : o < pkt.length) (hr : parseTransport { flow with proto := p } p (pkt.drop o) = some r)

theorem Walked.reject {pkt : Bytes} {flow flow' : Flow} {offset : Nat} {remaining : Int}
    {proto : Proto} (e : String) : Walked pkt flow offset remaining proto (Acl.reject flow' e) :=
  .rejected (Option.some_ne_none e)

/-- One more header in front changes nothing about the end. -/
theorem Walked.step {pkt : Bytes} {flow : Flow} {offset offset' : Nat}
    {remaining remaining' : Int} {proto proto' : Proto} {r : Parsed}
    (h : Walked pkt flow offset remaining proto r)
    (hstep : ∀ o p, Reaches pkt offset remaining proto o p →
      Reaches pkt offset' remaining' proto' o p) :
    Walked pkt flow offset' remaining' proto' r := by
  cases h with
  | rejected h => exact .rejected h
  | later p hr => exact .later p hr
  | reached o p h ho hr => exact .reached o p (hstep o p h) ho hr

theorem parseTransport_isSome (flow : Flow) (p : Proto) (seg : Bytes) :
    ∃ r, parseTransport { flow with proto := p } p seg = some r :=
  let ⟨r, hr, _⟩ := parseTransport_yields { flow with proto := p } seg
  ⟨r, hr⟩

/-- What an extension header says of the packet. -/
theorem extensionHeader_ok {pkt : Bytes} {name : String} {scale offset size : Nat} {next : Proto}
    (h : extensionHeader pkt name scale offset = some (.ok (next, size))) :
    ∃ len : UInt8, pkt[offset]? = some next ∧ pkt[offset + 1]? = some len ∧
      size = 8 + len.toNat * scale ∧ offset + size ≤ pkt.length := by
  unfold extensionHeader at h
  split at h
  · cases h
  · obtain ⟨next', hnext, h⟩ := Option.bind_eq_some_iff.mp h
    obtain ⟨len, hlen, h⟩ := Option.bind_eq_some_iff.mp h
    dsimp only at h
    split at h
    · cases h
    · next hfit =>
      cases h
      exact ⟨len, hnext, hlen, rfl, not_lt.mp hfit⟩

/-- The loop ends in one of these ways. -/
theorem walkExtensions_walked (pkt : Bytes) (flow : Flow) (fuel offset : Nat) (remaining : Int)
    (proto : Proto) (ho : offset ≤ pkt.length) (hfuel : pkt.length < offset + fuel) :
    Yields (walkExtensions pkt flow fuel offset remaining proto)
      (Walked pkt flow offset remaining proto) := by
  induction fuel generalizing offset remaining proto with
  | zero => omega
  | succ fuel ih =>
    unfold walkExtensions
    refine .ite (fun _ => .pure (.reject _)) fun hnonneg => ?_
    refine .ite (fun hp => ?_) fun _ => ?_
    · refine .ite (fun _ => .pure (.reject _)) fun hend => ?_
      rw [sliceFrom_eq ho]
      obtain ⟨r, hr⟩ := parseTransport_isSome flow proto (pkt.drop offset)
      exact ⟨r, hr, .reached offset proto (.here (not_lt.mp hnonneg) hp) (not_le.mp hend) hr⟩
    refine .ite (fun h44 => ?_) fun _ => ?_
    · subst h44
      refine .ite (fun _ => .pure (.reject _)) fun hfit => ?_
      obtain ⟨next, hnext, -⟩ := yields_getElem (b := pkt) (i := offset) (by omega)
      obtain ⟨w, hword, -⟩ := yields_uint16At (b := pkt) (i := offset + 2) (by omega)
      rw [hnext, hword]
      refine .ite (fun _ => .pure (.later next rfl)) fun hfirst => ?_
      refine (ih (offset + 8) (remaining - 8) next (by omega) (by omega)).mono fun r h => ?_
      exact h.step fun o p => .fragment (by omega) hnext hword hfirst
    refine .ite (fun _ => .pure (.reject _)) fun _ => ?_
    cases hs : skippedHeader proto with
    | none => exact .pure (.reject _)
    | some header =>
      obtain ⟨ext, hext, hsize⟩ := extensionHeader_yields pkt header.1 header.2 offset
      dsimp only
      rw [hext]
      cases ext with
      | error e => exact .pure (.reject _)
      | ok found =>
        obtain ⟨next, size⟩ := found
        have h8 := (hsize next size rfl).1
        obtain ⟨len, hnext, hlen, rfl, hfit⟩ := extensionHeader_ok hext
        refine (ih _ _ next hfit (by omega)).mono fun r h => ?_
        exact h.step fun o p => .skip hs hnext hlen hfit

/-- What `ParsePacket` returns for a byte string. -/
inductive Outcome (pkt : Bytes) (r : Parsed) : Prop
  | rejected (h : r.err ≠ none)
  /-- A later fragment, or an IPv4 packet that ends within four bytes of its header. -/
  | headless (p : Proto) (k : Kind) (hr : r = accept { outerFlow pkt with proto := p } k)
    (hk : k = .kindFragment ∨ k = .kindOther)
    (h : ∀ seg, Carries pkt p seg → seg.length < 4)
  | carried (p : Proto) (seg : Bytes) (h : Carries pkt p seg)
    (hr : parseTransport { outerFlow pkt with proto := p } p seg = some r)

section Inversion

variable {pkt : Bytes}

theorem parseIPv4_outcome (hv : pkt.headD 0 >>> 4 = 4) : Yields (parseIPv4 pkt) (Outcome pkt) := by
  unfold parseIPv4
  refine .ite (fun _ => .pure (.rejected (Option.some_ne_none _))) fun h20 => ?_
  have hflow (p : Proto) :
      { srcIP := setLast4 0 ((pkt.drop 12).take 4), dstIP := setLast4 0 ((pkt.drop 16).take 4),
        proto := p : Flow } = { outerFlow pkt with proto := p } := by
    simp only [outerFlow, hv, ite_true]
  have hnot6 {p : Proto} {seg : Bytes} (h : Carries6 pkt p seg) : False := by
    have := hv.symm.trans h.version
    revert this
    decide
  rw [getElem?_zero (b := pkt) (by omega)]
  refine .ite (fun _ => .pure (.rejected (Option.some_ne_none _))) fun hihl => ?_
  refine .ite (fun _ => .pure (.rejected (Option.some_ne_none _))) fun hfits => ?_
  obtain ⟨w, hw, -⟩ := yields_uint16At (b := pkt) (i := 6) (by omega)
  obtain ⟨proto, hproto, -⟩ := yields_getElem (b := pkt) (i := 9) (by omega)
  rw [hw, hproto, slice_eq (b := pkt) (i := 12) (j := 16) (by omega) (by omega),
    slice_eq (b := pkt) (i := 16) (j := 20) (by omega) (by omega)]
  have hfit : headerLen pkt ≤ pkt.length := not_lt.mp hfits
  refine .ite (fun hlater => .pure (.headless proto _ (congrArg (accept · _) (hflow proto))
    (.inl rfl) ?_)) fun hfirst => ?_
  · rintro seg (h | h)
    · obtain ⟨w', hw', hoffset⟩ := h.offset
      cases hw.symm.trans hw'
      exact absurd hlater hoffset
    · exact (hnot6 h).elim
  refine .ite (fun hshort => .pure (.headless proto _ (congrArg (accept · _) (hflow proto))
    ?_ ?_)) fun hlen => ?_
  · split
    · exact .inl rfl
    · exact .inr rfl
  · rintro seg (h | h)
    · have hshort : pkt.length < headerLen pkt + 4 := hshort
      rw [h.segment, List.length_drop]
      omega
    · exact (hnot6 h).elim
  have hslice : pkt.sliceFrom ((pkt.headD 0 &&& 0x0F).toNat * 4) =
      some (pkt.drop (headerLen pkt)) := sliceFrom_eq hfit
  simp only [Option.bind_eq_bind, Option.bind_some, hslice]
  obtain ⟨r, hr⟩ := parseTransport_isSome (outerFlow pkt) proto (pkt.drop (headerLen pkt))
  refine ⟨r, (congrArg (parseTransport · _ _) (hflow proto)).trans hr, ?_⟩
  have hheader : 20 ≤ headerLen pkt := by
    rw [headerLen]
    omega
  exact .carried proto _ (.inl ⟨hv, hheader, hfit, ⟨w, hw, hfirst⟩, hproto, rfl⟩) hr

theorem parseIPv6_outcome (hv : pkt.headD 0 >>> 4 = 6)
    (hparse : Acl.parsePacketChecked pkt = parseIPv6 pkt) :
    Yields (parseIPv6 pkt) (Outcome pkt) := by
  by_cases h40 : pkt.length < 40
  · rw [parseIPv6, if_pos h40]
    exact .pure (.rejected (Option.some_ne_none _))
  have h64 : ¬(6 : UInt8) = 4 := by decide
  have hflow :
      { srcIP := setIP ((pkt.drop 8).take 16), dstIP := setIP ((pkt.drop 24).take 16),
        ipv6 := true : Flow } = outerFlow pkt := by
    simp only [outerFlow, hv, h64, ite_false]
  obtain ⟨payloadLen, hpayload, -⟩ := yields_uint16At (b := pkt) (i := 4) (by omega)
  obtain ⟨next, hnext, -⟩ := yields_getElem (b := pkt) (i := 6) (by omega)
  have hwalk : parseIPv6 pkt =
      walkExtensions pkt (outerFlow pkt) pkt.length 40 payloadLen.toNat next := by
    simp only [parseIPv6, h40, ite_false, hpayload, hnext, Option.bind_eq_bind, Option.bind_some,
      slice_eq (b := pkt) (i := 8) (j := 24) (by omega) (by omega),
      slice_eq (b := pkt) (i := 24) (j := 40) (by omega) (by omega), hflow]
  obtain ⟨r, hr, hwalked⟩ := walkExtensions_walked pkt (outerFlow pkt) pkt.length 40
    payloadLen.toNat next (by omega) (by omega)
  refine ⟨r, hwalk.trans hr, ?_⟩
  cases hwalked with
  | rejected h => exact .rejected h
  | later p hlater =>
    refine .headless p _ hlater (.inl rfl) fun seg hseg => ?_
    exact hseg.length_lt_of_fragment (hparse.trans (hwalk.trans hr)) (congrArg Parsed.kind hlater)
  | reached o p h ho htransport =>
    exact .carried p _ (.inr ⟨hv, not_lt.mp h40, payloadLen, next, o, hpayload, hnext, h, ho.le,
      rfl⟩) htransport

/-- Every byte string is parsed, with one of these outcomes. -/
theorem parsePacketChecked_outcome (pkt : Bytes) :
    Yields (parsePacketChecked pkt) (Outcome pkt) := by
  by_cases h20 : pkt.length < 20
  · rw [parsePacketChecked, if_pos h20]
    exact .pure (.rejected (Option.some_ne_none _))
  have hparse : parsePacketChecked pkt = if pkt.headD 0 >>> 4 = 4 then parseIPv4 pkt
      else if pkt.headD 0 >>> 4 = 6 then parseIPv6 pkt
      else some (reject {} "unknown IP version") := by
    rw [parsePacketChecked, if_neg h20, getElem?_zero (b := pkt) (by omega)]
    rfl
  by_cases h4 : pkt.headD 0 >>> 4 = 4
  · rw [hparse, if_pos h4]
    exact parseIPv4_outcome h4
  rw [if_neg h4] at hparse
  by_cases h6 : pkt.headD 0 >>> 4 = 6
  · rw [if_pos h6] at hparse
    rw [hparse]
    exact parseIPv6_outcome h6 hparse
  · rw [hparse, if_neg h6]
    exact .pure (.rejected (Option.some_ne_none _))

theorem parsePacket_outcome (pkt : Bytes) : Outcome pkt (parsePacket pkt) := by
  obtain ⟨r, hr, hout⟩ := parsePacketChecked_outcome pkt
  rwa [parsePacket_eq hr]

end Inversion

end Veld.Acl
