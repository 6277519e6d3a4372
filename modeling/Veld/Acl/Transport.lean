import Veld.Acl.Parse

/-!
# What a segment says

The transport headers `ParsePacket` reads, described by the segment alone: when a TCP
or UDP header is complete, its ports, and the kind of a packet that carries it. The
parser reports exactly this of a complete header, and `Segment` lists all that it can
report of any segment.
-/

namespace Veld.Acl

variable {flow : Flow} {p : Proto} {seg : Bytes} {r : Parsed}

open Bytes

/-- The port at an offset of a TCP or UDP header. -/
def portAt (seg : Bytes) (i : Nat) : UInt16 := UInt16.ofNat (beNat ((seg.drop i).take 2))

/-- The data offset of a TCP header, in words of four bytes. -/
def dataOffset (seg : Bytes) : Nat := (seg.getD 12 0 >>> 4).toNat

/-- A TCP header with its options is in the segment. -/
structure CompleteTCP (seg : Bytes) : Prop where
  fixed : 20 ≤ seg.length
  least : 5 ≤ dataOffset seg
  fits : dataOffset seg * 4 ≤ seg.length

instance (seg : Bytes) : Decidable (CompleteTCP seg) :=
  decidable_of_iff (20 ≤ seg.length ∧ 5 ≤ dataOffset seg ∧ dataOffset seg * 4 ≤ seg.length)
    ⟨fun h => ⟨h.1, h.2.1, h.2.2⟩, fun h => ⟨h.fixed, h.least, h.fits⟩⟩

/-- A flag of a TCP header is set. -/
def hasFlag (seg : Bytes) (flag : UInt8) : Bool := seg.getD 13 0 &&& flag != 0

/-- A SYN without ACK starts a connection, otherwise FIN or RST ends one. -/
def tcpKind (seg : Bytes) : Kind :=
  if hasFlag seg 0x02 && !hasFlag seg 0x10 then .kindStart
  else if hasFlag seg 0x01 || hasFlag seg 0x04 then .kindEnd
  else .kindOther

/-- An echo request with code 0 starts a connection. -/
def echoKind (echo : UInt8) (seg : Bytes) : Kind :=
  if seg.getD 0 0 = echo ∧ seg.getD 1 0 = 0 then .kindStart else .kindOther

/-- The message type of an echo request. -/
def echoType (p : Proto) : UInt8 := if p = protoICMP then 8 else 128

/-- The message of an ICMP protocol is an error. -/
def isErrorMessage (p : Proto) (seg : Bytes) : Bool :=
  if p = protoICMP then isICMPError (seg.getD 0 0) else isICMPv6Error (seg.getD 0 0)

/-- The flow with the ports of a segment. -/
def withPorts (flow : Flow) (seg : Bytes) : Flow :=
  { flow with srcPort := portAt seg 0, dstPort := portAt seg 2 }

/-- One of the two ICMP protocols. -/
def IsICMP (p : Proto) : Prop := p = protoICMP ∨ p = protoICMPv6

instance (p : Proto) : Decidable (IsICMP p) := inferInstanceAs (Decidable (_ ∨ _))

instance (p : Proto) : Decidable (IsTransport p) := inferInstanceAs (Decidable (_ ∨ _))

section Accesses

variable {b : Bytes} {i : Nat}

theorem getElem?_eq_getD (h : i < b.length) : b[i]? = some (b.getD i 0) := by
  rw [List.getD_eq_getElem?_getD, List.getElem?_eq_getElem h, Option.getD_some]

theorem uint16At_eq (h : i + 2 ≤ b.length) : b.uint16At i = some (portAt b i) := by
  obtain ⟨w, hw, rfl⟩ := yields_uint16At h
  exact hw

end Accesses

section Complete

variable {flow : Flow} {seg : Bytes}

theorem parseTCP_of_complete (h : CompleteTCP seg) :
    parseTCP flow seg = some (accept (withPorts flow seg) (tcpKind seg)) := by
  have hfixed := h.fixed
  have hlen : ¬seg.length < 20 := by omega
  have hleast : ¬(seg.getD 12 0 >>> 4).toNat < 5 := not_lt.mpr h.least
  have hfits : ¬seg.length < (seg.getD 12 0 >>> 4).toNat * 4 := not_lt.mpr h.fits
  simp only [parseTCP, hlen, uint16At_eq (b := seg) (i := 0) (by omega),
    uint16At_eq (b := seg) (i := 2) (by omega), getElem?_eq_getD (b := seg) (i := 12) (by omega),
    getElem?_eq_getD (b := seg) (i := 13) (by omega), hleast, hfits, ite_false,
    Option.bind_eq_bind, Option.bind_some]
  unfold tcpKind hasFlag
  split
  · rfl
  · split <;> rfl

theorem parseTCP_of_not_complete (flow : Flow) (h : ¬CompleteTCP seg) :
    Yields (parseTCP flow seg) fun r => ∃ flow e, r = reject flow e := by
  unfold parseTCP
  refine .ite (fun _ => .pure ⟨_, _, rfl⟩) fun h20 => ?_
  refine (yields_uint16At (by omega)).bind fun srcPort _ => ?_
  refine (yields_uint16At (by omega)).bind fun dstPort _ => ?_
  rw [getElem?_eq_getD (b := seg) (i := 12) (by omega)]
  refine .ite (fun _ => .pure ⟨_, _, rfl⟩) fun hleast => ?_
  refine .ite (fun _ => .pure ⟨_, _, rfl⟩) fun hfits => ?_
  exact absurd ⟨not_lt.mp h20, not_lt.mp hleast, not_lt.mp hfits⟩ h

theorem parseUDP_of_complete (h : 8 ≤ seg.length) :
    parseUDP flow seg = some (accept (withPorts flow seg) .kindStart) := by
  have hlen : ¬seg.length < 8 := by omega
  simp only [parseUDP, hlen, uint16At_eq (b := seg) (i := 0) (by omega),
    uint16At_eq (b := seg) (i := 2) (by omega), ite_false, Option.bind_eq_bind, Option.bind_some]
  rfl

theorem parseEcho_of_long {name : String} {echo : UInt8} {isError : UInt8 → Bool}
    (h : 4 ≤ seg.length) (hecho : isError echo = false) :
    parseEcho name echo isError flow seg =
      if isError (seg.getD 0 0) then parseICMPError flow seg
      else some (accept flow (echoKind echo seg)) := by
  have hlen : ¬seg.length < 4 := by omega
  simp only [parseEcho, hlen, getElem?_eq_getD (b := seg) (i := 0) (by omega),
    getElem?_eq_getD (b := seg) (i := 1) (by omega), ite_false, Option.bind_eq_bind,
    Option.bind_some, echoKind]
  by_cases hstart : seg.getD 0 0 = echo ∧ seg.getD 1 0 = 0
  · rw [if_pos hstart, if_pos hstart, hstart.1, hecho]
    rfl
  · rw [if_neg hstart, if_neg hstart]
    rfl

/-- The two ICMP protocols are read alike. -/
theorem parseTransport_icmp {p : Proto} (hp : IsICMP p) (h : 4 ≤ seg.length) :
    parseTransport flow p seg =
      if isErrorMessage p seg then parseICMPError flow seg
      else some (accept flow (echoKind (echoType p) seg)) := by
  rcases hp with rfl | rfl
  · exact parseEcho_of_long h rfl
  · exact parseEcho_of_long h rfl

end Complete

/-- What is reported of a segment of a protocol whose packet has a flow. -/
inductive Segment (flow : Flow) (p : Proto) (seg : Bytes) (r : Parsed) : Prop
  | rejected (flow' : Flow) (e : String) (hr : r = reject flow' e)
  | tcp (hp : p = protoTCP) (h : CompleteTCP seg)
    (hr : r = accept (withPorts flow seg) (tcpKind seg))
  | udp (hp : p = protoUDP) (h : 8 ≤ seg.length) (hr : r = accept (withPorts flow seg) .kindStart)
  | icmp (hp : IsICMP p) (h : 4 ≤ seg.length) (hmsg : isErrorMessage p seg = false)
    (hr : r = accept flow (echoKind (echoType p) seg))
  | error (hp : IsICMP p) (h : 4 ≤ seg.length) (hmsg : isErrorMessage p seg = true)
    (hr : parseICMPError flow seg = some r)

/-- These are all the reports. -/
theorem segment_of_parseTransport
    (h : parseTransport flow p seg = some r) : Segment flow p seg r := by
  by_cases htcp : p = protoTCP
  · subst htcp
    have h : parseTCP flow seg = some r := h
    by_cases hcomplete : CompleteTCP seg
    · rw [parseTCP_of_complete hcomplete] at h
      exact .tcp rfl hcomplete (Option.some.inj h).symm
    · obtain ⟨r', hr', flow', e, rfl⟩ := parseTCP_of_not_complete flow hcomplete
      exact .rejected flow' e (Option.mem_unique h hr')
  by_cases hudp : p = protoUDP
  · subst hudp
    have h : parseUDP flow seg = some r := h
    by_cases hlen : seg.length < 8
    · rw [parseUDP, if_pos hlen] at h
      exact .rejected _ _ (Option.some.inj h).symm
    · rw [parseUDP_of_complete (not_lt.mp hlen)] at h
      exact .udp rfl (not_lt.mp hlen) (Option.some.inj h).symm
  by_cases hicmp : IsICMP p
  · by_cases hlen : seg.length < 4
    · have hshort (name : String) (echo : UInt8) (isError : UInt8 → Bool)
          (h : parseEcho name echo isError flow seg = some r) : Segment flow p seg r := by
        rw [parseEcho, if_pos hlen] at h
        exact .rejected _ _ (Option.some.inj h).symm
      rcases hicmp with rfl | rfl
      · exact hshort _ _ _ h
      · exact hshort _ _ _ h
    · rw [parseTransport_icmp hicmp (not_lt.mp hlen)] at h
      cases hmsg : isErrorMessage p seg with
      | true =>
        rw [hmsg, if_pos rfl] at h
        exact .error hicmp (not_lt.mp hlen) hmsg h
      | false =>
        rw [hmsg, if_neg Bool.false_ne_true] at h
        exact .icmp hicmp (not_lt.mp hlen) hmsg (Option.some.inj h).symm
  · obtain ⟨hicmp, hicmpv6⟩ := not_or.mp hicmp
    rw [parseTransport, if_neg htcp, if_neg hudp, if_neg hicmp, if_neg hicmpv6] at h
    exact .rejected _ _ (Option.some.inj h).symm

theorem tcpKind_ne (seg : Bytes) : tcpKind seg ≠ .kindFragment ∧ tcpKind seg ≠ .kindError := by
  unfold tcpKind
  split
  · decide
  · split <;> decide

theorem echoKind_ne (echo : UInt8) (seg : Bytes) :
    echoKind echo seg ≠ .kindFragment ∧ echoKind echo seg ≠ .kindError := by
  unfold echoKind
  split <;> decide

/-- A segment is never reported as a fragment. -/
theorem Segment.kind_ne (h : Segment flow p seg r) : r.kind ≠ .kindFragment := by
  cases h with
  | rejected flow' e hr =>
    rw [hr]
    exact Kind.noConfusion
  | tcp hp h hr =>
    rw [hr]
    exact (tcpKind_ne seg).1
  | udp hp h hr =>
    rw [hr]
    exact Kind.noConfusion
  | icmp hp h hmsg hr =>
    rw [hr]
    exact (echoKind_ne _ seg).1
  | error hp h hmsg hr =>
    obtain ⟨r', hr', hkind⟩ := parseICMPError_yields flow seg
    rw [Option.mem_unique hr hr', hkind]
    exact Kind.noConfusion

end Veld.Acl
