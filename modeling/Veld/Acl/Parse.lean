import Veld.Core.Bytes

/-!
# Packet parsing

`ParsePacket` and the functions below it, as `internal/acl/parse.go` computes
them. Every index and slice of the source is a checked access, so the functions
return an option; `parsePacketChecked_isSome` shows that no byte string makes an
access fail and that the extension header loop always ends, and `parsePacket` is
the total function this gives.
-/

namespace Veld.Acl

/-- An IP protocol number. -/
abbrev Proto := UInt8

def protoTCP : Proto := 6
def protoUDP : Proto := 17
def protoICMP : Proto := 1
def protoICMPv6 : Proto := 58
def protoAny : Proto := 255

/-- A parsed network flow. -/
structure Flow where
  /-- Sixteen bytes read big-endian, an IPv4 address in the last four. -/
  srcIP : BitVec 128 := 0
  dstIP : BitVec 128 := 0
  srcPort : UInt16 := 0
  dstPort : UInt16 := 0
  proto : Proto := 0
  ipv6 : Bool := false
  deriving DecidableEq, Repr

/-- The flow with source and destination exchanged. -/
def Flow.reverse (f : Flow) : Flow :=
  { f with srcIP := f.dstIP, dstIP := f.srcIP, srcPort := f.dstPort, dstPort := f.srcPort }

@[simp] theorem Flow.reverse_reverse (f : Flow) : f.reverse.reverse = f := rfl
@[simp] theorem Flow.reverse_proto (f : Flow) : f.reverse.proto = f.proto := rfl

/-- The packet kind for ACL purposes. -/
inductive Kind
  | kindStart
  | kindOther
  | kindFragment
  | kindError
  | kindEnd
  deriving DecidableEq, Repr

/-- What the parser returns: flow, kind and the text of its error. -/
structure Parsed where
  flow : Flow
  kind : Kind
  err : Option String
  deriving DecidableEq, Repr

/-- A return without an error. -/
def accept (flow : Flow) (kind : Kind) : Parsed := ⟨flow, kind, none⟩

/-- A return with an error; the source then always reports the kind other. -/
def reject (flow : Flow) (err : String) : Parsed := ⟨flow, .kindOther, some err⟩

/-- `copy(ip[12:16], b)` for four bytes `b`. -/
def setLast4 (ip : BitVec 128) (b : Bytes) : BitVec 128 :=
  ip.extractLsb' 32 96 ++ BitVec.ofNat 32 b.beNat

/-- `copy(ip[:], b)` for sixteen bytes `b`. -/
def setIP (b : Bytes) : BitVec 128 := BitVec.ofNat 128 b.beNat

/-- The quoted IPv4 packet of an ICMP error replaces flow and protocol. -/
def parseICMPErrorIPv4 (flow : Flow) (quoted : Bytes) : Option Parsed := do
  if quoted.length < 20 then return accept flow .kindError
  let ihl := ((← quoted[0]?) &&& 0x0F).toNat
  if ihl < 5 then return accept flow .kindError
  let headerLen := ihl * 4
  if quoted.length < headerLen + 4 then return accept flow .kindError
  let proto ← quoted[9]?
  let src ← quoted.slice 12 16
  let dst ← quoted.slice 16 20
  let flow := { flow with
    proto := proto, ipv6 := false
    srcIP := setLast4 flow.srcIP src, dstIP := setLast4 flow.dstIP dst }
  let transport ← quoted.sliceFrom headerLen
  if transport.length < 4 then return accept flow .kindError
  if proto = protoTCP ∨ proto = protoUDP then
    let srcPort ← transport.uint16At 0
    let dstPort ← transport.uint16At 2
    return accept { flow with srcPort := srcPort, dstPort := dstPort } .kindError
  return accept flow .kindError

/-- The quoted IPv6 packet of an ICMP error; extension headers are not walked. -/
def parseICMPErrorIPv6 (flow : Flow) (quoted : Bytes) : Option Parsed := do
  if quoted.length < 40 then return accept flow .kindError
  let nextHeader ← quoted[6]?
  let src ← quoted.slice 8 24
  let dst ← quoted.slice 24 40
  let flow := { flow with
    proto := nextHeader, ipv6 := true, srcIP := setIP src, dstIP := setIP dst }
  if quoted.length < 40 + 4 then return accept flow .kindError
  let transport ← quoted.sliceFrom 40
  if (nextHeader = protoTCP ∨ nextHeader = protoUDP) ∧ 4 ≤ transport.length then
    let srcPort ← transport.uint16At 0
    let dstPort ← transport.uint16At 2
    return accept { flow with srcPort := srcPort, dstPort := dstPort } .kindError
  return accept flow .kindError

/-- An ICMP error quotes the packet it is about from byte 8 on. -/
def parseICMPError (flow : Flow) (icmp : Bytes) : Option Parsed := do
  if icmp.length < 8 + 20 then return accept flow .kindError
  let quoted ← icmp.sliceFrom 8
  if quoted.length < 20 then return accept flow .kindError
  let version := (← quoted[0]?) >>> 4
  if version = 4 then parseICMPErrorIPv4 flow quoted
  else if version = 6 then parseICMPErrorIPv6 flow quoted
  else return accept flow .kindError

/-- Unreachable, source quench, redirect, time exceeded, parameter problem. -/
def isICMPError (msgType : UInt8) : Bool :=
  msgType == 3 || msgType == 4 || msgType == 5 || msgType == 11 || msgType == 12

/-- Unreachable, packet too big, time exceeded, parameter problem. -/
def isICMPv6Error (msgType : UInt8) : Bool :=
  msgType == 1 || msgType == 2 || msgType == 3 || msgType == 4

/-- The two ICMP versions differ in the echo request type and the error types. -/
def parseEcho (name : String) (echo : UInt8) (isError : UInt8 → Bool) (flow : Flow)
    (icmp : Bytes) : Option Parsed := do
  if icmp.length < 4 then return reject flow (name ++ " header too short")
  let msgType ← icmp[0]?
  let code ← icmp[1]?
  if msgType = echo ∧ code = 0 then return accept flow .kindStart
  if isError msgType then parseICMPError flow icmp
  else return accept flow .kindOther

def parseICMP : Flow → Bytes → Option Parsed := parseEcho "ICMP" 8 isICMPError

def parseICMPv6 : Flow → Bytes → Option Parsed := parseEcho "ICMPv6" 128 isICMPv6Error

/-- Every UDP datagram counts as a connection start. -/
def parseUDP (flow : Flow) (udp : Bytes) : Option Parsed := do
  if udp.length < 8 then return reject flow "UDP header too short"
  let srcPort ← udp.uint16At 0
  let dstPort ← udp.uint16At 2
  return accept { flow with srcPort := srcPort, dstPort := dstPort } .kindStart

/-- SYN without ACK starts a connection, otherwise FIN or RST ends one. -/
def parseTCP (flow : Flow) (tcp : Bytes) : Option Parsed := do
  if tcp.length < 20 then return reject flow "TCP header too short"
  let srcPort ← tcp.uint16At 0
  let dstPort ← tcp.uint16At 2
  let flow := { flow with srcPort := srcPort, dstPort := dstPort }
  let dataOffset := ((← tcp[12]?) >>> 4).toNat
  if dataOffset < 5 then return reject flow "invalid TCP data offset"
  if tcp.length < dataOffset * 4 then return reject flow "TCP packet shorter than header"
  let flags ← tcp[13]?
  let syn := flags &&& 0x02 != 0
  let ack := flags &&& 0x10 != 0
  let fin := flags &&& 0x01 != 0
  let rst := flags &&& 0x04 != 0
  if syn && !ack then return accept flow .kindStart
  if fin || rst then return accept flow .kindEnd
  return accept flow .kindOther

def parseTransport (flow : Flow) (proto : Proto) (transport : Bytes) : Option Parsed :=
  if proto = protoTCP then parseTCP flow transport
  else if proto = protoUDP then parseUDP flow transport
  else if proto = protoICMP then parseICMP flow transport
  else if proto = protoICMPv6 then parseICMPv6 flow transport
  else some (reject flow "unknown transport protocol")

/-- The IPv4 header; a later fragment has no transport header to read. -/
def parseIPv4 (pkt : Bytes) : Option Parsed := do
  let flow : Flow := { ipv6 := false }
  if pkt.length < 20 then return reject flow "IPv4 packet too short"
  let ihl := ((← pkt[0]?) &&& 0x0F).toNat
  if ihl < 5 then return reject flow "invalid IPv4 IHL"
  let headerLen := ihl * 4
  if pkt.length < headerLen then return reject flow "IPv4 packet shorter than header"
  let flagsFrag ← pkt.uint16At 6
  let fragOffset := flagsFrag &&& 0x1FFF
  let moreFragments := flagsFrag &&& 0x2000 != 0
  let proto ← pkt[9]?
  let src ← pkt.slice 12 16
  let dst ← pkt.slice 16 20
  let flow := { flow with
    proto := proto, srcIP := setLast4 flow.srcIP src, dstIP := setLast4 flow.dstIP dst }
  if fragOffset > 0 then return accept flow .kindFragment
  if pkt.length < headerLen + 4 then
    return accept flow (if moreFragments then .kindFragment else .kindOther)
  let transport ← pkt.sliceFrom headerLen
  parseTransport flow proto transport

/-- The length of an extension header at `offset`, in units of `scale` bytes
after its first eight, with the header that follows it, or the source's error. -/
def extensionHeader (pkt : Bytes) (name : String) (scale offset : Nat) :
    Option (Except String (Proto × Nat)) := do
  if offset + 2 > pkt.length then return .error ("IPv6 " ++ name ++ " header truncated")
  let nextHeader ← pkt[offset]?
  let extLen := (← pkt[offset + 1]?).toNat
  let headerSize := 8 + extLen * scale
  if offset + headerSize > pkt.length then
    return .error ("IPv6 " ++ name ++ " header exceeds packet")
  return .ok (nextHeader, headerSize)

/-- The extension headers the loop steps over, with the source's name and the
unit of their length byte. -/
def skippedHeader (proto : Proto) : Option (String × Nat) :=
  if proto = 0 then some ("Hop-by-Hop", 8)
  else if proto = 43 then some ("Routing", 8)
  else if proto = 51 then some ("AH", 4)
  else if proto = 60 then some ("Destination Options", 8)
  else none

/-- The `for` loop of `parseIPv6`; `none` when the fuel is used up. -/
def walkExtensions (pkt : Bytes) (flow : Flow) : Nat → Nat → Int → Proto → Option Parsed
  | 0, _, _, _ => none
  | fuel + 1, offset, remaining, proto => do
    if remaining < 0 then return reject flow "IPv6 payload length exceeded"
    if proto = protoTCP ∨ proto = protoUDP ∨ proto = protoICMP ∨ proto = protoICMPv6 then
      let flow := { flow with proto := proto }
      if offset ≥ pkt.length then
        return reject flow "IPv6 packet ends before transport header"
      parseTransport flow proto (← pkt.sliceFrom offset)
    else if proto = 44 then
      if offset + 8 > pkt.length then return reject flow "IPv6 Fragment header truncated"
      let nextHeader ← pkt[offset]?
      let fragOffset := (← pkt.uint16At (offset + 2)) >>> 3
      if fragOffset > 0 then return accept { flow with proto := nextHeader } .kindFragment
      walkExtensions pkt flow fuel (offset + 8) (remaining - 8) nextHeader
    else if proto = 50 then
      return reject flow "IPv6 ESP header - cannot parse encrypted payload"
    else
      match skippedHeader proto with
      | none => return reject flow "unknown IPv6 extension header"
      | some (name, scale) =>
        match ← extensionHeader pkt name scale offset with
        | .error e => return reject flow e
        | .ok (nextHeader, headerSize) =>
          walkExtensions pkt flow fuel (offset + headerSize) (remaining - headerSize) nextHeader

/-- The fixed IPv6 header, then its chain of extension headers. -/
def parseIPv6 (pkt : Bytes) : Option Parsed := do
  let flow : Flow := { ipv6 := true }
  if pkt.length < 40 then return reject flow "IPv6 packet too short"
  let payloadLen ← pkt.uint16At 4
  let nextHeader ← pkt[6]?
  let src ← pkt.slice 8 24
  let dst ← pkt.slice 24 40
  let flow := { flow with srcIP := setIP src, dstIP := setIP dst }
  walkExtensions pkt flow pkt.length 40 payloadLen.toNat nextHeader

/-- `ParsePacket` with every access of the source checked. -/
def parsePacketChecked (pkt : Bytes) : Option Parsed := do
  let flow : Flow := {}
  if pkt.length < 20 then return reject flow "packet too short for IPv4 header"
  let version := (← pkt[0]?) >>> 4
  if version = 4 then parseIPv4 pkt
  else if version = 6 then parseIPv6 pkt
  else return reject flow "unknown IP version"

open Bytes

/-- The protocols `parseTransport` knows. -/
def IsTransport (p : Proto) : Prop :=
  p = protoTCP ∨ p = protoUDP ∨ p = protoICMP ∨ p = protoICMPv6

variable {p : Proto} {flow : Flow} {r : Parsed}

theorem IsTransport.ne_zero (h : IsTransport p) : p ≠ 0 := by
  rcases h with rfl | rfl | rfl | rfl <;> decide

/-- What a parser that was handed the header's flow reports: the header's own
addresses unless it met an ICMP error, and a start only for a known transport
and never beside an error. -/
structure Inherits (flow : Flow) (r : Parsed) : Prop where
  header : r.kind ≠ .kindError →
    r.flow.srcIP = flow.srcIP ∧ r.flow.dstIP = flow.dstIP ∧ r.flow.ipv6 = flow.ipv6
  start : r.kind = .kindStart → r.err = none ∧ IsTransport r.flow.proto

private theorem inherits_reject (flow : Flow) (s d : UInt16) (e : String) :
    Inherits flow (reject { flow with srcPort := s, dstPort := d } e) :=
  ⟨fun _ => ⟨rfl, rfl, rfl⟩, nofun⟩

private theorem inherits_accept (flow : Flow) (s d : UInt16) {k : Kind} (hk : k ≠ .kindStart) :
    Inherits flow (accept { flow with srcPort := s, dstPort := d } k) :=
  ⟨fun _ => ⟨rfl, rfl, rfl⟩, fun h => absurd h hk⟩

private theorem inherits_start (s d : UInt16) (hp : IsTransport flow.proto) :
    Inherits flow (accept { flow with srcPort := s, dstPort := d } .kindStart) :=
  ⟨fun _ => ⟨rfl, rfl, rfl⟩, fun _ => ⟨rfl, hp⟩⟩

private theorem inherits_error (h : r.kind = .kindError) : Inherits flow r :=
  ⟨fun hk => absurd h hk, fun hs => nomatch h.symm.trans hs⟩

theorem parseICMPErrorIPv4_yields (flow : Flow) (quoted : Bytes) :
    Yields (parseICMPErrorIPv4 flow quoted) (·.kind = .kindError) := by
  unfold parseICMPErrorIPv4
  refine .ite (fun _ => .pure rfl) fun h20 => ?_
  refine (yields_getElem (by omega)).bind fun b0 _ => ?_
  refine .ite (fun _ => .pure rfl) fun hihl => ?_
  refine .ite (fun _ => .pure rfl) fun hlen => ?_
  refine (yields_getElem (by omega)).bind fun proto _ => ?_
  refine (yields_slice (by omega) (by omega)).bind fun src _ => ?_
  refine (yields_slice (by omega) (by omega)).bind fun dst _ => ?_
  refine (yields_sliceFrom (by omega)).bind fun transport _ => ?_
  refine .ite (fun _ => .pure rfl) fun h4 => ?_
  refine .ite (fun _ => ?_) fun _ => .pure rfl
  refine (yields_uint16At (by omega)).bind fun srcPort _ => ?_
  exact (yields_uint16At (by omega)).bind fun dstPort _ => .pure rfl

theorem parseICMPErrorIPv6_yields (flow : Flow) (quoted : Bytes) :
    Yields (parseICMPErrorIPv6 flow quoted) (·.kind = .kindError) := by
  unfold parseICMPErrorIPv6
  refine .ite (fun _ => .pure rfl) fun h40 => ?_
  refine (yields_getElem (by omega)).bind fun nextHeader _ => ?_
  refine (yields_slice (by omega) (by omega)).bind fun src _ => ?_
  refine (yields_slice (by omega) (by omega)).bind fun dst _ => ?_
  refine .ite (fun _ => .pure rfl) fun h44 => ?_
  refine (yields_sliceFrom (by omega)).bind fun transport _ => ?_
  refine .ite (fun h => ?_) fun _ => .pure rfl
  refine (yields_uint16At (by omega)).bind fun srcPort _ => ?_
  exact (yields_uint16At (by omega)).bind fun dstPort _ => .pure rfl

theorem parseICMPError_yields (flow : Flow) (icmp : Bytes) :
    Yields (parseICMPError flow icmp) (·.kind = .kindError) := by
  unfold parseICMPError
  refine .ite (fun _ => .pure rfl) fun h28 => ?_
  refine (yields_sliceFrom (by omega)).bind fun quoted _ => ?_
  refine .ite (fun _ => .pure rfl) fun h20 => ?_
  refine (yields_getElem (by omega)).bind fun b0 _ => ?_
  refine .ite (fun _ => parseICMPErrorIPv4_yields flow quoted) fun _ => ?_
  exact .ite (fun _ => parseICMPErrorIPv6_yields flow quoted) fun _ => .pure rfl

theorem parseEcho_yields (name : String) (echo : UInt8) (isError : UInt8 → Bool)
    (flow : Flow) (icmp : Bytes) (hp : IsTransport flow.proto) :
    Yields (parseEcho name echo isError flow icmp) (Inherits flow) := by
  unfold parseEcho
  refine .ite (fun _ => .pure (inherits_reject flow _ _ _)) fun h4 => ?_
  refine (yields_getElem (by omega)).bind fun msgType _ => ?_
  refine (yields_getElem (by omega)).bind fun code _ => ?_
  refine .ite (fun _ => .pure (inherits_start _ _ hp)) fun _ => ?_
  refine .ite (fun _ => ?_) fun _ => .pure (inherits_accept flow _ _ (by decide))
  exact (parseICMPError_yields flow icmp).mono fun r => inherits_error

theorem parseUDP_yields (flow : Flow) (udp : Bytes) (hp : IsTransport flow.proto) :
    Yields (parseUDP flow udp) (Inherits flow) := by
  unfold parseUDP
  refine .ite (fun _ => .pure (inherits_reject flow _ _ _)) fun h8 => ?_
  refine (yields_uint16At (by omega)).bind fun srcPort _ => ?_
  refine (yields_uint16At (by omega)).bind fun dstPort _ => ?_
  exact .pure (inherits_start _ _ hp)

theorem parseTCP_yields (flow : Flow) (tcp : Bytes) (hp : IsTransport flow.proto) :
    Yields (parseTCP flow tcp) (Inherits flow) := by
  unfold parseTCP
  refine .ite (fun _ => .pure (inherits_reject flow _ _ _)) fun h20 => ?_
  refine (yields_uint16At (by omega)).bind fun srcPort _ => ?_
  refine (yields_uint16At (by omega)).bind fun dstPort _ => ?_
  refine (yields_getElem (by omega)).bind fun b12 _ => ?_
  refine .ite (fun _ => .pure (inherits_reject flow srcPort dstPort _)) fun _ => ?_
  refine .ite (fun _ => .pure (inherits_reject flow srcPort dstPort _)) fun _ => ?_
  refine (yields_getElem (by omega)).bind fun flags _ => ?_
  refine .ite (fun _ => .pure (inherits_start _ _ hp)) fun _ => ?_
  refine .ite (fun _ => ?_) fun _ => .pure (inherits_accept flow srcPort dstPort (by decide))
  exact .pure (inherits_accept flow srcPort dstPort (by decide))

theorem parseTransport_yields (flow : Flow) (transport : Bytes) :
    Yields (parseTransport flow flow.proto transport) (Inherits flow) := by
  unfold parseTransport
  refine .ite (fun h => parseTCP_yields flow transport (.inl h)) fun _ => ?_
  refine .ite (fun h => parseUDP_yields flow transport (.inr (.inl h))) fun _ => ?_
  refine .ite (fun h => parseEcho_yields _ _ _ flow transport (.inr (.inr (.inl h)))) fun _ => ?_
  refine .ite (fun h => parseEcho_yields _ _ _ flow transport (.inr (.inr (.inr h)))) fun _ => ?_
  exact .pure (inherits_reject flow _ _ _)

private theorem inherits_proto (h : Inherits { flow with proto := p } r) : Inherits flow r :=
  ⟨h.header, h.start⟩

theorem extensionHeader_yields (pkt : Bytes) (name : String) (scale offset : Nat) :
    Yields (extensionHeader pkt name scale offset)
      (fun r => ∀ p n, r = .ok (p, n) → 8 ≤ n ∧ offset + n ≤ pkt.length) := by
  unfold extensionHeader
  refine .ite (fun _ => .pure (fun _ _ h => nomatch h)) fun h2 => ?_
  refine (yields_getElem (by omega)).bind fun nextHeader _ => ?_
  refine (yields_getElem (by omega)).bind fun extLen _ => ?_
  refine .ite (fun _ => .pure (fun _ _ h => nomatch h)) fun hfit => .pure ?_
  rintro p n ⟨⟩
  exact ⟨by omega, by omega⟩

/-- The loop ends before its fuel does: each round moves at least eight bytes
towards the end of the packet. -/
theorem walkExtensions_yields (pkt : Bytes) (flow : Flow) (fuel offset : Nat)
    (remaining : Int) (proto : Proto) (ho : offset ≤ pkt.length)
    (hfuel : pkt.length < offset + fuel) :
    Yields (walkExtensions pkt flow fuel offset remaining proto) (Inherits flow) := by
  induction fuel generalizing offset remaining proto with
  | zero => omega
  | succ fuel ih =>
    unfold walkExtensions
    refine .ite (fun _ => .pure (inherits_reject flow _ _ _)) fun _ => ?_
    refine .ite (fun _ => ?_) fun _ => ?_
    · refine .ite (fun _ => .pure (inherits_proto (inherits_reject { flow with proto := proto } _ _ _)))
        fun _ => ?_
      refine (yields_sliceFrom ho).bind fun transport _ => ?_
      exact (parseTransport_yields { flow with proto := proto } transport).mono
        fun r => inherits_proto
    refine .ite (fun _ => ?_) fun _ => ?_
    · refine .ite (fun _ => .pure (inherits_reject flow _ _ _)) fun h8 => ?_
      refine (yields_getElem (by omega)).bind fun nextHeader _ => ?_
      refine (yields_uint16At (by omega)).bind fun fragOffset _ => ?_
      refine .ite (fun _ => .pure (inherits_proto
        (inherits_accept { flow with proto := nextHeader } _ _ (k := .kindFragment) (by decide))))
        fun _ => ?_
      exact ih (offset + 8) (remaining - 8) nextHeader (by omega) (by omega)
    refine .ite (fun _ => .pure (inherits_reject flow _ _ _)) fun _ => ?_
    cases hs : skippedHeader proto with
    | none => exact .pure (inherits_reject flow _ _ _)
    | some header =>
      refine (extensionHeader_yields pkt header.1 header.2 offset).bind fun ext hext => ?_
      cases ext with
      | error e => exact .pure (inherits_reject flow _ _ _)
      | ok found =>
        obtain ⟨nextHeader, size⟩ := found
        obtain ⟨hsize, hfit⟩ := hext nextHeader size rfl
        exact ih (offset + size) (remaining - size) nextHeader hfit (by omega)

/-- The addresses of the outer IP header, in the form the parser stores them. -/
def outerFlow (pkt : Bytes) : Flow :=
  if pkt.headD 0 >>> 4 = 4 then
    { srcIP := setLast4 0 ((pkt.drop 12).take 4), dstIP := setLast4 0 ((pkt.drop 16).take 4) }
  else
    { srcIP := setIP ((pkt.drop 8).take 16), dstIP := setIP ((pkt.drop 24).take 16), ipv6 := true }

/-- What `ParsePacket` reports of a packet: it is long enough for its header,
the flow carries the header's own addresses unless the packet is an ICMP error,
and only a known transport starts a connection. -/
structure ReadsHeader (pkt : Bytes) (r : Parsed) : Prop where
  long : r.err = none → (pkt.headD 0 >>> 4 = 4 ∧ 20 ≤ pkt.length) ∨
    (pkt.headD 0 >>> 4 = 6 ∧ 40 ≤ pkt.length)
  header : r.err = none → r.kind ≠ .kindError → r.flow.srcIP = (outerFlow pkt).srcIP ∧
    r.flow.dstIP = (outerFlow pkt).dstIP ∧ r.flow.ipv6 = (outerFlow pkt).ipv6
  start : r.kind = .kindStart → r.err = none ∧ IsTransport r.flow.proto

private theorem readsHeader_reject (pkt : Bytes) (flow : Flow) (e : String) :
    ReadsHeader pkt (reject flow e) :=
  ⟨nofun, nofun, nofun⟩

theorem parseIPv4_yields (pkt : Bytes) (hv : pkt.headD 0 >>> 4 = 4) :
    Yields (parseIPv4 pkt) (ReadsHeader pkt) := by
  unfold parseIPv4
  refine .ite (fun _ => .pure (readsHeader_reject ..)) fun h20 => ?_
  have hread {r : Parsed} (p : Proto) (h : Inherits
      { srcIP := setLast4 0 ((pkt.drop 12).take 4), dstIP := setLast4 0 ((pkt.drop 16).take 4),
        proto := p } r) : ReadsHeader pkt r := by
    refine ⟨fun _ => .inl ⟨hv, by omega⟩, fun _ hk => ?_, h.start⟩
    simpa only [outerFlow, hv, ite_true] using h.header hk
  refine (yields_getElem (by omega)).bind fun b0 _ => ?_
  refine .ite (fun _ => .pure (readsHeader_reject ..)) fun _ => ?_
  refine .ite (fun _ => .pure (readsHeader_reject ..)) fun hhl => ?_
  refine (yields_uint16At (by omega)).bind fun flagsFrag _ => ?_
  refine (yields_getElem (by omega)).bind fun proto _ => ?_
  refine (yields_slice (by omega) (by omega)).bind fun src hsrc => ?_
  refine (yields_slice (by omega) (by omega)).bind fun dst hdst => ?_
  subst hsrc hdst
  refine .ite (fun _ => .pure (hread proto (inherits_accept _ _ _ (by decide)))) fun _ => ?_
  refine .ite (fun _ => .pure (hread proto (inherits_accept _ _ _ ?_))) fun _ => ?_
  · split <;> decide
  refine (yields_sliceFrom (by omega)).bind fun transport _ => ?_
  exact (parseTransport_yields _ transport).mono fun r => hread proto

theorem parseIPv6_yields (pkt : Bytes) (hv : pkt.headD 0 >>> 4 = 6) :
    Yields (parseIPv6 pkt) (ReadsHeader pkt) := by
  unfold parseIPv6
  refine .ite (fun _ => .pure (readsHeader_reject ..)) fun h40 => ?_
  refine (yields_uint16At (by omega)).bind fun payloadLen _ => ?_
  refine (yields_getElem (by omega)).bind fun nextHeader _ => ?_
  refine (yields_slice (by omega) (by omega)).bind fun src hsrc => ?_
  refine (yields_slice (by omega) (by omega)).bind fun dst hdst => ?_
  subst hsrc hdst
  refine (walkExtensions_yields pkt _ pkt.length 40 _ _ (by omega) (by omega)).mono fun r h => ?_
  refine ⟨fun _ => .inr ⟨hv, by omega⟩, fun _ hk => ?_, h.start⟩
  have h6 : ¬(6 : UInt8) = 4 := by decide
  simpa only [outerFlow, hv, h6, ite_false] using h.header hk

/-- No byte string makes an access of the parser fail, and its loop always ends. -/
theorem parsePacketChecked_yields (pkt : Bytes) :
    Yields (parsePacketChecked pkt) (ReadsHeader pkt) := by
  unfold parsePacketChecked
  refine .ite (fun _ => .pure (readsHeader_reject ..)) fun h20 => ?_
  refine (yields_getElem (show 0 < pkt.length by omega)).bind fun b0 hb => ?_
  have hd : pkt.headD 0 = b0 := by
    rw [hb]
    cases pkt with
    | nil => simp at h20
    | cons b rest => rfl
  refine .ite (fun h4 => parseIPv4_yields pkt (hd ▸ h4)) fun _ => ?_
  exact .ite (fun h6 => parseIPv6_yields pkt (hd ▸ h6)) fun _ => .pure (readsHeader_reject ..)

/-- `ParsePacket` as a total function. -/
def parsePacket (pkt : Bytes) : Parsed :=
  (parsePacketChecked pkt).get (parsePacketChecked_yields pkt).isSome

theorem parsePacket_reads (pkt : Bytes) : ReadsHeader pkt (parsePacket pkt) :=
  (parsePacketChecked_yields pkt).get

end Veld.Acl
