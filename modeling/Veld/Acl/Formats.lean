import Veld.Core.Framing
import Veld.Acl.Headers

/-!
# Well-formed packets

IPv4 and IPv6 packets as they are put together: an IPv4 header with its options, an
IPv6 header with a list of extension headers, and behind either a complete message of
a transport protocol. The parser reports of such a packet the addresses and ports that
were put in and the kind of the message.
-/

namespace Veld.Acl

open Bytes

/-- An IPv4 header of a packet that is whole or the first of its fragments. -/
structure IPv4Header where
  tos : UInt8
  totalLength : UInt16
  id : UInt16
  flags : Fin 8
  ttl : UInt8
  protocol : Proto
  checksum : UInt16
  src : BitVec 32
  dst : BitVec 32
  /-- The words of options, so that the header has 20 to 60 bytes. -/
  words : Fin 11
  options : Bytes
  length_options : options.length = 4 * words

def IPv4Header.bytes (h : IPv4Header) : Bytes :=
  [UInt8.ofNat (0x45 + h.words), h.tos] ++ ofNatBE 2 h.totalLength.toNat ++ ofNatBE 2 h.id.toNat ++
    [UInt8.ofNat (32 * h.flags), 0, h.ttl, h.protocol] ++ ofNatBE 2 h.checksum.toNat ++
    ofNatBE 4 h.src.toNat ++ ofNatBE 4 h.dst.toNat ++ h.options

/-- The extension headers of any length. -/
inductive ExtensionKind
  | hopByHop
  | routing
  | destinationOptions
  | authentication
  deriving DecidableEq, Repr

def ExtensionKind.number : ExtensionKind → Proto
  | hopByHop => 0
  | routing => 43
  | destinationOptions => 60
  | authentication => 51

/-- The unit of the length byte; the first eight bytes are not counted. -/
def ExtensionKind.unit : ExtensionKind → Nat
  | hopByHop | routing | destinationOptions => 8
  | authentication => 4

inductive Extension
  | sized (kind : ExtensionKind) (len : UInt8) (body : Bytes)
    (h : body.length = 6 + len.toNat * kind.unit)
  /-- A Fragment header with the offset 0. -/
  | firstFragment (reserved : UInt8) (flags : Fin 8) (id : UInt32)

namespace Extension

def number : Extension → Proto
  | sized kind _ _ _ => kind.number
  | firstFragment _ _ _ => 44

/-- The header in front of one with a number. -/
def bytes (next : Proto) : Extension → Bytes
  | sized _ len body _ => [next, len] ++ body
  | firstFragment reserved flags id => [next, reserved, 0, UInt8.ofNat flags] ++ ofNatBE 4 id.toNat

end Extension

/-- The number in front of a chain that ends in a transport protocol. -/
def firstNumber : List Extension → Proto → Proto
  | [], p => p
  | e :: _, _ => e.number

def chainBytes : List Extension → Proto → Bytes
  | [], _ => []
  | e :: es, p => e.bytes (firstNumber es p) ++ chainBytes es p

structure IPv6Header where
  trafficClass : Fin 16
  classAndLabel : UInt8 × UInt8 × UInt8
  payloadLen : UInt16
  hopLimit : UInt8
  src : BitVec 128
  dst : BitVec 128

/-- The eight bytes before the addresses. -/
def IPv6Header.first8 (h : IPv6Header) (next : Proto) : Bytes :=
  [UInt8.ofNat (0x60 + h.trafficClass), h.classAndLabel.1, h.classAndLabel.2.1,
    h.classAndLabel.2.2] ++ ofNatBE 2 h.payloadLen.toNat ++ [next, h.hopLimit]

def IPv6Header.bytes (h : IPv6Header) (next : Proto) : Bytes :=
  h.first8 next ++ (ofNatBE 16 h.src.toNat ++ ofNatBE 16 h.dst.toNat)

/-- A complete message of a transport protocol that is no ICMP error. -/
inductive Message : Proto → Bytes → Prop
  | tcp {seg : Bytes} (h : CompleteTCP seg) : Message protoTCP seg
  | udp {seg : Bytes} (h : 8 ≤ seg.length) : Message protoUDP seg
  | icmp {seg : Bytes} (h : 4 ≤ seg.length) (hmsg : isICMPError (seg.getD 0 0) = false) :
    Message protoICMP seg
  | icmpv6 {seg : Bytes} (h : 4 ≤ seg.length) (hmsg : isICMPv6Error (seg.getD 0 0) = false) :
    Message protoICMPv6 seg

/-- The ports of a message, 0 for ICMP. -/
def portsOf (p : Proto) (seg : Bytes) : UInt16 × UInt16 :=
  if p = protoTCP ∨ p = protoUDP then (portAt seg 0, portAt seg 2) else (0, 0)

/-- The kind of a message. -/
def kindOf (p : Proto) (seg : Bytes) : Kind :=
  if p = protoTCP then tcpKind seg
  else if p = protoUDP then .kindStart
  else echoKind (echoType p) seg

section Messages

variable {p : Proto} {seg : Bytes}

theorem Message.length_le (h : Message p seg) : 4 ≤ seg.length := by
  cases h with
  | tcp h => exact le_trans (by decide) h.fixed
  | udp h => exact le_trans (by decide) h
  | icmp h hmsg => exact h
  | icmpv6 h hmsg => exact h

theorem Message.isTransport (h : Message p seg) : IsTransport p := by
  cases h with
  | tcp h => exact .inl rfl
  | udp h => exact .inr (.inl rfl)
  | icmp h hmsg => exact .inr (.inr (.inl rfl))
  | icmpv6 h hmsg => exact .inr (.inr (.inr rfl))

/-- A complete message is reported with its ports and kind. -/
theorem Message.parseTransport (h : Message p seg) (src dst : BitVec 128) (ipv6 : Bool) :
    parseTransport { srcIP := src, dstIP := dst, proto := p, ipv6 := ipv6 } p seg =
      some (accept { srcIP := src, dstIP := dst, srcPort := (portsOf p seg).1,
                     dstPort := (portsOf p seg).2, proto := p, ipv6 := ipv6 } (kindOf p seg)) := by
  cases h with
  | tcp h => exact parseTCP_of_complete h
  | udp h => exact parseUDP_of_complete h
  | icmp h hmsg =>
    have hmsg' : isErrorMessage protoICMP seg = false := hmsg
    rw [parseTransport_icmp (.inl rfl) h, hmsg']
    rfl
  | icmpv6 h hmsg =>
    have hmsg' : isErrorMessage protoICMPv6 seg = false := hmsg
    rw [parseTransport_icmp (.inr rfl) h, hmsg']
    rfl

end Messages

section IPv4

variable (h : IPv4Header) (seg : Bytes)

theorem IPv4Header.length_bytes : h.bytes.length = 20 + 4 * h.words := by
  simp only [bytes, List.length_append, List.length_cons, List.length_nil, length_ofNatBE,
    h.length_options]

theorem headerLen_append : headerLen (h.bytes ++ seg) = h.bytes.length := by
  have hwords : ∀ k : Fin 11, (UInt8.ofNat (0x45 + k) &&& 0x0F).toNat * 4 = 20 + 4 * k := by decide
  rw [h.length_bytes, ← hwords h.words]
  rfl

theorem IPv4Header.carries : Carries4 (h.bytes ++ seg) h.protocol seg where
  version := by
    have hwords : ∀ k : Fin 11, UInt8.ofNat (0x45 + k) >>> 4 = 4 := by decide
    exact hwords h.words
  header := by
    rw [headerLen_append, h.length_bytes]
    omega
  fits := by
    rw [headerLen_append, List.length_append]
    omega
  offset := by
    have hflags : ∀ f : Fin 8,
        ¬UInt16.ofNat (beNat [UInt8.ofNat (32 * f), 0]) &&& 0x1FFF > 0 := by decide
    refine ⟨_, uint16At_eq ?_, hflags h.flags⟩
    rw [List.length_append, h.length_bytes]
    omega
  proto := rfl
  segment := by
    rw [headerLen_append, List.drop_left]

/-- An IPv4 address in the last four bytes, the others zero. -/
def inLast4 (ip : BitVec 32) : BitVec 128 := (0 : BitVec 96) ++ ip

theorem setLast4_ofNatBE (ip : BitVec 32) : setLast4 0 (ofNatBE 4 ip.toNat) = inLast4 ip := by
  rw [setLast4, beNat_ofNatBE ip.isLt, BitVec.ofNat_toNat, BitVec.setWidth_eq]
  rfl

theorem IPv4Header.outerFlow_bytes : outerFlow (h.bytes ++ seg) =
    { srcIP := inLast4 h.src, dstIP := inLast4 h.dst } := by
  rw [outerFlow, if_pos (h.carries seg).version, ← setLast4_ofNatBE, ← setLast4_ofNatBE]
  rfl

end IPv4

section IPv6

theorem ExtensionKind.skippedHeader_number (k : ExtensionKind) :
    ∃ name, skippedHeader k.number = some (name, k.unit) := by
  cases k with
  | hopByHop => exact ⟨_, rfl⟩
  | routing => exact ⟨_, rfl⟩
  | destinationOptions => exact ⟨_, rfl⟩
  | authentication => exact ⟨_, rfl⟩

/-- One extension header leads to what stands behind it. -/
theorem Extension.reaches (e : Extension) {before after : Bytes} {next p : Proto} {o : Nat}
    {remaining : Int} (h : Reaches (before ++ (e.bytes next ++ after))
      (before.length + (e.bytes next).length) (remaining - (e.bytes next).length) next o p) :
    Reaches (before ++ (e.bytes next ++ after)) before.length remaining e.number o p := by
  cases e with
  | sized kind len body hbody =>
    obtain ⟨name, hname⟩ := kind.skippedHeader_number
    have hsize : ((sized kind len body hbody).bytes next).length = 8 + len.toNat * kind.unit := by
      rw [bytes, List.length_append, hbody]
      exact Nat.add_assoc 2 6 _ |>.symm
    rw [hsize] at h
    refine .skip hname (getElem?_behind before _ 0) (getElem?_behind before _ 1) ?_ h
    rw [List.length_append, List.length_append, hsize]
    omega
  | firstFragment reserved flags id =>
    have hflags : ∀ f : Fin 8, ¬UInt16.ofNat (beNat [0, UInt8.ofNat f]) >>> 3 > 0 := by decide
    refine .fragment ?_ (getElem?_behind before _ 0) (uint16At_behind before _ 2) (hflags flags) h
    rw [List.length_append, List.length_append]
    exact Nat.add_le_add_left (Nat.le_add_right 8 _) _

/-- A chain that fits the payload length leads to its transport protocol. -/
theorem reaches_chain {p : Proto} (hp : IsTransport p) (after : Bytes) (es : List Extension)
    (before : Bytes) {remaining : Int} (h : (chainBytes es p).length ≤ remaining) :
    Reaches (before ++ (chainBytes es p ++ after)) before.length remaining (firstNumber es p)
      (before.length + (chainBytes es p).length) p := by
  induction es generalizing before remaining with
  | nil => exact .here h hp
  | cons e es ih =>
    rw [chainBytes, List.length_append, Nat.cast_add] at h
    have hrest := @ih (before ++ e.bytes (firstNumber es p))
      (remaining - (e.bytes (firstNumber es p)).length) (by omega)
    rw [List.append_assoc, List.length_append] at hrest
    rw [chainBytes, List.append_assoc, List.length_append, ← Nat.add_assoc]
    exact e.reaches hrest

variable (h : IPv6Header) (es : List Extension) (p : Proto) (seg : Bytes)

def IPv6Header.packet : Bytes := h.bytes (firstNumber es p) ++ (chainBytes es p ++ seg)

theorem IPv6Header.length_bytes (next : Proto) : (h.bytes next).length = 40 := by
  simp [bytes, first8, length_ofNatBE]

theorem IPv6Header.version_packet : (h.packet es p seg).headD 0 >>> 4 = 6 := by
  have hclass : ∀ k : Fin 16, UInt8.ofNat (0x60 + k) >>> 4 = 6 := by decide
  exact hclass h.trafficClass

theorem IPv6Header.carries (hp : IsTransport p)
    (hfit : (chainBytes es p).length ≤ h.payloadLen.toNat) : Carries6 (h.packet es p seg) p seg where
  version := h.version_packet es p seg
  long := by
    rw [packet, List.length_append, h.length_bytes]
    omega
  chain := by
    have hlen : (h.packet es p seg).length = 40 + ((chainBytes es p).length + seg.length) := by
      rw [packet, List.length_append, List.length_append, h.length_bytes]
    have hpayload : portAt (h.packet es p seg) 4 = h.payloadLen := by
      have hbytes : ((h.packet es p seg).drop 4).take 2 = ofNatBE 2 h.payloadLen.toNat := rfl
      rw [portAt, hbytes, beNat_ofNatBE h.payloadLen.toNat_lt]
      exact UInt16.ofNat_toNat
    refine ⟨h.payloadLen, firstNumber es p, 40 + (chainBytes es p).length, ?_, rfl, ?_, ?_, ?_⟩
    · rw [uint16At_eq (by omega), hpayload]
    · have hchain := reaches_chain hp seg es (h.bytes (firstNumber es p))
        (Int.ofNat_le.mpr hfit)
      rwa [h.length_bytes] at hchain
    · omega
    · rw [packet, ← List.append_assoc, List.drop_left']
      rw [List.length_append, h.length_bytes]

theorem setIP_ofNatBE (ip : BitVec 128) : setIP (ofNatBE 16 ip.toNat) = ip := by
  rw [setIP, beNat_ofNatBE ip.isLt, BitVec.ofNat_toNat, BitVec.setWidth_eq]

theorem IPv6Header.outerFlow_packet : outerFlow (h.packet es p seg) =
    { srcIP := h.src, dstIP := h.dst, ipv6 := true } := by
  have h64 : ¬(6 : UInt8) = 4 := by decide
  have hpacket : h.packet es p seg = h.first8 (firstNumber es p) ++ (ofNatBE 16 h.src.toNat ++
      (ofNatBE 16 h.dst.toNat ++ (chainBytes es p ++ seg))) := by
    simp [packet, bytes]
  have hfirst : (h.first8 (firstNumber es p)).length = 8 := rfl
  have hsrc : ((h.packet es p seg).drop 8).take 16 = ofNatBE 16 h.src.toNat := by
    rw [hpacket, List.drop_left' hfirst, List.take_left' (length_ofNatBE 16 _)]
  have hdst : ((h.packet es p seg).drop 24).take 16 = ofNatBE 16 h.dst.toNat := by
    rw [hpacket, ← List.append_assoc, List.drop_left', List.take_left' (length_ofNatBE 16 _)]
    rw [List.length_append, hfirst, length_ofNatBE]
  rw [outerFlow, h.version_packet, if_neg h64, hsrc, hdst, setIP_ofNatBE, setIP_ofNatBE]

end IPv6

/-- Parsing never leaves its byte string and always ends, and of a well-formed packet it reports
what the packet says. -/
theorem parsing_safe_and_exact :
    (∀ pkt, (parsePacketChecked pkt).isSome) ∧
    (∀ (h : IPv4Header) seg, Message h.protocol seg →
      parsePacket (h.bytes ++ seg) =
        { flow := { srcIP := inLast4 h.src, dstIP := inLast4 h.dst,
                    srcPort := (portsOf h.protocol seg).1, dstPort := (portsOf h.protocol seg).2,
                    proto := h.protocol, ipv6 := false }
          kind := kindOf h.protocol seg, err := none }) ∧
    ∀ (h : IPv6Header) es p seg, (chainBytes es p).length ≤ h.payloadLen.toNat → Message p seg →
      parsePacket (h.packet es p seg) =
        { flow := { srcIP := h.src, dstIP := h.dst,
                    srcPort := (portsOf p seg).1, dstPort := (portsOf p seg).2,
                    proto := p, ipv6 := true }
          kind := kindOf p seg, err := none } := by
  refine ⟨fun pkt => (parsePacketChecked_yields pkt).isSome, ?_, ?_⟩
  · intro h seg hmsg
    apply Carries.parsePacket (.inl (h.carries seg)) hmsg.length_le
    rw [h.outerFlow_bytes]
    exact hmsg.parseTransport _ _ false
  · intro h es p seg hfit hmsg
    apply Carries.parsePacket (.inr (h.carries es p seg hmsg.isTransport hfit)) hmsg.length_le
    rw [h.outerFlow_packet]
    exact hmsg.parseTransport _ _ true

namespace Sample

def header6 : IPv6Header := ⟨0, (0, 0, 0), 52, 64, 1, 2⟩

/-- A Hop-by-Hop header, a first fragment and an Authentication header of 16 bytes. -/
def extensions : List Extension :=
  [.sized .hopByHop 0 (List.replicate 6 0) rfl, .firstFragment 0 1 7,
    .sized .authentication 2 (List.replicate 14 0) rfl]

/-- A SYN from port 80 to port 443. -/
def syn : Bytes := [0, 80, 1, 187, 0, 0, 0, 0, 0, 0, 0, 0, 0x50, 0x02, 0, 0, 0, 0, 0, 0]

end Sample

theorem parsing_safe_and_exact_syn :
    parsePacket (Sample.header6.packet Sample.extensions protoTCP Sample.syn) =
      { flow := { srcIP := 1, dstIP := 2, srcPort := 80, dstPort := 443, proto := 6, ipv6 := true }
        kind := .kindStart, err := none } :=
  parsing_safe_and_exact.2.2 Sample.header6 Sample.extensions protoTCP Sample.syn (by decide)
    (.tcp (by decide))

end Veld.Acl
