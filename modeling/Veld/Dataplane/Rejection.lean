import Veld.Acl.FlowKeys
import Veld.Acl.Formats
import Veld.Dataplane.Outbound

/-!
# What a rejected sender is told

A denied packet is answered from the flow that was parsed of it. The answer is a segment
in a header with the addresses of the flow exchanged: a TCP reset if the protocol of the
flow is TCP, otherwise a destination-unreachable message with the beginning of the denied
packet. It goes back to the sender if the flow has the addresses of the packet's own
header, which is so for all but the ICMP errors that quote another packet. It is of the
right kind unless the packet is TCP without a complete header.
-/

namespace Veld.Dataplane

open Acl Netip Peer Bytes

/-- The IPv4 header of a rejection. -/
def rejectHeader4 (totalLength : Nat) (p : Proto) (src dst : BitVec 128) : IPv4Header where
  tos := 0
  totalLength := UInt16.ofNat totalLength
  id := 0
  flags := ⟨0, Nat.succ_pos _⟩
  ttl := 64
  protocol := p
  checksum := 0
  src := src.extractLsb' 0 32
  dst := dst.extractLsb' 0 32
  words := ⟨0, Nat.succ_pos _⟩
  options := []
  length_options := rfl

/-- The IPv6 header of a rejection. -/
def rejectHeader6 (payloadLen : Nat) (src dst : BitVec 128) : IPv6Header where
  trafficClass := ⟨0, Nat.succ_pos _⟩
  classAndLabel := (0, 0, 0)
  payloadLen := UInt16.ofNat payloadLen
  hopLimit := 64
  src := src
  dst := dst

/-- A segment sent back along a flow. -/
def sendBack (flow : Flow) (p : Proto) (seg : Bytes) : Bytes :=
  if flow.ipv6 then (rejectHeader6 seg.length flow.dstIP flow.srcIP).packet [] p seg
  else (rejectHeader4 (20 + seg.length) p flow.dstIP flow.srcIP).bytes ++ seg

/-- The protocol of the message that tells of a denial. -/
def unreachableProto (flow : Flow) : Proto := if flow.ipv6 then protoICMPv6 else protoICMP

/-- Destination unreachable, administratively prohibited, with the beginning of a packet. -/
def unreachable (flow : Flow) (originalPkt : Bytes) : Bytes :=
  if flow.ipv6 then [1, 1, 0, 0, 0, 0, 0, 0] ++ originalPkt.take (1280 - 40 - 8)
  else [3, 13, 0, 0, 0, 0, 0, 0] ++ originalPkt.take (576 - 20 - 8)

section Builders

theorem ofNatBE_uint16 (n : Nat) : ofNatBE 2 (UInt16.ofNat n).toNat = ofNatBE 2 n := by
  rw [UInt16.toNat_ofNat']
  exact ofNatBE_mod 2 n

theorem last4_eq (ip : BitVec 128) : last4 ip = ofNatBE 4 (ip.extractLsb' 0 32).toNat := by
  rw [last4, BitVec.extractLsb'_toNat, Nat.shiftRight_zero]
  exact (ofNatBE_mod 4 ip.toNat).symm

theorem buildTCPRST_eq (flow : Flow) :
    buildTCPRST flow = sendBack flow protoTCP (tcpReset flow.dstPort flow.srcPort) := by
  rw [buildTCPRST, sendBack]
  cases flow.ipv6 with
  | true =>
    simp only [IPv6Header.packet, IPv6Header.bytes, IPv6Header.first8, rejectHeader6,
      firstNumber, chainBytes, Acl.Flow.reverse, ite_true, List.append_assoc, List.nil_append]
    rfl
  | false =>
    simp only [IPv4Header.bytes, rejectHeader4, Acl.Flow.reverse, last4_eq, ite_false,
      Bool.false_eq_true, List.append_assoc, List.nil_append]
    rfl

theorem buildICMPAdminProhibited_eq (flow : Flow) (originalPkt : Bytes) :
    buildICMPAdminProhibited flow originalPkt =
      sendBack flow (unreachableProto flow) (unreachable flow originalPkt) := by
  rw [buildICMPAdminProhibited, sendBack, unreachableProto, unreachable]
  cases flow.ipv6 with
  | true =>
    simp only [IPv6Header.packet, IPv6Header.bytes, IPv6Header.first8, rejectHeader6,
      firstNumber, chainBytes, ite_true, List.append_assoc, List.nil_append, ofNatBE_uint16,
      List.length_append]
    rfl
  | false =>
    simp only [IPv4Header.bytes, rejectHeader4, last4_eq, ite_false, ofNatBE_uint16,
      Bool.false_eq_true, List.append_assoc, List.nil_append, List.length_append, Nat.add_assoc]
    rfl

end Builders

section SendBack

variable (flow : Flow) {p : Proto} (seg : Bytes)

theorem carries_sendBack (hp : IsTransport p) : Carries (sendBack flow p seg) p seg := by
  rw [sendBack]
  cases flow.ipv6 with
  | true => exact .inr (IPv6Header.carries _ [] p seg hp (Nat.zero_le _))
  | false => exact .inl (IPv4Header.carries _ seg)

theorem outerFlow_sendBack : outerFlow (sendBack flow p seg) =
    if flow.ipv6 then { srcIP := flow.dstIP, dstIP := flow.srcIP, ipv6 := true }
    else { srcIP := inLast4 (flow.dstIP.extractLsb' 0 32)
           dstIP := inLast4 (flow.srcIP.extractLsb' 0 32) } := by
  rw [sendBack]
  cases flow.ipv6 with
  | true => exact IPv6Header.outerFlow_packet _ [] p seg
  | false => exact IPv4Header.outerFlow_bytes _ seg

theorem extractLsb'_inLast4 (ip : BitVec 32) : (inLast4 ip).extractLsb' 0 32 = ip :=
  BitVec.extractLsb'_append_eq_right

theorem long_of_carries {pkt : Bytes} (h : Carries pkt p seg) :
    (pkt.headD 0 >>> 4 = 4 ∧ 20 ≤ pkt.length) ∨ (pkt.headD 0 >>> 4 = 6 ∧ 40 ≤ pkt.length) :=
  h.imp (fun h => ⟨h.version, h.header.trans h.fits⟩) fun h => ⟨h.version, h.long⟩

/-- It goes from the destination of the flow to its source. -/
theorem extract_sendBack (hp : IsTransport p) :
    extractSrcIP (sendBack flow p seg) = some (dstAddr flow) ∧
      extractDestIP (sendBack flow p seg) = some (srcAddr flow) := by
  have hextract := extract_of_long (long_of_carries seg (carries_sendBack flow seg hp))
  rw [outerFlow_sendBack, srcAddr, dstAddr] at hextract
  rw [srcAddr, dstAddr]
  cases hv : flow.ipv6 with
  | true =>
    rw [hv] at hextract
    exact hextract
  | false =>
    simp only [hv, Bool.false_eq_true, ite_false, flowAddr, extractLsb'_inLast4] at hextract
    exact hextract

/-- A flow whose IPv4 addresses have nothing else in them comes back exchanged. -/
theorem outerFlow_sendBack_of_tidy (h : flow.Tidy) : outerFlow (sendBack flow p seg) =
    { srcIP := flow.dstIP, dstIP := flow.srcIP, ipv6 := flow.ipv6 } := by
  have hlast {ip : BitVec 128} (h : ip.toNat < 2 ^ 32) : inLast4 (ip.extractLsb' 0 32) = ip := by
    apply BitVec.eq_of_toNat_eq
    rw [inLast4, BitVec.toNat_append, BitVec.extractLsb'_toNat, Nat.shiftRight_zero,
      Nat.mod_eq_of_lt h]
    exact Nat.zero_or _
  rw [outerFlow_sendBack]
  cases hv : flow.ipv6 with
  | true => rfl
  | false =>
    obtain ⟨hsrc, hdst⟩ := h hv
    simp [hlast hsrc, hlast hdst]

end SendBack

section Resets

variable (srcPort dstPort : UInt16)

theorem dataOffset_tcpReset : dataOffset (tcpReset srcPort dstPort) = 5 := by
  have hbyte : (tcpReset srcPort dstPort).getD 12 0 = 0x50 := rfl
  rw [dataOffset, hbyte]
  decide

theorem completeTCP_tcpReset : CompleteTCP (tcpReset srcPort dstPort) where
  fixed := Nat.le_refl 20
  least := (dataOffset_tcpReset srcPort dstPort).ge
  fits := by
    rw [dataOffset_tcpReset]
    exact Nat.le_refl 20

theorem tcpKind_tcpReset : tcpKind (tcpReset srcPort dstPort) = .kindEnd := by
  have hbyte : (tcpReset srcPort dstPort).getD 13 0 = 0x04 := rfl
  simp only [tcpKind, hasFlag, hbyte]
  decide

theorem portAt_tcpReset : portAt (tcpReset srcPort dstPort) 0 = srcPort ∧
    portAt (tcpReset srcPort dstPort) 2 = dstPort := by
  have hport (port : UInt16) : UInt16.ofNat (beNat (ofNatBE 2 port.toNat)) = port := by
    rw [beNat_ofNatBE port.toNat_lt]
    exact UInt16.ofNat_toNat
  exact ⟨hport srcPort, hport dstPort⟩

theorem parsePacket_of_carriesTCP {pkt seg : Bytes} (h : Carries pkt protoTCP seg)
    (hseg : CompleteTCP seg) : parsePacket pkt =
      accept (withPorts { outerFlow pkt with proto := protoTCP } seg) (tcpKind seg) :=
  h.parsePacket (le_trans (by decide) hseg.fixed) (parseTCP_of_complete hseg)

/-- The reset of a TCP flow ends the flow in the other direction. -/
theorem parsePacket_buildTCPRST {flow : Flow} (htidy : flow.Tidy) (hp : flow.proto = protoTCP) :
    parsePacket (buildTCPRST flow) = accept flow.reverse .kindEnd := by
  have hcarries := carries_sendBack flow (tcpReset flow.dstPort flow.srcPort) (.inl rfl)
  obtain ⟨hsrc, hdst⟩ := portAt_tcpReset flow.dstPort flow.srcPort
  rw [buildTCPRST_eq, parsePacket_of_carriesTCP hcarries (completeTCP_tcpReset _ _),
    outerFlow_sendBack_of_tidy flow _ htidy, withPorts, hsrc, hdst, tcpKind_tcpReset,
    Acl.Flow.reverse, hp]

end Resets

/-- The packet is TCP with a complete header. -/
def CarriesTCP (pkt : Bytes) : Prop := ∃ seg, Carries pkt protoTCP seg ∧ CompleteTCP seg

/-- A destination-unreachable message that quotes the beginning of a packet. -/
def TellsUnreachable (inj pkt : Bytes) : Prop :=
  ∃ p seg, Carries inj p seg ∧
    (p = protoICMP ∧ seg.head? = some 3 ∨ p = protoICMPv6 ∧ seg.head? = some 1) ∧
    8 ≤ seg.length ∧ seg.drop 8 <+: pkt

theorem tellsUnreachable_build (flow : Flow) (originalPkt : Bytes) :
    TellsUnreachable (buildICMPAdminProhibited flow originalPkt) originalPkt := by
  rw [buildICMPAdminProhibited_eq]
  have hicmp : IsTransport (unreachableProto flow) := by
    rw [unreachableProto]
    split <;> decide
  refine ⟨_, _, carries_sendBack flow _ hicmp, ?_⟩
  rw [unreachableProto, unreachable]
  cases flow.ipv6 with
  | true => exact ⟨.inr ⟨rfl, rfl⟩, Nat.le_add_left 8 _, List.take_prefix _ _⟩
  | false => exact ⟨.inl ⟨rfl, rfl⟩, Nat.le_add_left 8 _, List.take_prefix _ _⟩

theorem kind_of_tellsUnreachable {inj pkt : Bytes} (h : TellsUnreachable inj pkt) :
    (parsePacket inj).kind = .kindError := by
  obtain ⟨p, seg, hcarries, htype, hlen, -⟩ := h
  have hicmp : IsICMP p := htype.imp And.left And.left
  have hhead : isErrorMessage p seg = true := by
    cases seg with
    | nil => rcases htype with ⟨_, h⟩ | ⟨_, h⟩ <;> cases h
    | cons b rest =>
      rcases htype with ⟨rfl, h⟩ | ⟨rfl, h⟩
      · cases h
        rfl
      · cases h
        rfl
  obtain ⟨r, hr, hkind⟩ := parseICMPError_yields { outerFlow inj with proto := p } seg
  have hparse : parseTransport { outerFlow inj with proto := p } p seg = some r := by
    rw [parseTransport_icmp hicmp (le_trans (by decide) hlen), hhead, if_pos rfl]
    exact hr
  rw [hcarries.parsePacket (le_trans (by decide) hlen) hparse]
  exact hkind

namespace Dispatcher

variable {d : Dispatcher} {pkt : Bytes} {now : Int}

/-- The policy denies a packet read from the TUN. -/
def DeniesOut (d : Dispatcher) (pkt : Bytes) (now : Int) : Prop :=
  ∃ src dst proto port, Output.decided src dst proto port .deny ∈ (d.handleTunPacket pkt now).2

/-- The packets that are injected into the TUN. -/
def injected (d : Dispatcher) (pkt : Bytes) (now : Int) : List Bytes :=
  (d.handleTunPacket pkt now).2.filterMap fun
    | .rejected inj => some inj
    | _ => none

/-- A denied packet is answered from its flow. -/
theorem injected_of_deniesOut (htun : d.tun.isSome) (h : d.DeniesOut pkt now) :
    (parsePacket pkt).err = none ∧ d.injected pkt now =
      [if (parsePacket pkt).flow.proto = protoTCP then buildTCPRST (parsePacket pkt).flow
       else buildICMPAdminProhibited (parsePacket pkt).flow pkt] := by
  obtain ⟨src, dst, proto, port, hmem⟩ := h
  have hasked := ((handleTunPacket_spec d pkt now).decided _ rfl).mp hmem
  have hdenied := hasked
  unfold asked at hdenied
  split at hdenied
  · cases hdenied
  · next r hr =>
    split at hdenied
    · cases hdenied
    · next he =>
      have he := Bool.not_eq_true _ ▸ he
      obtain ⟨dec, hd, hdec⟩ := Option.map_eq_some_iff.mp hdenied
      have hdeny : dec.action = .deny := (Output.decided.inj hdec).2.2.2.2
      refine ⟨Option.isSome_eq_false_iff.mp he |> Option.isNone_iff_eq_none.mp, ?_⟩
      rw [injected, handleTunPacket_denied hr he hd hdeny, hasked, sendReject]
      obtain ⟨tun, htun⟩ := Option.isSome_iff_exists.mp htun
      rw [htun]
      dsimp only
      split
      · rfl
      · rfl

end Dispatcher

/-- The flow has the addresses of the packet's own header. -/
structure OwnHeader (pkt : Bytes) : Prop where
  src : (parsePacket pkt).flow.srcIP = (outerFlow pkt).srcIP
  dst : (parsePacket pkt).flow.dstIP = (outerFlow pkt).dstIP
  ipv6 : (parsePacket pkt).flow.ipv6 = (outerFlow pkt).ipv6

namespace Sample

/-- An ICMP error to the peer about a datagram between two other nodes. -/
def portUnreachable : Bytes :=
  ipv4 1 (vpn 1) (vpn 2) ([3, 3, 0, 0, 0, 0, 0, 0] ++
    ipv4 17 (vpn 8) (vpn 9) [0, 53, 0, 53, 0, 8, 0, 0])

/-- A later fragment of a TCP segment. -/
def laterFragment : Bytes :=
  [0x45, 0, 0, 28, 0, 0, 0, 1, 64, 6, 0, 0] ++ Bytes.ofNatBE 4 (vpn 1).toNat ++
    Bytes.ofNatBE 4 (vpn 2).toNat ++ List.replicate 8 0

end Sample

end Veld.Dataplane
