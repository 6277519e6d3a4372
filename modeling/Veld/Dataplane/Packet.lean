import Veld.Acl.Parse
import Veld.Core.Netip

/-!
# Packets of the data plane

The sixteen-byte header of a data packet, the outer addresses of an IP packet,
and the two packets by which a denied sender is told: a TCP reset, or an ICMP
message that quotes the denied packet.
-/

namespace Veld.Dataplane

open Acl Netip

/-- `HeaderSize`. -/
def headerSize : Nat := 16

def typeData : Nat := 1
def typeHandshakeInit : Nat := 2
def typeHandshakeResp : Nat := 3
def typeKeepalive : Nat := 4
def typeNATProbe : Nat := 5

/-- The wire form of a nonce and a ciphertext. -/
def buildDataPacket (nonce : UInt64) (ct : Bytes) : Bytes :=
  Bytes.ofNatBE 4 typeData ++ Bytes.ofNatBE 4 0 ++ Bytes.ofNatBE 8 nonce.toNat ++ ct

/-- The packet type and the nonce of a header; the sender index is not used. -/
def parseHeader (hdr : Bytes) : Nat × UInt64 :=
  (Bytes.beNat (hdr.take 4), UInt64.ofNat (Bytes.beNat ((hdr.drop 8).take 8)))

/-- The address at an offset of the IPv4 or of the IPv6 header. -/
def extractIP (offset4 offset6 : Nat) (pkt : Bytes) : Option Addr :=
  if pkt.length < 1 then none
  else if pkt.headD 0 >>> 4 = 4 then
    if pkt.length < 20 then none
    else some (.v4 (BitVec.ofNat 32 (Bytes.beNat ((pkt.drop offset4).take 4))))
  else if pkt.headD 0 >>> 4 = 6 then
    if pkt.length < 40 then none
    else some (.v6 (BitVec.ofNat 128 (Bytes.beNat ((pkt.drop offset6).take 16))) "")
  else none

def extractDestIP (pkt : Bytes) : Option Addr := extractIP 16 24 pkt

def extractSrcIP (pkt : Bytes) : Option Addr := extractIP 12 8 pkt

/-- The last four bytes of a flow's address. -/
def last4 (ip : BitVec 128) : Bytes := Bytes.ofNatBE 4 ip.toNat

/-- The TCP header of a reset: no sequence numbers, data offset 5, only RST set. -/
def tcpReset (srcPort dstPort : UInt16) : Bytes :=
  Bytes.ofNatBE 2 srcPort.toNat ++ Bytes.ofNatBE 2 dstPort.toNat ++ Bytes.ofNatBE 4 0 ++
    Bytes.ofNatBE 4 0 ++ [0x50, 0x04] ++ List.replicate 6 0

/-- A TCP reset for the reverse of a flow. -/
def buildTCPRST (flow : Flow) : Bytes :=
  let rstFlow := flow.reverse
  if flow.ipv6 then
    [0x60, 0, 0, 0] ++ Bytes.ofNatBE 2 20 ++ [6, 64] ++ Bytes.ofNatBE 16 rstFlow.srcIP.toNat ++
      Bytes.ofNatBE 16 rstFlow.dstIP.toNat ++ tcpReset rstFlow.srcPort rstFlow.dstPort
  else
    [0x45, 0] ++ Bytes.ofNatBE 2 40 ++ Bytes.ofNatBE 2 0 ++ Bytes.ofNatBE 2 0 ++ [64, 6, 0, 0] ++
      last4 rstFlow.srcIP ++ last4 rstFlow.dstIP ++ tcpReset rstFlow.srcPort rstFlow.dstPort

/-- An ICMP message `administratively prohibited` with as much of the packet as fits. -/
def buildICMPAdminProhibited (flow : Flow) (originalPkt : Bytes) : Bytes :=
  if flow.ipv6 then
    let quoted := originalPkt.take (1280 - 40 - 8)
    [0x60, 0, 0, 0] ++ Bytes.ofNatBE 2 (8 + quoted.length) ++ [58, 64] ++
      Bytes.ofNatBE 16 flow.dstIP.toNat ++ Bytes.ofNatBE 16 flow.srcIP.toNat ++
      [1, 1, 0, 0, 0, 0, 0, 0] ++ quoted
  else
    let quoted := originalPkt.take (576 - 20 - 8)
    [0x45, 0] ++ Bytes.ofNatBE 2 (20 + 8 + quoted.length) ++ Bytes.ofNatBE 2 0 ++
      Bytes.ofNatBE 2 0 ++ [64, 1, 0, 0] ++ last4 flow.dstIP ++ last4 flow.srcIP ++
      [3, 13, 0, 0, 0, 0, 0, 0] ++ quoted

/-- An address of a flow as the address of a packet header. -/
def flowAddr (ipv6 : Bool) (ip : BitVec 128) : Addr :=
  if ipv6 then .v6 ip "" else .v4 (ip.extractLsb' 0 32)

def srcAddr (f : Flow) : Addr := flowAddr f.ipv6 f.srcIP

def dstAddr (f : Flow) : Addr := flowAddr f.ipv6 f.dstIP

private theorem extractLsb'_setLast4 (b : Bytes) :
    (setLast4 0 b).extractLsb' 0 32 = BitVec.ofNat 32 b.beNat := by
  apply BitVec.eq_of_toNat_eq
  rw [BitVec.extractLsb'_toNat, Nat.shiftRight_zero, setLast4, BitVec.toNat_append]
  simp

/-- The addresses of a packet that is long enough for its header. -/
theorem extract_of_long {pkt : Bytes} (h : (pkt.headD 0 >>> 4 = 4 ∧ 20 ≤ pkt.length) ∨
    (pkt.headD 0 >>> 4 = 6 ∧ 40 ≤ pkt.length)) :
    extractSrcIP pkt = some (srcAddr (outerFlow pkt)) ∧
      extractDestIP pkt = some (dstAddr (outerFlow pkt)) := by
  rcases h with ⟨hv, hlen⟩ | ⟨hv, hlen⟩
  · have h1 : ¬pkt.length < 1 := by omega
    have h20 : ¬pkt.length < 20 := by omega
    simp only [extractSrcIP, extractDestIP, extractIP, srcAddr, dstAddr, flowAddr,
      outerFlow, hv, h1, h20, ite_true, ite_false, Bool.false_eq_true, extractLsb'_setLast4,
      and_self]
  · have h1 : ¬pkt.length < 1 := by omega
    have h40 : ¬pkt.length < 40 := by omega
    have h64 : ¬(6 : UInt8) = 4 := by decide
    simp only [extractSrcIP, extractDestIP, extractIP, srcAddr, dstAddr, flowAddr,
      outerFlow, hv, h1, h40, h64, ite_true, ite_false, setIP, and_self]

/-- A packet that is not an ICMP error has the addresses of its flow in its header. -/
theorem extract_of_parsePacket {pkt : Bytes} (he : (parsePacket pkt).err = none)
    (hk : (parsePacket pkt).kind ≠ .kindError) :
    extractSrcIP pkt = some (srcAddr (parsePacket pkt).flow) ∧
      extractDestIP pkt = some (dstAddr (parsePacket pkt).flow) := by
  have hreads := parsePacket_reads pkt
  obtain ⟨hs, hd, h6⟩ := hreads.header he hk
  obtain ⟨hsrc, hdst⟩ := extract_of_long (hreads.long he)
  rw [srcAddr, dstAddr, hs, hd, h6]
  exact ⟨hsrc, hdst⟩

end Veld.Dataplane
