import Veld.Acl.FlowTable
import Veld.Acl.Policy
import Veld.Dataplane.Packet

/-!
# The dispatcher

`internal/dataplane/dispatcher.go`, one handler call at a time and one clock
reading per call. Its effects on the outside are outputs: packets written to the
TUN or sent to a peer, packets held for a peer, decisions asked of the policy and
callbacks. `OnSessionEstablished` is `FlushHoldQueue`, as the daemon wires it.
Other components act on the dispatcher by replacing the peer table (handshakes,
the coordinator client) or the policy. Log lines are left out.
-/

namespace Veld.Dataplane

open Acl Netip Peer

/-- Dropped packets per peer, per rule and per outbound-only peer. -/
structure DropCounters where
  byPeer : PeerID → UInt64 := fun _ => 0
  byRule : Int → UInt64 := fun _ => 0
  byOutboundOnly : PeerID → UInt64 := fun _ => 0

structure Dispatcher where
  /-- The TUN device, as the prefix its `Addr` reports. -/
  tun : Option Prefix
  peers : Table
  policyDecider : Option Decider
  selfPeerID : PeerID
  flowTable : FlowTable := newFlowTable defaultFlowTableConfig
  dropCounters : DropCounters := {}

/-- What a handler does to the outside; peers are named by their key. -/
inductive Output
  /-- A packet decrypted from a peer is written to the TUN. -/
  | delivered (peer : PeerID) (plain : Bytes)
  /-- A rejection is injected into the TUN. -/
  | rejected (pkt : Bytes)
  /-- The encryption of a packet goes to a peer's endpoint. -/
  | sent (peer : PeerID) (plain : Bytes) (wire : Bytes) (ep : AddrPort)
  /-- A packet is put in a peer's hold queue. -/
  | queued (peer : PeerID) (plain : Bytes)
  /-- The policy is asked and answers. -/
  | decided (src dst : PeerID) (proto : Proto) (port : UInt16) (action : Action)
  | handshakeRequired (peer : PeerID)
  | rekeyRequired (peer : PeerID)
  | handshakePacket (pkt : Bytes) (addr : AddrPort)
  | natProbePacket (pkt : Bytes) (addr : AddrPort)
  deriving DecidableEq

/-- The output records an answer of the policy. -/
def Output.isDecision : Output → Bool
  | decided .. => true
  | _ => false

/-- The output is a packet from a peer on the TUN. -/
def Output.isDelivery : Output → Bool
  | delivered .. => true
  | _ => false

/-- The output is a rejection on the TUN. -/
def Output.isRejection : Output → Bool
  | rejected .. => true
  | _ => false

/-- The held packets are encrypted with one session and sent. -/
def sendHeld (s : SessionRef) (peer : PeerID) (ep : AddrPort) :
    Table → List Bytes → Table × List Output
  | t, [] => (t, [])
  | t, pkt :: rest =>
    let (sess, sealed) := (t.session s).encrypt pkt
    let (t, out) := sendHeld s peer ep (t.setSessionAt s sess) rest
    match sealed with
    | none => (t, out)
    | some (nonce, ct) => (t, .sent peer pkt (buildDataPacket nonce ct) ep :: out)

/-- `FlushHoldQueue`. -/
def flushHoldQueue (t : Table) (r : EntryRef) : Table × List Output :=
  match (t.entry r).session with
  | none => (t, [])
  | some s =>
    if !(t.entry r).endpoint.isValid then (t, [])
    else sendHeld s (t.entry r).id (t.entry r).endpoint (t.modify r Entry.drainQueue)
      (t.entry r).holdQueue.val

/-- A packet waits in the peer's queue, if it has room, while a callback is made. -/
def hold (t : Table) (r : EntryRef) (pkt : Bytes) (callback : PeerID → Output) :
    Table × List Output :=
  (t.modify r (·.enqueue pkt),
    (if (t.entry r).holdQueue.hasRoom then [.queued (t.entry r).id pkt] else []) ++
      [callback (t.entry r).id])

/-- One attempt to decrypt; nil (the empty string) when there is no session or it fails. -/
def decryptWith (t : Table) (s : Option SessionRef) (nonce : UInt64) (payload : Bytes) :
    Table × Bytes :=
  match s with
  | none => (t, [])
  | some s =>
    let (sess, plain) := (t.session s).decrypt nonce payload
    (t.setSessionAt s sess, plain)

/-- `decryptDataPacket`: the active session, then the pending one, which is promoted and whose
first packet releases the held packets, then the previous one. -/
def decryptDataPacket (t : Table) (r : EntryRef) (nonce : UInt64) (payload : Bytes) :
    Table × List Output × Bytes :=
  let e := t.entry r
  let (t, plain) := decryptWith t e.session nonce payload
  if !plain.isEmpty then (t, [], plain)
  else
    let (t, plain) := decryptWith t e.pendingSession nonce payload
    if !plain.isEmpty then
      let (t, out) := flushHoldQueue (t.modify r Entry.promotePendingSession) r
      (t, out, plain)
    else if e.prevSession ≠ e.session then
      let (t, plain) := decryptWith t e.prevSession nonce payload
      (t, [], plain)
    else (t, [], [])

/-- Mapped IPv4 addresses are compared as IPv4 addresses. -/
def addrToAddrPort (addr : AddrPort) : Option AddrPort :=
  let ap : AddrPort := ⟨addr.addr.unmap, addr.port⟩
  if ap.isValid then some ap else none

namespace Dispatcher

def recordDrop (d : Dispatcher) (peerID : PeerID) (dec : Decision) : Dispatcher :=
  let c := d.dropCounters
  { d with dropCounters :=
    { byPeer := Function.update c.byPeer peerID (c.byPeer peerID + 1)
      byRule := if dec.ruleIndex ≥ 0 then
          Function.update c.byRule dec.ruleIndex (c.byRule dec.ruleIndex + 1)
        else c.byRule
      byOutboundOnly := if dec.outboundOnly then
          Function.update c.byOutboundOnly peerID (c.byOutboundOnly peerID + 1)
        else c.byOutboundOnly } }

/-- The rejection of a denied packet, if there is a TUN to inject it into. -/
def sendReject (d : Dispatcher) (flow : Flow) (originalPkt : Bytes) : List Output :=
  match d.tun with
  | none => []
  | some _ =>
    if flow.proto = protoTCP then [.rejected (buildTCPRST flow)]
    else [.rejected (buildICMPAdminProhibited flow originalPkt)]

/-- The key of the peer behind a reference. -/
def idOf (d : Dispatcher) (r : EntryRef) : PeerID := (d.peers.entry r).id

/-- A connection start that leaves is recorded as new. -/
def recordStart (d : Dispatcher) (parsed : Parsed) (now : Int) : FlowTable :=
  if parsed.kind = .kindStart then (d.flowTable.lookup parsed.flow true .new now).table
  else d.flowTable

/-- The part of `handleTunPacket` after the policy check. -/
def transmit (d : Dispatcher) (r : EntryRef) (pkt : Bytes) (parsed : Parsed) (now : Int) :
    Dispatcher × List Output :=
  let e := d.peers.entry r
  match e.session with
  | none =>
    let (t, out) := hold d.peers r pkt .handshakeRequired
    ({ d with peers := t }, out)
  | some s =>
    if (d.peers.session s).needsRekey now then
      let (t, out) := hold d.peers r pkt .rekeyRequired
      ({ d with peers := t }, out)
    else
      let (sess, sealed) := (d.peers.session s).encrypt pkt
      let t := d.peers.setSessionAt s sess
      match sealed with
      | none =>
        let (t, out) := hold t r pkt .rekeyRequired
        ({ d with peers := t }, out)
      | some (nonce, ct) =>
        if !e.endpoint.isValid then ({ d with peers := t }, [])
        else ({ d with peers := t, flowTable := d.recordStart parsed now },
          [.sent e.id pkt (buildDataPacket nonce ct) e.endpoint])

/-- The decision on an outbound flow; none is asked for without a policy or for protocol 0. -/
def outboundDecision (d : Dispatcher) (r : EntryRef) (flow : Flow) : Option Decision :=
  match d.policyDecider with
  | none => none
  | some pd =>
    if flow.proto ≠ 0 then some (pd d.selfPeerID (d.idOf r) flow.proto flow.dstPort) else none

/-- The peer an outbound packet is for. -/
def outboundPeer (d : Dispatcher) (pkt : Bytes) : Option EntryRef :=
  (extractDestIP pkt).bind d.peers.lookupByVPN

/-- `handleTunPacket`. -/
def handleTunPacket (d : Dispatcher) (pkt : Bytes) (now : Int) : Dispatcher × List Output :=
  match d.outboundPeer pkt with
  | none => (d, [])
  | some r =>
    let parsed := parsePacket pkt
    if parsed.err.isSome then (d, [])
    else
      match d.outboundDecision r parsed.flow with
      | none => d.transmit r pkt parsed now
      | some dec =>
        let decided := .decided d.selfPeerID (d.idOf r) parsed.flow.proto parsed.flow.dstPort
          dec.action
        if dec.action = .deny then
          (d.recordDrop (d.idOf r) dec, decided :: d.sendReject parsed.flow pkt)
        else
          let (d, out) := d.transmit r pkt parsed now
          (d, decided :: out)

/-- The address test of `sourceAllowed`: the peer's own address, or one in its routes that is
neither in the mesh nor another peer's. -/
def vouches (d : Dispatcher) (r : EntryRef) (src : Addr) : Bool :=
  let e := d.peers.entry r
  if src = e.vpnAddr then true
  else if d.tun.any fun p => p.masked.contains src then false
  else if (d.peers.lookupByVPN src).any (· ≠ r) then false
  else e.subnetRoutes.any fun p => p.contains src

/-- Whether a decrypted packet carries a source address its peer owns. -/
def sourceAllowed (d : Dispatcher) (r : EntryRef) (pkt : Bytes) : Bool :=
  match extractSrcIP pkt with
  | none => false
  | some src => d.vouches r src.unmap

/-- The decision recorded for a packet that belongs to no established flow. -/
def noFlow : Decision := ⟨.deny, -1, false⟩

/-- The inbound policy check and flow tracking: the flow table and counters it leaves, the
decision it asks for and whether the packet passes. -/
def inboundCheck (d : Dispatcher) (r : EntryRef) (plain : Bytes) (now : Int) :
    Dispatcher × List Output × Bool :=
  match d.policyDecider with
  | none => (d, [], true)
  | some pd =>
    let parsed := parsePacket plain
    if parsed.err.isSome then (d, [], false)
    else
      match parsed.kind with
      | .kindStart =>
        let dec := pd (d.idOf r) d.selfPeerID parsed.flow.proto parsed.flow.dstPort
        let decided := .decided (d.idOf r) d.selfPeerID parsed.flow.proto parsed.flow.dstPort
          dec.action
        if dec.action = .deny then (d.recordDrop (d.idOf r) dec, [decided], false)
        else
          ({ d with flowTable := (d.flowTable.lookup parsed.flow true .established now).table },
            [decided], true)
      | .kindEnd =>
        let found := d.flowTable.lookup parsed.flow false .new now
        if !found.created && found.entry.any (·.state = .established) then
          ({ d with flowTable := (found.table.updateState parsed.flow .closing now).1 }, [], true)
        else ({ d with flowTable := found.table }.recordDrop (d.idOf r) noFlow, [], false)
      | .kindFragment | .kindError | .kindOther =>
        let found := d.flowTable.lookup parsed.flow false .new now
        if found.created || !found.entry.any (·.state = .established) then
          ({ d with flowTable := found.table }.recordDrop (d.idOf r) noFlow, [], false)
        else ({ d with flowTable := found.table }, [], true)

/-- The part of `handleUDPPacket` after the decryption of a data packet. -/
def deliver (d : Dispatcher) (r : EntryRef) (plain : Bytes) (now : Int) :
    Dispatcher × List Output :=
  if !d.sourceAllowed r plain then (d, [])
  else
    let (d, out, pass) := d.inboundCheck r plain now
    if !pass then (d, out)
    else
      ({ d with peers := d.peers.modify r (·.touch now) },
        out ++ if d.tun.isSome then [.delivered (d.idOf r) plain] else [])

/-- The lookup and the decryption of a data packet: the peer it authenticates as and its
plaintext, if any. -/
def openData (d : Dispatcher) (pkt : Bytes) (addr : AddrPort) :
    Dispatcher × List Output × Option (EntryRef × Bytes) :=
  match (addrToAddrPort addr).bind d.peers.lookupByEndpoint with
  | none => (d, [], none)
  | some r =>
    let (t, out, plain) :=
      decryptDataPacket d.peers r (parseHeader (pkt.take headerSize)).2 (pkt.drop headerSize)
    ({ d with peers := t }, out, if plain.isEmpty then none else some (r, plain))

/-- `handleUDPPacket`, with the length check of `udpLoop`. -/
def handleUDPPacket (d : Dispatcher) (pkt : Bytes) (addr : AddrPort) (now : Int) :
    Dispatcher × List Output :=
  let pktType := (parseHeader (pkt.take headerSize)).1
  if pkt.length < headerSize then (d, [])
  else if pktType = typeData then
    let (d, out, opened) := d.openData pkt addr
    match opened with
    | none => (d, out)
    | some (r, plain) =>
      let (d, out') := d.deliver r plain now
      (d, out ++ out')
  else if pktType = typeKeepalive then
    match (addrToAddrPort addr).bind d.peers.lookupByEndpoint with
    | none => (d, [])
    | some r => ({ d with peers := d.peers.modify r (·.touch now) }, [])
  else if pktType = typeHandshakeInit ∨ pktType = typeHandshakeResp then
    (d, [.handshakePacket pkt addr])
  else if pktType = typeNATProbe then (d, [.natProbePacket pkt addr])
  else (d, [])

end Dispatcher

/-- One thing that happens to the dispatcher. -/
inductive Event
  /-- A packet is read from the TUN. -/
  | tun (pkt : Bytes)
  /-- A datagram arrives. -/
  | udp (pkt : Bytes) (addr : AddrPort)
  /-- The expiry timer fires. -/
  | expire
  /-- The handshake manager releases the packets held for a peer. -/
  | flush (r : EntryRef)
  /-- Other components change the peer table, its entries or their sessions. -/
  | peers (t : Table)
  /-- The policy behind the decider is replaced. -/
  | store (pd : Decider)

/-- An event at the clock reading its handler sees. -/
structure Input where
  now : Int
  event : Event

namespace Dispatcher

/-- The dispatcher takes one input. -/
def step (d : Dispatcher) (i : Input) : Dispatcher × List Output :=
  match i.event with
  | .tun pkt => d.handleTunPacket pkt i.now
  | .udp pkt addr => d.handleUDPPacket pkt addr i.now
  | .expire => ({ d with flowTable := d.flowTable.expireOldFlows i.now }, [])
  | .flush r =>
    let (t, out) := flushHoldQueue d.peers r
    ({ d with peers := t }, out)
  | .peers t => ({ d with peers := t }, [])
  | .store pd => ({ d with policyDecider := some pd }, [])

/-- The state after one input. -/
def next (d : Dispatcher) (i : Input) : Dispatcher := (d.step i).1

/-- The peer a datagram authenticates as and its plaintext, if it is a data packet of a peer. -/
def authenticated (d : Dispatcher) (pkt : Bytes) (addr : AddrPort) : Option (EntryRef × Bytes) :=
  if pkt.length < headerSize ∨ (parseHeader (pkt.take headerSize)).1 ≠ typeData then none
  else (d.openData pkt addr).2.2

end Dispatcher

/-! ## A small mesh

This node has key 1 and address 10.0.0.1; the peers with keys 2 and 3 have the
addresses 10.0.0.2 and 10.0.0.3. Runs on it show that the general statements speak
about something. -/

namespace Sample

/-- A cipher that authenticates everything. -/
def cipher : Cipher := ⟨fun _ plaintext => plaintext, fun _ ciphertext => some ciphertext⟩

def session : Session := { id := 0, send := cipher, recv := cipher, createdAt := 0 }

/-- 10.0.0.n -/
def vpn (n : Nat) : BitVec 32 := BitVec.ofNat 32 (0x0a000000 + n)

/-- 192.0.2.n, port 51820 -/
def endpoint (n : Nat) : AddrPort := ⟨.v4 (BitVec.ofNat 32 (0xc0000200 + n)), 51820⟩

def peer (n : Nat) : Entry :=
  { id := BitVec.ofNat 256 n, vpnAddr := .v4 (vpn n), endpoint := endpoint n, session := some n }

def table : Table where
  entry := peer
  session := fun _ => session
  byID := (AList.insert 3 3 ∅).insert 2 2
  byVPN := (AList.insert (.v4 (vpn 3)) 3 ∅).insert (.v4 (vpn 2)) 2
  byEndpoint := (AList.insert (endpoint 3) 3 ∅).insert (endpoint 2) 2

def dispatcher (pd : Decider) : Dispatcher where
  tun := some ⟨.v4 (vpn 1), 24, by decide, rfl⟩
  peers := table
  policyDecider := some pd
  selfPeerID := 1

def allowed : Decision := ⟨.allow, -1, false⟩

def denied : Decision := ⟨.deny, -1, false⟩

/-- Everything is allowed. -/
def openPolicy : Decider := fun _ _ _ _ => allowed

/-- Only this node may start connections. -/
def outboundPolicy : Decider := fun src _ _ _ => if src = 1 then allowed else denied

/-- Only the peer with key 2 may start connections, to port 22. -/
def sshPolicy : Decider := fun src _ _ port => if src = 2 ∧ port = 22 then allowed else denied

def ipv4 (proto : UInt8) (src dst : BitVec 32) (payload : Bytes) : Bytes :=
  [0x45, 0] ++ Bytes.ofNatBE 2 (20 + payload.length) ++ [0, 0, 0, 0, 64, proto, 0, 0] ++
    Bytes.ofNatBE 4 src.toNat ++ Bytes.ofNatBE 4 dst.toNat ++ payload

/-- A TCP segment without data between two nodes of the mesh. -/
def tcp (src dst : Nat) (srcPort dstPort : UInt16) (flags : UInt8) : Bytes :=
  ipv4 6 (vpn src) (vpn dst) (Bytes.ofNatBE 2 srcPort.toNat ++ Bytes.ofNatBE 2 dstPort.toNat ++
    List.replicate 8 0 ++ [0x50, flags] ++ List.replicate 6 0)

def syn : UInt8 := 0x02
def ack : UInt8 := 0x10
def synAck : UInt8 := 0x12
def fin : UInt8 := 0x11

/-- A datagram of a peer that carries a packet under a nonce. -/
def datagram (n : Nat) (nonce : UInt64) (pkt : Bytes) : Event :=
  .udp (buildDataPacket nonce pkt) (endpoint n)

end Sample

end Veld.Dataplane
