import Veld.Coord.Server
import Veld.Peer.Update

/-!
# The client's handling of events

`handleEvent` of `internal/coord/client.go` and the conversion of a peer the
coordinator reports into an entry of the peer table. The callbacks of the client
are left out, the codecs of Go's library are parameters. The references of the
table are below `nextRef`, so a new entry never shares its memory with another.
-/

namespace Veld.Coord

open Netip Peer

/-- The codecs the client uses. -/
structure Codec where
  /-- `base64.StdEncoding.DecodeString`. -/
  decodeString : String → Option Bytes
  /-- `hex.DecodeString`. -/
  decodeHex : String → Option Bytes
  parseAddrPort : String → Option AddrPort
  parsePrefix : String → Option Prefix
  /-- `strings.ToLower`. -/
  toLower : String → String

/-- A key or an ID has 32 bytes. -/
def key32 (b : Bytes) : Option (BitVec 256) :=
  if b.length = 32 then some (BitVec.ofNat 256 b.beNat) else none

namespace Codec

variable (cd : Codec)

def decodeKey (text : String) : Option (BitVec 256) := (cd.decodeString text).bind key32

def hexToID (text : String) : Option PeerID := (cd.decodeHex text).bind key32

/-- The endpoint of a reported peer; none if it is empty or malformed. -/
def endpointOf (text : String) : AddrPort :=
  if text = "" then {} else (cd.parseAddrPort text).getD {}

/-- `peerFromProto`; malformed routes are skipped. -/
def peerFromProto (p : V1Peer) : Option Entry := do
  let id ← cd.decodeKey p.ed25519Public
  let x25519Pub ← cd.decodeKey p.x25519Public
  if !p.vpnAddr.isValid then none
  else some {
    id, x25519Pub, vpnAddr := p.vpnAddr, name := p.name
    subnetRoutes := p.subnetRoutes.filterMap cd.parsePrefix
    endpoint := cd.endpointOf p.endpoint }

/-- What an entry made from a reported peer has. -/
theorem peerFromProto_eq_some {cd : Codec} {p : V1Peer} {e : Entry} :
    cd.peerFromProto p = some e ↔
      ∃ id x25519Pub, cd.decodeKey p.ed25519Public = some id ∧
        cd.decodeKey p.x25519Public = some x25519Pub ∧ p.vpnAddr.isValid = true ∧
        e = { id, x25519Pub, vpnAddr := p.vpnAddr, name := p.name
              subnetRoutes := p.subnetRoutes.filterMap cd.parsePrefix
              endpoint := cd.endpointOf p.endpoint } := by
  cases hid : cd.decodeKey p.ed25519Public with
  | none => simp [peerFromProto, hid]
  | some id =>
    cases hx : cd.decodeKey p.x25519Public with
    | none => simp [peerFromProto, hid, hx]
    | some x =>
      cases hv : p.vpnAddr.isValid with
      | false => simp [peerFromProto, hid, hx, hv]
      | true => simp [peerFromProto, hid, hx, hv, eq_comm]

end Codec

/-- The peer table of a client, with the number of the next entry. -/
structure Client where
  table : Table
  nextRef : EntryRef
  allocated : table.Allocated nextRef

namespace Client

/-- A new entry is put into the table. -/
def join (cd : Codec) (c : Client) (e : Entry) : Client where
  table := ((c.table.alloc c.nextRef e).upsert cd.toLower c.nextRef).1
  nextRef := c.nextRef + 1
  allocated := ((c.allocated.mono (Nat.le_succ _)).alloc c.nextRef e).upsert (Nat.lt_succ_self _)

/-- A peer is removed from the table. -/
def leave (cd : Codec) (c : Client) (id : PeerID) : Client where
  table := c.table.remove cd.toLower id
  nextRef := c.nextRef
  allocated := c.allocated.remove id

/-- The coordinator moves a peer to another endpoint. -/
def update (c : Client) (id : PeerID) (ep : AddrPort) : Client where
  table := (c.table.updateEndpoint id ep).1
  nextRef := c.nextRef
  allocated := c.allocated.setEndpoint id ep false

/-- `handleEvent`. -/
def handleEvent (cd : Codec) (myID : String) (c : Client) (ev : PeerEvent) : Client :=
  match ev.type, ev.peer with
  | .signal, _ => c
  | _, none => c
  | type, some p =>
    if p.id = myID then c
    else match type with
    | .join =>
      match cd.peerFromProto p with
      | some e => c.join cd e
      | none => c
    | .endpointUpdate =>
      if p.endpoint = "" then c
      else match cd.parseAddrPort p.endpoint, cd.hexToID p.id with
      | some ep, some id => c.update id ep
      | _, _ => c
    | .leave =>
      match cd.hexToID p.id with
      | some id => c.leave cd id
      | none => c
    | _ => c

variable {cd : Codec} {c : Client} {myID : String} {p : V1Peer} {e : Entry} {r : EntryRef}

theorem handleEvent_join (hp : cd.peerFromProto p = some e) (hself : p.id ≠ myID) :
    c.handleEvent cd myID { type := .join, peer := some p } = c.join cd e := by
  simp [handleEvent, hself, hp]

/-- The entries of the table are not those of a new one. -/
theorem entry_alloc (hr : r < c.nextRef) (e : Entry) :
    (c.table.alloc c.nextRef e).entry r = c.table.entry r := by
  simp only [Table.alloc, Function.update_of_ne hr.ne]

theorem entry_alloc_self (e : Entry) : (c.table.alloc c.nextRef e).entry c.nextRef = e := by
  simp [Table.alloc]

/-- Whether a slot may be taken does not depend on the new entry. -/
theorem mayTake_alloc {slot : Option EntryRef} (h : ∀ r, slot = some r → r < c.nextRef) (e : Entry)
    (id : PeerID) : (c.table.alloc c.nextRef e).mayTake slot id = c.table.mayTake slot id := by
  cases slot with
  | none => rfl
  | some r => simp [Table.mayTake, entry_alloc (h r rfl)]

/-- A new entry is refused when another peer has its address. -/
theorem refuses_alloc (hv : e.vpnAddr.isValid = true) :
    (c.table.alloc c.nextRef e).refuses c.nextRef =
      !c.table.mayTake (c.table.lookupByVPN e.vpnAddr) e.id := by
  rw [Table.refuses, entry_alloc_self, hv, Bool.true_and]
  exact congrArg (!·) (mayTake_alloc (fun r => c.allocated.byVPN e.vpnAddr r) e e.id)

/-- What an entry keeps when the coordinator repeats its record. -/
structure Kept (claimed : Prop) (e e' : Entry) : Prop where
  session : e'.session = e.session
  pendingSession : e'.pendingSession = e.pendingSession
  prevSession : e'.prevSession = e.prevSession
  holdQueue : e'.holdQueue = e.holdQueue
  state : e'.state = e.state
  endpoint : claimed → e'.endpoint = e.endpoint

/-- An entry that nothing has happened to since it was reported. -/
structure Untouched (claimed : Prop) (e reported : Entry) : Prop where
  session : e.session = none
  pendingSession : e.pendingSession = none
  prevSession : e.prevSession = none
  holdQueue : e.holdQueue = .empty
  state : e.state = .statePending
  endpoint : claimed → e.endpoint = reported.endpoint

/-- A repeated JOIN leaves the sessions, the held packets, the state and a claimed endpoint of a
peer as they were exactly when the table refuses the new entry or there was nothing to lose. -/
theorem rejoin_keeps_iff (hp : cd.peerFromProto p = some e) (hself : p.id ≠ myID)
    (hr : c.table.lookupByID e.id = some r) (claimed : Prop) :
    (∃ r', (c.handleEvent cd myID { type := .join, peer := some p }).table.lookupByID e.id =
        some r' ∧ Kept claimed (c.table.entry r)
          ((c.handleEvent cd myID { type := .join, peer := some p }).table.entry r')) ↔
      c.table.mayTake (c.table.lookupByVPN e.vpnAddr) e.id = false ∨
        Untouched claimed (c.table.entry r) e := by
  obtain ⟨id, x, -, -, hv, he⟩ := Codec.peerFromProto_eq_some.mp hp
  have hvalid : e.vpnAddr.isValid = true := by rw [he, hv]
  rw [handleEvent_join hp hself]
  cases hmay : c.table.mayTake (c.table.lookupByVPN e.vpnAddr) e.id with
  | false =>
    have htable : (c.join cd e).table = c.table.alloc c.nextRef e := by
      simp [join, Table.upsert, refuses_alloc hvalid, hmay]
    rw [htable]
    refine iff_of_true ⟨r, hr, ?_⟩ (.inl rfl)
    rw [entry_alloc (c.allocated.byID e.id r hr)]
    exact ⟨rfl, rfl, rfl, rfl, rfl, fun _ => rfl⟩
  | true =>
    have htable : (c.join cd e).table = (c.table.alloc c.nextRef e).place cd.toLower c.nextRef := by
      simp [join, Table.upsert, refuses_alloc hvalid, hmay]
    have hnew : (c.join cd e).table.lookupByID e.id = some c.nextRef := by
      rw [htable, Table.lookupByID, Table.byID_place, entry_alloc_self, AList.lookup_insert]
    have hentry : (c.join cd e).table.entry c.nextRef = e := by
      rw [htable, Table.entry_place, entry_alloc_self]
    constructor
    · rintro ⟨r', hr', hkept⟩
      obtain rfl := Option.mem_unique hnew hr'
      rw [hentry, he] at hkept
      refine .inr ⟨hkept.session.symm, hkept.pendingSession.symm, hkept.prevSession.symm,
        hkept.holdQueue.symm, hkept.state.symm, fun hc => ?_⟩
      rw [he]
      exact (hkept.endpoint hc).symm
    · rintro (hfalse | hu)
      · cases hfalse
      · refine ⟨c.nextRef, hnew, ?_⟩
        rw [hentry]
        refine ⟨?_, ?_, ?_, ?_, ?_, fun hc => (hu.endpoint hc).symm⟩
        · rw [hu.session, he]
        · rw [hu.pendingSession, he]
        · rw [hu.prevSession, he]
        · rw [hu.holdQueue, he]
        · rw [hu.state, he]

end Client

namespace Sample

/-- All keys and IDs decode to one key. -/
def codec : Codec where
  decodeString _ := some (List.replicate 32 1)
  decodeHex _ := some (List.replicate 32 1)
  parseAddrPort _ := some ⟨.v4 0xc0000201, 51820⟩
  parsePrefix _ := none
  toLower := id

/-- A table without peers. -/
def emptyTable : Table where
  entry _ := { id := 0, vpnAddr := .zero }
  session _ := ⟨0, ⟨fun _ b => b, fun _ b => some b⟩, ⟨fun _ b => b, fun _ b => some b⟩, 0, 0, {}⟩

theorem allocated_emptyTable : emptyTable.Allocated 0 where
  byID _ _ h := nomatch h
  byVPN _ _ h := nomatch h
  byEndpoint _ _ h := nomatch h
  byName _ _ h := nomatch h

def emptyClient : Client := ⟨emptyTable, 0, allocated_emptyTable⟩

/-- A peer as the coordinator reports it. -/
def reported : V1Peer := ⟨"a", "laptop", addr 2, "key", "key", "192.0.2.1:51820", []⟩

/-- A client that was told of the peer once. -/
def informed : Client := emptyClient.handleEvent codec "me" { type := .join, peer := some reported }

/-- The same client after a handshake with the peer. -/
def connected : Client where
  table := informed.table.modify 0 (·.setSession (some 7))
  nextRef := informed.nextRef
  allocated := ⟨informed.allocated.byID, informed.allocated.byVPN, informed.allocated.byEndpoint,
    informed.allocated.byName⟩

end Sample

namespace Client

/-- The session of a peer is gone after its record was reported once more. -/
theorem rejoin_drops_session :
    let c' := Sample.connected.handleEvent Sample.codec "me"
      { type := .join, peer := some Sample.reported }
    (values Sample.connected.table.byID).map
        (fun r => (Sample.connected.table.entry r).session) = [some 7] ∧
      (values c'.table.byID).map (fun r => (c'.table.entry r).session) = [none] := by
  decide +kernel

/-- A peer without a session is reported once more. -/
theorem rejoin_keeps_iff_informed :
    ∃ r', (Sample.informed.handleEvent Sample.codec "me"
        { type := .join, peer := some Sample.reported }).table.lookupByID
          (BitVec.ofNat 256 (Bytes.beNat (List.replicate 32 1))) = some r' ∧
      Kept False (Sample.informed.table.entry 0)
        ((Sample.informed.handleEvent Sample.codec "me"
          { type := .join, peer := some Sample.reported }).table.entry r') := by
  have hp : Sample.codec.peerFromProto Sample.reported = some
      { id := BitVec.ofNat 256 (Bytes.beNat (List.replicate 32 1))
        x25519Pub := BitVec.ofNat 256 (Bytes.beNat (List.replicate 32 1))
        vpnAddr := Sample.addr 2, name := "laptop", endpoint := ⟨.v4 0xc0000201, 51820⟩ } := rfl
  refine (rejoin_keeps_iff hp (by decide) ?_ False).mpr (.inr ?_)
  · decide +kernel
  · exact ⟨rfl, rfl, rfl, rfl, rfl, False.elim⟩

end Client

end Veld.Coord
