import Veld.Coord.Invariants
import Veld.Coord.Replay

/-!
# Registrations and listings of the coordinator

`Register` and `ListPeers` of `coord/server/server.go`, with the peers and events
of `coord.proto`. The services of the server and the codecs of Go's library are
parameters. The audit log and the lifecycle hooks do not change the server and are
left out. Addresses are values, as in the registry.
-/

namespace Veld.Coord

open Netip Crypto

/-- The status codes the server fails with. -/
inductive Code
  | unauthenticated
  | notFound
  | invalidArgument
  | permissionDenied
  | alreadyExists
  | resourceExhausted
  | internal
  deriving DecidableEq, Repr

/-- An error of a call. -/
structure Status where
  code : Code
  message : String
  deriving DecidableEq, Repr

/-- `coordv1.Peer`. -/
structure V1Peer where
  id : String
  name : String := ""
  vpnAddr : Addr := .zero
  ed25519Public : String := ""
  x25519Public : String := ""
  endpoint : String := ""
  subnetRoutes : List String := []
  deriving DecidableEq, Repr

inductive EventType
  | join
  | leave
  | endpointUpdate
  | routeUpdate
  | signal
  deriving DecidableEq, Repr

structure SignalEvent where
  fromPeerId : String
  payload : Bytes
  deriving DecidableEq, Repr

/-- What a watcher is told. -/
structure PeerEvent where
  type : EventType
  peer : Option V1Peer := none
  signal : Option SignalEvent := none
  deriving DecidableEq, Repr

/-- The peer as a record lists it. -/
def PeerRecord.toV1 (rec : PeerRecord) : V1Peer where
  id := rec.id
  name := rec.name
  vpnAddr := rec.vpnAddr
  ed25519Public := rec.ed25519Public
  x25519Public := rec.x25519Public
  endpoint := rec.endpoint
  subnetRoutes := rec.subnetRoutes

/-- The event a registration of a record publishes, with the address it was given. -/
def joinEvent (p : PeerRecord) (assigned : Addr) : PeerEvent where
  type := .join
  peer := some { p.toV1 with vpnAddr := assigned }

/-- The event a departure publishes. -/
def leaveEvent (rec : PeerRecord) : PeerEvent where
  type := .leave
  peer := some { id := rec.id, name := rec.name }

namespace Registry

/-- The stored peers of a network. -/
def networkPeers (r : Registry) (networkID : String) : List PeerRecord :=
  (values r.peers).filter (·.networkID = networkID)

/-- `applyEndpoints`; a peer without an endpoint in memory gets the empty one. -/
def applyEndpoints (r : Registry) (peers : List PeerRecord) : List PeerRecord :=
  peers.map fun rec => { rec with endpoint := (r.endpoints.lookup rec.id).getD "" }

/-- `ListPeers`. -/
def listPeers (r : Registry) (networkID : String) : List PeerRecord :=
  r.applyEndpoints (r.networkPeers networkID)

/-- `GetNetwork`; a network whose prefix does not parse is not returned. -/
def getNetwork (r : Registry) (networkID : String) : Option NetworkRecord :=
  (r.networks.lookup networkID).filter (·.cidr.isValid)

end Registry

/-- The events `Watch` sends a peer for the listed peers. -/
def snapshotEvents (peerID : String) (peers : List PeerRecord) : List PeerEvent :=
  (peers.filter (·.id ≠ peerID)).map fun rec => { type := .join, peer := some rec.toV1 }

structure RegisterRequest where
  networkId : String
  token : String
  name : String
  ed25519Public : String
  x25519Public : String
  endpoint : String
  subnetRoutes : List String
  timestampUnix : Int
  signature : Bytes
  deriving DecidableEq

/-- The network prefix is the zero one when the network cannot be read. -/
structure RegisterResponse where
  vpnAddr : Addr
  peerId : String
  networkId : String
  networkCidr : Prefix
  deriving DecidableEq

/-- The four clock readings of a registration, in nanoseconds. -/
structure RegisterTimes where
  checkedAt : Int
  usedAt : Int
  registeredAt : Int
  lastSeen : Int
  deriving DecidableEq

/-- The services the server was built with, and the codecs it calls. -/
structure Services (δ : Type) where
  /-- The ID of the account of a token. -/
  resolve : String → Option String
  machineLimitFor : String → Int
  /-- The text of the refusal of a subnet route. -/
  allow : String → Prefix → Option String
  /-- `base64.StdEncoding.DecodeString`. -/
  decodeString : String → Option Bytes
  /-- `hex.EncodeToString`. -/
  encodeToString : Bytes → String
  /-- `ed25519.Verify` of a key, a message and a signature. -/
  verify : Bytes → Bytes → Bytes → Bool
  sha256 : Bytes → δ
  parseAddrPort : String → Option AddrPort
  parsePrefix : String → Except String Prefix
  /-- The verb `%q`. -/
  quote : String → String
  simpleFold : Char → Char

/-- The state of a server that registrations use. -/
structure Server (δ : Type) where
  registry : Registry
  seen : SeenSignatures δ

/-- The name is empty or a DNS label. -/
def validPeerName (name : String) : Bool :=
  let b := utf8 name
  if b = [] then true
  else if b.length > 63 || b.head? = some 45 || b.getLast? = some 45 then false
  else b.all fun c => (97 ≤ c && c ≤ 122) || (65 ≤ c && c ≤ 90) || (48 ≤ c && c ≤ 57) || c = 45

def errRegisterAuth : Status :=
  ⟨.unauthenticated, "invalid register signature or timestamp"⟩

def errNetworkNotFound : Status := ⟨.notFound, "network not found"⟩

/-- The error of a registration that the registry refuses. -/
def registerStatus (quote : String → String) (err : RegistryError) : Status :=
  match err with
  | .peerIDTaken | .peerKeyMismatch => ⟨.alreadyExists, err.message quote⟩
  | .machineLimit => ⟨.resourceExhausted, "machine limit reached"⟩
  | .addressSpaceExhausted _ => ⟨.resourceExhausted, "no free addresses in network"⟩
  | err => ⟨.internal, "register peer: " ++ err.message quote⟩

/-- What a successful registration answers and publishes. -/
structure Registered where
  response : RegisterResponse
  event : PeerEvent
  deriving DecidableEq

namespace Services

variable {δ : Type} [DecidableEq δ] (sv : Services δ)

/-- The network exists and the account owns it. -/
def authorizeNetwork (r : Registry) (networkID accountID : String) : Except Status Unit :=
  match r.getNetwork networkID with
  | none => .error errNetworkNotFound
  | some net => if net.accountID ≠ accountID then .error errNetworkNotFound else .ok ()

/-- The claims a registration signs. -/
def registerClaims (req : RegisterRequest) : RegisterClaims where
  networkID := req.networkId
  name := req.name
  ed25519Public := req.ed25519Public
  x25519Public := req.x25519Public
  endpoint := req.endpoint
  subnetRoutes := req.subnetRoutes
  timestampUnix := req.timestampUnix

/-- The checks of a registration up to its signature; the result is the ID of the peer. -/
def authenticate (r : Registry) (checkedAt : Int) (req : RegisterRequest) :
    Except Status String := do
  let some accountID := sv.resolve req.token | throw ⟨.unauthenticated, "invalid token"⟩
  authorizeNetwork r req.networkId accountID
  let some pub := sv.decodeString req.ed25519Public
    | throw ⟨.invalidArgument, "invalid ed25519_public"⟩
  if pub.length ≠ 32 then throw ⟨.invalidArgument, "invalid ed25519_public"⟩
  match verifyRegisterSignature sv.verify pub req.signature (registerClaims req)
      (unix checkedAt) with
  | .error _ => throw errRegisterAuth
  | .ok () => pure (sv.encodeToString pub)

/-- An advertised endpoint is empty or can be dialled. -/
def validEndpoint (endpoint : String) : Bool :=
  endpoint = "" || (sv.parseAddrPort endpoint).any fun ep =>
    ep.port ≠ 0 && !ep.addr.isUnspecified && !ep.addr.isMulticast

/-- An advertised route is a prefix and permitted. -/
def checkRoute (networkID route : String) : Except Status Unit :=
  match sv.parsePrefix route with
  | .error text =>
    .error ⟨.invalidArgument, "invalid subnet_route " ++ sv.quote route ++ ": " ++ text⟩
  | .ok pfx =>
    match sv.allow networkID pfx with
    | some text =>
      .error ⟨.permissionDenied, "subnet route " ++ sv.quote route ++ " not permitted: " ++ text⟩
    | none => .ok ()

/-- The checks of a registration after its signature. -/
def validate (req : RegisterRequest) : Except Status Unit := do
  if !validPeerName req.name then
    throw ⟨.invalidArgument, "name must be a DNS label: 1-63 letters, digits or hyphens, not " ++
      "starting or ending with a hyphen"⟩
  if !sv.validEndpoint req.endpoint then throw ⟨.invalidArgument, "endpoint must be ip:port"⟩
  req.subnetRoutes.forM (sv.checkRoute req.networkId)

/-- The record a registration hands to the registry. -/
def recordOf (req : RegisterRequest) (peerID : String) (t : RegisterTimes) : PeerRecord where
  id := peerID
  name := req.name
  ed25519Public := req.ed25519Public
  x25519Public := req.x25519Public
  endpoint := req.endpoint
  subnetRoutes := req.subnetRoutes
  registeredAt := unix t.registeredAt
  lastSeen := unix t.lastSeen

/-- `Register`. A signature that passed its check is used up even if the registration fails
afterwards. -/
def register (s : Server δ) (t : RegisterTimes) (req : RegisterRequest) :
    Server δ × Except Status Registered :=
  match sv.authenticate s.registry t.checkedAt req with
  | .error err => (s, .error err)
  | .ok peerID =>
    let (seen, first) := s.seen.firstUse (sv.sha256 req.signature) t.usedAt
    if !first then ({ s with seen }, .error errRegisterAuth)
    else match sv.validate req with
    | .error err => ({ s with seen }, .error err)
    | .ok () =>
      let p := recordOf req peerID t
      match s.registry.registerPeer sv.simpleFold p req.networkId
          (sv.machineLimitFor req.networkId) with
      | .error err => ({ s with seen }, .error (registerStatus sv.quote err))
      | .ok (registry, vpnAddr) =>
        (⟨registry, seen⟩, .ok {
          response := {
            vpnAddr, peerId := peerID, networkId := req.networkId
            networkCidr := ((registry.getNetwork req.networkId).map (·.cidr)).getD .zero }
          event := joinEvent p vpnAddr })

/-- `ListPeers`. -/
def listPeers (r : Registry) (token networkID : String) : Except Status (List V1Peer) := do
  let some accountID := sv.resolve token | throw ⟨.unauthenticated, "invalid token"⟩
  authorizeNetwork r networkID accountID
  pure ((r.listPeers networkID).map PeerRecord.toV1)

end Services

/-- The event is about a peer. -/
def PeerEvent.about (id : String) (ev : PeerEvent) : Bool := ev.peer.any (·.id = id)

/-- Every record is stored under its own ID. -/
def Registry.Keyed (r : Registry) : Prop := ∀ k rec, r.peers.lookup k = some rec → rec.id = k

section Listings

variable {r r' : Registry} {n k : String} {p rec : PeerRecord}

/-- A network lists a peer at most once. -/
theorem filter_networkPeers (h : r.Keyed) : (r.networkPeers n).filter (·.id = k) =
    ((r.peers.lookup k).filter (·.networkID = n)).toList := by
  rw [Registry.networkPeers, List.filter_comm, filter_values_eq h]
  cases r.peers.lookup k with
  | none => rfl
  | some rec => by_cases hn : rec.networkID = n <;> simp [Option.filter, hn]

theorem filter_listPeers (h : r.Keyed) (hl : r.peers.lookup k = some rec)
    (hn : rec.networkID = n) : (r.listPeers n).filter (·.id = k) =
      [{ rec with endpoint := (r.endpoints.lookup k).getD "" }] := by
  have hlist := filter_networkPeers (n := n) (k := k) h
  rw [hl, Option.filter_some_pos (by simpa using hn)] at hlist
  rw [Registry.listPeers, Registry.applyEndpoints, List.filter_map]
  show ((r.networkPeers n).filter (·.id = k)).map _ = _
  rw [hlist, Option.toList_some, List.map_singleton, h k rec hl]

theorem filter_snapshotEvents {own : String} (hk : own ≠ k) (l : List PeerRecord) :
    (snapshotEvents own l).filter (PeerEvent.about k) =
      (l.filter (·.id = k)).map fun rec => { type := .join, peer := some rec.toV1 } := by
  rw [snapshotEvents, List.filter_map, List.filter_filter]
  congr 1
  refine List.filter_congr fun rec _ => ?_
  by_cases hid : rec.id = k
  · simp [PeerEvent.about, PeerRecord.toV1, hid, hk.symm]
  · simp [PeerEvent.about, PeerRecord.toV1, hid]

end Listings

section Registration

variable {simpleFold : Char → Char} {r r' : Registry} {n : String} {p : PeerRecord}
  {maxMachines : Int} {a : Addr}

/-- The text of the key a registration leaves in the record: a stored peer keeps its own. -/
def storedKey (r : Registry) (p : PeerRecord) : String :=
  match r.peers.lookup p.id with
  | some rec => rec.ed25519Public
  | none => p.ed25519Public

/-- What a listing reports after a registration. -/
def reportedPeer (simpleFold : Char → Char) (r : Registry) (p : PeerRecord) (n : String)
    (a : Addr) : V1Peer :=
  { p.toV1 with
    vpnAddr := a, name := (r.settled simpleFold p n).name, ed25519Public := storedKey r p }

/-- What a registration leaves in the registry. -/
theorem stored_of_registerPeer (h : r.Keyed)
    (hreg : r.registerPeer simpleFold p n maxMachines = .ok (r', a)) :
    r'.Keyed ∧ r'.endpoints.lookup p.id = some p.endpoint ∧
      ∃ rec, r'.peers.lookup p.id = some rec ∧ rec.networkID = n ∧
        { rec with endpoint := p.endpoint }.toV1 = reportedPeer simpleFold r p n a := by
  obtain ⟨r₁, hr₁, rfl⟩ := Registry.registerPeer_ok hreg
  have hkeyed {stored : PeerRecord} (hid : stored.id = p.id) :
      ∀ k rec, (r.peers.insert p.id stored).lookup k = some rec → rec.id = k := by
    intro k rec hk
    rcases lookup_insert_eq_some.mp hk with ⟨rfl, rfl⟩ | ⟨-, hold⟩
    · exact hid
    · exact h k rec hold
  rcases Registry.register_ok hr₁ with
    ⟨rec, hrec, hnet, hkey, rfl, rfl⟩ | ⟨net, hfresh, -, -, -, -, rfl⟩
  · have hrec : r.peers.lookup p.id = some rec := hrec
    refine ⟨hkeyed (h p.id rec hrec), AList.lookup_insert _, _, AList.lookup_insert _, hnet, ?_⟩
    have hid : rec.id = p.id := h p.id rec hrec
    have hx : rec.x25519Public = p.x25519Public := hkey
    simp only [PeerRecord.toV1, reportedPeer, Registry.renewed, storedKey, hrec, hid, hx]
    rfl
  · have hfresh : r.peers.lookup p.id = none := hfresh
    refine ⟨hkeyed rfl, AList.lookup_insert _, _, AList.lookup_insert _, rfl, ?_⟩
    simp only [PeerRecord.toV1, reportedPeer, Registry.joined, storedKey, hfresh]
    rfl

theorem settled_name_eq_iff : (r.settled simpleFold p n).name = p.name ↔
    ¬(p.name ≠ "" ∧ nameTaken simpleFold r.peers n p.id p.name = true) := by
  by_cases htaken : p.name ≠ "" ∧ nameTaken simpleFold r.peers n p.id p.name = true
  · simp only [Registry.settled, if_pos htaken]
    exact iff_of_false (Ne.symm htaken.1) (not_not_intro htaken)
  · simp only [Registry.settled, if_neg htaken]
    exact iff_of_true trivial htaken

theorem storedKey_eq_iff : storedKey r p = p.ed25519Public ↔
    ∀ rec, r.peers.lookup p.id = some rec → rec.ed25519Public = p.ed25519Public := by
  unfold storedKey
  cases r.peers.lookup p.id with
  | none => simp
  | some rec => simp

theorem reportedPeer_eq_iff (simpleFold : Char → Char) (r : Registry) (p : PeerRecord)
    (n : String) (a : Addr) :
    reportedPeer simpleFold r p n a = { p.toV1 with vpnAddr := a } ↔
      (r.settled simpleFold p n).name = p.name ∧ storedKey r p = p.ed25519Public := by
  simp [reportedPeer, PeerRecord.toV1]

end Registration

namespace Services

variable {δ : Type} [DecidableEq δ] {sv : Services δ} {s s' : Server δ} {t : RegisterTimes}
  {req : RegisterRequest} {out : Registered}

/-- What a successful registration did. -/
theorem register_ok (h : sv.register s t req = (s', .ok out)) :
    ∃ peerID a, s.registry.registerPeer sv.simpleFold (recordOf req peerID t) req.networkId
        (sv.machineLimitFor req.networkId) = .ok (s'.registry, a) ∧
      out.response.peerId = peerID ∧ out.event = joinEvent (recordOf req peerID t) a := by
  unfold register at h
  split at h
  · cases h
  · rename_i peerID hauth
    dsimp only at h
    split at h
    · cases h
    · split at h
      · cases h
      · split at h
        · cases h
        · rename_i registry vpnAddr hreg
          cases h
          exact ⟨peerID, vpnAddr, hreg, rfl, rfl⟩

/-- The peer a registration announces is the one `ListPeers` and the snapshots of other watchers
report right afterwards exactly when the requested name was free and a peer that was stored before
sent its key in the same text. -/
theorem announced_eq_reported_iff (hkeyed : s.registry.Keyed)
    (h : sv.register s t req = (s', .ok out)) :
    (((s'.registry.listPeers req.networkId).map PeerRecord.toV1).filter
          (·.id = out.response.peerId) = out.event.peer.toList ∧
      ∀ own ≠ out.response.peerId,
        (snapshotEvents own (s'.registry.listPeers req.networkId)).filter
          (PeerEvent.about out.response.peerId) = [out.event]) ↔
    ¬(req.name ≠ "" ∧ nameTaken sv.simpleFold s.registry.peers req.networkId
        out.response.peerId req.name = true) ∧
      ∀ rec, s.registry.peers.lookup out.response.peerId = some rec →
        rec.ed25519Public = req.ed25519Public := by
  obtain ⟨peerID, a, hreg, hid, hev⟩ := register_ok h
  obtain ⟨hkeyed', hep, rec, hrec, hnet, hv1⟩ := stored_of_registerPeer hkeyed hreg
  have hlist := filter_listPeers hkeyed' hrec hnet
  rw [hep, Option.getD_some] at hlist
  have hreported : ((s'.registry.listPeers req.networkId).map PeerRecord.toV1).filter
      (·.id = peerID) = [reportedPeer sv.simpleFold s.registry (recordOf req peerID t)
        req.networkId a] := by
    rw [List.filter_map, ← hv1]
    exact congrArg (List.map PeerRecord.toV1) hlist
  have hsnapshot (own : String) (hown : own ≠ peerID) :
      (snapshotEvents own (s'.registry.listPeers req.networkId)).filter (PeerEvent.about peerID) =
        [{ type := .join, peer := some (reportedPeer sv.simpleFold s.registry
          (recordOf req peerID t) req.networkId a) }] := by
    rw [filter_snapshotEvents hown, ← hv1]
    exact congrArg _ hlist
  have hsame := (reportedPeer_eq_iff sv.simpleFold s.registry (recordOf req peerID t)
    req.networkId a).trans (and_congr settled_name_eq_iff storedKey_eq_iff)
  rw [hid, hev, hreported]
  refine Iff.trans ?_ hsame
  constructor
  · rintro ⟨hpeer, -⟩
    exact List.cons.inj hpeer |>.1
  · intro heq
    refine ⟨by rw [heq]; rfl, fun own hown => ?_⟩
    rw [hsnapshot own hown, heq]
    rfl

end Services

namespace Sample

/-- Two keys, every signature valid. -/
def services : Services Bytes where
  resolve _ := some "account"
  machineLimitFor _ := -1
  allow _ _ := none
  decodeString text := some (List.replicate 32 (if text = "key1" then 1 else 2))
  encodeToString key := if key.head? = some 1 then "peer1" else "peer2"
  verify _ _ _ := true
  sha256 := id
  parseAddrPort _ := some ⟨.v4 0xc0000201, 51820⟩
  parsePrefix _ := .error "no routes"
  quote := id
  simpleFold := id

/-- One network without peers. -/
def server : Server Bytes where
  registry := Registry.empty.next id create
  seen := .new (callTimestampWindow * second)

def times : RegisterTimes := ⟨0, 0, 0, 0⟩

/-- A peer registers with a key as its signature. -/
def request (key name : String) : RegisterRequest where
  networkId := "net"
  token := "token"
  name := name
  ed25519Public := key
  x25519Public := key
  endpoint := "192.0.2.1:51820"
  subnetRoutes := []
  timestampUnix := 0
  signature := utf8 key

/-- The server after a first registration. -/
def joined : Server Bytes := (services.register server times (request "key1" "laptop")).1

/-- The peer a second registration announces and the one `ListPeers` then reports for it. -/
def announced (req : RegisterRequest) : Option V1Peer × List V1Peer :=
  let out := services.register joined times req
  (out.2.toOption.bind (·.event.peer),
    ((out.1.registry.listPeers "net").map PeerRecord.toV1).filter (·.id = "peer2"))

end Sample

/-- A second peer asks for the name of the first one. Its JOIN event carries the name it asked for,
while listings and snapshots report it without a name. -/
theorem announced_name_not_reported :
    let peer : V1Peer := ⟨"peer2", "laptop", Sample.addr 2, "key2", "key2", "192.0.2.1:51820", []⟩
    Sample.announced (Sample.request "key2" "laptop") = (some peer, [{ peer with name := "" }]) := by
  decide +kernel

/-- A first registration is announced as it is listed. -/
theorem announced_eq_reported_iff_first :
    let peer : V1Peer := ⟨"peer1", "laptop", Sample.addr 1, "key1", "key1", "192.0.2.1:51820", []⟩
    ((Sample.joined.registry.listPeers "net").map PeerRecord.toV1).filter (·.id = "peer1") =
      [peer] := by
  intro peer
  have hvalid : Sample.create.Valid := Sample.isSubnet_cidr
  have hwell : (Registry.empty.next id Sample.create).WellFormed :=
    Registry.wellFormed_empty.next hvalid
  have hkeyed : Sample.server.registry.Keyed := hwell.keyed
  have h : Sample.services.register Sample.server Sample.times (Sample.request "key1" "laptop") =
      (Sample.joined, .ok {
        response := ⟨Sample.addr 1, "peer1", "net", Sample.cidr⟩
        event := { type := .join, peer := some peer } }) :=
    Prod.ext rfl (by decide +kernel)
  refine ((Services.announced_eq_reported_iff hkeyed h).mpr ⟨by decide +kernel, ?_⟩).1
  intro rec hrec
  have hnone : Sample.server.registry.peers.lookup "peer1" = none := by decide +kernel
  rw [hnone] at hrec
  cases hrec

end Veld.Coord
