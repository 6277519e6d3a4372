import Veld.Core.Assoc
import Veld.Core.EqualFold
import Veld.Core.Netip
import Veld.Core.Run

/-!
# The registry of networks and peers

`coord/server/registry.go` and `SweepStalePeers` of `coord/server/sweep.go`. A
transaction of the database is one function from state to state, which leaves the
state as it is when it fails. Records are kept as values instead of their JSON
texts, addresses as `netip` values instead of their texts, with the zero address
for a text that does not parse. Buckets are iterated in the order of their
entries, which only decides the order of the records a sweep returns.
-/

namespace Veld.Coord

open Netip

/-- `networkRecord`. -/
structure NetworkRecord where
  id : String
  cidr : Prefix
  name : String
  accountID : String
  nextIP : Addr
  machineCount : Int
  createdAt : Int
  /-- For every address that was ever assigned, when it was last freed, 0 while it is assigned; nil
  in databases of older builds. -/
  assignedAddrs : Option (AList fun _ : Addr => Int)
  deriving DecidableEq

/-- `peerRecord`. -/
structure PeerRecord where
  id : String
  networkID : String := ""
  name : String := ""
  vpnAddr : Addr := .zero
  ed25519Public : String := ""
  x25519Public : String := ""
  endpoint : String := ""
  subnetRoutes : List String := []
  lastSeen : Int := 0
  registeredAt : Int := 0
  deriving DecidableEq

/-- The two buckets and the endpoints kept in memory. -/
structure Registry where
  networks : AList fun _ : String => NetworkRecord
  peers : AList fun _ : String => PeerRecord
  endpoints : AList fun _ : String => String
  deriving DecidableEq

/-- A new database. -/
def Registry.empty : Registry := ⟨∅, ∅, ∅⟩

inductive RegistryError
  | networkExists (networkID : String)
  | networkNotFound (networkID : String)
  | peerNotFound (peerID : String)
  /-- `ErrMachineLimit`. -/
  | machineLimit
  /-- `ErrAddressSpaceExhausted`, wrapped with the network. -/
  | addressSpaceExhausted (networkID : String)
  /-- `ErrPeerIDTaken`. -/
  | peerIDTaken
  /-- `ErrPeerKeyMismatch`. -/
  | peerKeyMismatch
  | unreadableAddr (peerID : String)
  /-- `bolt.ErrKeyRequired`. -/
  | keyRequired
  /-- `bolt.ErrKeyTooLarge`. -/
  | keyTooLarge
  deriving DecidableEq, Repr

/-- The text of an error, with the verb `%q`. -/
def RegistryError.message (quote : String → String) : RegistryError → String
  | networkExists networkID => "network " ++ quote networkID ++ " already exists"
  | networkNotFound networkID => "network " ++ quote networkID ++ " not found"
  | peerNotFound peerID => "peer " ++ quote peerID ++ " not found"
  | machineLimit => "machine limit reached"
  | addressSpaceExhausted networkID => "network " ++ quote networkID ++ ": address space exhausted"
  | peerIDTaken => "peer id already registered in another network"
  | peerKeyMismatch => "peer x25519 public key mismatch"
  | unreadableAddr peerID => "peer " ++ quote peerID ++ " has unreadable vpn_addr " ++
      quote "invalid IP" ++ ": ParseAddr(" ++ quote "invalid IP" ++ "): unable to parse IP"
  | keyRequired => "key required"
  | keyTooLarge => "key too large"

/-- The keys `Bucket.Put` accepts. -/
def checkKey (key : String) : Except RegistryError Unit :=
  if key = "" then .error .keyRequired
  else if key.utf8ByteSize > 32768 then .error .keyTooLarge
  else .ok ()

/-- `time.Time.Unix` of a time in nanoseconds. -/
def unix (now : Int) : Int := now / second

/-- One hour in seconds. -/
def lastSeenGranularity : Int := 3600

def roundToHour (secs : Int) : Int :=
  if secs ≤ 0 then secs else secs - secs % lastSeenGranularity

def maxFallbackHosts : Nat := 65536

def nameTaken (simpleFold : Char → Char) (peers : AList fun _ : String => PeerRecord)
    (networkID peerID name : String) : Bool :=
  (values peers).any fun rec => rec.networkID = networkID && rec.id ≠ peerID &&
    equalFold simpleFold rec.name.toList name.toList

/-- The addresses the stored peers of a network hold. -/
def usedAddrs (peers : AList fun _ : String => PeerRecord) (networkID : String) : List Addr :=
  (values peers).filterMap fun rec =>
    if rec.networkID = networkID ∧ rec.vpnAddr.isValid then some rec.vpnAddr else none

/-- The first usable host address of a prefix. -/
def nextIPAfterNetwork (p : Prefix) : Addr := p.ip.next

/-- The addresses that are not held are marked as freed at the oldest possible time. -/
def markFreed (used : List Addr) (m : AList fun _ : Addr => Int) (addrs : List Addr) :
    AList fun _ : Addr => Int :=
  addrs.foldl (fun m a => if a ∈ used then m else m.insert a 1) m

/-- The map `migrateAssignedAddrs` leaves. -/
def migrateAssignedAddrs (net : NetworkRecord) (used : List Addr) : AList fun _ : Addr => Int :=
  match net.assignedAddrs with
  | some m => m
  | none =>
    let held := used.foldl (fun m a => m.insert a 0) ∅
    if !net.nextIP.isValid || !net.cidr.contains net.nextIP then
      if net.cidr.hosts.length > maxFallbackHosts then held
      else markFreed used held net.cidr.hosts
    else
      markFreed used held (Prefix.upFrom
        (fun a => net.cidr.contains a && a.compare net.nextIP = .lt)
        (2 ^ net.cidr.ip.bitLen) (nextIPAfterNetwork net.cidr.masked))

/-- What the scan of the host addresses remembers; the zero address stands for none yet. -/
structure Candidates where
  neverUsed : Addr := .zero
  oldestFreed : Addr := .zero
  oldestFreedTime : Int := -1
  deriving DecidableEq, Repr

/-- The scan for the lowest address that was never assigned and the one freed longest ago. -/
def scanHosts (used : List Addr) (assigned : AList fun _ : Addr => Int) :
    List Addr → Candidates → Candidates
  | [], c => c
  | a :: rest, c =>
    if a ∈ used then scanHosts used assigned rest c
    else
      match assigned.lookup a with
      | some freedAt =>
        if freedAt > 0 ∧ (c.oldestFreedTime = -1 ∨ freedAt < c.oldestFreedTime) then
          scanHosts used assigned rest { c with oldestFreed := a, oldestFreedTime := freedAt }
        else scanHosts used assigned rest c
      | none => { c with neverUsed := a }

/-- The address given to a new peer. -/
def allocate (cidr : Prefix) (used : List Addr) (assigned : AList fun _ : Addr => Int) :
    Option Addr :=
  let c := scanHosts used assigned cidr.hosts {}
  if c.neverUsed ≠ .zero then some c.neverUsed
  else if c.oldestFreed ≠ .zero then some c.oldestFreed
  else none

/-- `NextIP` after an assignment. -/
def advanceNextIP (net : NetworkRecord) (assigned : Addr) : Addr :=
  if net.nextIP.isValid &&
      (!net.cidr.contains net.nextIP || assigned.compare net.nextIP ≠ .lt) &&
      net.cidr.contains assigned.next then assigned.next
  else net.nextIP

namespace Registry

/-- The record of a new network. -/
def newNetwork (now : Int) (id : String) (cidr : Prefix) (name accountID : String) :
    NetworkRecord :=
  { id, cidr, name, accountID, nextIP := nextIPAfterNetwork cidr, machineCount := 0,
    createdAt := unix now, assignedAddrs := some ∅ }

/-- `CreateNetwork`. -/
def createNetwork (r : Registry) (now : Int) (id : String) (cidr : Prefix)
    (name accountID : String) : Except RegistryError Registry := do
  if (r.networks.lookup id).isSome then throw (.networkExists id)
  checkKey id
  pure { r with networks := r.networks.insert id (newNetwork now id cidr name accountID) }

/-- The record of a peer that registers again. -/
def renewed (rec p : PeerRecord) : PeerRecord :=
  { rec with lastSeen := roundToHour p.lastSeen, name := p.name, subnetRoutes := p.subnetRoutes }

/-- The record of a new peer. -/
def joined (p : PeerRecord) (networkID : String) (assigned : Addr) : PeerRecord :=
  { p with vpnAddr := assigned, networkID, lastSeen := roundToHour p.lastSeen }

/-- The network record after an address was assigned to a new peer. -/
def occupy (net : NetworkRecord) (used : List Addr) (assigned : Addr) : NetworkRecord :=
  { net with
    assignedAddrs := some ((migrateAssignedAddrs net used).insert assigned 0)
    nextIP := advanceNextIP net assigned
    machineCount := net.machineCount + 1 }

/-- The transaction of `RegisterPeer` for a peer whose name is settled. -/
def register (r : Registry) (p : PeerRecord) (networkID : String) (maxMachines : Int) :
    Except RegistryError (Registry × Addr) :=
  match r.peers.lookup p.id with
  | some rec => do
    if rec.networkID ≠ networkID then throw .peerIDTaken
    if rec.x25519Public ≠ p.x25519Public then throw .peerKeyMismatch
    if !rec.vpnAddr.isValid then throw (.unreadableAddr p.id)
    checkKey p.id
    pure ({ r with peers := r.peers.insert p.id (renewed rec p) }, rec.vpnAddr)
  | none =>
    match r.networks.lookup networkID with
    | none => .error (.networkNotFound networkID)
    | some net =>
      if maxMachines > 0 ∧ net.machineCount ≥ maxMachines then .error .machineLimit
      else
        let used := usedAddrs r.peers networkID
        match allocate net.cidr used (migrateAssignedAddrs net used) with
        | none => .error (.addressSpaceExhausted networkID)
        | some assigned => do
          checkKey networkID
          checkKey p.id
          pure ({ r with
            networks := r.networks.insert networkID (occupy net used assigned)
            peers := r.peers.insert p.id (joined p networkID assigned) }, assigned)

/-- The record `RegisterPeer` stores: without an endpoint, and without a name another peer of the
network holds. -/
def settled (simpleFold : Char → Char) (r : Registry) (p : PeerRecord) (networkID : String) :
    PeerRecord :=
  { p with
    endpoint := ""
    name := if p.name ≠ "" ∧ nameTaken simpleFold r.peers networkID p.id p.name then "" else p.name }

/-- `RegisterPeer`. -/
def registerPeer (simpleFold : Char → Char) (r : Registry) (p : PeerRecord) (networkID : String)
    (maxMachines : Int) : Except RegistryError (Registry × Addr) := do
  let (r', assigned) ← r.register (settled simpleFold r p networkID) networkID maxMachines
  pure ({ r' with endpoints := r'.endpoints.insert p.id p.endpoint }, assigned)

/-- `TouchPeer`. -/
def touchPeer (r : Registry) (now : Int) (peerID : String) : Except RegistryError Registry :=
  match r.peers.lookup peerID with
  | none => .error (.peerNotFound peerID)
  | some rec => do
    checkKey peerID
    pure { r with
      peers := r.peers.insert peerID { rec with lastSeen := roundToHour (unix now) } }

/-- `UpdateEndpoint`. -/
def updateEndpoint (r : Registry) (now : Int) (peerID endpoint : String) :
    Except RegistryError Registry := do
  let r' ← r.touchPeer now peerID
  pure { r' with endpoints := r'.endpoints.insert peerID endpoint }

/-- The machine count after a peer left. -/
def dismiss (net : NetworkRecord) : NetworkRecord :=
  { net with machineCount :=
      if net.machineCount > 0 then net.machineCount - 1 else net.machineCount }

/-- The network record after a peer was removed and its address freed. -/
def release (net : NetworkRecord) (used : List Addr) (freed : Addr) (now : Int) : NetworkRecord :=
  { dismiss net with
    assignedAddrs := some ((migrateAssignedAddrs (dismiss net) used).insert freed (unix now)) }

/-- `RemovePeer`. -/
def removePeer (r : Registry) (now : Int) (peerID : String) :
    Except RegistryError (Registry × PeerRecord) :=
  match r.peers.lookup peerID with
  | none => .error (.peerNotFound peerID)
  | some rec =>
    let peers := r.peers.erase peerID
    let networks := match r.networks.lookup rec.networkID with
      | none => r.networks
      | some net => r.networks.insert rec.networkID
          (release net (usedAddrs peers rec.networkID) rec.vpnAddr now)
    .ok (⟨networks, peers, r.endpoints.erase peerID⟩, rec)

/-- A peer is stale by its last heartbeat, or by its registration when it never sent one. -/
def isStale (cutoff : Int) (rec : PeerRecord) : Bool :=
  (if rec.lastSeen = 0 then rec.registeredAt else rec.lastSeen) < cutoff

/-- The deletion of one stale peer, which decrements the machine count only. -/
def expel (r : Registry) (rec : PeerRecord) : Registry where
  peers := r.peers.erase rec.id
  networks := match r.networks.lookup rec.networkID with
    | none => r.networks
    | some net =>
      if net.machineCount > 0 then r.networks.insert rec.networkID (dismiss net) else r.networks
  endpoints := r.endpoints.erase rec.id

/-- `SweepStalePeers`, with the records it removes. -/
def sweepStalePeers (r : Registry) (now ttl : Int) (skip : Option (String → Bool)) :
    Registry × List PeerRecord :=
  if ttl ≤ 0 then (r, [])
  else
    let removed := ((values r.peers).filter (isStale (unix (now - ttl)))).filter
      fun rec => !skip.any (· rec.id)
    (removed.foldl expel r, removed)

/-- `NewRegistry` on the database of an earlier process: endpoints persisted by older builds are
blanked, the endpoints in memory are gone. -/
def reopen (r : Registry) : Registry where
  networks := r.networks
  peers := ((values r.peers).filter (·.endpoint ≠ "")).foldl
    (fun peers rec => peers.insert rec.id { rec with endpoint := "" }) r.peers
  endpoints := ∅

end Registry

/-- The calls of a registry. Times are in nanoseconds. -/
inductive Op
  | createNetwork (now : Int) (id : String) (cidr : Prefix) (name accountID : String)
  | registerPeer (p : PeerRecord) (networkID : String) (maxMachines : Int)
  | updateEndpoint (now : Int) (peerID endpoint : String)
  | touchPeer (now : Int) (peerID : String)
  | removePeer (now : Int) (peerID : String)
  | sweepStalePeers (now ttl : Int) (skip : Option (String → Bool))
  | reopen

/-- The registry after a call; a failed call leaves it as it was. -/
def Registry.next (simpleFold : Char → Char) (r : Registry) : Op → Registry
  | .createNetwork now id cidr name accountID =>
    (r.createNetwork now id cidr name accountID).toOption.getD r
  | .registerPeer p networkID maxMachines =>
    ((r.registerPeer simpleFold p networkID maxMachines).toOption.map Prod.fst).getD r
  | .updateEndpoint now peerID endpoint => (r.updateEndpoint now peerID endpoint).toOption.getD r
  | .touchPeer now peerID => (r.touchPeer now peerID).toOption.getD r
  | .removePeer now peerID => ((r.removePeer now peerID).toOption.map Prod.fst).getD r
  | .sweepStalePeers now ttl skip => (r.sweepStalePeers now ttl skip).1
  | .reopen => r.reopen

end Veld.Coord
