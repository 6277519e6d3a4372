import Veld.Core.Backlog
import Veld.Core.Run
import Veld.Coord.Server

/-!
# Concurrent calls of the coordinator

A call of the server commits one transaction of the database. Afterwards it
updates the endpoints in memory and publishes its events, each of them under a
lock of its own. `Watch` subscribes to the bus, reads the peers of the network in
a transaction, fills in their endpoints, sends them and then forwards what was
queued. Any number of calls and watchers take these steps in any order.
-/

namespace Veld.Coord

open Netip

/-- What a call still has to do after its transaction. -/
inductive Action
  | setEndpoint (peerID endpoint : String)
  | dropEndpoint (peerID : String)
  | publish (networkID : String) (ev : PeerEvent)
  deriving DecidableEq

/-- The departure of a peer is announced to its network. -/
def publishLeave (rec : PeerRecord) : Action := .publish rec.networkID (leaveEvent rec)

namespace Registry

variable (simpleFold : Char → Char) (r : Registry)

/-- The transaction of a call alone. A database is not opened again while a server runs. -/
def commit : Op → Registry
  | .reopen => r
  | op => { r.next simpleFold op with endpoints := r.endpoints }

/-- What a call does after its transaction: nothing when it failed. -/
def followUp : Op → List Action
  | .registerPeer p networkID maxMachines =>
    match r.registerPeer simpleFold p networkID maxMachines with
    | .ok (_, assigned) =>
      [.setEndpoint p.id p.endpoint, .publish networkID (joinEvent p assigned)]
    | .error _ => []
  | .updateEndpoint now peerID endpoint =>
    match r.updateEndpoint now peerID endpoint with
    | .ok _ => [.setEndpoint peerID endpoint]
    | .error _ => []
  | .removePeer now peerID =>
    match r.removePeer now peerID with
    | .ok (_, rec) => [.dropEndpoint peerID, publishLeave rec]
    | .error _ => []
  | .sweepStalePeers now ttl skip =>
    let removed := (r.sweepStalePeers now ttl skip).2
    removed.map (.dropEndpoint ·.id) ++ removed.map publishLeave
  | _ => []

end Registry

/-- How far `Watch` is. -/
inductive Phase
  | subscribed
  /-- The transaction of `ListPeers` is over, the endpoints are not filled in. -/
  | listed (peers : List PeerRecord)
  /-- The rest of the snapshot is sent, then the queue is forwarded. -/
  | sending (rest : List PeerEvent)
  deriving DecidableEq

/-- The capacity of a subscriber's channel. -/
def channelCap : Nat := 64

/-- A `Watch` stream. -/
structure Watcher where
  networkID : String
  /-- Empty when the caller did not name itself. -/
  peerID : String
  phase : Phase := .subscribed
  queue : List PeerEvent := []
  /-- All that was sent on the stream. -/
  received : List PeerEvent := []
  isOpen : Bool := true
  deriving DecidableEq

namespace Watcher

/-- The watcher is subscribed to a network. -/
def subscribes (w : Watcher) (networkID : String) : Bool := w.isOpen && w.networkID = networkID

/-- `Publish` for one subscriber: the event is dropped when the channel is full. -/
def offer (w : Watcher) (networkID : String) (ev : PeerEvent) : Watcher :=
  if w.subscribes networkID && w.queue.length < channelCap then
    { w with queue := w.queue ++ [ev] }
  else w

/-- The transaction of `ListPeers`. -/
def list (w : Watcher) (r : Registry) : Watcher :=
  match w.phase with
  | .subscribed => { w with phase := .listed (r.networkPeers w.networkID) }
  | _ => w

/-- The endpoints are filled in and the snapshot is ready. -/
def fill (w : Watcher) (r : Registry) : Watcher :=
  match w.phase with
  | .listed peers => { w with phase := .sending (snapshotEvents w.peerID (r.applyEndpoints peers)) }
  | _ => w

/-- The next event is sent, those of the snapshot first. -/
def deliver (w : Watcher) : Watcher :=
  match w.phase, w.queue with
  | .sending (ev :: rest), _ =>
    { w with phase := .sending rest, received := w.received ++ [ev] }
  | .sending [], ev :: rest => { w with queue := rest, received := w.received ++ [ev] }
  | _, _ => w

/-- A signal to the peer is sent. -/
def signal (w : Watcher) (sig : SignalEvent) : Watcher :=
  match w.phase with
  | .sending [] =>
    { w with received := w.received ++ [{ type := .signal, signal := some sig }] }
  | _ => w

end Watcher

/-- The coordinator with the calls and the watchers in progress. -/
structure Coordinator where
  registry : Registry
  calls : Backlog Action
  watchers : List Watcher
  deriving DecidableEq

inductive CoordStep
  | commit (op : Op)
  /-- The call with this number does its next action. -/
  | perform (k : Nat)
  | subscribe (networkID peerID : String)
  | list (w : Nat)
  | fill (w : Nat)
  | deliver (w : Nat)
  | signal (w : Nat) (sig : SignalEvent)
  /-- The stream of a watcher ends. -/
  | close (w : Nat)

namespace Coordinator

/-- A server on a new database. -/
def new : Coordinator := ⟨.empty, [], []⟩

/-- An open watcher takes a step. -/
def modify (c : Coordinator) (w : Nat) (f : Watcher → Watcher) : Coordinator :=
  { c with watchers := c.watchers.modify w fun x => if x.isOpen then f x else x }

/-- One action of a call. -/
def act (c : Coordinator) : Action → Coordinator
  | .setEndpoint peerID endpoint =>
    { c with registry.endpoints := c.registry.endpoints.insert peerID endpoint }
  | .dropEndpoint peerID =>
    { c with registry.endpoints := c.registry.endpoints.erase peerID }
  | .publish networkID ev => { c with watchers := c.watchers.map (·.offer networkID ev) }

/-- One step of a call or a watcher. -/
def next (simpleFold : Char → Char) (c : Coordinator) : CoordStep → Coordinator
  | .commit op =>
    { c with
      registry := c.registry.commit simpleFold op
      calls := c.calls ++ [c.registry.followUp simpleFold op] }
  | .perform k =>
    match c.calls.next? k with
    | some a => { c.act a with calls := c.calls.advance k }
    | none => c
  | .subscribe networkID peerID => { c with watchers := c.watchers ++ [{ networkID, peerID }] }
  | .list w => c.modify w (·.list c.registry)
  | .fill w => c.modify w (·.fill c.registry)
  | .deliver w => c.modify w Watcher.deliver
  | .signal w sig => c.modify w (·.signal sig)
  | .close w => c.modify w fun x => { x with isOpen := false }

end Coordinator

namespace Sample

/-- A peer registers with an endpoint. -/
def registerAt (id endpoint : String) : Op := .registerPeer { id, endpoint } "net" 0

/-- The coordinator after some steps. -/
def coordinator (steps : List CoordStep) : Coordinator :=
  run (Coordinator.next id) Coordinator.new steps

end Sample

end Veld.Coord
