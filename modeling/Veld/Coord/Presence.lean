import Veld.Coord.Requests

/-!
# Connected peers and the sweep

`Watch` and `ExpelStalePeers` of `coord/server/server.go`. A `Watch` checks its
token and network, authorizes its peer, verifies the signature and counts its
stream, one step each. A sweep is one write transaction: it collects the stale
records, asks for each whether the peer is connected, and commits the deletions.
Transactions that read see the last commit at any time, those that write wait for
the sweep. The endpoints in memory follow their transactions at once; nothing here
reads them.
-/

namespace Veld.Coord

open Crypto

/-- How far a `Watch` is. -/
inductive WatchPhase
  | arrived
  /-- The token and the network passed. -/
  | entered (accountID : String)
  /-- `authorizePeer` returned the record. -/
  | authorized (rec : PeerRecord)
  | verified
  /-- The stream is counted, unless the caller did not name itself. -/
  | streaming
  | ended
  deriving DecidableEq

structure Stream where
  req : WatchRequest
  phase : WatchPhase := .arrived
  deriving DecidableEq

/-- The transaction of `SweepStalePeers`. -/
structure Sweep where
  /-- The stale records whose peers were not looked at yet. -/
  stale : List PeerRecord
  removed : List PeerRecord := []
  deriving DecidableEq

/-- The streams of each peer, `connected`. -/
abbrev Connected := AList fun _ : String => Nat

namespace Connected

variable (m : Connected)

def count (peerID : String) : Nat := (AList.lookup peerID m).getD 0

def markConnected (peerID : String) : Connected := AList.insert peerID (m.count peerID + 1) m

def markDisconnected (peerID : String) : Connected :=
  if m.count peerID ≤ 1 then AList.erase peerID m
  else AList.insert peerID (m.count peerID - 1) m

def isConnected (peerID : String) : Bool := m.count peerID > 0

end Connected

/-- A server with its streams and the sweep in progress. -/
structure Presence (δ : Type) where
  server : Server δ
  connected : Connected := ∅
  sweep : Option Sweep := none
  streams : List Stream := []

inductive PresenceStep
  /-- A `Watch` is called. -/
  | watch (req : WatchRequest)
  /-- The stream with this number takes its next step; an open one ends. -/
  | advance (k : Nat) (now : Int)
  /-- A sweep collects the stale records. -/
  | collect (now ttl : Int)
  /-- The sweep asks whether the peer of its next record is connected. -/
  | ask
  | commit
  | createNetwork (now : Int) (id : String) (cidr : Netip.Prefix) (name accountID : String)
  | register (p : PeerRecord) (networkID : String) (maxMachines : Int)
  | touch (now : Int) (peerID : String)
  /-- The transaction of the peer's own `Leave`. -/
  | leave (now : Int) (peerID : String)
  deriving DecidableEq

namespace Presence

variable {δ : Type} [DecidableEq δ] (sv : Services δ) (s : Presence δ)

/-- The record of the peer is in the registry. -/
def stored (peerID : String) : Bool := (s.server.registry.peers.lookup peerID).isSome

/-- The next step of a stream, with the phase it is in afterwards. -/
def step (now : Int) (w : Stream) : Presence δ × WatchPhase :=
  match w.phase with
  | .arrived =>
    match sv.enterWatch s.server.registry w.req with
    | .error _ => (s, .ended)
    | .ok accountID => (s, if w.req.peerId = "" then .streaming else .entered accountID)
  | .entered accountID =>
    match Services.authorizePeer s.server.registry w.req.peerId w.req.networkId accountID with
    | .error _ => (s, .ended)
    | .ok rec => (s, .authorized rec)
  | .authorized rec =>
    let (seen, result) := sv.verifyCall s.server.seen now rec w.req.signature
      (watchClaims w.req.peerId w.req.networkId w.req.timestampUnix)
    ({ s with server.seen := seen }, if result.isOk then .verified else .ended)
  | .verified => ({ s with connected := s.connected.markConnected w.req.peerId }, .streaming)
  | .streaming =>
    (if w.req.peerId = "" then s
      else { s with connected := s.connected.markDisconnected w.req.peerId }, .ended)
  | .ended => (s, .ended)

/-- A write transaction waits for the sweep. -/
def transact (op : Op) : Presence δ :=
  if s.sweep.isSome then s
  else { s with server.registry := s.server.registry.next sv.simpleFold op }

def next : PresenceStep → Presence δ
  | .watch req => { s with streams := s.streams ++ [{ req }] }
  | .advance k now =>
    match s.streams[k]? with
    | some w =>
      { (s.step sv now w).1 with
        streams := s.streams.set k { w with phase := (s.step sv now w).2 } }
    | none => s
  | .collect now ttl =>
    if s.sweep.isSome || ttl ≤ 0 then s
    else { s with
      sweep := some { stale :=
        (values s.server.registry.peers).filter (Registry.isStale (unix (now - ttl))) } }
  | .ask =>
    match s.sweep with
    | some ⟨rec :: stale, removed⟩ =>
      { s with
        sweep := some
          ⟨stale, if s.connected.isConnected rec.id then removed else removed ++ [rec]⟩ }
    | _ => s
  | .commit =>
    match s.sweep with
    | some ⟨[], removed⟩ =>
      { s with server.registry := removed.foldl Registry.expel s.server.registry, sweep := none }
    | _ => s
  | .createNetwork now id cidr name accountID =>
    s.transact sv (.createNetwork now id cidr name accountID)
  | .register p networkID maxMachines => s.transact sv (.registerPeer p networkID maxMachines)
  | .touch now peerID => s.transact sv (.touchPeer now peerID)
  | .leave now peerID => s.transact sv (.removePeer now peerID)

/-- The questions of a sweep that nothing interrupts. -/
theorem run_ask (stale removed : List PeerRecord) (hs : s.sweep = some ⟨stale, removed⟩) :
    run (next sv) s (List.replicate stale.length .ask) = { s with
      sweep := some
        ⟨[], removed ++ stale.filter fun rec => !s.connected.isConnected rec.id⟩ } := by
  induction stale generalizing s removed with
  | nil =>
    rw [List.filter_nil, List.append_nil, ← hs]
    rfl
  | cons rec stale ih =>
    have hask : s.next sv .ask = { s with
        sweep := some ⟨stale, if s.connected.isConnected rec.id then removed else removed ++ [rec]⟩ } := by
      simp only [next, hs]
    rw [List.length_cons, List.replicate_succ, run_cons, hask, ih _ _ rfl, List.filter_cons]
    cases s.connected.isConnected rec.id with
    | true => rfl
    | false => simp

/-- A sweep that nothing interrupts is `SweepStalePeers` with the connected peers skipped. -/
theorem run_sweep {now ttl : Int} (hs : s.sweep = none) (httl : 0 < ttl) :
    run (next sv) s (.collect now ttl :: (List.replicate ((values s.server.registry.peers).filter
        (Registry.isStale (unix (now - ttl)))).length .ask ++ [.commit])) =
      { s with
        server.registry :=
          (s.server.registry.sweepStalePeers now ttl (some s.connected.isConnected)).1 } := by
  have hcollect : s.next sv (.collect now ttl) = { s with
      sweep := some { stale := (values s.server.registry.peers).filter (Registry.isStale (unix (now - ttl))) } } := by
    simp [next, hs, if_neg httl.not_ge]
  rw [run_cons, hcollect, run_append, run_ask sv _ _ [] rfl, run_cons, run_nil,
    Registry.sweepStalePeers, if_neg httl.not_ge]
  simp [next, hs]

theorem run_sweep_joined :
    run (next Sample.services) { server := Sample.joined } [.collect (31 * 86400 * second)
        (30 * 86400 * second), .ask, .commit] =
      { server := { Sample.joined with registry := (Sample.joined.registry.sweepStalePeers
        (31 * 86400 * second) (30 * 86400 * second) (some fun _ => false)).1 } } := by
  exact run_sweep Sample.services { server := Sample.joined } rfl (by decide)

end Presence

end Veld.Coord
