import Veld.Crypto.PeerSignature
import Veld.Peer.Table

/-!
# Two nodes and a network

`Initiate`, `handleInit` and `handleResp` of `internal/handshake/manager.go` on two
honest nodes, with the session slots of their peer entries and the part of
`decryptDataPacket` that moves sessions between them. Noise is ideal: a handshake
is a number, a Resp carries the number of the handshake it answers and the session
both sides then have. Everything that was sent may arrive at any time, in any order
and any number of times. The pruning of timestamps is left out here; the replay
check passes no older Init because of it. Endpoints only decide whether a packet
arrives.
-/

namespace Veld.Handshake

open Crypto Peer

/-- `handshakeRetryTimeout`. -/
def handshakeRetryTimeout : Int := 5 * second

/-- `maxHandshakeRetries`. -/
def maxHandshakeRetries : Nat := 3

inductive Side
  | a
  | b
  deriving DecidableEq

/-- The other node. -/
def Side.peer : Side → Side
  | .a => .b
  | .b => .a

/-- `pendingHS`: the handshake with the timestamp of its Init. -/
structure PendingHS where
  hs : Nat
  timestamp : BitVec 64
  createdAt : Int
  retries : Nat
  deriving DecidableEq

/-- What the nodes send each other. -/
inductive Packet
  | init (src : Side) (hs : Nat) (timestamp : BitVec 64)
  /-- The answer to an Init of the receiver. -/
  | resp (dst : Side) (hs : Nat) (session : SessionRef) (timestamp : BitVec 64)
  | data (src : Side) (session : SessionRef)
  deriving DecidableEq

/-- What a node knows of the other one. -/
structure Node where
  entry : Entry
  /-- The greatest accepted Init timestamp. -/
  initTimestamp : Option Int := none
  pending : Option PendingHS := none
  /-- `NeedsRekey` of the sessions. -/
  needsRekey : SessionRef → Bool := fun _ => false
  /-- The clock reading of the last Init. -/
  clock : Int := 0

/-- Both nodes, with all that was sent. -/
structure Tunnel where
  node : Side → Node
  sent : List Packet := []
  nextHS : Nat := 0
  nextSession : SessionRef := 0

inductive TunnelStep
  /-- `Initiate`, with the clock readings of the retry check, of the Init and of the new attempt.
  Building the Init may fail, and the peer may have no endpoint. -/
  | initiate (n : Side) (checkedAt stampedAt createdAt : Int) (built hasEndpoint : Bool)
  /-- A packet that was sent arrives. The clock is read for its timestamp and for a Resp; `TOFUCheck`
  may refuse the peer. -/
  | deliver (p : Packet) (now builtAt : Int) (trusted : Bool)
  /-- A node sends a data packet. -/
  | send (n : Side)
  /-- A session of a node reaches its age or nonce limit. -/
  | age (n : Side) (s : SessionRef)

/-- The normalised timestamp. -/
def stamp (ts : BitVec 64) : Int := (normalizeTimestamp ts).toInt

/-- A session is in one of the three slots. -/
def Holds (e : Entry) (s : SessionRef) : Prop :=
  e.session = some s ∨ e.pendingSession = some s ∨ e.prevSession = some s

instance (e : Entry) (s : SessionRef) : Decidable (Holds e s) :=
  inferInstanceAs (Decidable (_ ∨ _ ∨ _))

namespace Tunnel

/-- Two nodes that know each other. -/
def new (id : Side → PeerID) (vpnAddr : Side → Netip.Addr) : Tunnel where
  node n := { entry := { id := id n, vpnAddr := vpnAddr n } }

/-- One node changes. -/
def set (t : Tunnel) (n : Side) (nd : Node) : Tunnel :=
  { t with node := Function.update t.node n nd }

/-- The session a node encrypts with. -/
def live (t : Tunnel) (n : Side) : Option SessionRef :=
  (t.node n).entry.session.filter fun s => !(t.node n).needsRekey s

/-- A new attempt takes the place of the old one, and its Init is sent. -/
def start (t : Tunnel) (n : Side) (stampedAt createdAt : Int) (retries : Nat)
    (hasEndpoint : Bool) : Tunnel :=
  let nd := t.node n
  let phs : PendingHS := ⟨t.nextHS, unixNano stampedAt, createdAt, retries⟩
  { t.set n { nd with
      pending := if hasEndpoint then some phs else none
      entry := nd.entry.setState .stateHandshaking
      clock := stampedAt } with
    sent := if hasEndpoint then t.sent ++ [.init n phs.hs phs.timestamp] else t.sent
    nextHS := t.nextHS + 1 }

/-- `Initiate`. -/
def initiate (t : Tunnel) (n : Side) (checkedAt stampedAt createdAt : Int)
    (built hasEndpoint : Bool) : Tunnel :=
  let nd := t.node n
  match nd.pending with
  | none => if !built then t else t.start n stampedAt createdAt 0 hasEndpoint
  | some phs =>
    if checkedAt - phs.createdAt < handshakeRetryTimeout then t
    else if phs.retries ≥ maxHandshakeRetries then t.set n { nd with pending := none }
    else if !built then t.set n { nd with pending := some { phs with createdAt } }
    else t.start n stampedAt createdAt (phs.retries + 1) hasEndpoint

/-- An Init is fresh and newer than all accepted ones. -/
def accepts (t : Tunnel) (n : Side) (ts : BitVec 64) (now : Int) : Bool :=
  inSkew (unixNano now) (normalizeTimestamp ts) && stamp ts ≠ 0 &&
    !(t.node n).initTimestamp.any (stamp ts ≤ ·)

/-- `handleInit`: the new session is pending until the initiator uses it. -/
def handleInit (t : Tunnel) (n : Side) (hs : Nat) (ts : BitVec 64) (now builtAt : Int)
    (trusted : Bool) : Tunnel :=
  let nd := { t.node n with initTimestamp := some (stamp ts) }
  if !t.accepts n ts now then t
  else if !trusted then t.set n nd
  else
    { t.set n { nd with entry := nd.entry.setPendingSession (some t.nextSession) } with
      sent := t.sent ++ [.resp n.peer hs t.nextSession (unixNano builtAt)]
      nextSession := t.nextSession + 1 }

/-- A Resp answers the current attempt. -/
def completes (t : Tunnel) (n : Side) (hs : Nat) (ts : BitVec 64) (now : Int) (trusted : Bool) :
    Bool :=
  (t.node n).pending.any (·.hs = hs) && inSkew (unixNano now) (normalizeTimestamp ts) && trusted

/-- `handleResp`: the new session is active at once. -/
def handleResp (t : Tunnel) (n : Side) (hs : Nat) (s : SessionRef) (ts : BitVec 64) (now : Int)
    (trusted : Bool) : Tunnel :=
  let nd := t.node n
  if t.completes n hs ts now trusted then
    t.set n { nd with pending := none, entry := nd.entry.setSession (some s) }
  else t

/-- A data packet confirms the pending session. -/
def confirms (t : Tunnel) (n : Side) (s : SessionRef) : Bool :=
  (t.node n).entry.session ≠ some s && (t.node n).entry.pendingSession = some s

/-- `decryptDataPacket`: only a confirmation moves sessions. -/
def handleData (t : Tunnel) (n : Side) (s : SessionRef) : Tunnel :=
  let nd := t.node n
  if t.confirms n s then t.set n { nd with entry := nd.entry.promotePendingSession } else t

/-- A node handles a packet. -/
def handle (t : Tunnel) (p : Packet) (now builtAt : Int) (trusted : Bool) : Tunnel :=
  match p with
  | .init src hs ts => t.handleInit src.peer hs ts now builtAt trusted
  | .resp dst hs s ts => t.handleResp dst hs s ts now trusted
  | .data src s => t.handleData src.peer s

def next (t : Tunnel) : TunnelStep → Tunnel
  | .initiate n checkedAt stampedAt createdAt built hasEndpoint =>
    t.initiate n checkedAt stampedAt createdAt built hasEndpoint
  | .deliver p now builtAt trusted => if p ∈ t.sent then t.handle p now builtAt trusted else t
  | .send n =>
    match t.live n with
    | some s => { t with sent := t.sent ++ [.data n s] }
    | none => t
  | .age n s =>
    t.set n { t.node n with needsRekey := Function.update (t.node n).needsRekey s true }

/-- The session each node encrypts with is in a slot of the other one. -/
def InSync (t : Tunnel) : Prop :=
  ∀ n s, t.live n = some s → Holds (t.node n.peer).entry s

/-- The previous session a node is about to drop is not the one the other node encrypts with. -/
def SparesPrev (t : Tunnel) (n : Side) : Prop :=
  (t.node n).entry.session.isSome = true →
    ∀ s, (t.node n).entry.prevSession = some s → t.live n.peer ≠ some s

/-- No slot is overwritten while the other node encrypts with its session, and a data packet confirms
a session only while its sender still has it. -/
def Safe (t : Tunnel) : TunnelStep → Prop
  | .deliver p now _ trusted => p ∈ t.sent → match p with
    | .init src _ ts => t.accepts src.peer ts now = true → trusted = true →
        ∀ s, (t.node src.peer).entry.pendingSession = some s → t.live src ≠ some s
    | .resp dst hs _ ts => t.completes dst hs ts now trusted = true → t.SparesPrev dst
    | .data src s => t.confirms src.peer s = true → t.SparesPrev src.peer ∧
        ((t.node src.peer).needsRekey s = false → Holds (t.node src).entry s)
  | _ => True

/-- The clock of a node does not go back between two Inits, and its readings are nanoseconds on the
wire and in `NormalizeTimestamp`. -/
def Ticks (t : Tunnel) : TunnelStep → Prop
  | .initiate n _ stampedAt _ _ _ =>
    (t.node n).clock ≤ stampedAt ∧ 1000000000000 < stampedAt ∧ stampedAt < 2 ^ 63
  | _ => True

end Tunnel

end Veld.Handshake
