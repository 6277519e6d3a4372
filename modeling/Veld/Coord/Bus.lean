import Veld.Core.Assoc
import Veld.Core.Bytes
import Veld.Core.Last
import Veld.Core.Run

/-!
# Signals between peers

The signals of `coord/server/bus.go`. A `SendSignal` is a goroutine that stands
before one of its two critical sections; the other functions have one each. A
channel is a number, and its memory keeps, besides the buffer, everything that was
ever put on it. A send that would block for ever and a send to a closed channel
leave a mark. Signals carry the number of the call that sent them, so that two
equal ones can be told apart.
-/

namespace Veld.Coord

/-- `pendingSignalTTL`. -/
def pendingSignalTTL : Int := 30 * second

def maxPendingPerPeer : Nat := 16

def maxPendingRecipients : Nat := 4096

/-- The capacity of a signal channel. -/
def signalCap : Nat := 64

/-- A `signalMsg`, with the number of its call. -/
structure SignalMsg where
  call : Nat
  fromPeerID : String
  toPeerID : String
  payload : Bytes
  deriving DecidableEq

structure PendingSignal where
  msg : SignalMsg
  heldAt : Int
  deriving DecidableEq

/-- The signal is younger than the time to live. -/
def PendingSignal.young (now : Int) (p : PendingSignal) : Bool := now - pendingSignalTTL < p.heldAt

/-- A `chan signalMsg`. -/
abbrev ChanRef := Nat

structure SignalChan where
  buffer : List SignalMsg := []
  closed : Bool := false
  /-- Everything that was put on the channel. -/
  log : List SignalMsg := []

/-- A signal is put on the channel. -/
def SignalChan.push (c : SignalChan) (msg : SignalMsg) : SignalChan :=
  { c with buffer := c.buffer ++ [msg], log := c.log ++ [msg] }

structure Bus where
  signals : AList fun _ : String => List ChanRef := ∅
  pending : AList fun _ : String => List PendingSignal := ∅
  /-- The channels behind the references, and the number of those made. -/
  chan : ChanRef → SignalChan := fun _ => {}
  size : Nat := 0
  /-- A send blocks for ever. -/
  blocked : Bool := false
  /-- A closed channel was sent to or closed again. -/
  panicked : Bool := false

namespace Bus

variable (b : Bus)

/-- The channels of a recipient. -/
def subscribed (peerID : String) : List ChanRef := (b.signals.lookup peerID).getD []

/-- The signals held for a recipient. -/
def held (peerID : String) : List PendingSignal := (b.pending.lookup peerID).getD []

/-- A signal is put on a channel. -/
def push (ch : ChanRef) (msg : SignalMsg) : Bus :=
  { b with chan := Function.update b.chan ch ((b.chan ch).push msg) }

/-- A send that blocks while the channel is full. -/
def send (ch : ChanRef) (msg : SignalMsg) : Bus :=
  if (b.chan ch).closed then { b with panicked := true }
  else if (b.chan ch).buffer.length < signalCap then b.push ch msg
  else { b with blocked := true }

/-- A send that is given up if the channel is full. -/
def trySend (ch : ChanRef) (msg : SignalMsg) : Bus :=
  if (b.chan ch).closed then { b with panicked := true }
  else if (b.chan ch).buffer.length < signalCap then b.push ch msg
  else b

/-- A signal goes to all subscribers of its recipient. -/
def deliver (chs : List ChanRef) (msg : SignalMsg) : Bus :=
  chs.foldl (fun b ch => b.trySend ch msg) b

/-- The map without the recipients whose last signal has expired. -/
def purge (now : Int) : AList fun _ : String => List PendingSignal :=
  keepValues (fun held => held.getLast?.any (·.young now)) b.pending

/-- There is no room for another recipient. -/
def crowded (peerID : String) : Bool :=
  (b.pending.lookup peerID).isNone && b.pending.entries.length ≥ maxPendingRecipients

/-- A signal is appended to those held for its recipient that have not expired. -/
def store (pending : AList fun _ : String => List PendingSignal) (msg : SignalMsg) (now : Int) :
    Bus :=
  let held := ((pending.lookup msg.toPeerID).getD []).filter (·.young now) ++ [⟨msg, now⟩]
  { b with pending := pending.insert msg.toPeerID (lastN maxPendingPerPeer held) }

def holdLocked (msg : SignalMsg) (now : Int) : Bus :=
  if b.crowded msg.toPeerID then
    if (b.purge now).entries.length ≥ maxPendingRecipients then { b with pending := b.purge now }
    else b.store (b.purge now) msg now
  else b.store b.pending msg now

/-- The channel of a new subscriber, filled but not published. -/
def fill (peerID : String) (now : Int) : Bus :=
  ((b.held peerID).filter (·.young now)).foldl (fun b' p => b'.send b.size p.msg)
    { b with
      pending := b.pending.erase peerID
      chan := Function.update b.chan b.size {}
      size := b.size + 1 }

def subscribeSignals (peerID : String) (now : Int) : Bus :=
  let b' := b.fill peerID now
  { b' with signals := b'.signals.insert peerID (b'.subscribed peerID ++ [b.size]) }

def unsubscribeSignals (peerID : String) (ch : ChanRef) : Bus :=
  if ch ∈ b.subscribed peerID then
    { b with
      signals := b.signals.insert peerID ((b.subscribed peerID).erase ch)
      chan := Function.update b.chan ch { b.chan ch with closed := true }
      panicked := b.panicked || (b.chan ch).closed }
  else b

def dropPendingSignals (peerID : String) : Bus := { b with pending := b.pending.erase peerID }

/-- A subscriber takes a signal from its channel. -/
def receive (ch : ChanRef) : Bus :=
  { b with chan := Function.update b.chan ch { b.chan ch with buffer := (b.chan ch).buffer.tail } }

end Bus

/-- What a call of `SendSignal` does next. -/
inductive SendTask
  /-- It is before its first critical section. -/
  | sending (msg : SignalMsg) (hold : Bool)
  /-- There was no subscriber, and it is to take the write lock. -/
  | upgrading (msg : SignalMsg)
  | sent
  deriving DecidableEq

/-- The next critical section of a call. -/
def Bus.step (b : Bus) (now : Int) : SendTask → Bus × SendTask
  | .sending msg hold =>
    if b.subscribed msg.toPeerID = [] then (b, if hold then .upgrading msg else .sent)
    else (b.deliver (b.subscribed msg.toPeerID) msg, .sent)
  | .upgrading msg =>
    if b.subscribed msg.toPeerID = [] then (b.holdLocked msg now, .sent)
    else (b.deliver (b.subscribed msg.toPeerID) msg, .sent)
  | .sent => (b, .sent)

/-- The bus, the calls of `SendSignal` and the last clock reading. -/
structure BusSystem where
  bus : Bus := {}
  calls : List SendTask := []
  clock : Int

inductive BusStep
  /-- `SendSignal` is called. -/
  | call (fromPeerID toPeerID : String) (payload : Bytes) (hold : Bool)
  /-- The call with this number goes through its next critical section. -/
  | advance (k : Nat) (now : Int)
  | subscribe (peerID : String) (now : Int)
  | unsubscribe (peerID : String) (ch : ChanRef)
  | drop (peerID : String)
  | receive (ch : ChanRef)
  deriving DecidableEq

namespace BusSystem

variable (s : BusSystem)

def next : BusStep → BusSystem
  | .call fromPeerID toPeerID payload hold =>
    { s with calls := s.calls ++
        [.sending ⟨s.calls.length, fromPeerID, toPeerID, payload⟩ hold] }
  | .advance k now =>
    match s.calls[k]? with
    | some t => ⟨(s.bus.step now t).1, s.calls.set k (s.bus.step now t).2, now⟩
    | none => s
  | .subscribe peerID now => { s with bus := s.bus.subscribeSignals peerID now, clock := now }
  | .unsubscribe peerID ch => { s with bus := s.bus.unsubscribeSignals peerID ch }
  | .drop peerID => { s with bus := s.bus.dropPendingSignals peerID }
  | .receive ch => { s with bus := s.bus.receive ch }

/-- The clock does not go back. -/
def InTime : BusStep → Prop
  | .advance _ now => s.clock ≤ now
  | .subscribe _ now => s.clock ≤ now
  | _ => True

instance : (i : BusStep) → Decidable (s.InTime i)
  | .advance _ now => inferInstanceAs (Decidable (s.clock ≤ now))
  | .subscribe _ now => inferInstanceAs (Decidable (s.clock ≤ now))
  | .call .. | .unsubscribe .. | .drop _ | .receive _ => inferInstanceAs (Decidable True)

end BusSystem

end Veld.Coord
