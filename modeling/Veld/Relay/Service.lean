import Veld.Core.Assoc
import Veld.Core.Netip
import Veld.Core.Run
import Veld.Core.Tally

/-!
# The relay service

`relay/service.go` from the admission of a connection on, with any number of
goroutines. A connection is a number; the service keeps what the handshake
establishes for it and whether its slot has been released. A goroutine stands
between two of its steps, and a step is one critical section of `Service.mu`,
one `Close` of a connection, or one operation on the wait group. The contents of
the frames do not matter here: a splice runs until it fails.

The channel of two keys is a digest of the smaller and the larger one.
-/

namespace Veld.Relay

open Netip

/-- An X25519 public key. -/
abbrev Key := BitVec 256

/-- A `*serverConn`, with the `limitedConn` it holds. -/
abbrev ConnRef := Nat

/-- What is known of a connection once its handshake is over. -/
structure Conn where
  ip : Addr := .zero
  clientKey : Key := 0
  remoteKey : Key := 0
  deriving DecidableEq

section Channel

variable {χ : Type} (digest : Key → Key → χ)

/-- `ChannelID`. -/
def channelID (a b : Key) : χ := if a.toNat > b.toNat then digest b a else digest a b

/-- Different pairs of keys have different channels. -/
def CollisionFree : Prop :=
  ∀ a b a' b', channelID digest a b = channelID digest a' b' →
    (a = a' ∧ b = b') ∨ (a = b' ∧ b = a')

def Conn.channel (c : Conn) : χ := channelID digest c.clientKey c.remoteKey

end Channel

def defaultMaxConns : Int := 4096

def defaultMaxConnsPerIP : Int := 64

/-- The limits on open connections. -/
structure Limits where
  maxConns : Int
  maxConnsPerIP : Int
  roomy : 0 < maxConns
  fair : 0 < maxConnsPerIP

/-- The limits of `NewService` without options. -/
def defaultLimits : Limits := ⟨defaultMaxConns, defaultMaxConnsPerIP, by decide, by decide⟩

/-- A limit is set if the value is positive. -/
def limitOr (value limit : Int) : Int := if value > 0 then value else limit

theorem limitOr_pos {value limit : Int} (h : 0 < limit) : 0 < limitOr value limit := by
  unfold limitOr
  split <;> omega

/-- The option `MaxConns`. -/
def Limits.set (l : Limits) (total perIP : Int) : Limits where
  maxConns := limitOr total l.maxConns
  maxConnsPerIP := limitOr perIP l.maxConnsPerIP
  roomy := limitOr_pos l.roomy
  fair := limitOr_pos l.fair

/-- What a goroutine does next. -/
inductive Task
  /-- `handleConn` up to the end of the handshake. -/
  | handshaking (c : ConnRef)
  /-- `handleConn` before its first critical section. -/
  | entering (c : ConnRef)
  /-- `handleConn` is to evict a stale connection of the same client. -/
  | evicting (c other : ConnRef)
  /-- The stale connection has left the map and is to be closed. -/
  | dropping (c other : ConnRef)
  /-- `handleConn` before it takes the lock again. -/
  | resuming (c : ConnRef)
  /-- `handleConn` closes its own connection and returns. -/
  | refusing (c : ConnRef)
  /-- The timer of a waiting connection, which is to evict it. -/
  | timer (c : ConnRef)
  /-- The timer has taken the connection out of the map and is to close it. -/
  | expiring (c : ConnRef)
  | splicing (dst src : ConnRef)
  /-- A splice has failed and is to close its source. -/
  | failing (dst src : ConnRef)
  /-- A splice is to close its destination. -/
  | failed (dst : ConnRef)
  | forgetting (dst : ConnRef)
  /-- A splice is to tell the wait group. -/
  | leaving
  /-- `Close` before its critical section. -/
  | stopping
  /-- `Close` has connections to close, those that were waiting first. -/
  | closing (waiting active : List ConnRef)
  /-- `Close` waits for the splices. -/
  | joining
  /-- `Close` has returned. -/
  | returned
  | done
  deriving DecidableEq

/-- The memory the goroutines share. -/
structure Service (χ : Type) [DecidableEq χ] where
  /-- The connections behind the references, and the number of those in use. -/
  conn : ConnRef → Conn := fun _ => {}
  size : Nat := 0
  /-- The admitted connections that have not been closed. -/
  live : List ConnRef := []
  waiting : AList fun _ : χ => ConnRef := ∅
  active : List ConnRef := []
  closed : Bool := false
  conns : Int := 0
  connsByIP : AList fun _ : Addr => Int := ∅
  /-- The counter of the wait group. -/
  wg : Int := 0

namespace Service

variable {χ : Type} [DecidableEq χ] (digest : Key → Key → χ) (m : Service χ)

/-- The open connections that are counted for an address. -/
def countOf (ip : Addr) : Int := (m.connsByIP.lookup ip).getD 0

def hasRoom (limits : Limits) (ip : Addr) : Bool :=
  !(m.conns ≥ limits.maxConns || m.countOf ip ≥ limits.maxConnsPerIP)

/-- `admit` of a connection for which there is room. -/
def admitConn (c : Conn) : Service χ :=
  { m with
    conn := Function.update m.conn m.size c
    size := m.size + 1
    live := m.size :: m.live
    conns := m.conns + 1
    connsByIP := m.connsByIP.insert c.ip (m.countOf c.ip + 1) }

/-- The slot of an address is given back. -/
def uncount (ip : Addr) : AList fun _ : Addr => Int :=
  if m.countOf ip - 1 ≤ 0 then m.connsByIP.erase ip
  else m.connsByIP.insert ip (m.countOf ip - 1)

/-- `limitedConn.Close`, which releases the slot once. -/
def release (c : ConnRef) : Service χ :=
  if c ∈ m.live then
    { m with
      live := m.live.erase c
      conns := m.conns - 1
      connsByIP := m.uncount (m.conn c).ip }
  else m

def channel (c : ConnRef) : χ := (m.conn c).channel digest

/-- The connection waiting on the channel of a connection. -/
def other (c : ConnRef) : Option ConnRef := m.waiting.lookup (m.channel digest c)

/-- No connection waits on the channel of a connection any more. -/
def unwait (c : ConnRef) : Service χ := { m with waiting := m.waiting.erase (m.channel digest c) }

/-- A connection waits for its counterpart, with a timer. -/
def await (c : ConnRef) : Service χ × Task × List Task :=
  ({ m with waiting := m.waiting.insert (m.channel digest c) c }, .done, [.timer c])

/-- Two connections are spliced, one direction by a goroutine of its own. -/
def pair (c o : ConnRef) : Service χ × Task × List Task :=
  ({ m.unwait digest c with active := (m.active.insert c).insert o, wg := m.wg + 2 },
    .splicing o c, [.splicing c o])

/-- A connection waits, or is paired with the one that waits. -/
def join (c : ConnRef) : Service χ × Task × List Task :=
  match m.other digest c with
  | none => m.await digest c
  | some o => m.pair digest c o

/-- The next step of a goroutine, with the goroutines it starts. `ok` says whether the handshake
succeeds, `choice` in which order `Close` visits the connections. -/
def step (ok : Bool) (choice : Nat) : Task → Service χ × Task × List Task
  | .handshaking c =>
    (m, if ok ∧ (m.conn c).clientKey ≠ (m.conn c).remoteKey then .entering c else .refusing c, [])
  | .entering c =>
    if m.closed then (m, .refusing c, [])
    else match m.other digest c with
    | some o =>
      if (m.conn o).clientKey = (m.conn c).clientKey then (m, .evicting c o, [])
      else m.join digest c
    | none => m.join digest c
  | .evicting c o =>
    if m.other digest c = some o then (m.unwait digest c, .dropping c o, [])
    else (m, .resuming c, [])
  | .dropping c o => (m.release o, .resuming c, [])
  | .resuming c => if m.closed then (m, .refusing c, []) else m.join digest c
  | .refusing c => (m.release c, .done, [])
  | .timer c =>
    if m.other digest c = some c then (m.unwait digest c, .expiring c, []) else (m, .done, [])
  | .expiring c => (m.release c, .done, [])
  | .splicing dst src => (m, .failing dst src, [])
  | .failing dst src => (m.release src, .failed dst, [])
  | .failed dst => (m.release dst, .forgetting dst, [])
  | .forgetting dst => ({ m with active := m.active.erase dst }, .leaving, [])
  | .leaving => ({ m with wg := m.wg - 1 }, .done, [])
  | .stopping =>
    if m.closed then (m, .joining, [])
    else ({ m with closed := true, waiting := ∅ }, .closing (values m.waiting) m.active, [])
  | .closing waiting active =>
    match waiting[choice % waiting.length]? with
    | some c => (m.release c, .closing (waiting.eraseIdx (choice % waiting.length)) active, [])
    | none =>
      match active[choice % active.length]? with
      | some c => (m.release c, .closing [] (active.eraseIdx (choice % active.length)), [])
      | none => (m, .joining, [])
  | .joining => (m, if m.wg = 0 then .returned else .joining, [])
  | .returned => (m, .returned, [])
  | .done => (m, .done, [])

section Release

variable {m} {c : ConnRef}

@[simp] theorem conn_release : (m.release c).conn = m.conn := by
  unfold release
  split <;> rfl

@[simp] theorem size_release : (m.release c).size = m.size := by
  unfold release
  split <;> rfl

@[simp] theorem waiting_release : (m.release c).waiting = m.waiting := by
  unfold release
  split <;> rfl

end Release

end Service

/-- The memory and the goroutines. -/
structure RelaySystem (χ : Type) [DecidableEq χ] where
  service : Service χ := {}
  tasks : List Task := []

inductive RelayStep
  /-- A connection is accepted. -/
  | accept (c : Conn)
  /-- `Close` is called. -/
  | close
  /-- A connection that was admitted is closed, perhaps again. -/
  | closeConn (c : ConnRef)
  /-- The goroutine with this number takes its next step. -/
  | advance (k : Nat) (ok : Bool) (choice : Nat)
  deriving DecidableEq

namespace RelaySystem

variable {χ : Type} [DecidableEq χ]

/-- The goroutine with a number has taken a step. -/
def after (s : RelaySystem χ) (k : Nat) (r : Service χ × Task × List Task) : RelaySystem χ :=
  ⟨r.1, s.tasks.set k r.2.1 ++ r.2.2⟩

def next (digest : Key → Key → χ) (limits : Limits) (s : RelaySystem χ) : RelayStep →
    RelaySystem χ
  | .accept c =>
    if s.service.hasRoom limits c.ip then
      ⟨s.service.admitConn c, s.tasks ++ [.handshaking s.service.size]⟩
    else s
  | .close => { s with tasks := s.tasks ++ [.stopping] }
  | .closeConn c => { s with service := s.service.release c }
  | .advance k ok choice =>
    match s.tasks[k]? with
    | some t => s.after k (s.service.step digest ok choice t)
    | none => s

section
variable {s : RelaySystem χ} {k : Nat} {t' u : Task} {started : List Task}

/-- After a step a place holds the goroutine that took it, one of the others, or one it started. -/
theorem getElem?_tasks {i : Nat} (hu : (s.tasks.set k t' ++ started)[i]? = some u) :
    (i = k ∧ u = t') ∨ (i ≠ k ∧ s.tasks[i]? = some u) ∨ u ∈ started := by
  rw [List.getElem?_append] at hu
  split at hu
  · rcases getElem?_set_eq_some hu with hk | hold
    · exact .inl hk
    · exact .inr (.inl hold)
  · exact .inr (.inr (List.mem_of_getElem? hu))

/-- The goroutines after a step are the one that took it, those it started and all the others. -/
theorem mem_tasks (hu : u ∈ s.tasks.set k t' ++ started) :
    u ∈ t' :: started ∨ ∃ j, j ≠ k ∧ s.tasks[j]? = some u := by
  obtain ⟨j, hj⟩ := List.getElem?_of_mem hu
  rcases getElem?_tasks hj with ⟨-, rfl⟩ | hold | hstarted
  · exact .inl List.mem_cons_self
  · exact .inr ⟨j, hold⟩
  · exact .inl (List.mem_cons_of_mem _ hstarted)

end

end RelaySystem

end Veld.Relay
