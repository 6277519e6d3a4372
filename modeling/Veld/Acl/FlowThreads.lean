import Veld.Core.Assoc
import Veld.Core.Dll
import Veld.Acl.FlowTable

/-!
# The flow table under concurrent use

`internal/acl/flowtable.go` with its shards, its eviction list and its counter,
used by any number of goroutines. Entries are shared through pointers: a
reference is a number, and the memory holds the entries behind the references.
The list pointers of an entry are kept in the list.

A goroutine stands between two of its steps. A step takes or releases a shard
lock, works on the map of a shard whose lock is held, goes through one critical
section of `evictMu`, or reads or changes `flowCount`. The hash that selects the
shard of a key is arbitrary.
-/

namespace Veld.Acl

/-- A `*FlowEntry`. -/
abbrev FlowRef := Nat

/-- The number of shards `NewFlowTable` makes. -/
def numShards : Nat := 64

abbrev ShardIdx := Fin numShards

namespace FlowTableConfig

/-- The idle timeout of a protocol. -/
def getTimeout (config : FlowTableConfig) (proto : Proto) : Int :=
  if proto = protoTCP then config.tcpIdleTimeout
  else if proto = protoUDP then config.udpIdleTimeout
  else if proto = protoICMP ∨ proto = protoICMPv6 then config.icmpIdleTimeout
  else config.udpIdleTimeout

def isEntryExpired (config : FlowTableConfig) (entry : FlowEntry) (now : Int) : Bool :=
  now - entry.lastSeen > config.getTimeout entry.flow.proto

/-- `ExpireOldFlows` removes idle and closed entries. -/
def isRemovable (config : FlowTableConfig) (entry : FlowEntry) (now : Int) : Bool :=
  config.isEntryExpired entry now || entry.state == .closed

end FlowTableConfig

/-- The memory the goroutines share. -/
structure FlowMemory where
  /-- The entries behind the references, the number of those in use, and the next of them. -/
  entry : FlowRef → FlowEntry := fun _ => ⟨{}, 0, 0, .new, false⟩
  size : Nat := 0
  shards : ShardIdx → AList fun _ : FlowKey => FlowRef := fun _ => ∅
  evictList : Dll FlowRef := {}
  flowCount : Int := 0
  /-- The goroutine that has the lock of a shard. -/
  owner : ShardIdx → Option Nat := fun _ => none

namespace FlowMemory

variable (m : FlowMemory)

def lock (i : ShardIdx) (k : Nat) : FlowMemory :=
  { m with owner := Function.update m.owner i (some k) }

def unlock (i : ShardIdx) : FlowMemory := { m with owner := Function.update m.owner i none }

def find (i : ShardIdx) (key : FlowKey) : Option FlowRef := (m.shards i).lookup key

def delete (i : ShardIdx) (key : FlowKey) : FlowMemory :=
  { m with shards := Function.update m.shards i ((m.shards i).erase key) }

def setEntry (r : FlowRef) (e : FlowEntry) : FlowMemory :=
  { m with entry := Function.update m.entry r e }

/-- A new entry is stored in a shard. -/
def create (i : ShardIdx) (e : FlowEntry) : FlowMemory :=
  { m with
    entry := Function.update m.entry m.size e
    size := m.size + 1
    shards := Function.update m.shards i ((m.shards i).insert e.key m.size) }

/-- `flowCount.Add`. -/
def addCount (n : Int) : FlowMemory := { m with flowCount := m.flowCount + n }

/-- A critical section of `evictMu`. -/
def relink (d : Dll FlowRef) : FlowMemory := { m with evictList := d }

/-- All references in the shard maps. -/
def stored : List FlowRef := (List.finRange numShards).flatMap fun i => values (m.shards i)

end FlowMemory

/-- A call, with the clock reading it makes. -/
inductive FlowOp
  | lookup (f : Flow) (createIfMissing : Bool) (initialState : FlowState) (now : Int)
  | updateState (f : Flow) (state : FlowState) (now : Int)
  | removeFlow (key : FlowKey)
  | expireOldFlows (now : Int)
  deriving DecidableEq

inductive FlowResult
  | entry (r : Option FlowRef) (isReply created : Bool)
  | flag (b : Bool)
  | count (n : Nat)
  deriving DecidableEq

/-- What a goroutine does next. -/
inductive FlowPc
  | locking
  /-- The map of the shard is read. -/
  | locked
  /-- An entry has left its map and is to leave the list. -/
  | unlinking (r : FlowRef)
  | uncounting
  /-- A found entry is to move to the front. -/
  | touching (r : FlowRef)
  /-- The condition of the eviction loop. -/
  | evicting
  | popping (attempts : Nat)
  /-- An entry has been popped. -/
  | victim (r : FlowRef) (attempts : Nat)
  | puttingBack (r : FlowRef) (attempts : Nat)
  /-- The shard of the victim is locked, by `TryLock` if it is another one. -/
  | dropping (r : FlowRef) (target : Option ShardIdx)
  | discounting (target : Option ShardIdx)
  | releasing (target : ShardIdx)
  | creating
  /-- A new entry is in its map and is to join the list. -/
  | linking (r : FlowRef)
  | counting (r : FlowRef)
  | unlocking (result : FlowResult)
  | done (result : FlowResult)
  deriving DecidableEq

/-- A goroutine in a call. -/
structure FlowTask where
  op : FlowOp
  /-- The shard it works on. -/
  shard : ShardIdx
  /-- What `ExpireOldFlows` has removed so far. -/
  removed : Nat := 0
  pc : FlowPc := .locking
  deriving DecidableEq

/-- The attempts of `evictOneLocked`. -/
def maxAttempts : Nat := 8

namespace FlowOp

/-- The shard a call works on first. -/
def shard (shardOf : FlowKey → ShardIdx) : FlowOp → ShardIdx
  | lookup f .. => shardOf (flowKey f)
  | updateState f .. => shardOf (flowKey f)
  | removeFlow key => shardOf key
  | expireOldFlows _ => ⟨0, by decide⟩

/-- The direction of the flow `Lookup` was called with. -/
def isReply : FlowOp → Bool
  | lookup f .. => (normalizeFlowKey f).2
  | _ => false

/-- A call that found a live entry. -/
def found (r : FlowRef) (op : FlowOp) : FlowResult :=
  match op with
  | lookup .. => .entry (some r) op.isReply false
  | _ => .flag true

end FlowOp

namespace FlowTask

/-- The goroutine goes on. -/
def goto (t : FlowTask) (pc : FlowPc) : FlowTask := { t with pc }

/-- The entry of the shard has been removed. -/
def afterRemoval (t : FlowTask) : FlowTask :=
  match t.op with
  | .lookup _ createIfMissing .. =>
    t.goto (if createIfMissing then .evicting else .unlocking (.entry none t.op.isReply false))
  | .updateState .. => t.goto (.unlocking (.flag false))
  | .removeFlow _ => t.goto (.unlocking (.flag true))
  | .expireOldFlows _ => { t with removed := t.removed + 1, pc := .locked }

/-- The shard has been unlocked; `ExpireOldFlows` goes on to the next one. -/
def afterUnlock (t : FlowTask) (result : FlowResult) : FlowTask :=
  match t.op with
  | .expireOldFlows _ =>
    if h : t.shard.val + 1 < numShards then { t with shard := ⟨t.shard.val + 1, h⟩, pc := .locking }
    else t.goto (.done result)
  | _ => t.goto (.done result)

end FlowTask

namespace FlowMemory

variable (shardOf : FlowKey → ShardIdx) (config : FlowTableConfig) (m : FlowMemory)

/-- The entry of a shard that `ExpireOldFlows` removes next; the maps are visited in any order. -/
def removable (i : ShardIdx) (now : Int) (choice : Nat) : Option (Σ _ : FlowKey, FlowRef) :=
  let entries := (m.shards i).entries.filter fun e => config.isRemovable (m.entry e.2) now
  entries[choice % entries.length]?

/-- The part of a call between locking its shard and the first other critical section. -/
def readMap (choice : Nat) (t : FlowTask) : FlowMemory × FlowTask :=
  match t.op with
  | .lookup f createIfMissing initialState now =>
    match m.find t.shard (flowKey f) with
    | some r =>
      if config.isEntryExpired (m.entry r) now then
        (m.delete t.shard (flowKey f), t.goto (.unlinking r))
      else (m.setEntry r (FlowTable.refresh (m.entry r) initialState now), t.goto (.touching r))
    | none =>
      (m, t.goto (if createIfMissing then .evicting
        else .unlocking (.entry none t.op.isReply false)))
  | .updateState f state now =>
    match m.find t.shard (flowKey f) with
    | some r =>
      if config.isEntryExpired (m.entry r) now then
        (m.delete t.shard (flowKey f), t.goto (.unlinking r))
      else (m.setEntry r { m.entry r with state := state, lastSeen := now }, t.goto (.touching r))
    | none => (m, t.goto (.unlocking (.flag false)))
  | .removeFlow key =>
    match m.find t.shard key with
    | some r => (m.delete t.shard key, t.goto (.unlinking r))
    | none => (m, t.goto (.unlocking (.flag false)))
  | .expireOldFlows now =>
    match m.removable config t.shard now choice with
    | some ⟨key, r⟩ => (m.delete t.shard key, t.goto (.unlinking r))
    | none => (m, t.goto (.unlocking (.count t.removed)))

/-- The end of `evictOneLocked`, once the target is unlocked if it was locked. -/
def leave : Option ShardIdx → FlowPc
  | some i => .releasing i
  | none => .evicting

/-- The new entry of a `Lookup`. -/
def newEntry : FlowOp → Option FlowEntry
  | .lookup f _ initialState now => some ⟨f, now, now, initialState, (normalizeFlowKey f).2⟩
  | _ => none

/-- The next step of a goroutine. -/
def step (k choice : Nat) (t : FlowTask) : FlowMemory × FlowTask :=
  match t.pc with
  | .locking =>
    if m.owner t.shard = none then (m.lock t.shard k, t.goto .locked) else (m, t)
  | .locked => m.readMap config choice t
  | .unlinking r => (m.relink (m.evictList.unlink r), t.goto .uncounting)
  | .uncounting => (m.addCount (-1), t.afterRemoval)
  | .touching r =>
    (m.relink (m.evictList.moveToFront r), t.goto (.unlocking (t.op.found r)))
  | .evicting =>
    (m, t.goto (if m.flowCount ≥ config.maxFlows then .popping 0 else .creating))
  | .popping attempts =>
    match m.evictList.pop with
    | (d, some r) => (m.relink d, t.goto (.victim r attempts))
    | (_, none) => (m, t.goto .evicting)
  | .victim r attempts =>
    let i := shardOf (m.entry r).key
    if i = t.shard then (m, t.goto (.dropping r none))
    else if m.owner i = none then (m.lock i k, t.goto (.dropping r (some i)))
    else (m, t.goto (.puttingBack r attempts))
  | .puttingBack r attempts =>
    (m.relink (m.evictList.linkBack r),
      t.goto (if attempts + 1 < maxAttempts then .popping (attempts + 1) else .evicting))
  | .dropping r target =>
    let key := (m.entry r).key
    if (m.find (shardOf key) key).isSome then
      (m.delete (shardOf key) key, t.goto (.discounting target))
    else (m, t.goto (leave target))
  | .discounting target => (m.addCount (-1), t.goto (leave target))
  | .releasing i => (m.unlock i, t.goto .evicting)
  | .creating =>
    match newEntry t.op with
    | some e => (m.create t.shard e, t.goto (.linking m.size))
    | none => (m, t)
  | .linking r => (m.relink (m.evictList.linkFront r), t.goto (.counting r))
  | .counting r => (m.addCount 1, t.goto (.unlocking (.entry (some r) t.op.isReply true)))
  | .unlocking result => (m.unlock t.shard, t.afterUnlock result)
  | .done _ => (m, t)

end FlowMemory

/-- The memory and the goroutines. -/
structure FlowSystem where
  mem : FlowMemory := {}
  tasks : List FlowTask := []

inductive FlowStep
  | call (op : FlowOp)
  /-- The goroutine with this number takes its next step. -/
  | advance (k choice : Nat)
  deriving DecidableEq

namespace FlowSystem

def next (shardOf : FlowKey → ShardIdx) (config : FlowTableConfig) (s : FlowSystem) :
    FlowStep → FlowSystem
  | .call op => { s with tasks := s.tasks ++ [{ op, shard := op.shard shardOf }] }
  | .advance k choice =>
    match s.tasks[k]? with
    | some t =>
      let (mem, t') := s.mem.step shardOf config k choice t
      ⟨mem, s.tasks.set k t'⟩
    | none => s

end FlowSystem

end Veld.Acl
