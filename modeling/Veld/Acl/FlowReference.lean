import Veld.Acl.FlowThreads

/-!
# The flow table as a bounded map

What the flow table is for, to a single user: a map from normalized keys to the
state of a connection, the time it was created and the time of its last use, with
at most `MaxFlows` entries, from which idle entries disappear. The entries are
listed by their last use, latest first. The table of entries in order of their use,
on which the filter is modelled, is this map with the details of the entries.
-/

namespace Veld.Acl

/-- What the reference map keeps of a connection. -/
structure RefFlow where
  key : FlowKey
  state : FlowState
  created : Int
  lastUse : Int
  deriving DecidableEq

/-- What a call returns, with the entry as a value. -/
inductive FlowAnswer (α : Type)
  | entry (e : Option α) (isReply created : Bool)
  | flag (b : Bool)
  | count (n : Nat)
  deriving DecidableEq

def FlowAnswer.map {α β : Type} (f : α → β) : FlowAnswer α → FlowAnswer β
  | entry e isReply created => .entry (e.map f) isReply created
  | flag b => .flag b
  | count n => .count n

/-- The entries of the reference map, most recently used first. -/
abbrev Reference := List RefFlow

namespace Reference

variable (config : FlowTableConfig) (ref : Reference)

/-- The entry has been idle longer than the timeout of its protocol. -/
def idle (e : RefFlow) (now : Int) : Bool := now - e.lastUse > config.getTimeout e.key.proto

def find (key : FlowKey) : Option RefFlow := ref.find? (·.key = key)

/-- Whatever is stored under the key is dropped. -/
def drop (key : FlowKey) : Reference := ref.filter (·.key ≠ key)

/-- The entry under the key is dropped if it is idle. -/
def dropIdle (key : FlowKey) (now : Int) : Reference :=
  ref.filter fun e => !(e.key = key && idle config e now)

/-- An entry is the most recently used one. -/
def use (e : RefFlow) : Reference := e :: ref.drop e.key

/-- A full map loses the least recently used entry. -/
def makeRoom : Reference := if config.maxFlows ≤ ref.length then ref.dropLast else ref

def lookup (f : Flow) (createIfMissing : Bool) (initialState : FlowState) (now : Int) :
    Reference × FlowAnswer RefFlow :=
  let key := flowKey f
  let isReply := (normalizeFlowKey f).2
  let ref := ref.dropIdle config key now
  match ref.find key with
  | some e =>
    let e := { e with
      lastUse := now
      state := if e.state = .new ∧ initialState = .established then .established else e.state }
    (ref.use e, .entry (some e) isReply false)
  | none =>
    if createIfMissing then
      let e : RefFlow := ⟨key, initialState, now, now⟩
      ((ref.makeRoom config).use e, .entry (some e) isReply true)
    else (ref, .entry none isReply false)

def updateState (f : Flow) (state : FlowState) (now : Int) : Reference × FlowAnswer RefFlow :=
  let ref := ref.dropIdle config (flowKey f) now
  match ref.find (flowKey f) with
  | some e => (ref.use { e with state, lastUse := now }, .flag true)
  | none => (ref, .flag false)

/-- The idle and the closed entries are dropped. -/
def expire (now : Int) : Reference :=
  ref.filter fun e => !(idle config e now || e.state == .closed)

def call : FlowOp → Reference × FlowAnswer RefFlow
  | .lookup f createIfMissing initialState now =>
    ref.lookup config f createIfMissing initialState now
  | .updateState f state now => ref.updateState config f state now
  | .removeFlow key => (ref.drop key, .flag (ref.find key).isSome)
  | .expireOldFlows now =>
    (ref.expire config now, .count (ref.length - (ref.expire config now).length))

/-- Calls one after another, with what they return. -/
def calls (ref : Reference) : List FlowOp → Reference × List (FlowAnswer RefFlow)
  | [] => (ref, [])
  | op :: ops =>
    let (ref', answer) := ref.call config op
    let (ref', answers) := ref'.calls ops
    (ref', answer :: answers)

end Reference

/-- What the reference map keeps of an entry. -/
def FlowEntry.toRef (e : FlowEntry) : RefFlow := ⟨e.key, e.state, e.created, e.lastSeen⟩

namespace FlowTable

variable (ft : FlowTable)

/-- The reference map the table stands for. -/
def view : Reference := ft.flows.entries.map FlowEntry.toRef

/-- `RemoveFlow`. -/
def removeFlow (key : FlowKey) : FlowTable × Bool :=
  ({ ft with flows := ft.flows.erase key }, (ft.find key).isSome)

def call : FlowOp → FlowTable × FlowAnswer FlowEntry
  | .lookup f createIfMissing initialState now =>
    let res := ft.lookup f createIfMissing initialState now
    (res.table, .entry res.entry res.isReply res.created)
  | .updateState f state now =>
    let (ft', found) := ft.updateState f state now
    (ft', .flag found)
  | .removeFlow key =>
    let (ft', found) := ft.removeFlow key
    (ft', .flag found)
  | .expireOldFlows now => (ft.expireOldFlows now, .count (ft.len - (ft.expireOldFlows now).len))

variable {ft} {key : FlowKey} {now : Int} {e : FlowEntry}

theorem find_toRef (l : Lru FlowEntry.key) :
    Reference.find (l.entries.map FlowEntry.toRef) key = (l.find key).map FlowEntry.toRef := by
  rw [Reference.find, List.find?_map]
  rfl

theorem find_view : ft.view.find key = (ft.find key).map FlowEntry.toRef := find_toRef ft.flows

theorem find_erase_toRef (l : Lru FlowEntry.key) :
    Reference.find ((l.erase key).entries.map FlowEntry.toRef) key = none := by
  rw [find_toRef, Lru.find_erase_self]
  rfl

theorem drop_view (l : Lru FlowEntry.key) :
    Reference.drop (l.entries.map FlowEntry.toRef) key =
      (l.erase key).entries.map FlowEntry.toRef := by
  rw [Reference.drop, List.filter_map]
  rfl

theorem idle_toRef : Reference.idle ft.config e.toRef now = ft.isEntryExpired e now := by
  simp only [Reference.idle, isEntryExpired, FlowEntry.toRef, FlowEntry.key, flowKey_proto]
  rfl

theorem live_of_missing (h : ft.find key = none) : ft.live key now = none := by
  rw [live, h]
  rfl

theorem live_of_expired (h : ft.find key = some e) (hexp : ft.isEntryExpired e now = true) :
    ft.live key now = none := by
  rw [live, h, Option.filter_some_neg (by simp [hexp])]

/-- Nothing is dropped under the key of a live entry. -/
theorem dropIdle_view_of_live (h : ft.live key now = some e) :
    ft.view.dropIdle ft.config key now = ft.view := by
  obtain ⟨hfind, hlive⟩ := live_eq_some_iff.mp h
  refine List.filter_eq_self.mpr fun x hx => ?_
  obtain ⟨e', he', rfl⟩ := List.mem_map.mp hx
  by_cases hk : e'.key = key
  · have hsame : ft.find key = some e' := Lru.find_eq_some_iff.mpr ⟨he', hk⟩
    obtain rfl : e = e' := Option.mem_unique hfind hsame
    rw [idle_toRef, hlive, Bool.and_false]
    rfl
  · have hk' : (FlowEntry.toRef e').key ≠ key := hk
    simp [hk']

/-- Without a live entry under the key, whatever is stored under it is dropped. -/
theorem dropIdle_view_of_none (h : ft.live key now = none) :
    ft.view.dropIdle ft.config key now = (ft.flows.erase key).entries.map FlowEntry.toRef := by
  rw [← drop_view]
  refine List.filter_congr fun x hx => ?_
  obtain ⟨e', he', rfl⟩ := List.mem_map.mp hx
  by_cases hk : e'.key = key
  · have hsame : ft.find key = some e' := Lru.find_eq_some_iff.mpr ⟨he', hk⟩
    have hidle : ft.isEntryExpired e' now = true := by
      by_contra hcon
      rw [live_eq_some_iff.mpr ⟨hsame, by simpa using hcon⟩] at h
      cases h
    have hk' : (FlowEntry.toRef e').key = key := hk
    simp [idle_toRef, hidle, hk']
  · have hk' : (FlowEntry.toRef e').key ≠ key := hk
    simp [hk']

theorem view_push (l : Lru FlowEntry.key) (e : FlowEntry) :
    (l.push e).entries.map FlowEntry.toRef =
      Reference.use (l.entries.map FlowEntry.toRef) e.toRef := by
  rw [Reference.use, drop_view]
  rfl

theorem makeRoom_view {l : Lru FlowEntry.key} (h : l.length ≤ ft.config.maxFlows) :
    Reference.makeRoom ft.config (l.entries.map FlowEntry.toRef) =
      (l.evictBelow ft.config.maxFlows.toNat).entries.map FlowEntry.toRef := by
  have hpos := ft.roomy
  rw [Lru.evictBelow_eq (by omega) (by omega), Reference.makeRoom, List.length_map, ← Lru.length]
  by_cases hfull : ft.config.maxFlows ≤ l.length
  · rw [if_pos hfull, if_pos (Int.toNat_le.mpr hfull), ← List.map_dropLast]
    rfl
  · have hroom : ¬ft.config.maxFlows.toNat ≤ l.length := by
      intro hle
      exact hfull (Int.toNat_le.mp hle)
    rw [if_neg hfull, if_neg hroom]

theorem lookup_view (h : ft.len ≤ ft.config.maxFlows) (f : Flow) (create : Bool)
    (st : FlowState) :
    ft.view.lookup ft.config f create st now = ((ft.lookup f create st now).table.view,
      .entry ((ft.lookup f create st now).entry.map FlowEntry.toRef)
        (ft.lookup f create st now).isReply (ft.lookup f create st now).created) := by
  simp only [Reference.lookup, lookup, normalizeFlowKey_fst]
  cases hl : ft.live (flowKey f) now with
  | some e =>
    obtain ⟨hfind, -⟩ := live_eq_some_iff.mp hl
    rw [dropIdle_view_of_live hl, find_view, hfind]
    refine Prod.ext ?_ rfl
    exact (view_push ft.flows (refresh e st now)).symm
  | none =>
    rw [dropIdle_view_of_none hl, find_erase_toRef]
    cases create with
    | false => rfl
    | true =>
      have hlen : (ft.flows.erase (flowKey f)).length ≤ ft.config.maxFlows := by
        have hle := ft.flows.length_keep_le fun e => e.key ≠ flowKey f
        simp only [len] at h
        simp only [Lru.erase]
        omega
      simp only [if_true, Bool.not_true, Bool.false_eq_true, if_false]
      rw [makeRoom_view hlen]
      refine Prod.ext ?_ rfl
      exact (view_push _ ⟨f, now, now, st, (normalizeFlowKey f).2⟩).symm

theorem updateState_view (f : Flow) (st : FlowState) :
    ft.view.updateState ft.config f st now =
      ((ft.updateState f st now).1.view, .flag (ft.updateState f st now).2) := by
  simp only [Reference.updateState, updateState, normalizeFlowKey_fst]
  cases hl : ft.live (flowKey f) now with
  | some e =>
    obtain ⟨hfind, -⟩ := live_eq_some_iff.mp hl
    rw [dropIdle_view_of_live hl, find_view, hfind]
    refine Prod.ext ?_ rfl
    exact (view_push ft.flows { e with state := st, lastSeen := now }).symm
  | none =>
    rw [dropIdle_view_of_none hl, find_erase_toRef]
    rfl

theorem expire_view : ft.view.expire ft.config now = (ft.expireOldFlows now).view := by
  rw [Reference.expire, view, List.filter_map]
  refine congrArg _ (List.filter_congr fun e _ => ?_)
  rw [Function.comp_apply, idle_toRef]
  rfl

/-- The table refines the reference map, call by call. -/
theorem call_view (h : ft.len ≤ ft.config.maxFlows) (op : FlowOp) :
    ft.view.call ft.config op = ((ft.call op).1.view, (ft.call op).2.map FlowEntry.toRef) := by
  cases op with
  | lookup f create st now => exact lookup_view h f create st
  | updateState f st now => exact updateState_view f st
  | removeFlow key =>
    simp only [Reference.call, find_view, Option.isSome_map]
    exact Prod.ext (drop_view ft.flows) rfl
  | expireOldFlows now =>
    simp only [Reference.call, expire_view]
    refine Prod.ext rfl ?_
    simp [call, FlowAnswer.map, view, len, Lru.length]

theorem config_call (op : FlowOp) : (ft.call op).1.config = ft.config := by
  cases op with
  | lookup f create st now => exact config_lookup ft f now create st
  | updateState f st now => exact config_updateState ft f now st
  | removeFlow key => rfl
  | expireOldFlows now => rfl

theorem len_call_le (h : ft.len ≤ ft.config.maxFlows) (op : FlowOp) :
    (ft.call op).1.len ≤ ft.config.maxFlows := by
  cases op with
  | lookup f create st now => exact len_lookup_le ft f now h create st
  | updateState f st now =>
    exact (Int.ofNat_le.mpr (len_updateState_le ft f now st)).trans h
  | removeFlow key => exact (Int.ofNat_le.mpr (ft.flows.length_keep_le _)).trans h
  | expireOldFlows now => exact (Int.ofNat_le.mpr (ft.flows.length_keep_le _)).trans h

end FlowTable

end Veld.Acl
