import Veld.Acl.FlowContents

/-!
# One goroutine at the flow table

A goroutine makes its calls one after another, each through the steps of the
concurrent model, while no other goroutine holds a lock. Every call ends, whatever
order the maps are visited in, and does to the held entries what the table of
entries in order of their use does.
-/

namespace Veld.Acl

/-- What a result says about the entries in the memory. -/
def FlowMemory.observe (m : FlowMemory) : FlowResult → FlowAnswer FlowEntry
  | .entry r isReply created => .entry (r.map m.entry) isReply created
  | .flag b => .flag b
  | .count n => .count n

/-- A goroutine with the calls it has yet to make and what those before returned. -/
structure FlowUser where
  mem : FlowMemory := {}
  ops : List FlowOp
  task : Option FlowTask := none
  answers : List (FlowAnswer FlowEntry) := []

/-- The next step of the goroutine; the number selects the order in which maps are visited. -/
def FlowUser.next (shardOf : FlowKey → ShardIdx) (config : FlowTableConfig) (s : FlowUser)
    (choice : Nat) : FlowUser :=
  match s.task with
  | some t =>
    match t.pc with
    | .done result => { s with task := none, answers := s.answers ++ [s.mem.observe result] }
    | _ =>
      let (mem, t') := s.mem.step shardOf config 0 choice t
      { s with mem, task := some t' }
  | none =>
    match s.ops with
    | [] => s
    | op :: ops => { s with ops, task := some { op, shard := op.shard shardOf } }

namespace FlowMemory

/-- A step of a call by itself. -/
def advance (shardOf : FlowKey → ShardIdx) (config : FlowTableConfig) (s : FlowMemory × FlowTask)
    (choice : Nat) : FlowMemory × FlowTask :=
  s.1.step shardOf config 0 choice s.2

/-- The goroutine has the lock of one shard. -/
def held (i : ShardIdx) : ShardIdx → Option Nat := Function.update (fun _ => none) i (some 0)

/-- A call has returned an answer and left these entries, with all locks free. -/
def Returned (shardOf : FlowKey → ShardIdx) (entries : List FlowEntry)
    (answer : FlowAnswer FlowEntry) (s : FlowMemory × FlowTask) : Prop :=
  ∃ result xs, s.2.pc = .done result ∧ Holds shardOf s.1 xs ∧ s.1.owner = (fun _ => none) ∧
    xs.map s.1.entry = entries ∧ s.1.observe result = answer

variable {shardOf : FlowKey → ShardIdx} {config : FlowTableConfig} {m : FlowMemory}
  {xs l l' : List FlowRef} {r : FlowRef} {t : FlowTask} {result : FlowResult}
  {goal : FlowMemory × FlowTask → Prop} {L : Lru FlowEntry.key}

theorem held_ne {i j : ShardIdx} (h : j ≠ i) : held i j = none := Function.update_of_ne h ..

theorem unlock_held (i : ShardIdx) : Function.update (held i) i none = fun _ => none := by
  rw [held, Function.update_idem, Function.update_eq_self_iff]

/-- Any call but `ExpireOldFlows` returns once it has unlocked its shard. -/
theorem ends_unlocking (hop : ∀ now, t.op ≠ .expireOldFlows now) (h : Holds shardOf m xs)
    (howner : m.owner = held t.shard) :
    Ends (advance shardOf config) (Returned shardOf (xs.map m.entry) (m.observe result))
      (m, t.goto (.unlocking result)) := by
  have hnext : ∀ i, advance shardOf config (m, t.goto (.unlocking result)) i =
      (m.unlock t.shard, (t.goto (.unlocking result)).goto (.done result)) := by
    intro i
    refine Prod.ext rfl ?_
    show (t.goto (.unlocking result)).afterUnlock result = _
    unfold FlowTask.afterUnlock
    split
    · rename_i now hnow
      exact absurd hnow (hop now)
    · rfl
  refine .of_next hnext (.here ⟨result, xs, rfl, h.owned _, ?_, rfl, by cases result <;> rfl⟩)
  show Function.update m.owner t.shard none = _
  rw [howner, unlock_held]

/-- A found entry is used. -/
theorem ends_touching {e : FlowEntry} (hop : ∀ now, t.op ≠ .expireOldFlows now)
    (h : Holds shardOf m (l ++ r :: l')) (hk : e.key = (m.entry r).key)
    (howner : m.owner = held t.shard) :
    Ends (advance shardOf config) (Returned shardOf (e :: (l ++ l').map m.entry)
      ((m.setEntry r e).observe (t.op.found r))) (m.setEntry r e, t.goto (.touching r)) := by
  rw [← h.entries_use]
  exact .of_next (fun _ => rfl) (ends_unlocking hop (h.use hk) howner)

/-- A new entry is created once there is room. -/
theorem ends_creating {e : FlowEntry} (he : newEntry t.op = some e) (hi : shardOf e.key = t.shard)
    (h : Holds shardOf m xs) (hk : ∀ x ∈ xs, (m.entry x).key ≠ e.key)
    (howner : m.owner = held t.shard) :
    Ends (advance shardOf config) (Returned shardOf (e :: xs.map m.entry)
      (.entry (some e) t.op.isReply true)) (m, t.goto .creating) := by
  have hop : ∀ now, t.op ≠ .expireOldFlows now := by
    intro now hnow
    rw [hnow] at he
    cases he
  have hcreate : ∀ i, advance shardOf config (m, t.goto .creating) i =
      (m.create t.shard e, t.goto (.linking m.size)) := by
    intro i
    simp only [advance, step, FlowTask.goto, he]
  have hinsert := h.insert hk
  rw [hi] at hinsert
  refine .of_next hcreate (.of_next (fun _ => rfl) (.of_next (fun _ => rfl) ?_))
  have hends : Ends (advance shardOf config) _ (m.insert t.shard e,
      t.goto (.unlocking (.entry (some m.size) t.op.isReply true))) :=
    ends_unlocking hop hinsert howner
  rw [h.entries_insert] at hends
  have hnew : (m.insert t.shard e).observe (.entry (some m.size) t.op.isReply true) =
      .entry (some e) t.op.isReply true :=
    congrArg (FlowAnswer.entry · _ _) (congrArg some (Function.update_self ..))
  rw [hnew] at hends
  exact hends

/-- An entry that has left its map leaves the list and the counter. -/
theorem ends_removal (h : Ends (advance shardOf config) goal
      (m.remove t.shard (m.entry r).key r, (t.goto .uncounting).afterRemoval)) :
    Ends (advance shardOf config) goal (m.delete t.shard (m.entry r).key, t.goto (.unlinking r)) :=
  .of_next (fun _ => rfl) (.of_next (fun _ => rfl) h)

/-- The least recently used entry is removed in one attempt, since its shard is the one the call has
locked or is not locked at all. -/
theorem ends_popping (h : Holds shardOf m (l ++ [r])) (howner : m.owner = held t.shard)
    (hends : Ends (advance shardOf config) goal
      (m.remove (shardOf (m.entry r).key) (m.entry r).key r, t.goto .evicting)) :
    Ends (advance shardOf config) goal (m, t.goto (.popping 0)) := by
  have hpop : ∀ i, advance shardOf config (m, t.goto (.popping 0)) i =
      (m.relink (m.evictList.unlink r), t.goto (.victim r 0)) := by
    intro i
    simp only [advance, step, FlowTask.goto, h.links.pop_concat]
  have hfind : m.find (shardOf (m.entry r).key) (m.entry r).key = some r :=
    h.find_eq List.mem_concat_self
  -- the entry is in its map, so it is deleted and counted
  have hdrop (m' : FlowMemory) (target : Option ShardIdx) (hentry : m'.entry = m.entry)
      (hshards : m'.shards = m.shards) : ∀ i, advance shardOf config (m', t.goto (.dropping r target)) i =
        (m'.delete (shardOf (m.entry r).key) (m.entry r).key, t.goto (.discounting target)) := by
    intro i
    have hsome : (m'.find (shardOf (m'.entry r).key) (m'.entry r).key).isSome = true := by
      rw [find, hentry, hshards]
      exact congrArg Option.isSome hfind
    show (if _ then _ else _) = _
    rw [if_pos hsome, hentry]
    rfl
  refine .of_next hpop ?_
  by_cases hi : shardOf (m.entry r).key = t.shard
  · have hvictim : ∀ i, advance shardOf config
        (m.relink (m.evictList.unlink r), t.goto (.victim r 0)) i =
          (m.relink (m.evictList.unlink r), t.goto (.dropping r none)) := by
      intro i
      show (if shardOf (m.entry r).key = t.shard then _ else _) = _
      rw [if_pos hi]
      rfl
    exact .of_next hvictim (.of_next (hdrop _ none rfl rfl) (.of_next (fun _ => rfl) hends))
  · have hfree : m.owner (shardOf (m.entry r).key) = none := by rw [howner, held_ne hi]
    have hvictim : ∀ i, advance shardOf config
        (m.relink (m.evictList.unlink r), t.goto (.victim r 0)) i =
          ((m.relink (m.evictList.unlink r)).lock (shardOf (m.entry r).key) 0,
            t.goto (.dropping r (some (shardOf (m.entry r).key)))) := by
      intro i
      show (if shardOf (m.entry r).key = t.shard then _
        else if m.owner (shardOf (m.entry r).key) = none then _ else _) = _
      rw [if_neg hi, if_pos hfree]
      rfl
    refine .of_next hvictim (.of_next (hdrop _ (some _) rfl rfl) (.of_next (fun _ => rfl)
      (.of_next (fun _ => rfl) ?_)))
    have hback : Function.update (Function.update m.owner (shardOf (m.entry r).key) (some 0))
        (shardOf (m.entry r).key) none = m.owner := by
      rw [Function.update_idem, Function.update_eq_self_iff, hfree]
    show Ends _ goal ({ m.remove (shardOf (m.entry r).key) (m.entry r).key r with
      owner := Function.update (Function.update m.owner _ _) _ none }, _)
    rw [hback]
    exact hends

/-- The eviction loop ends. -/
theorem ends_evicting (hmax : 0 < config.maxFlows) (fuel : Nat) (hfuel : xs.length ≤ fuel)
    (h : Holds shardOf m xs) (howner : m.owner = held t.shard) (hL : L.entries = xs.map m.entry)
    (hends : ∀ m' xs', Holds shardOf m' xs' → m'.owner = held t.shard →
      (L.evictLoop config.maxFlows.toNat fuel).entries = xs'.map m'.entry →
      Ends (advance shardOf config) goal (m', t.goto .creating)) :
    Ends (advance shardOf config) goal (m, t.goto .evicting) := by
  have hlen : L.length = xs.length := by rw [Lru.length, hL, List.length_map]
  have hnext (i : Nat) : advance shardOf config (m, t.goto .evicting) i =
      (m, t.goto (if m.flowCount ≥ config.maxFlows then .popping 0 else .creating)) := rfl
  rw [h.count] at hnext
  induction fuel generalizing m xs L with
  | zero =>
    have hroom : ¬(xs.length : Int) ≥ config.maxFlows := by omega
    rw [if_neg hroom] at hnext
    exact .of_next hnext (hends m xs h howner hL)
  | succ fuel ih =>
    by_cases hfull : (xs.length : Int) ≥ config.maxFlows
    · have hbound : config.maxFlows.toNat ≤ L.length := by omega
      obtain ⟨l, r, rfl⟩ : ∃ l r, xs = l ++ [r] := by
        rcases List.eq_nil_or_concat xs with rfl | ⟨l, r, rfl⟩
        · simp at hfull
          omega
        · exact ⟨l, r, List.concat_eq_append ..⟩
      rw [if_pos hfull] at hnext
      have hremove : Holds shardOf (m.remove (shardOf (m.entry r).key) (m.entry r).key r) l := by
        have hmid : Holds shardOf _ (l ++ []) := Holds.remove h
        rwa [List.append_nil] at hmid
      have hold : L.dropOldest.entries = l.map m.entry := by
        show L.entries.dropLast = _
        rw [hL, List.map_append, List.map_singleton, List.dropLast_concat]
      refine .of_next hnext (ends_popping h howner ?_)
      refine ih ?_ hremove howner hold ?_ ?_ ?_
      · rw [List.length_append, List.length_singleton] at hfuel
        omega
      · intro m' xs' h' howner' hentries
        refine hends m' xs' h' howner' ?_
        rw [Lru.evictLoop, if_pos hbound]
        exact hentries
      · rw [Lru.length, hold, List.length_map]
      · intro i
        rw [← hremove.count]
        rfl
    · have hbound : ¬config.maxFlows.toNat ≤ L.length := by omega
      rw [if_neg hfull] at hnext
      refine .of_next hnext (hends m xs h howner ?_)
      rw [Lru.evictLoop, if_neg hbound, hL]

section Calls

variable {ft : FlowTable} {f : Flow} {create : Bool} {st : FlowState} {now : Int} {key : FlowKey}
  {i : ShardIdx} {choice : Nat}

/-- A `Lookup` whose shard is locked, at some place. -/
def lookupTask (shardOf : FlowKey → ShardIdx) (f : Flow) (create : Bool) (st : FlowState)
    (now : Int) : FlowTask :=
  { op := .lookup f create st now, shard := shardOf (flowKey f) }

/-- `Lookup` of a key that is not stored, or not any more. -/
theorem ends_missing (h : Holds shardOf m xs) (howner : m.owner = held (shardOf (flowKey f)))
    (hL : L.entries = xs.map m.entry) (hmissing : L.find (flowKey f) = none)
    (hlive : ft.live (flowKey f) now = none) (herase : ft.flows.erase (flowKey f) = L) :
    Ends (advance shardOf ft.config)
      (Returned shardOf (ft.call (.lookup f create st now)).1.flows.entries
        (ft.call (.lookup f create st now)).2)
      (m, (lookupTask shardOf f create st now).goto (if create then .evicting
        else .unlocking (.entry none (normalizeFlowKey f).2 false))) := by
  simp only [FlowTable.call, FlowTable.lookup, normalizeFlowKey_fst, hlive, herase]
  cases create with
  | false =>
    simp only [Bool.not_false, if_true, Bool.false_eq_true, if_false, hL]
    have hends : Ends (advance shardOf ft.config) _ (m, (lookupTask shardOf f false st now).goto
        (.unlocking (.entry none (normalizeFlowKey f).2 false))) :=
      ends_unlocking (fun _ h => by cases h) h howner
    exact hends
  | true =>
    simp only [Bool.not_true, Bool.false_eq_true, if_false, if_true]
    have hlen : xs.length ≤ L.length := by rw [Lru.length, hL, List.length_map]
    refine ends_evicting ft.roomy L.length hlen h howner hL fun m' xs' h' howner' hentries => ?_
    have hgone : (L.evictBelow ft.config.maxFlows.toNat).find (flowKey f) = none := by
      rcases L.find_evictBelow ft.config.maxFlows.toNat (flowKey f) with he | he
      · rw [he, hmissing]
      · exact he
    have hpush : ((L.evictBelow ft.config.maxFlows.toNat).push
        ⟨f, now, now, st, (normalizeFlowKey f).2⟩).entries =
          ⟨f, now, now, st, (normalizeFlowKey f).2⟩ :: xs'.map m'.entry :=
      congrArg _ ((erase_of_find_none hgone).trans hentries)
    rw [hpush]
    refine ends_creating rfl rfl h' (fun x hx => ?_) howner'
    refine Lru.find_eq_none_iff.mp hgone _ ?_
    rw [Lru.evictBelow, hentries]
    exact List.mem_map.mpr ⟨x, hx, rfl⟩

/-- An entry that was found is removed if it has expired, else it is written and moved to the
front. -/
theorem ends_found {e : FlowEntry}
    (hread : ∀ i, advance shardOf ft.config (m, t.goto .locked) i =
      if ft.isEntryExpired (m.entry r) now then
        (m.delete t.shard (m.entry r).key, t.goto (.unlinking r))
      else (m.setEntry r e, t.goto (.touching r)))
    (hgone : ft.isEntryExpired (m.entry r) now = true → Ends (advance shardOf ft.config) goal
      (m.remove t.shard (m.entry r).key r, (t.goto .uncounting).afterRemoval))
    (hkept : ft.isEntryExpired (m.entry r) now = false → Ends (advance shardOf ft.config) goal
      (m.setEntry r e, t.goto (.touching r))) :
    Ends (advance shardOf ft.config) goal (m, t.goto .locked) := by
  cases hexp : ft.isEntryExpired (m.entry r) now with
  | true =>
    rw [hexp, if_pos rfl] at hread
    exact .of_next hread (ends_removal (hgone hexp))
  | false =>
    rw [hexp, if_neg Bool.false_ne_true] at hread
    exact .of_next hread (hkept hexp)

theorem ends_lookup (h : Holds shardOf m xs) (howner : m.owner = held (shardOf (flowKey f)))
    (hL : ft.flows.entries = xs.map m.entry) :
    Ends (advance shardOf ft.config)
      (Returned shardOf (ft.call (.lookup f create st now)).1.flows.entries
        (ft.call (.lookup f create st now)).2)
      (m, (lookupTask shardOf f create st now).goto .locked) := by
  set t := lookupTask shardOf f create st now with ht
  cases hfind : m.find (shardOf (flowKey f)) (flowKey f) with
  | none =>
    have hread : ∀ i, advance shardOf ft.config (m, t.goto .locked) i =
        (m, t.goto (if create then .evicting
          else .unlocking (.entry none (normalizeFlowKey f).2 false))) := by
      intro i
      simp only [ht, lookupTask, advance, step, readMap, FlowTask.goto, FlowOp.isReply, hfind]
    have hnone := h.find_of_none hL hfind
    have hlive : ft.live (flowKey f) now = none := FlowTable.live_of_missing hnone
    have herase := erase_of_find_none hnone
    exact .of_next hread (ends_missing h howner (herase.trans hL)
      (ft.flows.find_erase_self _) hlive rfl)
  | some r =>
    have hsome : ft.find (flowKey f) = some (m.entry r) := h.find_of_some hL hfind
    obtain ⟨hkey, l, l', rfl⟩ := h.split_of_find hfind
    have hread : ∀ i, advance shardOf ft.config (m, t.goto .locked) i =
        if ft.isEntryExpired (m.entry r) now then
          (m.delete t.shard (m.entry r).key, t.goto (.unlinking r))
        else (m.setEntry r (FlowTable.refresh (m.entry r) st now), t.goto (.touching r)) := by
      intro i
      simp only [ht, lookupTask, advance, step, readMap, FlowTask.goto, hfind, hkey]
      rfl
    refine ends_found hread (fun hexp => ?_) fun hexp => ?_
    · have hlive : ft.live (flowKey f) now = none := FlowTable.live_of_expired hsome hexp
      have hremove := h.remove
      have herase := h.erase_eq hL
      rw [hkey] at hremove herase
      rw [hkey]
      exact ends_missing hremove howner herase (ft.flows.find_erase_self _) hlive rfl
    · have hlive : ft.live (flowKey f) now = some (m.entry r) :=
        FlowTable.live_eq_some_iff.mpr ⟨hsome, hexp⟩
      have hpush : (ft.flows.push (FlowTable.refresh (m.entry r) st now)).entries =
          FlowTable.refresh (m.entry r) st now :: (l ++ l').map m.entry :=
        congrArg _ (h.erase_eq hL)
      simp only [FlowTable.call, FlowTable.lookup, normalizeFlowKey_fst, hlive, hpush]
      have hends : Ends (advance shardOf ft.config) _ (_, t.goto (.touching r)) :=
        ends_touching (e := FlowTable.refresh (m.entry r) st now) (fun _ h => by cases h) h rfl howner
      have hseen : (m.setEntry r (FlowTable.refresh (m.entry r) st now)).observe (t.op.found r) =
          .entry (some (FlowTable.refresh (m.entry r) st now)) (normalizeFlowKey f).2 false :=
        congrArg (FlowAnswer.entry · _ _) (congrArg some (Function.update_self ..))
      rw [hseen] at hends
      exact hends

theorem ends_updateState (h : Holds shardOf m xs) (howner : m.owner = held (shardOf (flowKey f)))
    (hL : ft.flows.entries = xs.map m.entry) :
    Ends (advance shardOf ft.config)
      (Returned shardOf (ft.call (.updateState f st now)).1.flows.entries
        (ft.call (.updateState f st now)).2)
      (m, { op := .updateState f st now, shard := shardOf (flowKey f), pc := .locked }) := by
  set t : FlowTask := { op := .updateState f st now, shard := shardOf (flowKey f) } with ht
  have hop : ∀ now', t.op ≠ .expireOldFlows now' := fun _ h => by cases h
  show Ends _ _ (m, t.goto .locked)
  cases hfind : m.find (shardOf (flowKey f)) (flowKey f) with
  | none =>
    have hread : ∀ i, advance shardOf ft.config (m, t.goto .locked) i =
        (m, t.goto (.unlocking (.flag false))) := by
      intro i
      simp only [ht, advance, step, readMap, FlowTask.goto, hfind]
    have hnone := h.find_of_none hL hfind
    have hlive : ft.live (flowKey f) now = none := FlowTable.live_of_missing hnone
    simp only [FlowTable.call, FlowTable.updateState, normalizeFlowKey_fst, hlive, erase_of_find_none hnone, hL]
    have hends : Ends (advance shardOf ft.config) _ (m, t.goto (.unlocking (.flag false))) :=
      ends_unlocking hop h howner
    exact .of_next hread hends
  | some r =>
    have hsome : ft.find (flowKey f) = some (m.entry r) := h.find_of_some hL hfind
    obtain ⟨hkey, l, l', rfl⟩ := h.split_of_find hfind
    have hread : ∀ i, advance shardOf ft.config (m, t.goto .locked) i =
        if ft.isEntryExpired (m.entry r) now then
          (m.delete t.shard (m.entry r).key, t.goto (.unlinking r))
        else (m.setEntry r { m.entry r with state := st, lastSeen := now },
          t.goto (.touching r)) := by
      intro i
      simp only [ht, advance, step, readMap, FlowTask.goto, hfind, hkey]
      rfl
    refine ends_found hread (fun hexp => ?_) fun hexp => ?_
    · have hlive : ft.live (flowKey f) now = none := FlowTable.live_of_expired hsome hexp
      have hremove := h.remove
      have herase := h.erase_eq hL
      rw [hkey] at hremove herase
      simp only [FlowTable.call, FlowTable.updateState, normalizeFlowKey_fst, hlive, herase]
      rw [hkey]
      have hends : Ends (advance shardOf ft.config) _
          (m.remove t.shard (flowKey f) r, t.goto (.unlocking (.flag false))) :=
        ends_unlocking hop hremove howner
      exact hends
    · have hlive : ft.live (flowKey f) now = some (m.entry r) :=
        FlowTable.live_eq_some_iff.mpr ⟨hsome, hexp⟩
      have hpush : (ft.flows.push { m.entry r with state := st, lastSeen := now }).entries =
          { m.entry r with state := st, lastSeen := now } :: (l ++ l').map m.entry :=
        congrArg _ (h.erase_eq hL)
      simp only [FlowTable.call, FlowTable.updateState, normalizeFlowKey_fst, hlive, hpush]
      have hends : Ends (advance shardOf ft.config) _ (_, t.goto (.touching r)) :=
        ends_touching (e := { m.entry r with state := st, lastSeen := now }) hop h rfl howner
      exact hends

theorem ends_removeFlow (h : Holds shardOf m xs)
    (howner : m.owner = held (shardOf key)) (hL : ft.flows.entries = xs.map m.entry) :
    Ends (advance shardOf ft.config)
      (Returned shardOf (ft.call (.removeFlow key)).1.flows.entries (ft.call (.removeFlow key)).2)
      (m, { op := .removeFlow key, shard := shardOf key, pc := .locked }) := by
  set t : FlowTask := { op := .removeFlow key, shard := shardOf key } with ht
  have hop : ∀ now', t.op ≠ .expireOldFlows now' := fun _ h => by cases h
  show Ends _ _ (m, t.goto .locked)
  cases hfind : m.find (shardOf key) key with
  | none =>
    have hread : ∀ i, advance shardOf ft.config (m, t.goto .locked) i =
        (m, t.goto (.unlocking (.flag false))) := by
      intro i
      simp only [ht, advance, step, readMap, FlowTask.goto, hfind]
    have hnone : ft.find key = none := h.find_of_none hL hfind
    simp only [FlowTable.call, FlowTable.removeFlow, hnone, Option.isSome_none,
      show (ft.flows.erase key).entries = _ from (erase_of_find_none hnone).trans hL]
    have hends : Ends (advance shardOf ft.config) _ (m, t.goto (.unlocking (.flag false))) :=
      ends_unlocking hop h howner
    exact .of_next hread hends
  | some r =>
    have hsome : ft.find key = some (m.entry r) := h.find_of_some hL hfind
    obtain ⟨rfl, l, l', rfl⟩ := h.split_of_find hfind
    have hread : ∀ i, advance shardOf ft.config (m, t.goto .locked) i =
        (m.delete t.shard (m.entry r).key, t.goto (.unlinking r)) := by
      intro i
      simp only [ht, advance, step, readMap, FlowTask.goto, hfind]
    simp only [FlowTable.call, FlowTable.removeFlow, hsome, Option.isSome_some, h.erase_eq hL]
    have hends : Ends (advance shardOf ft.config) _
        (m.remove t.shard (m.entry r).key r, t.goto (.unlocking (.flag true))) :=
      ends_unlocking hop h.remove howner
    exact .of_next hread (ends_removal hends)

/-- `ExpireOldFlows` has a shard before it whose map holds the entry, and is to remove it. -/
def gone (shardOf : FlowKey → ShardIdx) (config : FlowTableConfig) (now : Int)
    (entry : FlowRef → FlowEntry) (i : Nat) (r : FlowRef) : Bool :=
  i ≤ (shardOf (entry r).key).val && config.isRemovable (entry r) now

theorem find_of_removable_some (h : m.removable config i now choice = some ⟨key, r⟩) :
    m.find i key = some r ∧ config.isRemovable (m.entry r) now = true := by
  obtain ⟨hmem, hrem⟩ := List.mem_filter.mp (List.mem_of_getElem? h)
  exact ⟨AList.mem_lookup_iff.mpr hmem, hrem⟩

theorem not_removable_of_none
    (h : m.removable config i now choice = none) (hr : m.find i key = some r) :
    config.isRemovable (m.entry r) now = false := by
  by_contra hrem
  set entries := (m.shards i).entries.filter fun e => config.isRemovable (m.entry e.2) now
    with hentries
  have hmem : ⟨key, r⟩ ∈ entries :=
    List.mem_filter.mpr ⟨AList.mem_lookup_iff.mp hr, by simpa using hrem⟩
  have hlt : choice % entries.length < entries.length := Nat.mod_lt _ (List.length_pos_of_mem hmem)
  exact absurd (List.getElem?_eq_none_iff.mp h) hlt.not_ge

/-- The rest of `ExpireOldFlows` from a locked shard on. -/
def Expires (shardOf : FlowKey → ShardIdx) (config : FlowTableConfig) (now : Int) (i : ShardIdx) :
    Prop :=
  ∀ m xs n, Holds shardOf m xs → m.owner = held i →
    Ends (advance shardOf config)
      (Returned shardOf ((xs.filter fun r => !gone shardOf config now m.entry i r).map m.entry)
        (.count (n + xs.countP (gone shardOf config now m.entry i))))
      (m, ⟨.expireOldFlows now, i, n, .locked⟩)

/-- An entry of the shard is removed, or there is none and the shard is unlocked. -/
theorem expires_of_unlocking (hunlock : ∀ m xs n, Holds shardOf m xs → m.owner = held i →
      (∀ r ∈ xs, shardOf (m.entry r).key = i → config.isRemovable (m.entry r) now = false) →
      Ends (advance shardOf config)
        (Returned shardOf ((xs.filter fun r => !gone shardOf config now m.entry i r).map m.entry)
          (.count (n + xs.countP (gone shardOf config now m.entry i))))
        (m, ⟨.expireOldFlows now, i, n, .unlocking (.count n)⟩)) :
    Expires shardOf config now i := by
  intro m xs n h howner
  obtain ⟨N, hN⟩ : ∃ N, xs.length = N := ⟨_, rfl⟩
  induction N using Nat.strong_induction_on generalizing m xs n with
  | _ N ih =>
    refine .step fun choice => ?_
    cases hrem : m.removable config i now choice with
    | none =>
      have hread : advance shardOf config (m, ⟨.expireOldFlows now, i, n, .locked⟩) choice =
          (m, ⟨.expireOldFlows now, i, n, .unlocking (.count n)⟩) := by
        simp only [advance, step, readMap, FlowTask.goto, hrem]
      rw [hread]
      refine hunlock m xs n h howner fun r hr hi => ?_
      have hfind := h.find_eq hr
      rw [hi] at hfind
      exact not_removable_of_none hrem hfind
    | some e =>
      obtain ⟨key, r⟩ := e
      obtain ⟨hfind, hremovable⟩ := find_of_removable_some hrem
      obtain ⟨hmem, rfl, hi⟩ := (h.maps _ _ _).mp hfind
      obtain ⟨l, l', rfl⟩ := List.append_of_mem hmem
      have hread : advance shardOf config (m, ⟨.expireOldFlows now, i, n, .locked⟩) choice =
          (m.delete i (m.entry r).key, ⟨.expireOldFlows now, i, n, .unlinking r⟩) := by
        simp only [advance, step, readMap, FlowTask.goto, hrem]
      have hremove := h.remove
      rw [hi] at hremove
      have hless : (l ++ l').length < N := by
        rw [← hN]
        simp
      have hends := ih _ hless _ _ (n + 1) hremove howner rfl
      -- the removed entry counts and is not kept
      have hgone : gone shardOf config now m.entry i r = true := by simp [gone, hi, hremovable]
      have hfilter : (l ++ r :: l').filter (fun r => !gone shardOf config now m.entry i r) =
          (l ++ l').filter fun r => !gone shardOf config now m.entry i r := by
        simp [List.filter_append, hgone]
      have hcount : n + (l ++ r :: l').countP (gone shardOf config now m.entry i) =
          n + 1 + (l ++ l').countP (gone shardOf config now m.entry i) := by
        rw [List.countP_append, List.countP_append, List.countP_cons_of_pos hgone]
        omega
      rw [hread, hfilter, hcount]
      exact ends_removal (t := ⟨.expireOldFlows now, i, n, .locked⟩) hends

/-- The shards are visited one after another. -/
theorem expires (d : Nat) (i : ShardIdx) (hi : i.val + d + 1 = numShards) :
    Expires shardOf config now i := by
  induction d generalizing i with
  | zero =>
    refine expires_of_unlocking fun m xs n h howner hnone => ?_
    have hgone : ∀ r ∈ xs, gone shardOf config now m.entry i r = false := by
      intro r hr
      by_cases hshard : shardOf (m.entry r).key = i
      · rw [gone, hnone r hr hshard, Bool.and_false]
      · have hlt : ¬i.val ≤ (shardOf (m.entry r).key).val := by
          have hbound := (shardOf (m.entry r).key).isLt
          have hne := Fin.val_ne_of_ne hshard
          omega
        rw [gone, decide_eq_false hlt, Bool.false_and]
    have hlast : ¬i.val + 1 < numShards := by omega
    have hnext : ∀ c, advance shardOf config
        (m, ⟨.expireOldFlows now, i, n, .unlocking (.count n)⟩) c =
          (m.unlock i, ⟨.expireOldFlows now, i, n, .done (.count n)⟩) := by
      intro c
      refine Prod.ext rfl ?_
      show (if h : i.val + 1 < numShards then _ else _) = _
      rw [dif_neg hlast]
      rfl
    have hkept : xs.filter (fun r => !gone shardOf config now m.entry i r) = xs :=
      List.filter_eq_self.mpr fun r hr => by rw [hgone r hr]; rfl
    have hcount : xs.countP (gone shardOf config now m.entry i) = 0 :=
      List.countP_eq_zero.mpr fun r hr => by rw [hgone r hr]; exact Bool.false_ne_true
    rw [hkept, hcount]
    refine .of_next hnext (.here ⟨.count n, xs, rfl, h.owned _, ?_, rfl, rfl⟩)
    show Function.update m.owner i none = _
    rw [howner, unlock_held]
  | succ d ih =>
    refine expires_of_unlocking fun m xs n h howner hnone => ?_
    have hlt : i.val + 1 < numShards := by omega
    have hgone : ∀ r ∈ xs, gone shardOf config now m.entry i r =
        gone shardOf config now m.entry (i.val + 1) r := by
      intro r hr
      by_cases hshard : shardOf (m.entry r).key = i
      · rw [gone, gone, hnone r hr hshard, Bool.and_false, Bool.and_false]
      · have hne := Fin.val_ne_of_ne hshard
        have hiff : i.val ≤ (shardOf (m.entry r).key).val ↔
            i.val + 1 ≤ (shardOf (m.entry r).key).val := by omega
        rw [gone, gone, decide_eq_decide.mpr hiff]
    have hunlock : ∀ c, advance shardOf config
        (m, ⟨.expireOldFlows now, i, n, .unlocking (.count n)⟩) c =
          (m.unlock i, ⟨.expireOldFlows now, ⟨i.val + 1, hlt⟩, n, .locking⟩) := by
      intro c
      refine Prod.ext rfl ?_
      show (if h : i.val + 1 < numShards then _ else _) = _
      rw [dif_pos hlt]
    have hfree : (m.unlock i).owner = fun _ => none := by
      show Function.update m.owner i none = _
      rw [howner, unlock_held]
    have hlock : ∀ c, advance shardOf config
        (m.unlock i, ⟨.expireOldFlows now, ⟨i.val + 1, hlt⟩, n, .locking⟩) c =
          ((m.unlock i).lock ⟨i.val + 1, hlt⟩ 0,
            ⟨.expireOldFlows now, ⟨i.val + 1, hlt⟩, n, .locked⟩) := by
      intro c
      show (if (m.unlock i).owner ⟨i.val + 1, hlt⟩ = none then _ else _) = _
      rw [hfree, if_pos rfl]
      rfl
    have hheld : ((m.unlock i).lock ⟨i.val + 1, hlt⟩ 0).owner = held ⟨i.val + 1, hlt⟩ := by
      show Function.update (m.unlock i).owner _ _ = _
      rw [hfree]
      rfl
    have hends := ih ⟨i.val + 1, hlt⟩ (by simp only; omega) _ xs n (h.owned _) hheld
    rw [List.filter_congr fun r hr => congrArg not (hgone r hr),
      List.countP_congr fun r hr => by rw [hgone r hr]]
    exact .of_next hunlock (.of_next hlock hends)

theorem ends_expireOldFlows (h : Holds shardOf m xs) (howner : m.owner = held ⟨0, by decide⟩)
    (hL : ft.flows.entries = xs.map m.entry) :
    Ends (advance shardOf ft.config)
      (Returned shardOf (ft.call (.expireOldFlows now)).1.flows.entries
        (ft.call (.expireOldFlows now)).2)
      (m, { op := .expireOldFlows now, shard := ⟨0, by decide⟩, pc := .locked }) := by
  have hexpires : Expires shardOf ft.config now ⟨0, by decide⟩ := expires 63 _ rfl
  have hends := hexpires m xs 0 h howner
  have hgone : gone shardOf ft.config now m.entry (⟨0, by decide⟩ : ShardIdx) =
      fun r => ft.config.isRemovable (m.entry r) now := by
    funext r
    simp [gone]
  have hkept : (ft.expireOldFlows now).flows.entries =
      (xs.filter fun r => !ft.config.isRemovable (m.entry r) now).map m.entry := by
    show ft.flows.entries.filter _ = _
    rw [hL, List.filter_map]
    rfl
  have hcount : ft.len - (ft.expireOldFlows now).len =
      0 + xs.countP fun r => ft.config.isRemovable (m.entry r) now := by
    have hsplit := xs.length_eq_length_filter_add fun r => ft.config.isRemovable (m.entry r) now
    rw [FlowTable.len, FlowTable.len, Lru.length, Lru.length, hkept, hL, List.length_map,
      List.length_map, List.countP_eq_length_filter]
    omega
  rw [hgone, ← hkept, ← hcount] at hends
  exact hends

/-- Every call ends and does what the table of entries in order of their use does. -/
theorem ends_call (h : Holds shardOf m xs) (howner : m.owner = fun _ => none)
    (hL : ft.flows.entries = xs.map m.entry) (op : FlowOp) :
    Ends (advance shardOf ft.config)
      (Returned shardOf (ft.call op).1.flows.entries (ft.call op).2)
      (m, { op, shard := op.shard shardOf }) := by
  have hlock : ∀ i, advance shardOf ft.config (m, { op, shard := op.shard shardOf }) i =
      (m.lock (op.shard shardOf) 0, { op, shard := op.shard shardOf, pc := .locked }) := by
    intro i
    show (if m.owner (op.shard shardOf) = none then _ else _) = _
    rw [howner, if_pos rfl]
    rfl
  have hheld : (m.lock (op.shard shardOf) 0).owner = held (op.shard shardOf) := by
    show Function.update m.owner _ _ = _
    rw [howner]
    rfl
  refine .of_next hlock ?_
  cases op with
  | lookup f create st now => exact ends_lookup (h.owned _) hheld hL
  | updateState f st now => exact ends_updateState (h.owned _) hheld hL
  | removeFlow key => exact ends_removeFlow (h.owned _) hheld hL
  | expireOldFlows now => exact ends_expireOldFlows (h.owned _) hheld hL

end Calls

end FlowMemory

namespace FlowUser

variable {answers : List (FlowAnswer FlowEntry)}

open FlowMemory

variable {shardOf : FlowKey → ShardIdx} {config : FlowTableConfig}

/-- What a call by itself reaches is reached by the goroutine, which then records the answer. -/
theorem ends_of_call {entries : List FlowEntry} {answer : FlowAnswer FlowEntry}
    {ops : List FlowOp} {s : FlowMemory × FlowTask} {goal : FlowUser → Prop}
    (h : Ends (advance shardOf config) (Returned shardOf entries answer) s)
    (hgoal : ∀ m xs, Holds shardOf m xs → m.owner = (fun _ => none) → xs.map m.entry = entries →
      Ends (next shardOf config) goal ⟨m, ops, none, answers ++ [answer]⟩) :
    Ends (next shardOf config) goal ⟨s.1, ops, some s.2, answers⟩ := by
  induction h with
  | @here s hret =>
    obtain ⟨result, xs, hpc, hholds, howner, hentries, rfl⟩ := hret
    refine .of_next (fun i => ?_) (hgoal s.1 xs hholds howner hentries)
    simp only [next, hpc]
  | @step s _ ih =>
    cases hpc : s.2.pc with
    | done result =>
      -- the call has returned already, and its step changes nothing
      have hsame : advance shardOf config s 0 = s := by simp only [advance, FlowMemory.step, hpc]
      have hends := ih 0
      rwa [hsame] at hends
    | _ =>
      refine .step fun i => ?_
      have hnext : next shardOf config ⟨s.1, ops, some s.2, answers⟩ i =
          ⟨(advance shardOf config s i).1, ops, some (advance shardOf config s i).2, answers⟩ := by
        simp only [next, hpc, advance]
      rw [hnext]
      exact ih i

/-- All calls end; their answers and what they leave are those of the reference map. -/
theorem ends_calls {ft : FlowTable} {m : FlowMemory} {xs : List FlowRef} (h : Holds shardOf m xs)
    (howner : m.owner = fun _ => none) (hL : ft.flows.entries = xs.map m.entry)
    (hlen : ft.len ≤ ft.config.maxFlows) (ops : List FlowOp) :
    Ends (next shardOf ft.config)
      (fun s => s.ops = [] ∧ s.task = none ∧
        s.answers.map (FlowAnswer.map FlowEntry.toRef) =
          answers.map (FlowAnswer.map FlowEntry.toRef) ++ (ft.view.calls ft.config ops).2 ∧
        ∃ (xs : List FlowRef) (ft' : FlowTable), Holds shardOf s.mem xs ∧
          ft'.flows.entries = xs.map s.mem.entry ∧ ft'.len ≤ ft.config.maxFlows ∧
          ft'.view = (ft.view.calls ft.config ops).1)
      ⟨m, ops, none, answers⟩ := by
  induction ops generalizing ft m xs answers with
  | nil => exact .here ⟨rfl, rfl, (List.append_nil _).symm, xs, ft, h, hL, hlen, rfl⟩
  | cons op ops ih =>
    have hstart : ∀ i, next shardOf ft.config ⟨m, op :: ops, none, answers⟩ i =
        ⟨m, ops, some { op, shard := op.shard shardOf }, answers⟩ := fun _ => rfl
    refine .of_next hstart (ends_of_call (ends_call h howner hL op) ?_)
    intro m' xs' h' howner' hentries
    have hconfig : (ft.call op).1.config = ft.config := FlowTable.config_call op
    have hlen' : (ft.call op).1.len ≤ (ft.call op).1.config.maxFlows := by
      rw [hconfig]
      exact FlowTable.len_call_le hlen op
    have hends : Ends (next shardOf (ft.call op).1.config) _
        ⟨m', ops, none, answers ++ [(ft.call op).2]⟩ := ih h' howner' hentries.symm hlen'
    have hcalls : ft.view.calls ft.config (op :: ops) =
        (((ft.call op).1.view.calls ft.config ops).1, (ft.call op).2.map FlowEntry.toRef ::
          ((ft.call op).1.view.calls ft.config ops).2) := by
      rw [Reference.calls, FlowTable.call_view hlen op]
    rw [hconfig, List.map_append, List.map_singleton, List.append_assoc,
      List.singleton_append] at hends
    rw [hcalls]
    exact hends

/-- Used by one goroutine, the flow table is the bounded map with idle expiry: whatever the
sharding hash, the calls and the order in which maps are visited, all calls end, they return what
the calls of the reference map return, the maps hold its entries, the eviction list links them by
their last use, and `Len` is their number, which is at most `MaxFlows`. -/
theorem flow_table_refines_reference (shardOf : FlowKey → ShardIdx) (config : FlowTableConfig)
    (ops : List FlowOp) (choices : Nat → Nat) :
    let ft := newFlowTable config
    let ref := Reference.calls ft.config [] ops
    ∃ n, let s := run (next shardOf ft.config) { ops } ((List.range n).map choices)
      s.ops = [] ∧ s.task = none ∧ s.answers.map (FlowAnswer.map FlowEntry.toRef) = ref.2 ∧
      (∀ key, (s.mem.find (shardOf key) key).map (fun r => (s.mem.entry r).toRef) =
        ref.1.find key) ∧
      (∃ xs, s.mem.evictList.Links xs ∧ xs.map (fun r => (s.mem.entry r).toRef) = ref.1) ∧
      s.mem.flowCount = s.mem.stored.length ∧ s.mem.stored.length = ref.1.length ∧
      s.mem.flowCount ≤ ft.config.maxFlows := by
  intro ft ref
  have hlen : ft.len ≤ ft.config.maxFlows := ft.roomy.le
  have hends : Ends (next shardOf ft.config) _ { ops } := ends_calls holds_new rfl rfl hlen ops
  obtain ⟨n, hops, htask, hanswers, xs, ft', hholds, hL, hlen, hview⟩ := hends.exists_run choices
  have hview : ft'.view = ref.1 := hview
  have hstored := hholds.perm_stored.length_eq
  have hentries : xs.map (fun r => ((run (next shardOf ft.config) { ops }
      ((List.range n).map choices)).mem.entry r).toRef) = ref.1 := by
    rw [← hview, FlowTable.view, hL, List.map_map]
    rfl
  have hlength : ref.1.length = xs.length := by rw [← hentries, List.length_map]
  refine ⟨n, hops, htask, hanswers, fun key => ?_, ⟨xs, hholds.links, hentries⟩, ?_, ?_, ?_⟩
  · rw [← hview, FlowTable.find_view]
    cases hfind : FlowMemory.find _ (shardOf key) key with
    | none => rw [show ft'.find key = none from hholds.find_of_none hL hfind]; rfl
    | some r => rw [show ft'.find key = some _ from hholds.find_of_some hL hfind]; rfl
  · rw [hholds.count, hstored]
  · rw [hlength, hstored]
  · rw [hholds.count]
    rw [FlowTable.len, Lru.length, hL, List.length_map] at hlen
    exact hlen

end FlowUser

end Veld.Acl
