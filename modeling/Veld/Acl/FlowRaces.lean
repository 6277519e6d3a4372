import Veld.Acl.FlowSteps

/-!
# Races on the eviction list

`evictOneLocked` pops an entry from the eviction list before it has the lock of
the entry's shard. Until it has removed the entry or put it back, a goroutine
that has this lock still finds the entry in the map, and unlinks or moves an
entry that is in no list. As long as that does not happen the table is
consistent whenever no call is in progress, and the eviction loop of a `Lookup`
ends once the other goroutines are outside their critical sections. When it does
happen the list loses entries, and an eviction loop can run for ever.
-/

namespace Veld.Acl

/-- The eviction list is well formed, its nodes are the stored entries, each once, and the counter
is their number. -/
def FlowMemory.Consistent (m : FlowMemory) : Prop :=
  ∃ xs, m.evictList.Links xs ∧ xs.Perm m.stored ∧ m.flowCount = m.stored.length

/-- The call has returned. -/
def FlowPc.isDone : FlowPc → Bool
  | done _ => true
  | _ => false

/-- Outside its critical sections a goroutine has nothing left to do for the list. -/
theorem FlowPc.clear_of_outside {pc : FlowPc} (h : pc.inside = false) :
    pc.owes = [] ∧ pc.holds = [] ∧ pc.deficit = 0 ∧ pc.surplus = 0 := by
  cases pc <;> first | exact ⟨rfl, rfl, rfl, rfl⟩ | cases h

namespace FlowSystem

variable (shardOf : FlowKey → ShardIdx) (config : FlowTableConfig) (s : FlowSystem)

/-- No call is in progress. -/
def Quiescent : Prop := ∀ t ∈ s.tasks, t.pc.isDone = true

/-- All other goroutines are outside their critical sections. -/
def Alone (k : Nat) : Prop := ∀ t ∈ s.tasks.eraseIdx k, t.pc.inside = false

/-- The goroutine stands at a place. -/
def At (k : Nat) (pc : FlowPc) : Prop := s.tasks[k]?.map FlowTask.pc = some pc

instance : Decidable s.Quiescent := inferInstanceAs (Decidable (∀ t ∈ s.tasks, _))

instance (k : Nat) : Decidable (s.Alone k) :=
  inferInstanceAs (Decidable (∀ t ∈ s.tasks.eraseIdx k, _))

instance (k : Nat) (pc : FlowPc) : Decidable (s.At k pc) :=
  inferInstanceAs (Decidable (s.tasks[k]?.map FlowTask.pc = some pc))

/-- Only one goroutine runs, for a number of steps. -/
def solo (k n : Nat) : FlowSystem := run (next shardOf config) s (List.replicate n (.advance k 0))

/-- The eviction loop of a goroutine ends when only that goroutine runs. -/
def Leaves (k : Nat) : Prop := ∃ n, (s.solo shardOf config k n).At k .creating

/-- The table is consistent if no call is in progress, and every eviction loop ends if the other
goroutines are outside their critical sections. -/
def Sound : Prop :=
  (s.Quiescent → s.mem.Consistent) ∧
    ∀ k pc, s.At k pc → pc.inserts = true → s.Alone k → s.Leaves shardOf config k

/-- A goroutine does not unlink or move an entry that another one has popped. -/
def Spares (s : FlowSystem) : FlowStep → Prop
  | .call _ => True
  | .advance k _ => ∀ t ∈ s.tasks[k]?, ∀ r ∈ t.pc.relinks, ∀ u ∈ s.tasks, r ∉ u.pc.popped

instance (i : FlowStep) : Decidable (s.Spares i) :=
  match i with
  | .call _ => inferInstanceAs (Decidable True)
  | .advance k _ => inferInstanceAs
      (Decidable (∀ t ∈ s.tasks[k]?, ∀ r ∈ t.pc.relinks, ∀ u ∈ s.tasks, r ∉ u.pc.popped))

section Run

variable {shardOf config s} {xs : List FlowRef}

theorem inv_new : Inv {} shardOf [] where
  links := Dll.links_nil
  balance r := by simp [FlowMemory.storedCount, FlowMemory.storedWhere, countValues, values, owed, held]
  once r := by simp [FlowMemory.storedCount, FlowMemory.storedWhere, countValues, values, owed]
  fresh r _ := by simp [FlowMemory.storedCount, FlowMemory.storedWhere, countValues, values, owed]
  counter := by simp [FlowMemory.storedWhere, countValues, values, surplus, deficit]
  keyed i key r h := by simp [FlowMemory.find] at h
  owner i j := by simp
  fits t h := nomatch h

theorem Inv.next (h : s.Inv shardOf xs) {i : FlowStep} (hspare : s.Spares i) :
    ∃ xs', (s.next shardOf config i).Inv shardOf xs' := by
  cases i with
  | call op => exact ⟨xs, h.call op⟩
  | advance k choice =>
    simp only [FlowSystem.next]
    cases ht : s.tasks[k]? with
    | none => exact ⟨xs, h⟩
    | some t => exact h.step ht (hspare t ht)

/-- Without calls in progress nothing is owed and nothing is held. -/
theorem Inv.consistent (h : s.Inv shardOf xs) (hq : s.Quiescent) : s.mem.Consistent := by
  have hdone (t : FlowTask) (ht : t ∈ s.tasks) : ∃ result, t.pc = .done result := by
    have := hq t ht
    cases hpc : t.pc with
    | done result => exact ⟨result, rfl⟩
    | _ => simp [hpc, FlowPc.isDone] at this
  have hzero (f : FlowTask → Nat) (hf : ∀ t result, t.pc = .done result → f t = 0) :
      tally f s.tasks = 0 := by
    refine tally_eq_zero fun t ht => ?_
    obtain ⟨result, hpc⟩ := hdone t ht
    exact hf t result hpc
  have howed (r : FlowRef) : s.owed r = 0 := hzero _ fun t result hpc => by rw [hpc]; rfl
  have hheld (r : FlowRef) : s.held r = 0 := hzero _ fun t result hpc => by rw [hpc]; rfl
  have hdeficit : s.deficit = 0 := hzero _ fun t result hpc => by rw [hpc]; rfl
  have hsurplus : s.surplus = 0 := hzero _ fun t result hpc => by rw [hpc]; rfl
  refine ⟨xs, h.links, List.perm_iff_count.mpr fun r => ?_, ?_⟩
  · have hbalance := h.balance r
    have hstored : s.mem.stored.count r = s.mem.storedCount r := FlowMemory.countP_stored
    rw [howed, hheld] at hbalance
    omega
  · have hcounter := h.counter
    have hstored := FlowMemory.countP_stored (m := s.mem) (p := fun _ => true)
    rw [List.countP_true] at hstored
    rw [hdeficit, hsurplus, Nat.cast_zero, add_zero, add_zero] at hcounter
    rw [hstored]
    exact hcounter

end Run

/-- A goroutine stands at a place, the others are outside their critical sections, and the
invariant holds. -/
structure Solo (k : Nat) (t : FlowTask) (xs : List FlowRef) : Prop where
  inv : s.Inv shardOf xs
  alone : s.Alone k
  task : s.tasks[k]? = some t

section Solo

variable {shardOf config s} {k : Nat} {t : FlowTask} {xs : List FlowRef} {i : ShardIdx}
  {target : Option ShardIdx} {r : FlowRef} {attempts : Nat}

theorem alone_iff : s.Alone k ↔ ∀ j t, j ≠ k → s.tasks[j]? = some t → t.pc.inside = false := by
  simp only [Alone, List.mem_eraseIdx_iff_getElem?]
  constructor
  · intro h j t hj ht
    exact h t ⟨j, hj, ht⟩
  · rintro h t ⟨j, hj, ht⟩
    exact h j t hj ht

/-- All that is open is what the goroutine itself is about to do. -/
theorem Solo.tally_eq (h : s.Solo shardOf k t xs) {f : FlowTask → Nat}
    (hf : ∀ u : FlowTask, u.pc.inside = false → f u = 0) : tally f s.tasks = f t :=
  tally_eq_of_others h.task fun j u hj hu => hf u (alone_iff.mp h.alone j u hj hu)

theorem Solo.balance (h : s.Solo shardOf k t xs) (r : FlowRef) :
    s.mem.storedCount r + t.pc.owes.count r = xs.count r + t.pc.holds.count r := by
  have hbalance := h.inv.balance r
  have howed : s.owed r = t.pc.owes.count r :=
    h.tally_eq fun u hu => by rw [(FlowPc.clear_of_outside hu).1]; rfl
  have hheld : s.held r = t.pc.holds.count r :=
    h.tally_eq fun u hu => by rw [(FlowPc.clear_of_outside hu).2.1]; rfl
  rwa [howed, hheld] at hbalance

theorem Solo.counter (h : s.Solo shardOf k t xs) :
    s.mem.flowCount + t.pc.surplus = s.mem.storedWhere (fun _ => true) + t.pc.deficit := by
  have hcounter := h.inv.counter
  have hdeficit : s.deficit = t.pc.deficit :=
    h.tally_eq fun u hu => (FlowPc.clear_of_outside hu).2.2.1
  have hsurplus : s.surplus = t.pc.surplus :=
    h.tally_eq fun u hu => (FlowPc.clear_of_outside hu).2.2.2
  rwa [hdeficit, hsurplus] at hcounter

/-- The shards the goroutine has not locked are free. -/
theorem Solo.owner_eq_none (h : s.Solo shardOf k t xs) (hi : ¬t.Locks i) :
    s.mem.owner i = none := by
  refine Option.eq_none_iff_forall_ne_some.mpr fun j hj => ?_
  obtain ⟨u, hu, hlocks⟩ := (h.inv.owner i j).mp hj
  by_cases hjk : j = k
  · subst hjk
    obtain rfl : t = u := Option.mem_unique h.task hu
    exact hi hlocks
  · have hout := alone_iff.mp h.alone j u hjk hu
    rw [hlocks.1] at hout
    cases hout

/-- The goroutine takes a step. -/
theorem Solo.next (h : s.Solo shardOf k t xs) (config : FlowTableConfig) (hrelinks : t.pc.relinks = []) :
    ∃ xs', (s.next shardOf config (.advance k 0)).Solo shardOf k
      (s.mem.step shardOf config k 0 t).2 xs' := by
  have hspare : s.Spares (.advance k 0) := by
    intro u hu r hr
    obtain rfl : t = u := Option.mem_unique h.task hu
    rw [hrelinks] at hr
    cases hr
  obtain ⟨xs', hinv⟩ : ∃ xs', (s.next shardOf config (.advance k 0)).Inv shardOf xs' :=
    h.inv.next hspare
  refine ⟨xs', hinv, alone_iff.mpr ?_, ?_⟩
  · intro j u hj hu
    simp only [FlowSystem.next, h.task, List.getElem?_set_ne (Ne.symm hj)] at hu
    exact alone_iff.mp h.alone j u hj hu
  · simp only [FlowSystem.next, h.task, List.getElem?_set_self']
    rfl

theorem Solo.mem_next (h : s.Solo shardOf k t xs) :
    (s.next shardOf config (.advance k 0)).mem = (s.mem.step shardOf config k 0 t).1 := by
  simp only [FlowSystem.next, h.task]

theorem leaves_of_next (h : (s.next shardOf config (.advance k 0)).Leaves shardOf config k) :
    s.Leaves shardOf config k := by
  obtain ⟨n, hn⟩ := h
  exact ⟨n + 1, hn⟩

/-- The eviction loop ends from its condition on when no more than `N` entries are stored. -/
def EndsBelow (shardOf : FlowKey → ShardIdx) (config : FlowTableConfig) (k N : Nat) : Prop :=
  ∀ (s : FlowSystem) (t : FlowTask) (xs : List FlowRef), s.Solo shardOf k t xs →
    t.pc = .evicting → s.mem.storedWhere (fun _ => true) ≤ N → s.Leaves shardOf config k

variable {N : Nat}

theorem Solo.leaves_releasing (h : s.Solo shardOf k t xs) (hends : EndsBelow shardOf config k N) (hpc : t.pc = .releasing i)
    (hN : s.mem.storedWhere (fun _ => true) ≤ N) : s.Leaves shardOf config k := by
  obtain ⟨xs', h'⟩ := h.next config (by rw [hpc]; rfl)
  refine leaves_of_next (hends _ _ _ h' ?_ ?_)
  · simp only [FlowMemory.step, hpc, FlowTask.goto]
  · rw [h.mem_next]
    simp only [FlowMemory.step, hpc]
    exact hN

theorem Solo.leaves_discounting (h : s.Solo shardOf k t xs)
    (hends : EndsBelow shardOf config k N)
    (hpc : t.pc = .discounting target) (hN : s.mem.storedWhere (fun _ => true) ≤ N) :
    s.Leaves shardOf config k := by
  obtain ⟨xs', h'⟩ := h.next config (by rw [hpc]; rfl)
  have hN' : (s.next shardOf config (.advance k 0)).mem.storedWhere (fun _ => true) ≤ N := by
    rw [h.mem_next]
    simp only [FlowMemory.step, hpc]
    exact hN
  apply leaves_of_next
  cases target with
  | none =>
    refine hends _ _ _ h' ?_ hN'
    simp only [FlowMemory.step, hpc, FlowTask.goto, FlowMemory.leave]
  | some i =>
    have hpc' : (s.mem.step shardOf config k 0 t).2.pc = .releasing i := by
      simp only [FlowMemory.step, hpc, FlowTask.goto, FlowMemory.leave]
    exact h'.leaves_releasing hends hpc' hN'

/-- Dropping the victim takes one stored entry away. -/
theorem Solo.leaves_dropping (h : s.Solo shardOf k t xs) (hends : EndsBelow shardOf config k N) (hpc : t.pc = .dropping r target)
    (hN : s.mem.storedWhere (fun _ => true) ≤ N + 1) : s.Leaves shardOf config k := by
  have hfind := h.inv.find_of_dropping h.task hpc
  obtain ⟨xs', h'⟩ := h.next config (by rw [hpc]; rfl)
  have hpc' : (s.mem.step shardOf config k 0 t).2.pc = .discounting target := by
    simp [FlowMemory.step, hpc, hfind, FlowTask.goto]
  refine leaves_of_next (h'.leaves_discounting hends hpc' ?_)
  · rw [h.mem_next]
    simp only [FlowMemory.step, hpc, hfind, Option.isSome_some, ite_true]
    have hdelete := FlowMemory.storedWhere_delete (p := fun _ => true) hfind
    simp only [ite_true] at hdelete
    omega

/-- The shard of the victim is free, or already locked. -/
theorem Solo.leaves_victim (h : s.Solo shardOf k t xs) (hends : EndsBelow shardOf config k N) (hpc : t.pc = .victim r attempts)
    (hN : s.mem.storedWhere (fun _ => true) ≤ N + 1) : s.Leaves shardOf config k := by
  obtain ⟨xs', h'⟩ := h.next config (by rw [hpc]; rfl)
  by_cases hown : shardOf (s.mem.entry r).key = t.shard
  · have hpc' : (s.mem.step shardOf config k 0 t).2.pc = .dropping r none := by
      simp [FlowMemory.step, hpc, hown, FlowTask.goto]
    refine leaves_of_next (h'.leaves_dropping hends hpc' ?_)
    rw [h.mem_next]
    simp only [FlowMemory.step, hpc, hown, ite_true]
    exact hN
  · have hfree : s.mem.owner (shardOf (s.mem.entry r).key) = none := by
      refine h.owner_eq_none ?_
      rintro ⟨-, hi | hi⟩
      · exact hown hi
      · rw [hpc] at hi
        cases hi
    have hpc' : (s.mem.step shardOf config k 0 t).2.pc =
        .dropping r (some (shardOf (s.mem.entry r).key)) := by
      simp [FlowMemory.step, hpc, hown, hfree, FlowTask.goto]
    refine leaves_of_next (h'.leaves_dropping hends hpc' ?_)
    rw [h.mem_next]
    simp only [FlowMemory.step, hpc, hown, hfree, ite_true, ite_false]
    exact hN

/-- An empty list means that nothing is stored. -/
theorem Solo.storedWhere_eq_zero (h : s.Solo shardOf k t []) (howes : t.pc.owes = [])
    (hholds : t.pc.holds = []) : s.mem.storedWhere (fun _ => true) = 0 := by
  by_contra hne
  obtain ⟨r, hr⟩ := FlowMemory.exists_stored (Nat.pos_of_ne_zero hne)
  have hbalance := h.balance r
  rw [howes, hholds] at hbalance
  simp only [List.count_nil] at hbalance
  omega

theorem Solo.leaves_popping (h : s.Solo shardOf k t xs) (hends : EndsBelow shardOf config k N) (hpc : t.pc = .popping attempts)
    (hN : s.mem.storedWhere (fun _ => true) ≤ N + 1) : s.Leaves shardOf config k := by
  obtain ⟨xs', h'⟩ := h.next config (by rw [hpc]; rfl)
  rcases List.eq_nil_or_concat xs with rfl | ⟨ys, r, rfl⟩
  · have hzero := h.storedWhere_eq_zero (by rw [hpc]; rfl) (by rw [hpc]; rfl)
    refine leaves_of_next (hends _ _ _ h' ?_ ?_)
    · simp only [FlowMemory.step, hpc, h.inv.links.pop_nil, FlowTask.goto]
    · rw [h.mem_next]
      simp only [FlowMemory.step, hpc, h.inv.links.pop_nil]
      omega
  · have hlinks := h.inv.links
    rw [List.concat_eq_append] at hlinks
    have hpc' : (s.mem.step shardOf config k 0 t).2.pc = .victim r attempts := by
      simp only [FlowMemory.step, hpc, hlinks.pop_concat, FlowTask.goto]
    refine leaves_of_next (h'.leaves_victim hends hpc' ?_)
    rw [h.mem_next]
    simp only [FlowMemory.step, hpc, hlinks.pop_concat]
    exact hN

theorem Solo.leaves_puttingBack (h : s.Solo shardOf k t xs)
    (hends : EndsBelow shardOf config k N)
    (hpc : t.pc = .puttingBack r attempts) (hN : s.mem.storedWhere (fun _ => true) ≤ N) :
    s.Leaves shardOf config k := by
  obtain ⟨xs', h'⟩ := h.next config (by rw [hpc]; rfl)
  have hN' : (s.next shardOf config (.advance k 0)).mem.storedWhere (fun _ => true) ≤ N := by
    rw [h.mem_next]
    simp only [FlowMemory.step, hpc]
    exact hN
  apply leaves_of_next
  by_cases hmore : attempts + 1 < maxAttempts
  · have hpc' : (s.mem.step shardOf config k 0 t).2.pc = .popping (attempts + 1) := by
      simp [FlowMemory.step, hpc, FlowTask.goto, hmore]
    exact h'.leaves_popping hends hpc' (Nat.le_succ_of_le hN')
  · refine hends _ _ _ h' ?_ hN'
    simp [FlowMemory.step, hpc, FlowTask.goto, hmore]

/-- Each round of the loop takes one stored entry away, so there is one that finds room. -/
theorem endsBelow (hmax : 0 < config.maxFlows) (k N : Nat) : EndsBelow shardOf config k N := by
  induction N with
  | zero =>
    intro s t xs h hpc hN
    obtain ⟨xs', h'⟩ := h.next config (by rw [hpc]; rfl)
    have hcounter := h.counter
    rw [hpc] at hcounter
    simp only [FlowPc.surplus, FlowPc.deficit] at hcounter
    have hroom : ¬s.mem.flowCount ≥ config.maxFlows := by omega
    refine ⟨1, Option.map_eq_some_iff.mpr ⟨_, h'.task, ?_⟩⟩
    simp [FlowMemory.step, hpc, FlowTask.goto, hroom]
  | succ N ih =>
    intro s t xs h hpc hN
    obtain ⟨xs', h'⟩ := h.next config (by rw [hpc]; rfl)
    by_cases hfull : s.mem.flowCount ≥ config.maxFlows
    · have hpc' : (s.mem.step shardOf config k 0 t).2.pc = .popping 0 := by
        simp [FlowMemory.step, hpc, FlowTask.goto, hfull]
      refine leaves_of_next (h'.leaves_popping ih hpc' ?_)
      rw [h.mem_next]
      simp only [FlowMemory.step, hpc]
      exact hN
    · refine ⟨1, Option.map_eq_some_iff.mpr ⟨_, h'.task, ?_⟩⟩
      simp [FlowMemory.step, hpc, FlowTask.goto, hfull]

theorem Solo.leaves (h : s.Solo shardOf k t xs) (hmax : 0 < config.maxFlows)
    (hinserts : t.pc.inserts = true) : s.Leaves shardOf config k := by
  have hends : EndsBelow shardOf config k (s.mem.storedWhere fun _ => true) := endsBelow hmax k _
  cases hpc : t.pc with
  | evicting => exact hends s t xs h hpc le_rfl
  | popping attempts => exact h.leaves_popping hends hpc (Nat.le_succ _)
  | victim r attempts => exact h.leaves_victim hends hpc (Nat.le_succ _)
  | puttingBack r attempts => exact h.leaves_puttingBack hends hpc le_rfl
  | dropping r target => exact h.leaves_dropping hends hpc (Nat.le_succ _)
  | discounting target => exact h.leaves_discounting hends hpc le_rfl
  | releasing i => exact h.leaves_releasing hends hpc le_rfl
  | creating => exact ⟨0, Option.map_eq_some_iff.mpr ⟨t, h.task, hpc⟩⟩
  | _ =>
    rw [hpc] at hinserts
    cases hinserts

end Solo

end FlowSystem

namespace Sample

/-- The keys of the sample flows are in different shards. -/
def shardOf (key : FlowKey) : ShardIdx := ⟨key.dstPort.toNat % numShards, Nat.mod_lt _ (by decide)⟩

/-- A table with room for one flow. -/
def tiny : FlowTableConfig := { defaultFlowTableConfig with maxFlows := 1 }

/-- A `Lookup` of one of the sample flows, which are told apart by a port. -/
def look (port : UInt16) : FlowStep := .call (.lookup { srcPort := port } true .new 0)

/-- A goroutine takes some steps. -/
def go (k n : Nat) : List FlowStep := List.replicate n (.advance k 0)

/-- The table after some steps. -/
def flows (steps : List FlowStep) : FlowSystem := run (FlowSystem.next shardOf tiny) {} steps

/-- A flow is stored. The `Lookup` of another flow pops it, the `Lookup` of the first flow moves
it to the front, and the other one then removes it from the map. -/
def strayed : List FlowStep :=
  [look 1] ++ go 0 7 ++ [look 2] ++ go 1 4 ++ [look 1] ++ go 2 4 ++ go 1 9

/-- Two flows are stored at once. The `Lookup` of a third one pops the older one, and `RemoveFlow`
unlinks it again. -/
def emptied : List FlowStep :=
  [look 1, look 2] ++ go 0 3 ++ go 1 3 ++ go 0 4 ++ go 1 4 ++ [look 3] ++ go 2 4 ++
    [.call (.removeFlow (flowKey { srcPort := 1 }))] ++ go 3 5 ++ go 2 3

/-- As in `strayed`, but the second `Lookup` has the lock of the shard when the entry is popped,
and moves it after it was put back. -/
def contended : List FlowStep :=
  [look 1] ++ go 0 7 ++ [look 2] ++ go 1 3 ++ [look 1] ++ go 2 2 ++ go 1 3 ++ go 2 2 ++ go 1 10

end Sample

namespace FlowSystem

variable (shardOf : FlowKey → ShardIdx) (config : FlowTableConfig) {s : FlowSystem} {k : Nat}
  {t : FlowTask}

theorem next_advance {shardOf : FlowKey → ShardIdx} {config : FlowTableConfig}
    {k choice : Nat} (ht : s.tasks[k]? = some t) : s.next shardOf config (.advance k choice) =
      ⟨(s.mem.step shardOf config k choice t).1,
        s.tasks.set k (s.mem.step shardOf config k choice t).2⟩ := by
  simp only [FlowSystem.next, ht]

theorem at_set {m : FlowMemory} {t t' : FlowTask}
    (ht : s.tasks[k]? = some t) : At ⟨m, s.tasks.set k t'⟩ k t'.pc := by
  rw [At, List.getElem?_set_self', ht]
  rfl

/-- With an empty list and a full table the eviction loop runs for ever. -/
theorem not_leaves {shardOf : FlowKey → ShardIdx} {config : FlowTableConfig} (hat : s.At k .evicting) (htail : s.mem.evictList.tail = none)
    (hfull : s.mem.flowCount ≥ config.maxFlows) : ¬s.Leaves shardOf config k := by
  rintro ⟨n, hn⟩
  have hall : Along (next shardOf config) (fun _ i => i = .advance k 0) s
      (List.replicate n (.advance k 0)) :=
    fun x hx => List.eq_of_mem_replicate (snd_mem_of_mem_trail hx)
  have hloop := hall.keeps
    (fun s => (s.At k .evicting ∨ s.At k (.popping 0)) ∧ s.mem.evictList.tail = none ∧
      s.mem.flowCount ≥ config.maxFlows) ⟨.inl hat, htail, hfull⟩ ?_
  · have hn : (run (next shardOf config) s (List.replicate n (.advance k 0))).At k .creating := hn
    rcases hloop.1 with h | h
    · cases h.symm.trans hn
    · cases h.symm.trans hn
  · rintro s _ ⟨hpc, htail, hfull⟩ rfl
    rcases hpc with hpc | hpc
    · obtain ⟨t, ht, hpc⟩ := Option.map_eq_some_iff.mp hpc
      have hstep : s.mem.step shardOf config k 0 t = (s.mem, t.goto (.popping 0)) := by
        simp only [FlowMemory.step, hpc, if_pos hfull]
      rw [next_advance ht, hstep]
      exact ⟨.inr (at_set ht), htail, hfull⟩
    · obtain ⟨t, ht, hpc⟩ := Option.map_eq_some_iff.mp hpc
      have hpop : s.mem.evictList.pop = (s.mem.evictList, none) := by
        rw [Dll.pop, htail]
      have hstep : s.mem.step shardOf config k 0 t = (s.mem, t.goto .evicting) := by
        simp only [FlowMemory.step, hpc, hpop]
      rw [next_advance ht, hstep]
      exact ⟨.inl (at_set ht), htail, hfull⟩

end FlowSystem

end Veld.Acl
