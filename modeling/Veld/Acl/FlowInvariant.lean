import Veld.Core.Run
import Veld.Core.Tally
import Veld.Acl.FlowThreads

/-!
# What the goroutines of the flow table keep

An entry is in its shard map exactly when it is in the eviction list, up to what
the goroutines are about to do: one may still owe the list an entry it has taken
out of the map, and may hold an entry of the map that it has popped from the list
or has not linked yet. The invariant balances the references one by one and the
counter likewise, and says which shard locks are held and what a goroutine that
holds one may rely on.
-/

namespace Veld.Acl

namespace FlowPc

/-- Between locking and unlocking a shard. -/
def inside : FlowPc → Bool
  | locking => false
  | done _ => false
  | _ => true

/-- The other shard that is locked for an eviction. -/
def target : FlowPc → Option ShardIdx
  | dropping _ target => target
  | discounting target => target
  | releasing i => some i
  | _ => none

/-- On the way to a new entry. -/
def inserts : FlowPc → Bool
  | evicting => true
  | popping _ => true
  | victim .. => true
  | puttingBack .. => true
  | dropping .. => true
  | discounting _ => true
  | releasing _ => true
  | creating => true
  | _ => false

/-- The key of the call is not in the map. -/
def lacks : FlowPc → Bool
  | unlinking _ => true
  | uncounting => true
  | pc => pc.inserts

/-- The victim of an eviction, which is in no list. -/
def popped : FlowPc → List FlowRef
  | victim r _ => [r]
  | puttingBack r _ => [r]
  | dropping r _ => [r]
  | _ => []

/-- What is in a map and not in the list. -/
def holds : FlowPc → List FlowRef
  | linking r => [r]
  | pc => pc.popped

/-- What is in the list and not in a map. -/
def owes : FlowPc → List FlowRef
  | unlinking r => [r]
  | _ => []

/-- The entry whose place in the list changes next. -/
def relinks : FlowPc → List FlowRef
  | unlinking r => [r]
  | touching r => [r]
  | _ => []

/-- An entry has left its map and is still counted. -/
def deficit : FlowPc → Nat
  | unlinking _ => 1
  | uncounting => 1
  | discounting _ => 1
  | _ => 0

/-- An entry is in its map and not yet counted. -/
def surplus : FlowPc → Nat
  | linking _ => 1
  | counting _ => 1
  | _ => 0

end FlowPc

namespace FlowMemory

/-- The number of stored references that satisfy a predicate. -/
def storedWhere (m : FlowMemory) (p : FlowRef → Bool) : Nat := ∑ i, countValues p (m.shards i)

/-- How often a reference is stored. -/
def storedCount (m : FlowMemory) (r : FlowRef) : Nat := m.storedWhere (· == r)

section Stored

variable {m : FlowMemory} {i : ShardIdx} {key : FlowKey} {r : FlowRef} {p : FlowRef → Bool}
  {e : FlowEntry} {j : ShardIdx} {key' : FlowKey}

theorem storedWhere_delete (h : m.find i key = some r) :
    (m.delete i key).storedWhere p + (if p r then 1 else 0) = m.storedWhere p := by
  have hsum := sum_update (countValues p) m.shards i ((m.shards i).erase key)
  have hcount : countValues p (m.shards i) = _ := countValues_of_lookup (p := p) h
  rw [hcount] at hsum
  simp only [storedWhere, delete]
  omega

theorem storedWhere_create (h : m.find i e.key = none) :
    (m.create i e).storedWhere p = m.storedWhere p + if p m.size then 1 else 0 := by
  have hsum := sum_update (countValues p) m.shards i ((m.shards i).insert e.key m.size)
  have herase : (m.shards i).erase e.key = m.shards i := erase_of_lookup_none h
  rw [countValues_insert, herase] at hsum
  simp only [storedWhere, create]
  omega

/-- A stored reference counts. -/
theorem storedCount_pos (h : m.find i key = some r) : 0 < m.storedCount r := by
  have hdelete := storedWhere_delete (p := (· == r)) h
  rw [storedCount, ← hdelete, if_pos (beq_self_eq_true r)]
  exact Nat.succ_pos _

theorem exists_stored (h : 0 < m.storedWhere p) : ∃ r, 0 < m.storedCount r := by
  rw [storedWhere, Nat.pos_iff_ne_zero] at h
  obtain ⟨i, -, hi⟩ := Finset.exists_ne_zero_of_sum_ne_zero h
  obtain ⟨r, hr, -⟩ := List.countP_pos_iff.mp (Nat.pos_of_ne_zero hi)
  obtain ⟨key, hkey⟩ := mem_values.mp hr
  exact ⟨r, storedCount_pos (i := i) hkey⟩

theorem exists_of_storedCount_pos (h : 0 < m.storedCount r) : ∃ i key, m.find i key = some r := by
  rw [storedCount, storedWhere, Nat.pos_iff_ne_zero] at h
  obtain ⟨i, -, hi⟩ := Finset.exists_ne_zero_of_sum_ne_zero h
  have hmem : r ∈ values (m.shards i) := by
    obtain ⟨r', hr', heq⟩ := List.countP_pos_iff.mp (Nat.pos_of_ne_zero hi)
    rwa [← eq_of_beq heq]
  obtain ⟨key, hkey⟩ := mem_values.mp hmem
  exact ⟨i, key, hkey⟩

theorem countP_stored : m.stored.countP p = m.storedWhere p := by
  rw [stored, List.countP_flatMap, storedWhere, Fin.sum_univ_def]
  rfl

theorem find_delete_eq_some : (m.delete i key).find j key' = some r ↔
      m.find j key' = some r ∧ ¬(j = i ∧ key' = key) := by
  unfold find delete
  by_cases hj : j = i
  · subst hj
    simp only [Function.update_self, lookup_erase_eq_some, true_and]
    exact and_comm
  · simp [hj]

theorem find_create_eq_some : (m.create i e).find j key' = some r ↔
      (j = i ∧ key' = e.key ∧ r = m.size) ∨ (¬(j = i ∧ key' = e.key) ∧ m.find j key' = some r) := by
  unfold find create
  by_cases hj : j = i
  · subst hj
    simp [lookup_insert_eq_some]
  · simp [hj]

end Stored

end FlowMemory

namespace FlowTask

/-- The goroutine has the lock of a shard. -/
def Locks (t : FlowTask) (i : ShardIdx) : Prop :=
  t.pc.inside = true ∧ (i = t.shard ∨ t.pc.target = some i)

/-- What a goroutine may rely on while it has its locks. -/
structure Fits (shardOf : FlowKey → ShardIdx) (t : FlowTask) (m : FlowMemory) : Prop where
  home : ∀ e, FlowMemory.newEntry t.op = some e → shardOf e.key = t.shard
  target_ne : t.pc.target ≠ some t.shard := by nofun
  inserting : t.pc.inserts = true → (FlowMemory.newEntry t.op).isSome := by nofun
  absent : t.pc.lacks = true → ∀ e, FlowMemory.newEntry t.op = some e →
    m.find t.shard e.key = none := by nofun
  touched : ∀ r, t.pc = .touching r → ∃ key, m.find t.shard key = some r := by nofun
  own : ∀ r, t.pc = .unlinking r ∨ t.pc = .linking r →
    shardOf (m.entry r).key = t.shard := by nofun
  dropped : ∀ r target, t.pc = .dropping r target →
    shardOf (m.entry r).key = target.getD t.shard := by nofun

end FlowTask

namespace FlowSystem

variable (s : FlowSystem)

def owed (r : FlowRef) : Nat := tally (fun t => t.pc.owes.count r) s.tasks

def held (r : FlowRef) : Nat := tally (fun t => t.pc.holds.count r) s.tasks

def deficit : Nat := tally (fun t => t.pc.deficit) s.tasks

def surplus : Nat := tally (fun t => t.pc.surplus) s.tasks

/-- The list has the nodes `xs`, and everything balances. -/
structure Inv (shardOf : FlowKey → ShardIdx) (xs : List FlowRef) : Prop where
  links : s.mem.evictList.Links xs
  balance : ∀ r, s.mem.storedCount r + s.owed r = xs.count r + s.held r
  once : ∀ r, s.mem.storedCount r + s.owed r ≤ 1
  fresh : ∀ r, s.mem.size ≤ r → s.mem.storedCount r + s.owed r = 0
  counter : s.mem.flowCount + s.surplus = s.mem.storedWhere (fun _ => true) + s.deficit
  keyed : ∀ i key r, s.mem.find i key = some r → shardOf key = i ∧ (s.mem.entry r).key = key
  owner : ∀ i j, s.mem.owner i = some j ↔ ∃ t, s.tasks[j]? = some t ∧ t.Locks i
  fits : ∀ t ∈ s.tasks, t.Fits shardOf s.mem

end FlowSystem

/-- What one step of a goroutine changes. -/
structure FlowDelta (shardOf : FlowKey → ShardIdx) (k : Nat) (m : FlowMemory) (t : FlowTask)
    (xs : List FlowRef) (m' : FlowMemory) (t' : FlowTask) (xs' : List FlowRef) : Prop where
  links : m'.evictList.Links xs'
  balance : ∀ r, m'.storedCount r + t'.pc.owes.count r + (xs.count r + t.pc.holds.count r) =
    m.storedCount r + t.pc.owes.count r + (xs'.count r + t'.pc.holds.count r)
  present : ∀ r, m'.storedCount r + t'.pc.owes.count r ≤ m.storedCount r + t.pc.owes.count r ∨
    r = m.size ∧ m.size < m'.size ∧
      m'.storedCount r + t'.pc.owes.count r ≤ m.storedCount r + t.pc.owes.count r + 1
  size : m.size ≤ m'.size
  counter : m'.flowCount + t'.pc.surplus + m.storedWhere (fun _ => true) + t.pc.deficit =
    m.flowCount + t.pc.surplus + m'.storedWhere (fun _ => true) + t'.pc.deficit
  keyed : ∀ i key r, m'.find i key = some r → shardOf key = i ∧ (m'.entry r).key = key
  flows : ∀ r < m.size, (m'.entry r).key = (m.entry r).key
  shards : ∀ i, ¬t.Locks i → m'.shards i = m.shards i
  others : ∀ i j, j ≠ k → (m'.owner i = some j ↔ m.owner i = some j)
  mine : ∀ i, m'.owner i = some k ↔ t'.Locks i
  fits : t'.Fits shardOf m'

theorem FlowPc.inside_of_lacks {pc : FlowPc} (h : pc.lacks = true) : pc.inside = true := by
  cases pc <;> first | rfl | cases h

namespace FlowTask.Fits

variable {shardOf : FlowKey → ShardIdx} {t : FlowTask} {m : FlowMemory}

/-- A goroutine that inserts nothing and refers to nothing relies on its shard only. -/
theorem of_home (home : ∀ e, FlowMemory.newEntry t.op = some e → shardOf e.key = t.shard)
    (hlacks : t.pc.lacks = false) (htarget : t.pc.target = none) (hrelinks : t.pc.relinks = [])
    (hholds : t.pc.holds = []) : t.Fits shardOf m := by
  obtain ⟨op, shard, removed, pc⟩ := t
  cases pc with
  | locking | locked | counting | unlocking | done =>
    exact ⟨home, nofun, nofun, nofun, nofun, nofun, nofun⟩
  | unlinking | touching => cases hrelinks
  | linking => cases hholds
  | _ => cases hlacks

/-- On the way to a new entry. -/
theorem of_inserts (hpc : t.pc.inserts = true)
    (home : ∀ e, FlowMemory.newEntry t.op = some e → shardOf e.key = t.shard)
    (inserting : (FlowMemory.newEntry t.op).isSome)
    (absent : ∀ e, FlowMemory.newEntry t.op = some e → m.find t.shard e.key = none)
    (target_ne : t.pc.target ≠ some t.shard)
    (dropped : ∀ r target, t.pc = .dropping r target →
      shardOf (m.entry r).key = target.getD t.shard) : t.Fits shardOf m where
  home := home
  target_ne := target_ne
  inserting _ := inserting
  absent _ := absent
  touched r hr := by
    rw [hr] at hpc
    cases hpc
  own r hr := by
    rcases hr with hr | hr <;> rw [hr] at hpc <;> cases hpc
  dropped := dropped

end FlowTask.Fits

/-- What a goroutine relies on is in the shards it has locked and in the entries it refers to. -/
theorem FlowTask.Fits.transport {shardOf : FlowKey → ShardIdx} {t : FlowTask} {m m' : FlowMemory}
    (h : t.Fits shardOf m) (hshard : t.pc.inside = true → m'.shards t.shard = m.shards t.shard)
    (hkey : ∀ r, r ∈ t.pc.owes ∨ r ∈ t.pc.holds → (m'.entry r).key = (m.entry r).key) :
    t.Fits shardOf m' where
  home := h.home
  target_ne := h.target_ne
  inserting := h.inserting
  absent hpc e he := by
    rw [FlowMemory.find, hshard (FlowPc.inside_of_lacks hpc)]
    exact h.absent hpc e he
  touched r hpc := by
    obtain ⟨key, hfind⟩ := h.touched r hpc
    refine ⟨key, ?_⟩
    rw [FlowMemory.find, hshard (by rw [hpc]; rfl)]
    exact hfind
  own r hpc := by
    rw [hkey r]
    · exact h.own r hpc
    · rcases hpc with hpc | hpc <;> rw [hpc]
      · exact .inl List.mem_cons_self
      · exact .inr List.mem_cons_self
  dropped r target hpc := by
    rw [hkey r (.inr (by rw [hpc]; exact List.mem_cons_self))]
    exact h.dropped r target hpc

namespace FlowSystem.Inv

variable {shardOf : FlowKey → ShardIdx} {s : FlowSystem} {xs xs' : List FlowRef} {k : Nat}
  {t t' : FlowTask} {m' : FlowMemory}

/-- What a goroutine refers to has been allocated. -/
theorem lt_size (h : s.Inv shardOf xs) (ht : t ∈ s.tasks) {r : FlowRef}
    (hr : r ∈ t.pc.owes ∨ r ∈ t.pc.holds) : r < s.mem.size := by
  by_contra hsize
  have hfresh := h.fresh r (Nat.le_of_not_lt hsize)
  have hbalance := h.balance r
  rcases hr with hr | hr
  · have hle : t.pc.owes.count r ≤ s.owed r :=
      le_tally (f := fun t => t.pc.owes.count r) ht
    have := List.count_pos_iff.mpr hr
    omega
  · have hle : t.pc.holds.count r ≤ s.held r :=
      le_tally (f := fun t => t.pc.holds.count r) ht
    have := List.count_pos_iff.mpr hr
    omega

/-- A lock has one owner. -/
theorem eq_of_locks (h : s.Inv shardOf xs) {j : Nat} (hk : s.tasks[k]? = some t)
    (hj : s.tasks[j]? = some t') {i : ShardIdx} (hi : t.Locks i) (hi' : t'.Locks i) : j = k := by
  have howner := (h.owner i k).mpr ⟨t, hk, hi⟩
  have howner' := (h.owner i j).mpr ⟨t', hj, hi'⟩
  exact Option.mem_unique howner' howner

/-- The invariant is kept by every step that changes no more than it may. -/
theorem advance (h : s.Inv shardOf xs) (ht : s.tasks[k]? = some t)
    (d : FlowDelta shardOf k s.mem t xs m' t' xs') :
    FlowSystem.Inv ⟨m', s.tasks.set k t'⟩ shardOf xs' := by
  let s' : FlowSystem := ⟨m', s.tasks.set k t'⟩
  have howed (r : FlowRef) : s'.owed r + t.pc.owes.count r = s.owed r + t'.pc.owes.count r :=
    tally_set (f := fun t => t.pc.owes.count r) ht
  have hheld (r : FlowRef) : s'.held r + t.pc.holds.count r = s.held r + t'.pc.holds.count r :=
    tally_set (f := fun t => t.pc.holds.count r) ht
  have hdeficit : s'.deficit + t.pc.deficit = s.deficit + t'.pc.deficit :=
    tally_set (f := fun t => t.pc.deficit) ht
  have hsurplus : s'.surplus + t.pc.surplus = s.surplus + t'.pc.surplus :=
    tally_set (f := fun t => t.pc.surplus) ht
  have hother {j : Nat} (hj : j ≠ k) : (s.tasks.set k t')[j]? = s.tasks[j]? :=
    List.getElem?_set_ne (Ne.symm hj)
  have hself : (s.tasks.set k t')[k]? = some t' := by
    rw [List.getElem?_set_self', ht]
    rfl
  refine ⟨d.links, ?_, ?_, ?_, ?_, d.keyed, ?_, ?_⟩
  · intro r
    have hbefore := h.balance r
    have hchange := d.balance r
    have := howed r
    have := hheld r
    show m'.storedCount r + s'.owed r = xs'.count r + s'.held r
    omega
  · intro r
    have hbefore := h.once r
    have hfresh := h.fresh r
    have := howed r
    show m'.storedCount r + s'.owed r ≤ 1
    rcases d.present r with hle | ⟨rfl, -, hle⟩ <;> omega
  · intro r (hr : m'.size ≤ r)
    have hbefore := h.fresh r
    have hsize := d.size
    have := howed r
    show m'.storedCount r + s'.owed r = 0
    rcases d.present r with hle | ⟨rfl, hlt, -⟩ <;> omega
  · have hbefore := h.counter
    have hchange := d.counter
    show m'.flowCount + s'.surplus = m'.storedWhere (fun _ => true) + s'.deficit
    omega
  · intro i j
    by_cases hj : j = k
    · subst hj
      rw [d.mine i]
      constructor
      · intro hlocks
        exact ⟨t', hself, hlocks⟩
      · rintro ⟨u, hu, hlocks⟩
        obtain rfl : t' = u := Option.mem_unique hself hu
        exact hlocks
    · rw [d.others i j hj, hother hj]
      exact h.owner i j
  · intro u hu
    obtain ⟨j, hj⟩ := List.getElem?_of_mem hu
    by_cases hjk : j = k
    · subst hjk
      obtain rfl : t' = u := Option.mem_unique hself hj
      exact d.fits
    · rw [hother hjk] at hj
      have hmem := List.mem_of_getElem? hj
      refine (h.fits u hmem).transport ?_ fun r hr => d.flows r (h.lt_size hmem hr)
      intro hinside
      apply d.shards
      intro hlocks
      exact hjk (h.eq_of_locks ht hj hlocks ⟨hinside, .inl rfl⟩)

/-- The locks of a goroutine are those it stands for. -/
theorem owner_self (h : s.Inv shardOf xs) (ht : s.tasks[k]? = some t) (i : ShardIdx) :
    s.mem.owner i = some k ↔ t.Locks i := by
  rw [h.owner i k]
  constructor
  · rintro ⟨u, hu, hlocks⟩
    obtain rfl : t = u := Option.mem_unique ht hu
    exact hlocks
  · intro hlocks
    exact ⟨t, ht, hlocks⟩

/-- A step that does not change the maps. -/
theorem keep (h : s.Inv shardOf xs) (ht : s.tasks[k]? = some t)
    (hshards : m'.shards = s.mem.shards) (hsize : m'.size = s.mem.size)
    (hkeys : ∀ r, (m'.entry r).key = (s.mem.entry r).key)
    (others : ∀ i j, j ≠ k → (m'.owner i = some j ↔ s.mem.owner i = some j))
    (mine : ∀ i, m'.owner i = some k ↔ t'.Locks i) (links : m'.evictList.Links xs')
    (balance : ∀ r, t'.pc.owes.count r + (xs.count r + t.pc.holds.count r) =
      t.pc.owes.count r + (xs'.count r + t'.pc.holds.count r))
    (owes : ∀ r, t'.pc.owes.count r ≤ t.pc.owes.count r)
    (counter : m'.flowCount + t'.pc.surplus + t.pc.deficit =
      s.mem.flowCount + t.pc.surplus + t'.pc.deficit)
    (fits : t'.Fits shardOf m') : FlowSystem.Inv ⟨m', s.tasks.set k t'⟩ shardOf xs' := by
  have hstored (p : FlowRef → Bool) : m'.storedWhere p = s.mem.storedWhere p := by
    rw [FlowMemory.storedWhere, hshards, FlowMemory.storedWhere]
  have hcount (r : FlowRef) : m'.storedCount r = s.mem.storedCount r := hstored _
  refine h.advance ht ⟨links, ?_, ?_, hsize.ge, ?_, ?_, fun r _ => hkeys r, ?_, others, mine, fits⟩
  · intro r
    have := balance r
    rw [hcount]
    omega
  · intro r
    have := owes r
    rw [hcount]
    exact .inl (by omega)
  · rw [hstored]
    omega
  · intro i key r hfind
    rw [FlowMemory.find, hshards] at hfind
    rw [hkeys]
    exact h.keyed i key r hfind
  · intro i _
    rw [hshards]

/-- A step that changes neither the maps nor the locks. -/
theorem calm (h : s.Inv shardOf xs) (ht : s.tasks[k]? = some t)
    (hshards : m'.shards = s.mem.shards) (hsize : m'.size = s.mem.size)
    (hkeys : ∀ r, (m'.entry r).key = (s.mem.entry r).key) (howner : m'.owner = s.mem.owner)
    (hlocks : ∀ i, t'.Locks i ↔ t.Locks i) (links : m'.evictList.Links xs')
    (balance : ∀ r, t'.pc.owes.count r + (xs.count r + t.pc.holds.count r) =
      t.pc.owes.count r + (xs'.count r + t'.pc.holds.count r))
    (owes : ∀ r, t'.pc.owes.count r ≤ t.pc.owes.count r)
    (counter : m'.flowCount + t'.pc.surplus + t.pc.deficit =
      s.mem.flowCount + t.pc.surplus + t'.pc.deficit)
    (fits : t'.Fits shardOf m') : FlowSystem.Inv ⟨m', s.tasks.set k t'⟩ shardOf xs' := by
  refine h.keep ht hshards hsize hkeys ?_ ?_ links balance owes counter fits
  · intro i j _
    rw [howner]
  · intro i
    rw [howner, hlocks]
    exact h.owner_self ht i

section Locking

variable {i : ShardIdx}

/-- A free shard is locked. -/
theorem lock (h : s.Inv shardOf xs) (ht : s.tasks[k]? = some t) (hfree : s.mem.owner i = none)
    (hlocks : ∀ j, t'.Locks j ↔ j = i ∨ t.Locks j) (howes : t'.pc.owes = t.pc.owes)
    (hholds : t'.pc.holds = t.pc.holds) (hdeficit : t'.pc.deficit = t.pc.deficit)
    (hsurplus : t'.pc.surplus = t.pc.surplus) (fits : t'.Fits shardOf (s.mem.lock i k)) :
    FlowSystem.Inv ⟨s.mem.lock i k, s.tasks.set k t'⟩ shardOf xs := by
  refine h.keep ht rfl rfl (fun _ => rfl) ?_ ?_ h.links ?_ ?_ ?_ fits
  · intro j n hn
    by_cases hj : j = i
    · subst hj
      simp [FlowMemory.lock, hfree, Ne.symm hn]
    · simp [FlowMemory.lock, hj]
  · intro j
    rw [hlocks, ← h.owner_self ht j]
    by_cases hj : j = i
    · simp [FlowMemory.lock, hj]
    · simp [FlowMemory.lock, hj]
  · intro r
    rw [howes, hholds]
  · intro r
    rw [howes]
  · rw [hdeficit, hsurplus]
    rfl

/-- A shard is unlocked. -/
theorem unlock (h : s.Inv shardOf xs) (ht : s.tasks[k]? = some t) (hi : t.Locks i)
    (hlocks : ∀ j, t'.Locks j ↔ j ≠ i ∧ t.Locks j) (howes : t'.pc.owes = t.pc.owes)
    (hholds : t'.pc.holds = t.pc.holds) (hdeficit : t'.pc.deficit = t.pc.deficit)
    (hsurplus : t'.pc.surplus = t.pc.surplus) (fits : t'.Fits shardOf (s.mem.unlock i)) :
    FlowSystem.Inv ⟨s.mem.unlock i, s.tasks.set k t'⟩ shardOf xs := by
  have howner := (h.owner_self ht i).mpr hi
  refine h.keep ht rfl rfl (fun _ => rfl) ?_ ?_ h.links ?_ ?_ ?_ fits
  · intro j n hn
    by_cases hj : j = i
    · subst hj
      simp [FlowMemory.unlock, howner, Ne.symm hn]
    · simp [FlowMemory.unlock, hj]
  · intro j
    rw [hlocks, ← h.owner_self ht j]
    by_cases hj : j = i
    · simp [FlowMemory.unlock, hj]
    · simp [FlowMemory.unlock, hj]
  · intro r
    rw [howes, hholds]
  · intro r
    rw [howes]
  · rw [hdeficit, hsurplus]
    rfl

end Locking

section Maps

variable {i : ShardIdx} {key : FlowKey} {r : FlowRef}

/-- An entry leaves the map of a shard that is locked. -/
theorem delete (h : s.Inv shardOf xs) (ht : s.tasks[k]? = some t) (hi : t.Locks i)
    (hfind : s.mem.find i key = some r) (hlocks : ∀ j, t'.Locks j ↔ t.Locks j)
    (balance : ∀ x, t'.pc.owes.count x + t.pc.holds.count x =
      t.pc.owes.count x + t'.pc.holds.count x + [r].count x)
    (owes : ∀ x, t'.pc.owes.count x ≤ t.pc.owes.count x + [r].count x)
    (counter : t'.pc.surplus + 1 + t.pc.deficit = t.pc.surplus + t'.pc.deficit)
    (fits : t'.Fits shardOf (s.mem.delete i key)) :
    FlowSystem.Inv ⟨s.mem.delete i key, s.tasks.set k t'⟩ shardOf xs := by
  have hcount (x : FlowRef) :
      (s.mem.delete i key).storedCount x + [r].count x = s.mem.storedCount x := by
    rw [List.count_singleton]
    exact FlowMemory.storedWhere_delete hfind
  refine h.advance ht ⟨h.links, ?_, ?_, le_rfl, ?_, ?_, fun _ _ => rfl, ?_, fun _ _ _ => Iff.rfl,
    fun j => (h.owner_self ht j).trans (hlocks j).symm, fits⟩
  · intro x
    have := balance x
    have := hcount x
    omega
  · intro x
    have := owes x
    have := hcount x
    exact .inl (by omega)
  · have htotal := FlowMemory.storedWhere_delete (p := fun _ => true) hfind
    show s.mem.flowCount + _ + _ + _ = s.mem.flowCount + _ + _ + _
    simp only [ite_true] at htotal
    omega
  · intro j key' r' hfind'
    exact h.keyed j key' r' (FlowMemory.find_delete_eq_some.mp hfind').1
  · intro j hj
    have hne : j ≠ i := by
      rintro rfl
      exact hj hi
    simp [FlowMemory.delete, hne]

/-- A new entry joins the map of a shard that is locked. -/
theorem create (h : s.Inv shardOf xs) (ht : s.tasks[k]? = some t) {e : FlowEntry}
    (hi : t.Locks i) (hfind : s.mem.find i e.key = none) (hshard : shardOf e.key = i)
    (hlocks : ∀ j, t'.Locks j ↔ t.Locks j)
    (balance : ∀ x, t'.pc.owes.count x + t.pc.holds.count x + [s.mem.size].count x =
      t.pc.owes.count x + t'.pc.holds.count x)
    (owes : ∀ x, t'.pc.owes.count x = t.pc.owes.count x)
    (counter : t'.pc.surplus + t.pc.deficit = t.pc.surplus + 1 + t'.pc.deficit)
    (fits : t'.Fits shardOf (s.mem.create i e)) :
    FlowSystem.Inv ⟨s.mem.create i e, s.tasks.set k t'⟩ shardOf xs := by
  have hcount (x : FlowRef) :
      (s.mem.create i e).storedCount x = s.mem.storedCount x + [s.mem.size].count x := by
    rw [List.count_singleton]
    exact FlowMemory.storedWhere_create hfind
  have hsize : (s.mem.create i e).size = s.mem.size + 1 := rfl
  have hentry {x : FlowRef} (hx : x < s.mem.size) : (s.mem.create i e).entry x = s.mem.entry x :=
    Function.update_of_ne (Nat.ne_of_lt hx) _ _
  refine h.advance ht ⟨h.links, ?_, ?_, Nat.le_succ _, ?_, ?_, ?_, ?_, fun _ _ _ => Iff.rfl,
    fun j => (h.owner_self ht j).trans (hlocks j).symm, fits⟩
  · intro x
    have := balance x
    have := hcount x
    omega
  · intro x
    have := owes x
    have := hcount x
    by_cases hx : x = s.mem.size
    · subst hx
      rw [List.count_singleton_self] at this
      exact .inr ⟨rfl, by omega, by omega⟩
    · rw [List.count_eq_zero_of_not_mem (by simpa using hx)] at this
      exact .inl (by omega)
  · have htotal := FlowMemory.storedWhere_create (p := fun _ => true) hfind
    show s.mem.flowCount + _ + _ + _ = s.mem.flowCount + _ + _ + _
    simp only [ite_true] at htotal
    omega
  · intro j key' r' hfind'
    rcases FlowMemory.find_create_eq_some.mp hfind' with ⟨rfl, rfl, rfl⟩ | ⟨-, hold⟩
    · exact ⟨hshard, by simp [FlowMemory.create]⟩
    · have hlt : r' < s.mem.size := by
        by_contra hsize'
        have := h.fresh r' (Nat.le_of_not_lt hsize')
        have := FlowMemory.storedCount_pos hold
        omega
      rw [hentry hlt]
      exact h.keyed j key' r' hold
  · intro x hx
    rw [hentry hx]
  · intro j hj
    have hne : j ≠ i := by
      rintro rfl
      exact hj hi
    simp [FlowMemory.create, hne]

end Maps

end FlowSystem.Inv

end Veld.Acl
