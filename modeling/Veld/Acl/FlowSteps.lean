import Veld.Acl.FlowInvariant

/-!
# The steps of the goroutines keep the invariant

One lemma for each place a goroutine can stand at. Everything but unlinking and
moving an entry keeps the invariant as it is; those two need the entry to be in
the list, which it is unless another goroutine has popped it.
-/

namespace Veld.Acl

/-- What `ExpireOldFlows` removes is in the map. -/
theorem FlowMemory.find_of_removable {config : FlowTableConfig} {m : FlowMemory} {i : ShardIdx} {now : Int}
    {choice : Nat} {key : FlowKey} {r : FlowRef}
    (h : m.removable config i now choice = some ⟨key, r⟩) :
    m.find i key = some r := by
  have hmem := List.mem_of_getElem? h
  exact AList.mem_lookup_iff.mpr (List.mem_filter.mp hmem).1

namespace FlowSystem.Inv

variable {shardOf : FlowKey → ShardIdx} {config : FlowTableConfig} {s : FlowSystem}
  {xs : List FlowRef} {k choice : Nat} {t : FlowTask} {r : FlowRef}

/-- What a goroutine holds is not in the list. -/
theorem not_mem_of_holds (h : s.Inv shardOf xs) (ht : t ∈ s.tasks) (hr : r ∈ t.pc.holds) :
    r ∉ xs := by
  intro hxs
  have hbalance := h.balance r
  have honce := h.once r
  have hle : t.pc.holds.count r ≤ s.held r := le_tally (f := fun t => t.pc.holds.count r) ht
  have hheld := List.count_pos_iff.mpr hr
  have hlist := List.count_pos_iff.mpr hxs
  omega

/-- An entry that a goroutine is about to unlink or to move belongs to its shard and is
stored or owed. -/
theorem present_of_relinks (h : s.Inv shardOf xs) (ht : t ∈ s.tasks) (hr : r ∈ t.pc.relinks) :
    shardOf (s.mem.entry r).key = t.shard ∧ t.pc.inside = true ∧
      0 < s.mem.storedCount r + s.owed r := by
  have hfits := h.fits t ht
  cases hpc : t.pc with
  | unlinking r' =>
    obtain rfl : r = r' := by simpa [hpc, FlowPc.relinks] using hr
    have hle : t.pc.owes.count r ≤ s.owed r := le_tally (f := fun t => t.pc.owes.count r) ht
    rw [hpc, FlowPc.owes, List.count_singleton_self] at hle
    exact ⟨hfits.own r (.inl hpc), rfl, by omega⟩
  | touching r' =>
    obtain rfl : r = r' := by simpa [hpc, FlowPc.relinks] using hr
    obtain ⟨key, hfind⟩ := hfits.touched r hpc
    obtain ⟨hshard, hkey⟩ := h.keyed _ _ _ hfind
    have hpos := FlowMemory.storedCount_pos hfind
    exact ⟨by rw [hkey, hshard], rfl, by omega⟩
  | _ => simp [hpc, FlowPc.relinks] at hr

/-- An entry that nobody has popped is in the list when it is unlinked or moved. -/
theorem mem_of_relinks (h : s.Inv shardOf xs) (ht : s.tasks[k]? = some t)
    (hr : r ∈ t.pc.relinks) (hspare : ∀ u ∈ s.tasks, r ∉ u.pc.popped) : r ∈ xs := by
  obtain ⟨hshard, hinside, hpresent⟩ := h.present_of_relinks (List.mem_of_getElem? ht) hr
  have hheld : s.held r = 0 := by
    refine tally_eq_zero fun u hu => List.count_eq_zero.mpr fun hmem => ?_
    cases hpc : u.pc with
    | linking r' =>
      -- it would have the lock of the same shard
      obtain rfl : r = r' := by simpa [hpc, FlowPc.holds] using hmem
      obtain ⟨j, hj⟩ := List.getElem?_of_mem hu
      have hlocks : u.Locks t.shard := by
        refine ⟨by rw [hpc]; rfl, .inl ?_⟩
        rw [← hshard, (h.fits u hu).own r (.inr hpc)]
      obtain rfl : j = k := h.eq_of_locks ht hj ⟨hinside, .inl rfl⟩ hlocks
      obtain rfl : t = u := Option.mem_unique ht hj
      rw [hpc] at hr
      cases hr
    | _ =>
      rw [hpc] at hmem
      exact hspare u hu (by rw [hpc]; exact hmem)
  have hbalance := h.balance r
  exact List.count_pos_iff.mp (by omega)

/-- The victim is stored under its key once its shard is locked. -/
theorem find_of_dropping (h : s.Inv shardOf xs) (ht : s.tasks[k]? = some t)
    {target : Option ShardIdx} (hpc : t.pc = .dropping r target) :
    s.mem.find (shardOf (s.mem.entry r).key) (s.mem.entry r).key = some r := by
  have hmem := List.mem_of_getElem? ht
  have hdropped := (h.fits t hmem).dropped r target hpc
  have hlocks : t.Locks (shardOf (s.mem.entry r).key) := by
    rw [hdropped]
    refine ⟨by rw [hpc]; rfl, ?_⟩
    rw [hpc]
    cases target with
    | none => exact .inl rfl
    | some i => exact .inr rfl
  have howed : s.owed r = 0 := by
    refine tally_eq_zero fun u hu => List.count_eq_zero.mpr fun hr => ?_
    cases hpc' : u.pc with
    | unlinking r' =>
      obtain rfl : r = r' := by simpa [hpc', FlowPc.owes] using hr
      obtain ⟨j, hj⟩ := List.getElem?_of_mem hu
      have hlocks' : u.Locks (shardOf (s.mem.entry r).key) :=
        ⟨by rw [hpc']; rfl, .inl ((h.fits u hu).own r (.inl hpc'))⟩
      obtain rfl : j = k := h.eq_of_locks ht hj hlocks hlocks'
      obtain rfl : t = u := Option.mem_unique ht hj
      rw [hpc] at hpc'
      cases hpc'
    | _ => simp [hpc', FlowPc.owes] at hr
  have hheld : t.pc.holds.count r ≤ s.held r := le_tally (f := fun t => t.pc.holds.count r) hmem
  have hholds : t.pc.holds = [r] := by
    rw [hpc]
    rfl
  rw [hholds, List.count_singleton_self] at hheld
  have hbalance := h.balance r
  obtain ⟨i, key, hfind⟩ := FlowMemory.exists_of_storedCount_pos (m := s.mem) (r := r) (by omega)
  obtain ⟨rfl, hkey⟩ := h.keyed i key r hfind
  rwa [hkey]

section Steps

variable {op : FlowOp} {shard : ShardIdx} {removed : Nat} {t' : FlowTask} {attempts : Nat}
  {target : Option ShardIdx} {key : FlowKey}

/-- The invariant holds after a step of the goroutine, for some list. -/
def Keeps (shardOf : FlowKey → ShardIdx) (s : FlowSystem) (k : Nat)
    (r : FlowMemory × FlowTask) : Prop :=
  ∃ xs, FlowSystem.Inv ⟨r.1, s.tasks.set k r.2⟩ shardOf xs

theorem keeps_unlinking (h : s.Inv shardOf xs)
    (ht : s.tasks[k]? = some ⟨op, shard, removed, .unlinking r⟩) (hr : r ∈ xs) :
    Keeps shardOf s k (s.mem.step shardOf config k choice ⟨op, shard, removed, .unlinking r⟩) := by
  have hfits := h.fits _ (List.mem_of_getElem? ht)
  obtain ⟨l, l', rfl⟩ := List.append_of_mem hr
  refine ⟨l ++ l', h.calm ht rfl rfl (fun _ => rfl) rfl (fun _ => Iff.rfl) h.links.unlink ?_
    (fun _ => Nat.zero_le _) rfl ⟨hfits.home, nofun, nofun, fun _ => hfits.absent rfl, nofun, nofun, nofun⟩⟩
  intro x
  simp only [FlowMemory.step, FlowTask.goto, FlowPc.owes, FlowPc.holds, FlowPc.popped,
    List.count_nil, List.count_append, List.count_cons]
  omega

theorem keeps_touching (h : s.Inv shardOf xs)
    (ht : s.tasks[k]? = some ⟨op, shard, removed, .touching r⟩) (hr : r ∈ xs) :
    Keeps shardOf s k (s.mem.step shardOf config k choice ⟨op, shard, removed, .touching r⟩) := by
  have hfits := h.fits _ (List.mem_of_getElem? ht)
  obtain ⟨l, l', rfl⟩ := List.append_of_mem hr
  refine ⟨r :: (l ++ l'), h.calm ht rfl rfl (fun _ => rfl) rfl (fun _ => Iff.rfl)
    h.links.moveToFront ?_ (fun _ => le_rfl) rfl (.of_home hfits.home rfl rfl rfl rfl)⟩
  intro x
  simp only [FlowMemory.step, FlowTask.goto, FlowPc.owes, FlowPc.holds, FlowPc.popped,
    List.count_nil, List.count_append, List.count_cons]
  omega

/-- A step that only moves the goroutine on. -/
theorem keeps_goto (h : s.Inv shardOf xs) (ht : s.tasks[k]? = some t)
    (hlocks : ∀ i, t'.Locks i ↔ t.Locks i) (howes : t'.pc.owes = t.pc.owes)
    (hholds : t'.pc.holds = t.pc.holds) (hdeficit : t'.pc.deficit = t.pc.deficit)
    (hsurplus : t'.pc.surplus = t.pc.surplus) (fits : t'.Fits shardOf s.mem) :
    Keeps shardOf s k (s.mem, t') := by
  refine ⟨xs, h.calm ht rfl rfl (fun _ => rfl) rfl hlocks h.links ?_ ?_ ?_ fits⟩
  · intro x
    rw [howes, hholds]
  · intro x
    rw [howes]
  · rw [hdeficit, hsurplus]

/-- A step that changes the counter. -/
theorem keeps_addCount (h : s.Inv shardOf xs) (ht : s.tasks[k]? = some t) {n : Int}
    (hlocks : ∀ i, t'.Locks i ↔ t.Locks i) (howes : t'.pc.owes = t.pc.owes)
    (hholds : t'.pc.holds = t.pc.holds)
    (hn : n + t'.pc.surplus + t.pc.deficit = t.pc.surplus + t'.pc.deficit)
    (fits : t'.Fits shardOf s.mem) : Keeps shardOf s k (s.mem.addCount n, t') := by
  refine ⟨xs, h.calm ht rfl rfl (fun _ => rfl) rfl hlocks h.links ?_ ?_ ?_
    (fits.transport (fun _ => rfl) fun _ _ => rfl)⟩
  · intro x
    rw [howes, hholds]
  · intro x
    rw [howes]
  · show s.mem.flowCount + n + (t'.pc.surplus : Int) + t.pc.deficit =
      s.mem.flowCount + t.pc.surplus + t'.pc.deficit
    omega

theorem keeps_evicting (h : s.Inv shardOf xs)
    (ht : s.tasks[k]? = some ⟨op, shard, removed, .evicting⟩) :
    Keeps shardOf s k (s.mem.step shardOf config k choice ⟨op, shard, removed, .evicting⟩) := by
  have hfits := h.fits _ (List.mem_of_getElem? ht)
  simp only [FlowMemory.step, FlowTask.goto]
  split
  · exact h.keeps_goto ht (fun _ => Iff.rfl) rfl rfl rfl rfl
      (.of_inserts rfl hfits.home (hfits.inserting rfl) (hfits.absent rfl) nofun nofun)
  · exact h.keeps_goto ht (fun _ => Iff.rfl) rfl rfl rfl rfl
      (.of_inserts rfl hfits.home (hfits.inserting rfl) (hfits.absent rfl) nofun nofun)

theorem keeps_popping (h : s.Inv shardOf xs)
    (ht : s.tasks[k]? = some ⟨op, shard, removed, .popping attempts⟩) :
    Keeps shardOf s k
      (s.mem.step shardOf config k choice ⟨op, shard, removed, .popping attempts⟩) := by
  have hfits := h.fits _ (List.mem_of_getElem? ht)
  rcases List.eq_nil_or_concat xs with rfl | ⟨ys, r, rfl⟩
  · simp only [FlowMemory.step, FlowTask.goto, h.links.pop_nil]
    exact h.keeps_goto ht (fun _ => Iff.rfl) rfl rfl rfl rfl
      (.of_inserts rfl hfits.home (hfits.inserting rfl) (hfits.absent rfl) nofun nofun)
  · rw [List.concat_eq_append] at h
    simp only [FlowMemory.step, FlowTask.goto, h.links.pop_concat]
    refine ⟨ys, h.calm ht rfl rfl (fun _ => rfl) rfl (fun _ => Iff.rfl) h.links.unlink_last ?_
      (fun _ => le_rfl) rfl
      (.of_inserts rfl hfits.home (hfits.inserting rfl) (hfits.absent rfl) nofun nofun)⟩
    intro x
    simp only [FlowPc.owes, FlowPc.holds, FlowPc.popped, List.count_nil, List.count_append]
    omega

theorem keeps_puttingBack (h : s.Inv shardOf xs)
    (ht : s.tasks[k]? = some ⟨op, shard, removed, .puttingBack r attempts⟩) :
    Keeps shardOf s k
      (s.mem.step shardOf config k choice ⟨op, shard, removed, .puttingBack r attempts⟩) := by
  have hfits := h.fits _ (List.mem_of_getElem? ht)
  have hr : r ∉ xs := h.not_mem_of_holds (List.mem_of_getElem? ht) List.mem_cons_self
  have hback {pc : FlowPc}
      (hlocks : ∀ i, FlowTask.Locks ⟨op, shard, removed, pc⟩ i ↔
        FlowTask.Locks ⟨op, shard, removed, .puttingBack r attempts⟩ i)
      (howes : pc.owes = []) (hholds : pc.holds = []) (hdeficit : pc.deficit = 0)
      (hsurplus : pc.surplus = 0)
      (fits : FlowTask.Fits shardOf ⟨op, shard, removed, pc⟩ s.mem) :
      Keeps shardOf s k
        (s.mem.relink (s.mem.evictList.linkBack r), ⟨op, shard, removed, pc⟩) := by
    refine ⟨xs ++ [r], h.calm ht rfl rfl (fun _ => rfl) rfl hlocks (h.links.linkBack hr) ?_ ?_ ?_
      (fits.transport (fun _ => rfl) fun _ _ => rfl)⟩
    · intro x
      rw [howes, hholds, List.count_append]
      simp only [FlowPc.owes, FlowPc.holds, FlowPc.popped, List.count_nil]
      omega
    · intro x
      rw [howes]
      exact Nat.zero_le _
    · rw [hdeficit, hsurplus]
      rfl
  simp only [FlowMemory.step, FlowTask.goto]
  split
  · exact hback (fun _ => Iff.rfl) rfl rfl rfl rfl
      (.of_inserts rfl hfits.home (hfits.inserting rfl) (hfits.absent rfl) nofun nofun)
  · exact hback (fun _ => Iff.rfl) rfl rfl rfl rfl
      (.of_inserts rfl hfits.home (hfits.inserting rfl) (hfits.absent rfl) nofun nofun)

theorem keeps_linking (h : s.Inv shardOf xs)
    (ht : s.tasks[k]? = some ⟨op, shard, removed, .linking r⟩) :
    Keeps shardOf s k (s.mem.step shardOf config k choice ⟨op, shard, removed, .linking r⟩) := by
  have hfits := h.fits _ (List.mem_of_getElem? ht)
  have hr : r ∉ xs := h.not_mem_of_holds (List.mem_of_getElem? ht) List.mem_cons_self
  refine ⟨r :: xs, h.calm ht rfl rfl (fun _ => rfl) rfl (fun _ => Iff.rfl) (h.links.linkFront hr) ?_
    (fun _ => le_rfl) rfl (.of_home hfits.home rfl rfl rfl rfl)⟩
  intro x
  simp only [FlowMemory.step, FlowTask.goto, FlowPc.owes, FlowPc.holds, FlowPc.popped,
    List.count_nil, List.count_cons]
  omega

theorem keeps_dropping (h : s.Inv shardOf xs)
    (ht : s.tasks[k]? = some ⟨op, shard, removed, .dropping r target⟩) :
    Keeps shardOf s k
      (s.mem.step shardOf config k choice ⟨op, shard, removed, .dropping r target⟩) := by
  have hfits := h.fits _ (List.mem_of_getElem? ht)
  have hfind := h.find_of_dropping ht rfl
  have hdropped := hfits.dropped r target rfl
  simp only [FlowMemory.step, FlowTask.goto, hfind, Option.isSome_some, ite_true]
  refine ⟨xs, h.delete ht ?_ hfind (fun _ => Iff.rfl) ?_ ?_ rfl ?_⟩
  · rw [hdropped]
    refine ⟨rfl, ?_⟩
    cases target with
    | none => exact .inl rfl
    | some i => exact .inr rfl
  · intro x
    simp [FlowPc.owes, FlowPc.holds, FlowPc.popped]
  · intro x
    exact Nat.zero_le _
  · refine .of_inserts rfl hfits.home (hfits.inserting rfl) (fun e he => ?_) hfits.target_ne nofun
    have habsent := hfits.absent rfl e he
    refine Option.eq_none_iff_forall_ne_some.mpr fun r' hr' => ?_
    have hold := (FlowMemory.find_delete_eq_some.mp hr').1
    rw [habsent] at hold
    cases hold

theorem keeps_victim (h : s.Inv shardOf xs)
    (ht : s.tasks[k]? = some ⟨op, shard, removed, .victim r attempts⟩) :
    Keeps shardOf s k
      (s.mem.step shardOf config k choice ⟨op, shard, removed, .victim r attempts⟩) := by
  have hfits := h.fits _ (List.mem_of_getElem? ht)
  simp only [FlowMemory.step, FlowTask.goto]
  split
  · rename_i hown
    refine h.keeps_goto ht (fun _ => Iff.rfl) rfl rfl rfl rfl
      (.of_inserts rfl hfits.home (hfits.inserting rfl) (hfits.absent rfl) nofun ?_)
    rintro _ _ ⟨⟩
    exact hown
  · rename_i hother
    split
    · rename_i hfree
      refine ⟨xs, h.lock ht hfree ?_ rfl rfl rfl rfl
        (.of_inserts rfl hfits.home (hfits.inserting rfl) (hfits.absent rfl) ?_ ?_)⟩
      · intro j
        simp only [FlowTask.Locks, FlowPc.inside, FlowPc.target, true_and, Option.some.injEq,
          reduceCtorEq, or_false]
        rw [or_comm, eq_comm]
      · intro htarget
        exact hother (Option.some.inj htarget)
      · rintro _ _ ⟨⟩
        rfl
    · exact h.keeps_goto ht (fun _ => Iff.rfl) rfl rfl rfl rfl
        (.of_inserts rfl hfits.home (hfits.inserting rfl) (hfits.absent rfl) nofun nofun)

theorem keeps_discounting (h : s.Inv shardOf xs)
    (ht : s.tasks[k]? = some ⟨op, shard, removed, .discounting target⟩) :
    Keeps shardOf s k
      (s.mem.step shardOf config k choice ⟨op, shard, removed, .discounting target⟩) := by
  have hfits := h.fits _ (List.mem_of_getElem? ht)
  cases target with
  | none =>
    exact h.keeps_addCount ht (fun _ => Iff.rfl) rfl rfl rfl
      (.of_inserts rfl hfits.home (hfits.inserting rfl) (hfits.absent rfl) nofun nofun)
  | some i =>
    exact h.keeps_addCount ht (fun _ => Iff.rfl) rfl rfl rfl
      (.of_inserts rfl hfits.home (hfits.inserting rfl) (hfits.absent rfl) hfits.target_ne nofun)

theorem keeps_releasing (h : s.Inv shardOf xs) {i : ShardIdx}
    (ht : s.tasks[k]? = some ⟨op, shard, removed, .releasing i⟩) :
    Keeps shardOf s k (s.mem.step shardOf config k choice ⟨op, shard, removed, .releasing i⟩) := by
  have hfits := h.fits _ (List.mem_of_getElem? ht)
  have hne : i ≠ shard := fun he => hfits.target_ne (congrArg some he)
  refine ⟨xs, h.unlock ht ⟨rfl, .inr rfl⟩ ?_ rfl rfl rfl rfl
    (.of_inserts rfl hfits.home (hfits.inserting rfl) (hfits.absent rfl) nofun nofun)⟩
  intro j
  simp only [FlowMemory.step, FlowTask.goto, FlowTask.Locks, FlowPc.inside, FlowPc.target,
    true_and, Option.some.injEq, reduceCtorEq, or_false]
  constructor
  · rintro rfl
    exact ⟨hne.symm, .inl rfl⟩
  · rintro ⟨hj, rfl | rfl⟩
    · rfl
    · exact absurd rfl hj

theorem keeps_creating (h : s.Inv shardOf xs)
    (ht : s.tasks[k]? = some ⟨op, shard, removed, .creating⟩) :
    Keeps shardOf s k (s.mem.step shardOf config k choice ⟨op, shard, removed, .creating⟩) := by
  have hfits := h.fits _ (List.mem_of_getElem? ht)
  obtain ⟨e, he⟩ := Option.isSome_iff_exists.mp (hfits.inserting rfl)
  have he : FlowMemory.newEntry op = some e := he
  simp only [FlowMemory.step, FlowTask.goto, he]
  refine ⟨xs, h.create ht ⟨rfl, .inl rfl⟩ (hfits.absent rfl e he) (hfits.home e he)
    (fun _ => Iff.rfl) ?_ (fun _ => rfl) rfl ⟨hfits.home, nofun, nofun, nofun, nofun, ?_, nofun⟩⟩
  · intro x
    simp [FlowPc.owes, FlowPc.holds, FlowPc.popped]
  · rintro r (hr | hr)
    · cases hr
    · obtain rfl : s.mem.size = r := FlowPc.linking.inj hr
      simp only [FlowMemory.create, Function.update_self]
      exact hfits.home e he

theorem keeps_counting (h : s.Inv shardOf xs)
    (ht : s.tasks[k]? = some ⟨op, shard, removed, .counting r⟩) :
    Keeps shardOf s k (s.mem.step shardOf config k choice ⟨op, shard, removed, .counting r⟩) :=
  h.keeps_addCount ht (fun _ => Iff.rfl) rfl rfl rfl
    (.of_home (h.fits _ (List.mem_of_getElem? ht)).home rfl rfl rfl rfl)

theorem keeps_uncounting (h : s.Inv shardOf xs)
    (ht : s.tasks[k]? = some ⟨op, shard, removed, .uncounting⟩) :
    Keeps shardOf s k (s.mem.step shardOf config k choice ⟨op, shard, removed, .uncounting⟩) := by
  have hfits := h.fits _ (List.mem_of_getElem? ht)
  cases op with
  | lookup f create initialState now =>
    cases create with
    | true =>
      exact h.keeps_addCount ht (fun _ => Iff.rfl) rfl rfl rfl
        (.of_inserts rfl hfits.home rfl (hfits.absent rfl) nofun nofun)
    | false => exact h.keeps_addCount ht (fun _ => Iff.rfl) rfl rfl rfl (.of_home hfits.home rfl rfl rfl rfl)
  | updateState f state now =>
    exact h.keeps_addCount ht (fun _ => Iff.rfl) rfl rfl rfl (.of_home hfits.home rfl rfl rfl rfl)
  | removeFlow key =>
    exact h.keeps_addCount ht (fun _ => Iff.rfl) rfl rfl rfl (.of_home hfits.home rfl rfl rfl rfl)
  | expireOldFlows now =>
    exact h.keeps_addCount ht (fun _ => Iff.rfl) rfl rfl rfl (.of_home hfits.home rfl rfl rfl rfl)

theorem keeps_unlocking (h : s.Inv shardOf xs) {result : FlowResult}
    (ht : s.tasks[k]? = some ⟨op, shard, removed, .unlocking result⟩) :
    Keeps shardOf s k
      (s.mem.step shardOf config k choice ⟨op, shard, removed, .unlocking result⟩) := by
  have hfits := h.fits _ (List.mem_of_getElem? ht)
  have hlocks {t' : FlowTask} (hout : t'.pc.inside = false) (j : ShardIdx) :
      t'.Locks j ↔ j ≠ shard ∧
        FlowTask.Locks ⟨op, shard, removed, .unlocking result⟩ j := by
    refine iff_of_false ?_ ?_
    · rintro ⟨hinside, -⟩
      rw [hout] at hinside
      cases hinside
    · rintro ⟨hj, -, heq | htarget⟩
      · exact hj heq
      · cases htarget
  have hdone (result : FlowResult) :
      Keeps shardOf s k (s.mem.unlock shard, ⟨op, shard, removed, .done result⟩) :=
    ⟨xs, h.unlock ht ⟨rfl, .inl rfl⟩ (hlocks rfl) rfl rfl rfl rfl (.of_home hfits.home rfl rfl rfl rfl)⟩
  cases op with
  | lookup f create initialState now => exact hdone result
  | updateState f state now => exact hdone result
  | removeFlow key => exact hdone result
  | expireOldFlows now =>
    simp only [FlowMemory.step, FlowTask.afterUnlock, FlowTask.goto]
    split
    · exact ⟨xs, h.unlock ht ⟨rfl, .inl rfl⟩ (hlocks rfl) rfl rfl rfl rfl (.of_home nofun rfl rfl rfl rfl)⟩
    · exact hdone result

theorem keeps_locking (h : s.Inv shardOf xs)
    (ht : s.tasks[k]? = some ⟨op, shard, removed, .locking⟩) :
    Keeps shardOf s k (s.mem.step shardOf config k choice ⟨op, shard, removed, .locking⟩) := by
  have hfits := h.fits _ (List.mem_of_getElem? ht)
  simp only [FlowMemory.step, FlowTask.goto]
  split
  · rename_i hfree
    refine ⟨xs, h.lock ht hfree ?_ rfl rfl rfl rfl (.of_home hfits.home rfl rfl rfl rfl)⟩
    intro j
    simp [FlowTask.Locks, FlowPc.inside, FlowPc.target]
  · exact h.keeps_goto ht (fun _ => Iff.rfl) rfl rfl rfl rfl hfits

/-- An entry of the goroutine's own shard leaves the map. -/
theorem keeps_remove (h : s.Inv shardOf xs)
    (ht : s.tasks[k]? = some ⟨op, shard, removed, .locked⟩) (hfind : s.mem.find shard key = some r)
    (hkey : ∀ e, FlowMemory.newEntry op = some e → e.key = key) :
    Keeps shardOf s k (s.mem.delete shard key, ⟨op, shard, removed, .unlinking r⟩) := by
  have hfits := h.fits _ (List.mem_of_getElem? ht)
  obtain ⟨hshard, hentry⟩ := h.keyed shard key r hfind
  refine ⟨xs, h.delete ht ⟨rfl, .inl rfl⟩ hfind (fun _ => Iff.rfl) ?_ ?_ rfl
    ⟨hfits.home, nofun, nofun, ?_, nofun, ?_, nofun⟩⟩
  · intro x
    simp only [FlowPc.owes, FlowPc.holds, FlowPc.popped, List.count_nil]
    omega
  · intro x
    simp only [FlowPc.owes, List.count_nil]
    omega
  · intro _ e he
    refine Option.eq_none_iff_forall_ne_some.mpr fun r' hr' => ?_
    exact (FlowMemory.find_delete_eq_some.mp hr').2 ⟨rfl, hkey e he⟩
  · rintro r' (hr | hr)
    · obtain rfl : r = r' := FlowPc.unlinking.inj hr
      show shardOf (s.mem.entry r).key = shard
      rw [hentry, hshard]
    · cases hr

/-- A found entry is written and is to move to the front. -/
theorem keeps_touch (h : s.Inv shardOf xs)
    (ht : s.tasks[k]? = some ⟨op, shard, removed, .locked⟩)
    (hfind : s.mem.find shard key = some r) {e : FlowEntry}
    (he : e.key = (s.mem.entry r).key) :
    Keeps shardOf s k (s.mem.setEntry r e, ⟨op, shard, removed, .touching r⟩) := by
  have hfits := h.fits _ (List.mem_of_getElem? ht)
  refine ⟨xs, h.calm ht rfl rfl ?_ rfl (fun _ => Iff.rfl) h.links (fun _ => rfl) (fun _ => le_rfl)
    rfl ⟨hfits.home, nofun, nofun, nofun, ?_, nofun, nofun⟩⟩
  · intro x
    by_cases hx : x = r
    · subst hx
      simp [FlowMemory.setEntry, he]
    · simp [FlowMemory.setEntry, hx]
  · rintro r' hr
    obtain rfl : r = r' := FlowPc.touching.inj hr
    exact ⟨key, hfind⟩

theorem keeps_locked (h : s.Inv shardOf xs)
    (ht : s.tasks[k]? = some ⟨op, shard, removed, .locked⟩) :
    Keeps shardOf s k (s.mem.step shardOf config k choice ⟨op, shard, removed, .locked⟩) := by
  have hfits := h.fits _ (List.mem_of_getElem? ht)
  have hunlocking (result : FlowResult) :
      Keeps shardOf s k (s.mem, ⟨op, shard, removed, .unlocking result⟩) :=
    h.keeps_goto ht (fun _ => Iff.rfl) rfl rfl rfl rfl (.of_home hfits.home rfl rfl rfl rfl)
  cases op with
  | lookup f create initialState now =>
    have hkey (e : FlowEntry)
        (he : FlowMemory.newEntry (.lookup f create initialState now) = some e) :
        e.key = flowKey f := by
      obtain rfl := Option.some.inj he
      rfl
    simp only [FlowMemory.step, FlowMemory.readMap, FlowTask.goto]
    cases hfind : s.mem.find shard (flowKey f) with
    | some r =>
      dsimp only
      split
      · exact h.keeps_remove ht hfind hkey
      · exact h.keeps_touch ht hfind rfl
    | none =>
      cases create with
      | true =>
        refine h.keeps_goto ht (fun _ => Iff.rfl) rfl rfl rfl rfl
          (.of_inserts rfl hfits.home rfl (fun e he => ?_) nofun nofun)
        rw [hkey e he]
        exact hfind
      | false => exact hunlocking _
  | updateState f state now =>
    simp only [FlowMemory.step, FlowMemory.readMap, FlowTask.goto]
    cases hfind : s.mem.find shard (flowKey f) with
    | some r =>
      dsimp only
      split
      · exact h.keeps_remove ht hfind nofun
      · exact h.keeps_touch ht hfind rfl
    | none => exact hunlocking _
  | removeFlow key =>
    simp only [FlowMemory.step, FlowMemory.readMap, FlowTask.goto]
    cases hfind : s.mem.find shard key with
    | some r => exact h.keeps_remove ht hfind nofun
    | none => exact hunlocking _
  | expireOldFlows now =>
    simp only [FlowMemory.step, FlowMemory.readMap, FlowTask.goto]
    cases hremovable : s.mem.removable config shard now choice with
    | some e => exact h.keeps_remove ht (FlowMemory.find_of_removable hremovable) nofun
    | none => exact hunlocking _

/-- A step of a goroutine keeps the invariant unless it unlinks or moves an entry that is popped. -/
theorem step (h : s.Inv shardOf xs) (ht : s.tasks[k]? = some t)
    (hspare : ∀ r ∈ t.pc.relinks, ∀ u ∈ s.tasks, r ∉ u.pc.popped) :
    Keeps shardOf s k (s.mem.step shardOf config k choice t) := by
  obtain ⟨op, shard, removed, pc⟩ := t
  cases pc with
  | locking => exact h.keeps_locking ht
  | locked => exact h.keeps_locked ht
  | unlinking r =>
    have hr : r ∈ (FlowPc.unlinking r).relinks := List.mem_cons_self
    exact h.keeps_unlinking ht (h.mem_of_relinks ht hr (hspare r hr))
  | uncounting => exact h.keeps_uncounting ht
  | touching r =>
    have hr : r ∈ (FlowPc.touching r).relinks := List.mem_cons_self
    exact h.keeps_touching ht (h.mem_of_relinks ht hr (hspare r hr))
  | evicting => exact h.keeps_evicting ht
  | popping attempts => exact h.keeps_popping ht
  | victim r attempts => exact h.keeps_victim ht
  | puttingBack r attempts => exact h.keeps_puttingBack ht
  | dropping r target => exact h.keeps_dropping ht
  | discounting target => exact h.keeps_discounting ht
  | releasing i => exact h.keeps_releasing ht
  | creating => exact h.keeps_creating ht
  | linking r => exact h.keeps_linking ht
  | counting r => exact h.keeps_counting ht
  | unlocking result => exact h.keeps_unlocking ht
  | done result =>
    exact h.keeps_goto ht (fun _ => Iff.rfl) rfl rfl rfl rfl
      (h.fits _ (List.mem_of_getElem? ht))

end Steps

/-- A call begins without a lock and without an entry. -/
theorem call (h : s.Inv shardOf xs) (op : FlowOp) :
    FlowSystem.Inv { s with tasks := s.tasks ++ [{ op, shard := op.shard shardOf }] } shardOf xs := by
  have htally (f : FlowTask → Nat) (hf : f { op, shard := op.shard shardOf } = 0) :
      tally f (s.tasks ++ [{ op, shard := op.shard shardOf }]) = tally f s.tasks := by
    rw [tally_append, tally_cons, hf, tally_nil]
    rfl
  have howed (r : FlowRef) :
      FlowSystem.owed { s with tasks := s.tasks ++ [{ op, shard := op.shard shardOf }] } r =
        s.owed r := htally _ rfl
  have hheld (r : FlowRef) :
      FlowSystem.held { s with tasks := s.tasks ++ [{ op, shard := op.shard shardOf }] } r =
        s.held r := htally _ rfl
  have hdeficit :
      FlowSystem.deficit { s with tasks := s.tasks ++ [{ op, shard := op.shard shardOf }] } =
        s.deficit := htally _ rfl
  have hsurplus :
      FlowSystem.surplus { s with tasks := s.tasks ++ [{ op, shard := op.shard shardOf }] } =
        s.surplus := htally _ rfl
  refine ⟨h.links, ?_, ?_, ?_, ?_, h.keyed, ?_, ?_⟩
  · intro r
    rw [howed, hheld]
    exact h.balance r
  · intro r
    rw [howed]
    exact h.once r
  · intro r hr
    rw [howed]
    exact h.fresh r hr
  · rw [hdeficit, hsurplus]
    exact h.counter
  · intro i j
    rw [h.owner i j]
    refine exists_congr fun t => ?_
    rw [getElem?_snoc_eq_some]
    constructor
    · rintro ⟨hj, hinside⟩
      exact ⟨.inl hj, hinside⟩
    · rintro ⟨hj | ⟨-, rfl⟩, hinside⟩
      · exact ⟨hj, hinside⟩
      · cases hinside.1
  · intro t ht
    rcases List.mem_append.mp ht with ht | ht
    · exact h.fits t ht
    · obtain rfl := List.mem_singleton.mp ht
      refine .of_home (fun e he => ?_) rfl rfl rfl rfl
      cases op with
      | lookup f create initialState now =>
        obtain rfl := Option.some.inj he
        rfl
      | _ => cases he

end FlowSystem.Inv

end Veld.Acl
