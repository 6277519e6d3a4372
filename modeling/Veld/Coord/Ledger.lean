import Veld.Coord.Invariants

/-!
# The history of the addresses

What became of an address of a network can be read off the calls of a run: it was
never handed out, a peer holds it, its last holder was removed at some time, or
its last holder was swept. The marks of the network record agree with this
history, except that the mark of a swept address still says that it is held. Such
an address is never handed out again.
-/

namespace Veld.Coord

open Netip

/-- What became of an address. -/
inductive Trace
  | never
  | held
  /-- The last holder was removed, at a time in seconds. -/
  | removed (time : Int)
  /-- The last holder was swept. -/
  | swept
  deriving DecidableEq, Repr

/-- The mark of an address with the given history. -/
def Trace.mark : Trace → Option Int
  | never => none
  | held | swept => some 0
  | removed t => some t

namespace Registry

variable (simpleFold : Char → Char) {peers : AList fun _ : String => PeerRecord} {id : String}
  {rec p : PeerRecord} {net' : NetworkRecord}

/-- The history of an address after one more call. -/
def traceStep (n : String) (a : Addr) (t : Trace) (x : Registry × Op) : Trace :=
  if a ∈ usedAddrs (x.1.next simpleFold x.2).peers n then .held
  else if a ∈ usedAddrs x.1.peers n then
    match x.2 with
    | .removePeer now _ => .removed (unix now)
    | .sweepStalePeers _ _ _ => .swept
    | _ => t
  else t

/-- The history of an address in the past of a run. -/
def trace (n : String) (a : Addr) (past : List (Registry × Op)) : Trace :=
  past.foldl (traceStep simpleFold n a) .never

/-- The marks agree with the history. -/
structure Ledger (past : List (Registry × Op)) (r : Registry) : Prop where
  marks : ∀ n net, r.networks.lookup n = some net → ∃ m, net.assignedAddrs = some m ∧
    ∀ a, m.lookup a = (trace simpleFold n a past).mark
  fresh : ∀ n, r.networks.lookup n = none → ∀ a, trace simpleFold n a past = .never
  held : ∀ n a, a ∈ usedAddrs r.peers n → trace simpleFold n a past = .held
  free : ∀ n a, a ∉ usedAddrs r.peers n → trace simpleFold n a past ≠ .held

variable {simpleFold} {r r' : Registry} {op : Op} {past : List (Registry × Op)} {n : String}
  {a : Addr}

theorem trace_snoc : trace simpleFold n a (past ++ [(r, op)]) =
    traceStep simpleFold n a (trace simpleFold n a past) (r, op) := by
  simp [trace]

/-- A call that does not change who holds an address leaves its history as it is. -/
theorem Ledger.trace_same (h : Ledger simpleFold past r)
    (hsame : a ∈ usedAddrs (r.next simpleFold op).peers n ↔ a ∈ usedAddrs r.peers n) :
    trace simpleFold n a (past ++ [(r, op)]) = trace simpleFold n a past := by
  rw [trace_snoc, traceStep]
  by_cases ha : a ∈ usedAddrs r.peers n
  · rw [if_pos (hsame.mpr ha), h.held n a ha]
  · rw [if_neg (mt hsame.mp ha), if_neg ha]

theorem not_mem_usedAddrs (h : r.WellFormed) (hn : r.networks.lookup n = none) :
    a ∉ usedAddrs r.peers n := by
  intro ha
  obtain ⟨k, rec, hk, rfl, -, -⟩ := mem_usedAddrs.mp ha
  have hhome := h.homed k rec hk
  rw [hn] at hhome
  cases hhome

/-- Who holds an address after a stored peer's record was replaced. -/
theorem mem_usedAddrs_renew (hl : peers.lookup id = some rec) :
    a ∈ usedAddrs (peers.insert id (renewed rec p)) n ↔ a ∈ usedAddrs peers n := by
  simp only [mem_usedAddrs]
  constructor
  · rintro ⟨k, rec', hk, hn, ha, hv⟩
    rcases lookup_insert_eq_some.mp hk with ⟨rfl, rfl⟩ | ⟨-, hold⟩
    · exact ⟨k, rec, hl, hn, ha, hv⟩
    · exact ⟨k, rec', hold, hn, ha, hv⟩
  · rintro ⟨k, rec', hk, hn, ha, hv⟩
    by_cases hid : k = id
    · subst hid
      obtain rfl := Option.mem_unique hl hk
      exact ⟨k, renewed rec p, AList.lookup_insert .., hn, ha, hv⟩
    · exact ⟨k, rec', by rw [AList.lookup_insert_ne hid]; exact hk, hn, ha, hv⟩

/-- Who holds an address after a peer joined. -/
theorem mem_usedAddrs_join
    {m : String} {b : Addr} (hfresh : peers.lookup p.id = none) (hb : b.isValid = true) :
    a ∈ usedAddrs (peers.insert p.id (joined p m b)) n ↔
      a ∈ usedAddrs peers n ∨ (n = m ∧ a = b) := by
  simp only [mem_usedAddrs]
  constructor
  · rintro ⟨k, rec', hk, hn, ha, hv⟩
    rcases lookup_insert_eq_some.mp hk with ⟨-, rfl⟩ | ⟨-, hold⟩
    · exact .inr ⟨hn.symm, ha.symm⟩
    · exact .inl ⟨k, rec', hold, hn, ha, hv⟩
  · rintro (⟨k, rec', hk, hn, ha, hv⟩ | ⟨rfl, rfl⟩)
    · refine ⟨k, rec', ?_, hn, ha, hv⟩
      rw [AList.lookup_insert_ne, hk]
      rintro rfl
      rw [hfresh] at hk
      cases hk
    · exact ⟨p.id, joined p n a, AList.lookup_insert .., rfl, rfl, hb⟩

/-- Who holds an address after a peer left. -/
theorem mem_usedAddrs_leave (h : r.WellFormed) (hl : r.peers.lookup id = some rec) :
    a ∈ usedAddrs (r.peers.erase id) n ↔
      a ∈ usedAddrs r.peers n ∧ ¬(n = rec.networkID ∧ a = rec.vpnAddr) := by
  simp only [mem_usedAddrs]
  constructor
  · rintro ⟨k, rec', hk, rfl, rfl, hv⟩
    obtain ⟨hne, hold⟩ := lookup_erase_eq_some.mp hk
    refine ⟨⟨k, rec', hold, rfl, rfl, hv⟩, ?_⟩
    rintro ⟨hn, ha⟩
    exact h.addresses k id rec' rec hold hl hne hn ha
  · rintro ⟨⟨k, rec', hk, rfl, rfl, hv⟩, hnot⟩
    refine ⟨k, rec', lookup_erase_eq_some.mpr ⟨?_, hk⟩, rfl, rfl, hv⟩
    rintro rfl
    obtain rfl := Option.mem_unique hl hk
    exact hnot ⟨rfl, rfl⟩

/-- A sweep leaves the marks as they are. -/
theorem WellFormed.assignedAddrs_sweep (h : r.WellFormed) {removed : List PeerRecord}
    (hsub : removed.Sublist (values r.peers))
    (hl : (removed.foldl Registry.expel r).networks.lookup n = some net') :
    ∃ net, r.networks.lookup n = some net ∧ net'.assignedAddrs = net.assignedAddrs := by
  obtain ⟨hs, hd⟩ := h.stored_of_sublist hsub
  have hkeeps := foldl_expel
    (fun r₁ => ∀ n net', r₁.networks.lookup n = some net' → ∃ net,
      r.networks.lookup n = some net ∧ net'.assignedAddrs = net.assignedAddrs)
    (fun r₁ rec hw hrec hold n net' hn => ?_) h (fun n net' hn => ⟨net', hn, rfl⟩) hs hd
  · exact hkeeps.2 n net' hl
  · obtain ⟨net₁, hnet₁, heq⟩ := hw.expel_eq hrec
    rw [heq] at hn
    rcases lookup_insert_eq_some.mp hn with ⟨rfl, rfl⟩ | ⟨-, hn⟩
    · exact hold _ net₁ hnet₁
    · exact hold n net' hn

/-- A sweep changes the history of an address, but not the mark that belongs to it. -/
theorem Ledger.mark_sweep (h : Ledger simpleFold past r) {now ttl : Int}
    {skip : Option (String → Bool)}
    (hsub : a ∈ usedAddrs (r.next simpleFold (.sweepStalePeers now ttl skip)).peers n →
      a ∈ usedAddrs r.peers n) :
    (trace simpleFold n a (past ++ [(r, .sweepStalePeers now ttl skip)])).mark =
      (trace simpleFold n a past).mark := by
  rw [trace_snoc, traceStep]
  by_cases ha : a ∈ usedAddrs r.peers n
  · rw [h.held n a ha]
    split
    · rfl
    · rfl
  · rw [if_neg (mt hsub ha), if_neg ha]

/-- The marks of a network record agree with the history. -/
def Marked (simpleFold : Char → Char) (past : List (Registry × Op)) (n : String)
    (net : NetworkRecord) : Prop :=
  ∃ m, net.assignedAddrs = some m ∧ ∀ a, m.lookup a = (trace simpleFold n a past).mark

section Marks

variable {net : NetworkRecord} (h : Ledger simpleFold past r)
  (hr : r.next simpleFold op = r')

include h hr

/-- A call that changes neither the record nor who holds its addresses. -/
theorem Ledger.marks_same (hold : r.networks.lookup n = some net)
    (hused : ∀ a, a ∈ usedAddrs r'.peers n ↔ a ∈ usedAddrs r.peers n) :
    Marked simpleFold (past ++ [(r, op)]) n net := by
  obtain ⟨m, hm, hmarks⟩ := h.marks n net hold
  refine ⟨m, hm, fun a => ?_⟩
  rw [hmarks a, h.trace_same (by rw [hr]; exact hused a)]

/-- The address of a new peer is marked as held. -/
theorem Ledger.marks_occupy (hold : r.networks.lookup n = some net) {b : Addr}
    (used : List Addr)
    (hused : ∀ a, a ∈ usedAddrs r'.peers n ↔ a ∈ usedAddrs r.peers n ∨ a = b) :
    Marked simpleFold (past ++ [(r, op)]) n (occupy net used b) := by
  obtain ⟨m, hm, hmarks⟩ := h.marks n net hold
  refine ⟨m.insert b 0, by simp only [occupy, migrateAssignedAddrs, hm], fun a => ?_⟩
  by_cases hab : a = b
  · subst hab
    rw [AList.lookup_insert, trace_snoc, traceStep, if_pos]
    · rfl
    · rw [hr, hused]
      exact .inr rfl
  · rw [AList.lookup_insert_ne hab, hmarks a, h.trace_same]
    rw [hr, hused, or_iff_left hab]

omit hr

/-- The address of a removed peer is marked with the time of the removal. -/
theorem Ledger.marks_release {now : Int} {id : String} (hold : r.networks.lookup n = some net)
    {b : Addr} (used : List Addr) (hb : b ∈ usedAddrs r.peers n)
    (hused : ∀ a, a ∈ usedAddrs (r.next simpleFold (.removePeer now id)).peers n ↔
      a ∈ usedAddrs r.peers n ∧ a ≠ b) :
    Marked simpleFold (past ++ [(r, .removePeer now id)]) n (release net used b now) := by
  obtain ⟨m, hm, hmarks⟩ := h.marks n net hold
  refine ⟨m.insert b (unix now), by simp only [release, dismiss, migrateAssignedAddrs, hm],
    fun a => ?_⟩
  by_cases hab : a = b
  · subst hab
    rw [AList.lookup_insert, trace_snoc, traceStep, if_neg, if_pos hb]
    · rfl
    · rw [hused]
      exact fun hc => hc.2 rfl
  · rw [AList.lookup_insert_ne hab, hmarks a, h.trace_same]
    rw [hused, and_iff_left hab]

end Marks

/-- The marks of a network after a call agree with the history. -/
theorem Ledger.marks_effect (h : Ledger simpleFold past r) (hw : r.WellFormed)
    (hr : r.next simpleFold op = r') (he : Effect simpleFold r op r')
    (hl : r'.networks.lookup n = some net') :
    Marked simpleFold (past ++ [(r, op)]) n net' := by
  cases he with
  | keep hp hn => exact h.marks_same hr (hn ▸ hl) fun a => by rw [hp]
  | create hfresh hp hn =>
    rw [hn] at hl
    rcases lookup_insert_eq_some.mp hl with ⟨rfl, rfl⟩ | ⟨-, hold⟩
    · refine ⟨∅, rfl, fun a => ?_⟩
      rw [h.trace_same (by rw [hr, hp]), h.fresh n hfresh a]
      rfl
    · exact h.marks_same hr hold fun a => by rw [hp]
  | renew hstored hname hp hn =>
    exact h.marks_same hr (hn ▸ hl) fun a => by rw [hp, mem_usedAddrs_renew hstored]
  | @join p k _ _ net b hfresh hkey hnet hlimit halloc hname hp hn =>
    have hs := hw.subnets k net hnet
    have hused (m : String) (a : Addr) :
        a ∈ usedAddrs r'.peers m ↔ a ∈ usedAddrs r.peers m ∨ (m = k ∧ a = b) := by
      rw [hp]
      exact mem_usedAddrs_join hfresh (isValid_of_isHost (allocate_cases hs halloc).1)
    rw [hn] at hl
    rcases lookup_insert_eq_some.mp hl with ⟨rfl, rfl⟩ | ⟨hne, hold⟩
    · exact h.marks_occupy hr hnet _ fun a => by rw [hused, eq_self, true_and]
    · exact h.marks_same hr hold fun a => by rw [hused, or_iff_left (fun hc => hne hc.1)]
  | @leave now id _ rec net hstored hnet hp hn =>
    have hused (m : String) (a : Addr) : a ∈ usedAddrs r'.peers m ↔
        a ∈ usedAddrs r.peers m ∧ ¬(m = rec.networkID ∧ a = rec.vpnAddr) := by
      rw [hp]
      exact mem_usedAddrs_leave hw hstored
    rw [hn] at hl
    rcases lookup_insert_eq_some.mp hl with ⟨rfl, rfl⟩ | ⟨hne, hold⟩
    · refine h.marks_release hnet _ (mem_usedAddrs.mpr ?_) fun a => ?_
      · exact ⟨id, rec, hstored, rfl, rfl, isValid_of_isHost (hw.hosted id rec net hstored hnet)⟩
      · rw [hr, hused, eq_self, true_and]
    · exact h.marks_same hr hold fun a => by rw [hused, and_iff_left (fun hc => hne hc.1)]
  | sweep removed hsub =>
    obtain ⟨net, hnet, heq⟩ := hw.assignedAddrs_sweep hsub hl
    obtain ⟨m, hm, hmarks⟩ := h.marks n net hnet
    refine ⟨m, heq.trans hm, fun a => ?_⟩
    rw [hmarks a, h.mark_sweep]
    rw [hr, mem_usedAddrs, mem_usedAddrs]
    rintro ⟨k, rec, hk, rest⟩
    exact ⟨k, rec, lookup_of_foldl_expel hk, rest⟩

theorem lookup_insert_eq_none {networks : AList fun _ : String => NetworkRecord} {k : String}
    {net : NetworkRecord} (h : (networks.insert k net).lookup n = none) :
    networks.lookup n = none := by
  by_cases hn : n = k
  · subst hn
    rw [AList.lookup_insert] at h
    cases h
  · rwa [AList.lookup_insert_ne hn] at h

/-- Networks are never deleted. -/
theorem Effect.networks_none (hw : r.WellFormed) (he : Effect simpleFold r op r')
    (h : r'.networks.lookup n = none) : r.networks.lookup n = none := by
  cases he with
  | keep hp hn => exact hn ▸ h
  | create hfresh hp hn => exact lookup_insert_eq_none (hn ▸ h)
  | renew hstored hname hp hn => exact hn ▸ h
  | join hfresh hkey hnet hlimit halloc hname hp hn => exact lookup_insert_eq_none (hn ▸ h)
  | leave hstored hnet hp hn => exact lookup_insert_eq_none (hn ▸ h)
  | sweep removed hsub =>
    obtain ⟨hs, hd⟩ := hw.stored_of_sublist hsub
    have hkeeps := foldl_expel
      (fun r₁ => ∀ n, r₁.networks.lookup n = none → r.networks.lookup n = none)
      (fun r₁ rec hw₁ hrec hold n hn => ?_) hw (fun n hn => hn) hs hd
    · exact hkeeps.2 n h
    · obtain ⟨net₁, -, heq⟩ := hw₁.expel_eq hrec
      rw [heq] at hn
      exact hold n (lookup_insert_eq_none hn)

/-- Only a removal or a sweep frees an address. -/
theorem Effect.frees (hw : r.WellFormed) (he : Effect simpleFold r op r')
    (ha : a ∈ usedAddrs r.peers n) (ha' : a ∉ usedAddrs r'.peers n) :
    (∃ now id, op = .removePeer now id) ∨ ∃ now ttl skip, op = .sweepStalePeers now ttl skip := by
  cases he with
  | keep hp hn => exact absurd (hp ▸ ha) ha'
  | create hfresh hp hn => exact absurd (hp ▸ ha) ha'
  | renew hstored hname hp hn =>
    rw [hp, mem_usedAddrs_renew hstored] at ha'
    exact absurd ha ha'
  | join hfresh hkey hnet hlimit halloc hname hp hn =>
    have hhost := (allocate_cases (hw.subnets _ _ hnet) halloc).1
    rw [hp] at ha'
    exact absurd (.inl ha) (mt (mem_usedAddrs_join hfresh (isValid_of_isHost hhost)).mpr ha')
  | leave hstored hnet hp hn => exact .inl ⟨_, _, rfl⟩
  | sweep removed hsub => exact .inr ⟨_, _, _, rfl⟩

/-- One call keeps the marks and the history in agreement. -/
theorem Ledger.step (h : Ledger simpleFold past r) (hw : r.WellFormed) (hop : op.Valid) :
    Ledger simpleFold (past ++ [(r, op)]) (r.next simpleFold op) := by
  have he : Effect simpleFold r op (r.next simpleFold op) := effect_next hw.toFiled op
  refine ⟨fun n net hn => h.marks_effect hw rfl he hn, fun n hn a => ?_, fun n a ha => ?_,
    fun n a ha => ?_⟩
  · have hold := he.networks_none hw hn
    have hused : a ∉ usedAddrs (r.next simpleFold op).peers n := not_mem_usedAddrs (hw.next hop) hn
    rw [h.trace_same (iff_of_false hused (not_mem_usedAddrs hw hold)), h.fresh n hold a]
  · rw [trace_snoc, traceStep, if_pos ha]
  · rw [trace_snoc, traceStep, if_neg ha]
    by_cases hused : a ∈ usedAddrs r.peers n
    · rw [if_pos hused]
      rcases he.frees hw hused ha with ⟨now, id, rfl⟩ | ⟨now, ttl, skip, rfl⟩
      · exact Trace.noConfusion
      · exact Trace.noConfusion
    · rw [if_neg hused]
      exact h.free n a hused

theorem ledger_run {ops : List Op} (hops : ∀ op ∈ ops, op.Valid) :
    Ledger simpleFold (trail (Registry.next simpleFold) empty ops)
      (run (Registry.next simpleFold) empty ops) := by
  induction ops using List.reverseRecOn with
  | nil =>
    refine ⟨fun n net hn => ?_, fun n _ a => rfl, fun n a ha => ?_, fun n a _ => Trace.noConfusion⟩
    · rw [run_nil, empty, AList.lookup_empty] at hn
      cases hn
    · obtain ⟨k, rec, hk, -⟩ := mem_usedAddrs.mp ha
      rw [run_nil, empty, AList.lookup_empty] at hk
      cases hk
  | append_singleton ops op ih =>
    obtain ⟨hprev, hop⟩ := List.forall_mem_append.mp hops
    rw [trail_snoc, run_snoc]
    exact (ih hprev).step (wellFormed_run hprev) (hop op (List.mem_singleton_self op))

end Registry

end Veld.Coord
