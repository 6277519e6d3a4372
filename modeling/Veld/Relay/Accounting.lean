import Mathlib.Data.List.Count
import Veld.Core.Tally
import Veld.Relay.Service

/-!
# The connections of the relay are accounted for

Three invariants of the relay. The counters agree with the connections that have
not been closed. Every such connection has one owner: the goroutine that handles
it, the map of waiting connections, the set of active ones, or a goroutine that
has taken it out of the map in order to close it. And once `Close` has begun no
connection waits, and once it has returned no splice runs.
-/

namespace Veld.Relay

open Netip

namespace Service

variable {χ : Type} [DecidableEq χ] {digest : Key → Key → χ} {limits : Limits} {m : Service χ}
  {c : ConnRef} {ok : Bool} {choice : Nat} {t : Task}

/-- The open connections of an address. -/
def openOf (m : Service χ) (ip : Addr) : Nat := m.live.countP fun c => (m.conn c).ip = ip

/-- The counters are the numbers of open connections and within the limits. -/
structure Ledger (limits : Limits) (m : Service χ) : Prop where
  distinct : m.live.Nodup
  known : ∀ c ∈ m.live, c < m.size
  conns_eq : m.conns = m.live.length
  countOf_eq : ∀ ip, m.countOf ip = m.openOf ip
  conns_le : m.conns ≤ limits.maxConns
  countOf_le : ∀ ip, m.countOf ip ≤ limits.maxConnsPerIP

theorem ledger_new : Ledger limits ({} : Service χ) where
  distinct := List.nodup_nil
  known := nofun
  conns_eq := rfl
  countOf_eq _ := rfl
  conns_le := limits.roomy.le
  countOf_le _ := limits.fair.le

/-- The other fields do not matter. -/
theorem Ledger.congr {m' : Service χ} (h : m.Ledger limits) (hconn : m'.conn = m.conn)
    (hsize : m'.size = m.size) (hlive : m'.live = m.live) (hconns : m'.conns = m.conns)
    (hbyIP : m'.connsByIP = m.connsByIP) : m'.Ledger limits where
  distinct := by rw [hlive]; exact h.distinct
  known := by rw [hlive, hsize]; exact h.known
  conns_eq := by rw [hconns, hlive]; exact h.conns_eq
  countOf_eq ip := by rw [countOf, openOf, hbyIP, hlive, hconn]; exact h.countOf_eq ip
  conns_le := by rw [hconns]; exact h.conns_le
  countOf_le ip := by rw [countOf, hbyIP]; exact h.countOf_le ip

theorem Ledger.admitConn (h : m.Ledger limits) {c : Conn} (hroom : m.hasRoom limits c.ip = true) :
    (m.admitConn c).Ledger limits := by
  have hconn {d : ConnRef} (hd : d ∈ m.live) : (m.admitConn c).conn d = m.conn d :=
    Function.update_of_ne (h.known d hd).ne _ _
  have hnew : (m.admitConn c).conn m.size = c := Function.update_self _ _ _
  have hopen (ip : Addr) :
      (m.admitConn c).openOf ip = m.openOf ip + if c.ip = ip then 1 else 0 := by
    show List.countP _ (m.size :: m.live) = _
    rw [List.countP_cons, hnew, openOf]
    congr 1
    · refine List.countP_congr fun d hd => ?_
      rw [hconn hd]
    · simp
  have hcount (ip : Addr) :
      (m.admitConn c).countOf ip = m.countOf ip + if c.ip = ip then 1 else 0 := by
    by_cases hip : c.ip = ip
    · subst hip
      simp [countOf, Service.admitConn]
    · simp [countOf, Service.admitConn, AList.lookup_insert_ne (Ne.symm hip), hip]
  simp only [hasRoom, Bool.not_eq_true', Bool.or_eq_false_iff, decide_eq_false_iff_not] at hroom
  constructor
  · exact List.nodup_cons.mpr ⟨fun hmem => (h.known _ hmem).ne rfl, h.distinct⟩
  · intro d hd
    rcases List.mem_cons.mp hd with rfl | hd
    · exact Nat.lt_succ_self _
    · exact Nat.lt_succ_of_lt (h.known d hd)
  · show m.conns + 1 = ((m.live.length + 1 : Nat) : Int)
    rw [h.conns_eq]
    rfl
  · intro ip
    rw [hcount, hopen, h.countOf_eq]
    split <;> simp
  · show m.conns + 1 ≤ limits.maxConns
    omega
  · intro ip
    rw [hcount]
    have hle := h.countOf_le ip
    split
    · rename_i hip
      subst hip
      omega
    · omega

theorem countOf_uncount (hpos : 0 < m.countOf (m.conn c).ip) (ip : Addr) :
    ((m.uncount (m.conn c).ip).lookup ip).getD 0 =
      m.countOf ip - if (m.conn c).ip = ip then 1 else 0 := by
  unfold uncount
  by_cases hip : (m.conn c).ip = ip
  · subst hip
    rw [if_pos rfl]
    split
    · rw [AList.lookup_erase, Option.getD_none]
      omega
    · rw [AList.lookup_insert, Option.getD_some]
  · rw [if_neg hip, Int.sub_zero]
    split
    · rw [AList.lookup_erase_ne (Ne.symm hip)]
      rfl
    · rw [AList.lookup_insert_ne (Ne.symm hip)]
      rfl

theorem Ledger.release (h : m.Ledger limits) (c : ConnRef) : (m.release c).Ledger limits := by
  unfold Service.release
  split
  · rename_i hc
    have hpos : 0 < m.openOf (m.conn c).ip :=
      List.countP_pos_iff.mpr ⟨c, hc, by simp⟩
    have hcount (ip : Addr) := countOf_uncount (c := c) (by rw [h.countOf_eq]; omega) ip
    have hopen (ip : Addr) : (m.live.erase c).countP (fun d => (m.conn d).ip = ip) +
        (if (m.conn c).ip = ip then 1 else 0) = m.openOf ip := by
      have hperm := (List.perm_cons_erase hc).countP_eq fun d => decide ((m.conn d).ip = ip)
      rw [List.countP_cons] at hperm
      rw [openOf, hperm]
      simp
    constructor
    · exact h.distinct.erase c
    · exact fun d hd => h.known d (List.mem_of_mem_erase hd)
    · have hlength := List.length_erase_of_mem hc
      have hne := List.length_pos_of_mem hc
      have := h.conns_eq
      show m.conns - 1 = ((m.live.erase c).length : Int)
      omega
    · intro ip
      have hone := hopen ip
      show ((m.uncount (m.conn c).ip).lookup ip).getD 0 = _
      rw [hcount ip, h.countOf_eq, ← hone, openOf]
      split <;> simp
    · have := h.conns_le
      show m.conns - 1 ≤ limits.maxConns
      omega
    · intro ip
      have hle := h.countOf_le ip
      show ((m.uncount (m.conn c).ip).lookup ip).getD 0 ≤ _
      rw [hcount ip]
      split <;> omega
  · exact h

theorem Ledger.join (h : m.Ledger limits) : (m.join digest c).1.Ledger limits := by
  unfold Service.join
  split <;> exact h.congr rfl rfl rfl rfl rfl

theorem Ledger.step (h : m.Ledger limits) : (m.step digest ok choice t).1.Ledger limits := by
  cases t with
  | entering c =>
    simp only [Service.step]
    split
    · exact h
    · split
      · split
        · exact h
        · exact h.join
      · exact h.join
  | evicting c o =>
    simp only [Service.step]
    split
    · exact h.congr rfl rfl rfl rfl rfl
    · exact h
  | resuming c =>
    simp only [Service.step]
    split
    · exact h
    · exact h.join
  | timer c =>
    simp only [Service.step]
    split
    · exact h.congr rfl rfl rfl rfl rfl
    · exact h
  | stopping =>
    simp only [Service.step]
    split
    · exact h
    · exact h.congr rfl rfl rfl rfl rfl
  | closing waiting active =>
    simp only [Service.step]
    split
    · exact h.release _
    · split
      · exact h.release _
      · exact h
  | dropping c o => exact h.release o
  | refusing c | expiring c | failed c => exact h.release c
  | failing dst src => exact h.release src
  | forgetting dst => exact h.congr rfl rfl rfl rfl rfl
  | leaving => exact h.congr rfl rfl rfl rfl rfl
  | handshaking c => exact h
  | splicing dst src => exact h
  | joining => exact h
  | returned => exact h
  | done => exact h

/-- How often a connection waits. -/
def waitCount (m : Service χ) (c : ConnRef) : Nat := (values m.waiting).count c

theorem waitCount_insert {ch : χ} (h : m.waiting.lookup ch = none) (c d : ConnRef) :
    waitCount { m with waiting := m.waiting.insert ch c } d = m.waitCount d + [c].count d := by
  have hcount := countValues_insert (p := (· == d)) (m := m.waiting) (k := ch) (v := c)
  rw [erase_of_lookup_none h] at hcount
  rw [List.count_singleton]
  exact hcount

theorem waitCount_erase {ch : χ} (h : m.waiting.lookup ch = some c) (d : ConnRef) :
    waitCount { m with waiting := m.waiting.erase ch } d + [c].count d = m.waitCount d := by
  rw [List.count_singleton]
  exact (countValues_of_lookup (p := (· == d)) h).symm

theorem waitCount_pos {ch : χ} (h : m.waiting.lookup ch = some c) : 0 < m.waitCount c :=
  List.count_pos_iff.mpr (mem_values.mpr ⟨ch, h⟩)

@[simp] theorem active_release : (m.release c).active = m.active := by
  unfold release
  split <;> rfl

@[simp] theorem closed_release : (m.release c).closed = m.closed := by
  unfold release
  split <;> rfl

@[simp] theorem wg_release : (m.release c).wg = m.wg := by
  unfold release
  split <;> rfl

@[simp] theorem waitCount_release (d : ConnRef) : (m.release c).waitCount d = m.waitCount d := by
  rw [waitCount, waiting_release, waitCount]

theorem live_release (d : ConnRef) (h : d ∈ (m.release c).live) : d ∈ m.live := by
  unfold release at h
  split at h
  · exact List.mem_of_mem_erase h
  · exact h

theorem not_mem_live_release (h : m.live.Nodup) : c ∉ (m.release c).live := by
  unfold release
  split
  · exact h.not_mem_erase
  · assumption

end Service

namespace Task

/-- The connection a `handleConn` is about that has not paired it yet. -/
def unpaired : Task → Option ConnRef
  | handshaking c => some c
  | entering c => some c
  | evicting c _ => some c
  | dropping c _ => some c
  | resuming c => some c
  | refusing c => some c
  | _ => none

/-- The connections that have left the map and are to be closed. -/
def taken : Task → List ConnRef
  | dropping _ o => [o]
  | expiring c => [c]
  | closing waiting _ => waiting
  | _ => []

/-- The connections a goroutine has to see to. -/
def owns (t : Task) : List ConnRef := t.unpaired.toList ++ t.taken

/-- The connection a splice forgets at its end. -/
def forgets : Task → Option ConnRef
  | splicing dst _ => some dst
  | failing dst _ => some dst
  | failed dst => some dst
  | forgetting dst => some dst
  | _ => none

/-- A splice that the wait group counts. -/
def splices : Task → Nat
  | splicing .. => 1
  | failing .. => 1
  | failed _ => 1
  | forgetting _ => 1
  | leaving => 1
  | _ => 0

/-- `Close` has been through its critical section. -/
def stopped : Task → Bool
  | closing .. => true
  | joining => true
  | returned => true
  | _ => false

end Task

namespace RelaySystem

variable {χ : Type} [DecidableEq χ] (digest : Key → Key → χ) (s : RelaySystem χ)

/-- How many owners a connection has. -/
def share (c : ConnRef) : Nat :=
  tally (fun t => t.owns.count c) s.tasks + s.service.waitCount c + s.service.active.count c

/-- Every connection that is not closed has one owner. -/
structure Ownership : Prop where
  once : ∀ c, s.share c ≤ 1
  fresh : ∀ c, s.service.size ≤ c → s.share c = 0
  owned : ∀ c ∈ s.service.live, s.share c = 1
  keyed : ∀ ch c, s.service.waiting.lookup ch = some c → s.service.channel digest c = ch
  known : ∀ t ∈ s.tasks, ∀ c ∈ t.forgets, c < s.service.size
  ended : ∀ c, .forgetting c ∈ s.tasks → c ∉ s.service.live

/-- What `Close` has done so far. -/
structure Shutdown : Prop where
  empty : s.service.closed = true → s.service.waiting = ∅
  closed : ∀ t ∈ s.tasks, t.stopped = true → s.service.closed = true
  wg_eq : s.service.wg = tally Task.splices s.tasks
  ended : .returned ∈ s.tasks → tally Task.splices s.tasks = 0

namespace Ownership

variable {digest s} {k : Nat} {t t' : Task} {m' : Service χ} {started : List Task} {c o : ConnRef}

/-- A step that gives no connection a further owner, and leaves those that are not closed theirs. -/
theorem advance (h : s.Ownership digest) (ht : s.tasks[k]? = some t)
    (hconn : m'.conn = s.service.conn) (hsize : m'.size = s.service.size)
    (hlive : ∀ c ∈ m'.live, c ∈ s.service.live)
    (hshare : ∀ c, t'.owns.count c + tally (fun t => t.owns.count c) started + m'.waitCount c +
      m'.active.count c ≤ t.owns.count c + s.service.waitCount c + s.service.active.count c)
    (hkeep : ∀ c ∈ m'.live, t.owns.count c + s.service.waitCount c + s.service.active.count c ≤
      t'.owns.count c + tally (fun t => t.owns.count c) started + m'.waitCount c +
        m'.active.count c)
    (hkeyed : ∀ ch c, m'.waiting.lookup ch = some c → s.service.channel digest c = ch)
    (hknown : ∀ u ∈ t' :: started, ∀ c ∈ u.forgets, c < s.service.size)
    (hended : ∀ c, .forgetting c ∈ t' :: started → c ∉ m'.live) :
    Ownership digest (s.after k (m', t', started)) := by
  have htally (c : ConnRef) : tally (fun t => t.owns.count c) (s.tasks.set k t' ++ started) +
      t.owns.count c = tally (fun t => t.owns.count c) s.tasks + t'.owns.count c +
        tally (fun t => t.owns.count c) started := by
    have hset := tally_set (f := fun t => t.owns.count c) (b := t') ht
    rw [tally_append]
    omega
  have hle (c : ConnRef) : (s.after k (m', t', started)).share c ≤ s.share c := by
    have hsum := htally c
    have hlocal := hshare c
    simp only [share, after]
    omega
  constructor
  · intro c
    exact (hle c).trans (h.once c)
  · intro c hc
    have hc : m'.size ≤ c := hc
    rw [hsize] at hc
    exact Nat.le_zero.mp ((hle c).trans (h.fresh c hc).le)
  · intro c hc
    have hsum := htally c
    have hlocal := hkeep c hc
    have hone := h.owned c (hlive c hc)
    refine ((hle c).trans (h.once c)).antisymm ?_
    simp only [share, after] at hone ⊢
    omega
  · intro ch c hc
    show (m'.conn c).channel digest = ch
    rw [hconn]
    exact hkeyed ch c hc
  · intro u hu c hc
    show c < m'.size
    rw [hsize]
    rcases mem_tasks hu with hu | ⟨j, -, hj⟩
    · exact hknown u hu c hc
    · exact h.known u (List.mem_of_getElem? hj) c hc
  · intro c hc hmem
    rcases mem_tasks hc with hu | ⟨j, -, hj⟩
    · exact hended c hu hmem
    · exact h.ended c (List.mem_of_getElem? hj) (hlive c hmem)

/-- What has an owner has been admitted. -/
theorem lt_size (h : s.Ownership digest) (hc : 0 < s.share c) : c < s.service.size := by
  by_contra hsize
  have := h.fresh c (Nat.le_of_not_lt hsize)
  omega

theorem owns_le_share (ht : t ∈ s.tasks) (c : ConnRef) :
    t.owns.count c + s.service.waitCount c + s.service.active.count c ≤ s.share c := by
  have hle := le_tally (f := fun t => t.owns.count c) ht
  simp only [share]
  omega

/-- A step that changes nobody's connections. -/
theorem keep (h : s.Ownership digest) (ht : s.tasks[k]? = some t)
    (hconn : m'.conn = s.service.conn) (hsize : m'.size = s.service.size)
    (hwaiting : m'.waiting = s.service.waiting) (hactive : m'.active = s.service.active)
    (hlive : ∀ c ∈ m'.live, c ∈ s.service.live) (howns : t'.owns = t.owns)
    (hforgets : ∀ c ∈ t'.forgets, c ∈ t.forgets) (hended : ∀ c, t' = .forgetting c → c ∉ m'.live) :
    Ownership digest (s.after k (m', t', [])) := by
  have hcount (c : ConnRef) : m'.waitCount c = s.service.waitCount c := by
    rw [Service.waitCount, hwaiting, Service.waitCount]
  refine h.advance ht hconn hsize hlive ?_ ?_ ?_ ?_ ?_
  · intro c
    rw [howns, hcount, hactive, tally_nil]
    omega
  · intro c _
    rw [howns, hcount, hactive, tally_nil]
    omega
  · rw [hwaiting]
    exact h.keyed
  · intro u hu c hc
    obtain rfl := List.mem_singleton.mp hu
    exact h.known t (List.mem_of_getElem? ht) c (hforgets c hc)
  · intro c hc
    exact hended c (List.mem_singleton.mp hc).symm

/-- A goroutine closes a connection it had to see to. -/
theorem drop (h : s.Ownership digest) (hdistinct : s.service.live.Nodup)
    (ht : s.tasks[k]? = some t)
    (howns : ∀ x, t.owns.count x = t'.owns.count x + [c].count x) (hforgets : t'.forgets = none) :
    Ownership digest (s.after k (s.service.release c, t', [])) := by
  refine h.advance ht ?_ ?_ Service.live_release ?_ ?_ ?_ ?_ ?_
  · rw [Service.conn_release]
  · rw [Service.size_release]
  · intro x
    have := howns x
    rw [Service.waitCount_release, Service.active_release, tally_nil]
    omega
  · intro x hx
    have hne : x ≠ c := by
      rintro rfl
      exact Service.not_mem_live_release hdistinct hx
    have := howns x
    rw [List.count_singleton, if_neg (by simpa using hne.symm)] at this
    rw [Service.waitCount_release, Service.active_release, tally_nil]
    omega
  · rw [Service.waiting_release]
    exact h.keyed
  · intro u hu d hd
    obtain rfl := List.mem_singleton.mp hu
    rw [hforgets] at hd
    cases hd
  · intro d hd
    rw [← List.mem_singleton.mp hd] at hforgets
    cases hforgets

/-- A goroutine takes a waiting connection out of the map. -/
theorem take (h : s.Ownership digest) (ht : s.tasks[k]? = some t)
    (ho : s.service.other digest c = some o)
    (howns : ∀ x, t'.owns.count x = t.owns.count x + [o].count x) (hforgets : t'.forgets = none) :
    Ownership digest (s.after k (s.service.unwait digest c, t', [])) := by
  have hcount (x : ConnRef) :
      (s.service.unwait digest c).waitCount x + [o].count x = s.service.waitCount x :=
    Service.waitCount_erase ho x
  refine h.advance ht rfl rfl (fun _ => id) ?_ ?_ ?_ ?_ ?_
  · intro x
    have := howns x
    have := hcount x
    rw [tally_nil]
    show _ + 0 + _ + s.service.active.count x ≤ _
    omega
  · intro x _
    have := howns x
    have := hcount x
    rw [tally_nil]
    show _ ≤ _ + 0 + _ + s.service.active.count x
    omega
  · exact fun ch d hd => h.keyed ch d (lookup_erase_eq_some.mp hd).2
  · intro u hu d hd
    obtain rfl := List.mem_singleton.mp hu
    rw [hforgets] at hd
    cases hd
  · intro d hd
    rw [← List.mem_singleton.mp hd] at hforgets
    cases hforgets

/-- A connection waits on a free channel. -/
theorem await (h : s.Ownership digest) (ht : s.tasks[k]? = some t) (howns : t.owns = [c])
    (ho : s.service.other digest c = none) :
    Ownership digest (s.after k (s.service.await digest c)) := by
  have hcount (x : ConnRef) :
      ((s.service.await digest c).1).waitCount x = s.service.waitCount x + [c].count x :=
    Service.waitCount_insert ho c x
  refine h.advance ht rfl rfl (fun _ => id) ?_ ?_ ?_ ?_ nofun
  · intro x
    have := hcount x
    rw [howns]
    show 0 + 0 + ((s.service.await digest c).1).waitCount x + s.service.active.count x ≤ _
    omega
  · intro x _
    have := hcount x
    rw [howns]
    show _ ≤ 0 + 0 + ((s.service.await digest c).1).waitCount x + s.service.active.count x
    omega
  · intro ch d hd
    rcases lookup_insert_eq_some.mp hd with ⟨rfl, rfl⟩ | ⟨-, hold⟩
    · rfl
    · exact h.keyed ch d hold
  · rintro u (_ | ⟨_, _ | ⟨_, hu⟩⟩) d hd
    · cases hd
    · cases hd
    · cases hu

/-- A new member of a set without repetitions. -/
theorem count_insert_of_not_mem {l : List ConnRef} (hc : c ∉ l) (x : ConnRef) :
    (l.insert c).count x = l.count x + [c].count x := by
  rw [List.insert_of_not_mem hc, List.count_cons, List.count_singleton]

/-- A connection is paired with the one that waits. -/
theorem pair (h : s.Ownership digest) (ht : s.tasks[k]? = some t) (howns : t.owns = [c])
    (ho : s.service.other digest c = some o) :
    Ownership digest (s.after k (s.service.pair digest c o)) := by
  have hmem := List.mem_of_getElem? ht
  have hshare (x : ConnRef) := (owns_le_share hmem x).trans (h.once x)
  have hwait := Service.waitCount_pos ho
  have hown : t.owns.count c = 1 := by rw [howns, List.count_singleton_self]
  have hne : o ≠ c := by
    rintro rfl
    have := hshare o
    omega
  have hc : c ∉ s.service.active := by
    intro hactive
    have := List.count_pos_iff.mpr hactive
    have := hshare c
    omega
  have ho' : o ∉ s.service.active.insert c := by
    intro hactive
    rcases List.mem_insert_iff.mp hactive with rfl | hactive
    · exact hne rfl
    · have := List.count_pos_iff.mpr hactive
      have := hshare o
      omega
  have hactive (x : ConnRef) : ((s.service.active.insert c).insert o).count x =
      s.service.active.count x + [c].count x + [o].count x := by
    rw [count_insert_of_not_mem ho', count_insert_of_not_mem hc]
  have hcount (x : ConnRef) :
      (s.service.unwait digest c).waitCount x + [o].count x = s.service.waitCount x :=
    Service.waitCount_erase ho x
  have hlt : c < s.service.size := by
    refine h.lt_size (Nat.lt_of_lt_of_le ?_ (owns_le_share hmem c))
    omega
  have holt : o < s.service.size := by
    refine h.lt_size (Nat.lt_of_lt_of_le ?_ (owns_le_share hmem o))
    omega
  refine h.advance ht rfl rfl (fun _ => id) ?_ ?_ ?_ ?_ nofun
  · intro x
    have := hcount x
    have := hactive x
    rw [howns]
    show 0 + 0 + (s.service.unwait digest c).waitCount x +
      ((s.service.active.insert c).insert o).count x ≤ _
    omega
  · intro x _
    have := hcount x
    have := hactive x
    rw [howns]
    show _ ≤ 0 + 0 + (s.service.unwait digest c).waitCount x +
      ((s.service.active.insert c).insert o).count x
    omega
  · exact fun ch d hd => h.keyed ch d (lookup_erase_eq_some.mp hd).2
  · rintro u (_ | ⟨_, _ | ⟨_, hu⟩⟩) d hd
    · obtain rfl := Option.some.inj hd
      exact holt
    · obtain rfl := Option.some.inj hd
      exact hlt
    · cases hu

theorem join (h : s.Ownership digest) (ht : s.tasks[k]? = some t) (howns : t.owns = [c]) :
    Ownership digest (s.after k (s.service.join digest c)) := by
  unfold Service.join
  split
  · rename_i ho
    exact h.await ht howns ho
  · rename_i o ho
    exact h.pair ht howns ho

/-- The end of a splice, whose connections are closed. -/
theorem forget (h : s.Ownership digest) (ht : s.tasks[k]? = some (.forgetting c)) :
    Ownership digest (s.after k
      ({ s.service with active := s.service.active.erase c }, .leaving, [])) := by
  refine h.advance ht rfl rfl (fun _ => id) ?_ ?_ h.keyed ?_ nofun
  · intro x
    have hle : (s.service.active.erase c).count x ≤ s.service.active.count x :=
      List.erase_sublist.count_le x
    show 0 + 0 + s.service.waitCount x + (s.service.active.erase c).count x ≤ 0 + _ + _
    omega
  · intro x hx
    have hne : x ≠ c := by
      rintro rfl
      exact h.ended x (List.mem_of_getElem? ht) hx
    show 0 + _ + _ ≤ 0 + 0 + s.service.waitCount x + (s.service.active.erase c).count x
    rw [List.count_erase_of_ne hne]
  · rintro u (_ | ⟨_, hu⟩) d hd
    · cases hd
    · cases hu

/-- `Close` takes all waiting connections. -/
theorem stop (h : s.Ownership digest) (ht : s.tasks[k]? = some .stopping) :
    Ownership digest (s.after k ({ s.service with closed := true, waiting := ∅ },
      .closing (values s.service.waiting) s.service.active, [])) := by
  refine h.advance ht rfl rfl (fun _ => id) ?_ ?_ nofun ?_ nofun
  · intro x
    show s.service.waitCount x + 0 + 0 + s.service.active.count x ≤
      0 + s.service.waitCount x + s.service.active.count x
    omega
  · intro x _
    show 0 + s.service.waitCount x + s.service.active.count x ≤
      s.service.waitCount x + 0 + 0 + s.service.active.count x
    omega
  · rintro u (_ | ⟨_, hu⟩) d hd
    · cases hd
    · cases hu

theorem count_eraseIdx {l : List ConnRef} {i : Nat} (hi : l[i]? = some c) (x : ConnRef) :
    l.count x = (l.eraseIdx i).count x + [c].count x := by
  obtain ⟨hlt, rfl⟩ := List.getElem?_eq_some_iff.mp hi
  rw [← (List.getElem_cons_eraseIdx_perm hlt).count_eq, List.count_cons, List.count_singleton]

/-- The service is as it was and the goroutine has not closed anything. -/
theorem pass (h : s.Ownership digest) (ht : s.tasks[k]? = some t) (howns : t'.owns = t.owns)
    (hforgets : ∀ c ∈ t'.forgets, c ∈ t.forgets) (hended : ∀ c, t' ≠ .forgetting c) :
    Ownership digest (s.after k (s.service, t', [])) :=
  h.keep ht rfl rfl rfl rfl (fun _ => id) howns hforgets fun c hc => absurd hc (hended c)

/-- A goroutine closes a connection that is not its own. -/
theorem close (h : s.Ownership digest) (ht : s.tasks[k]? = some t) (howns : t'.owns = t.owns)
    (hforgets : ∀ c ∈ t'.forgets, c ∈ t.forgets)
    (hended : ∀ d, t' = .forgetting d → d ∉ (s.service.release c).live) :
    Ownership digest (s.after k (s.service.release c, t', [])) :=
  h.keep ht Service.conn_release Service.size_release Service.waiting_release
    Service.active_release Service.live_release howns hforgets hended

theorem step {ok : Bool} {choice : Nat} (h : s.Ownership digest)
    (hdistinct : s.service.live.Nodup) (ht : s.tasks[k]? = some t) :
    Ownership digest (s.after k (s.service.step digest ok choice t)) := by
  cases t with
  | handshaking c =>
    simp only [Service.step]
    split <;> exact h.pass ht rfl nofun nofun
  | entering c =>
    simp only [Service.step]
    split
    · exact h.pass ht rfl nofun nofun
    · split
      · split
        · exact h.pass ht rfl nofun nofun
        · exact h.join ht rfl
      · exact h.join ht rfl
  | evicting c o =>
    simp only [Service.step]
    split
    · rename_i ho
      exact h.take ht ho (fun _ => List.count_append) rfl
    · exact h.pass ht rfl nofun nofun
  | dropping c o => exact h.drop hdistinct ht (fun _ => List.count_append) rfl
  | resuming c =>
    simp only [Service.step]
    split
    · exact h.pass ht rfl nofun nofun
    · exact h.join ht rfl
  | refusing c | expiring c =>
    exact h.drop hdistinct ht (fun x => (Nat.zero_add _).symm) rfl
  | timer c =>
    simp only [Service.step]
    split
    · rename_i ho
      exact h.take ht ho (fun x => (Nat.zero_add _).symm) rfl
    · exact h.pass ht rfl nofun nofun
  | splicing dst src => exact h.pass ht rfl (fun _ => id) nofun
  | failing dst src => exact h.close ht rfl (fun _ => id) nofun
  | failed dst =>
    refine h.close ht rfl (fun _ => id) ?_
    rintro d ⟨⟩
    exact Service.not_mem_live_release hdistinct
  | forgetting dst => exact h.forget ht
  | leaving => exact h.keep ht rfl rfl rfl rfl (fun _ => id) rfl nofun nofun
  | stopping =>
    simp only [Service.step]
    split
    · exact h.pass ht rfl nofun nofun
    · exact h.stop ht
  | closing waiting active =>
    simp only [Service.step]
    split
    · rename_i c hc
      exact h.drop hdistinct ht (count_eraseIdx hc) rfl
    · rename_i hnone
      obtain rfl : waiting = [] := by
        by_contra hne
        have hpos := List.length_pos_of_ne_nil hne
        exact absurd (Nat.mod_lt choice hpos) (Nat.not_lt.mpr (List.getElem?_eq_none_iff.mp hnone))
      split
      · exact h.close ht rfl nofun nofun
      · exact h.pass ht rfl nofun nofun
  | joining =>
    simp only [Service.step]
    split <;> exact h.pass ht rfl nofun nofun
  | returned => exact h.pass ht rfl nofun nofun
  | done => exact h.pass ht rfl nofun nofun

theorem new : Ownership digest ({} : RelaySystem χ) where
  once _ := Nat.zero_le 1
  fresh _ _ := rfl
  owned := nofun
  keyed := nofun
  known := nofun
  ended := nofun

/-- A new connection belongs to the goroutine that handles it. -/
theorem accept {limits : Limits} (h : s.Ownership digest) (hledger : s.service.Ledger limits)
    (c : Conn) : Ownership digest
      ⟨s.service.admitConn c, s.tasks ++ [.handshaking s.service.size]⟩ := by
  have hshare (d : ConnRef) :
      share ⟨s.service.admitConn c, s.tasks ++ [.handshaking s.service.size]⟩ d =
        s.share d + [s.service.size].count d := by
    have hone : tally (fun t => t.owns.count d) [Task.handshaking s.service.size] =
        [s.service.size].count d := Nat.add_zero _
    show tally _ (s.tasks ++ _) + s.service.waitCount d + s.service.active.count d = _
    rw [tally_append, hone, share]
    omega
  have hother {d : ConnRef} (hd : d ≠ s.service.size) : [s.service.size].count d = 0 :=
    List.count_eq_zero.mpr fun hmem => hd (List.mem_singleton.mp hmem)
  have hfresh := h.fresh _ le_rfl
  constructor
  · intro d
    rw [hshare]
    by_cases hd : d = s.service.size
    · rw [hd, hfresh, List.count_singleton_self]
    · rw [hother hd]
      exact h.once d
  · intro d hd
    have hd : s.service.size < d := hd
    rw [hshare, hother hd.ne', h.fresh d hd.le]
  · intro d hd
    rw [hshare]
    rcases List.mem_cons.mp hd with rfl | hd
    · rw [hfresh, List.count_singleton_self]
    · rw [hother (hledger.known d hd).ne, h.owned d hd]
  · intro ch d hd
    have hlt : d < s.service.size := by
      have hpos := Service.waitCount_pos (m := s.service) hd
      refine h.lt_size (Nat.lt_of_lt_of_le hpos ?_)
      rw [share]
      omega
    show (Function.update s.service.conn s.service.size c d).channel digest = ch
    rw [Function.update_of_ne hlt.ne]
    exact h.keyed ch d hd
  · intro t ht d hd
    rcases List.mem_append.mp ht with ht | ht
    · exact Nat.lt_succ_of_lt (h.known t ht d hd)
    · obtain rfl := List.mem_singleton.mp ht
      cases hd
  · intro d hd hmem
    have hd : .forgetting d ∈ s.tasks := by simpa using hd
    rcases List.mem_cons.mp hmem with rfl | hmem
    · exact (h.known _ hd _ rfl).ne rfl
    · exact h.ended d hd hmem

/-- `Close` begins. -/
theorem call (h : s.Ownership digest) :
    Ownership digest { s with tasks := s.tasks ++ [.stopping] } := by
  have hshare (d : ConnRef) : share { s with tasks := s.tasks ++ [.stopping] } d = s.share d := by
    have hone : tally (fun t => t.owns.count d) [Task.stopping] = 0 := rfl
    rw [share, tally_append, hone, share]
    rfl
  constructor
  · intro d
    rw [hshare]
    exact h.once d
  · intro d hd
    rw [hshare]
    exact h.fresh d hd
  · intro d hd
    rw [hshare]
    exact h.owned d hd
  · exact h.keyed
  · intro t ht d hd
    rcases List.mem_append.mp ht with ht | ht
    · exact h.known t ht d hd
    · obtain rfl := List.mem_singleton.mp ht
      cases hd
  · intro d hd
    exact h.ended d (by simpa using hd)

/-- A connection is closed by somebody else. -/
theorem closeConn (h : s.Ownership digest) (c : ConnRef) :
    Ownership digest { s with service := s.service.release c } := by
  have hshare (d : ConnRef) : share { s with service := s.service.release c } d = s.share d := by
    rw [share, Service.waitCount_release, Service.active_release, share]
  constructor
  · intro d
    rw [hshare]
    exact h.once d
  · intro d hd
    rw [hshare]
    exact h.fresh d (by rwa [← Service.size_release])
  · intro d hd
    rw [hshare]
    exact h.owned d (Service.live_release d hd)
  · intro ch d hd
    rw [Service.waiting_release] at hd
    rw [Service.channel, Service.conn_release]
    exact h.keyed ch d hd
  · intro t ht d hd
    rw [Service.size_release]
    exact h.known t ht d hd
  · intro d hd hmem
    exact h.ended d hd (Service.live_release d hmem)

end Ownership

namespace Shutdown

variable {digest s} {k : Nat} {t t' : Task} {m' : Service χ} {started : List Task} {c : ConnRef}

/-- A step that counts the splices it starts and ends, and starts none once `Close` has begun. -/
theorem advance (h : s.Shutdown) (ht : s.tasks[k]? = some t)
    (hempty : m'.closed = true → m'.waiting = ∅)
    (hclosed : s.service.closed = true → m'.closed = true)
    (hstopped : ∀ u ∈ t' :: started, u.stopped = true → m'.closed = true)
    (hwg : m'.wg + t.splices = s.service.wg + t'.splices + tally Task.splices started)
    (hless : s.service.closed = true → t'.splices + tally Task.splices started ≤ t.splices)
    (hreturned : .returned ∈ t' :: started → s.service.closed = true ∧ s.service.wg = 0) :
    Shutdown (s.after k (m', t', started)) := by
  have htally : tally Task.splices (s.tasks.set k t' ++ started) + t.splices =
      tally Task.splices s.tasks + t'.splices + tally Task.splices started := by
    have hset := tally_set (f := Task.splices) (b := t') ht
    rw [tally_append]
    omega
  have hold := h.wg_eq
  constructor
  · exact hempty
  · intro u hu hstop
    rcases mem_tasks hu with hu | ⟨j, -, hj⟩
    · exact hstopped u hu hstop
    · exact hclosed (h.closed u (List.mem_of_getElem? hj) hstop)
  · show m'.wg = ((tally Task.splices (s.tasks.set k t' ++ started) : Nat) : Int)
    omega
  · intro hmem
    obtain ⟨hdone, hzero⟩ : s.service.closed = true ∧ tally Task.splices s.tasks = 0 := by
      rcases mem_tasks hmem with hnew | ⟨j, -, hj⟩
      · obtain ⟨hdone, hwait⟩ := hreturned hnew
        exact ⟨hdone, by omega⟩
      · have hj := List.mem_of_getElem? hj
        exact ⟨h.closed _ hj rfl, h.ended hj⟩
    have := hless hdone
    show tally Task.splices (s.tasks.set k t' ++ started) = 0
    omega

/-- A step that changes neither the map, the flag nor the wait group. -/
theorem keep (h : s.Shutdown) (ht : s.tasks[k]? = some t) (hwaiting : m'.waiting = s.service.waiting)
    (hclosed : m'.closed = s.service.closed) (hwg : m'.wg = s.service.wg)
    (hsplices : t'.splices = t.splices) (hstopped : t'.stopped = true → s.service.closed = true)
    (hreturned : .returned = t' → s.service.wg = 0) :
    Shutdown (s.after k (m', t', [])) := by
  refine h.advance ht ?_ ?_ ?_ ?_ ?_ ?_
  · rw [hclosed, hwaiting]
    exact h.empty
  · rw [hclosed]
    exact id
  · intro u hu hstop
    obtain rfl := List.mem_singleton.mp hu
    rw [hclosed]
    exact hstopped hstop
  · rw [hwg, hsplices]
    exact (add_zero _).symm
  · intro _
    rw [hsplices]
    exact le_rfl
  · intro hmem
    obtain rfl := List.mem_singleton.mp hmem
    exact ⟨hstopped rfl, hreturned rfl⟩

theorem release (h : s.Shutdown) (ht : s.tasks[k]? = some t) (hsplices : t'.splices = t.splices)
    (hstopped : t'.stopped = true → t.stopped = true) (hreturned : .returned ≠ t') :
    Shutdown (s.after k (s.service.release c, t', [])) :=
  h.keep ht Service.waiting_release Service.closed_release Service.wg_release hsplices
    (fun hstop => h.closed t (List.mem_of_getElem? ht) (hstopped hstop))
    fun he => absurd he hreturned

theorem pass (h : s.Shutdown) (ht : s.tasks[k]? = some t) (hsplices : t'.splices = t.splices)
    (hstopped : t'.stopped = true → t.stopped = true) (hreturned : .returned ≠ t') :
    Shutdown (s.after k (s.service, t', [])) :=
  h.keep ht rfl rfl rfl hsplices
    (fun hstop => h.closed t (List.mem_of_getElem? ht) (hstopped hstop))
    fun he => absurd he hreturned

/-- A waiting connection leaves the map. -/
theorem unwait (h : s.Shutdown) (ht : s.tasks[k]? = some t) (hsplices : t'.splices = t.splices)
    (hstopped : t'.stopped = false) :
    Shutdown (s.after k (s.service.unwait digest c, t', [])) := by
  have hrunning {u : Task} (hu : u ∈ [t']) : u.stopped = false := by
    rw [List.mem_singleton.mp hu]
    exact hstopped
  refine h.advance ht ?_ id ?_ ?_ ?_ ?_
  · intro hclosed
    show s.service.waiting.erase _ = ∅
    rw [h.empty hclosed]
    rfl
  · intro u hu hstop
    rw [hrunning hu] at hstop
    cases hstop
  · rw [hsplices]
    exact (add_zero _).symm
  · intro _
    rw [hsplices]
    exact le_rfl
  · intro hmem
    cases hrunning hmem

/-- A connection that is paired or begins to wait, which happens only before `Close`. -/
theorem join (h : s.Shutdown) (ht : s.tasks[k]? = some t) (hclosed : ¬s.service.closed = true)
    (hsplices : t.splices = 0) : Shutdown (s.after k (s.service.join digest c)) := by
  unfold Service.join
  split
  · refine h.advance ht (fun hc => absurd hc hclosed) id ?_ ?_ (fun hc => absurd hc hclosed) nofun
    · rintro u (_ | ⟨_, _ | ⟨_, hu⟩⟩) hstop
      · cases hstop
      · cases hstop
      · cases hu
    · rw [hsplices]
      show s.service.wg + 0 = s.service.wg + 0 + 0
      omega
  · refine h.advance ht (fun hc => absurd hc hclosed) id ?_ ?_ (fun hc => absurd hc hclosed) nofun
    · rintro u (_ | ⟨_, _ | ⟨_, hu⟩⟩) hstop
      · cases hstop
      · cases hstop
      · cases hu
    · rw [hsplices]
      show s.service.wg + 2 + 0 = s.service.wg + 1 + 1
      omega

theorem step {ok : Bool} {choice : Nat} (h : s.Shutdown) (ht : s.tasks[k]? = some t) :
    Shutdown (s.after k (s.service.step digest ok choice t)) := by
  cases t with
  | handshaking c =>
    simp only [Service.step]
    split <;> exact h.pass ht rfl nofun nofun
  | entering c =>
    simp only [Service.step]
    split
    · exact h.pass ht rfl nofun nofun
    · rename_i hclosed
      split
      · split
        · exact h.pass ht rfl nofun nofun
        · exact h.join ht hclosed rfl
      · exact h.join ht hclosed rfl
  | evicting c o =>
    simp only [Service.step]
    split
    · exact h.unwait ht rfl rfl
    · exact h.pass ht rfl nofun nofun
  | resuming c =>
    simp only [Service.step]
    split
    · exact h.pass ht rfl nofun nofun
    · rename_i hclosed
      exact h.join ht hclosed rfl
  | timer c =>
    simp only [Service.step]
    split
    · exact h.unwait ht rfl rfl
    · exact h.pass ht rfl nofun nofun
  | dropping c o => exact h.release ht rfl nofun nofun
  | refusing c | expiring c | failed c => exact h.release ht rfl nofun nofun
  | failing dst src => exact h.release ht rfl nofun nofun
  | splicing dst src => exact h.pass ht rfl nofun nofun
  | forgetting dst => exact h.keep ht rfl rfl rfl rfl nofun nofun
  | leaving =>
    refine h.advance ht h.empty id ?_ ?_ (fun _ => Nat.zero_le _) nofun
    · rintro u (_ | ⟨_, hu⟩) hstop
      · cases hstop
      · cases hu
    · show s.service.wg - 1 + 1 = s.service.wg + 0 + 0
      omega
  | stopping =>
    simp only [Service.step]
    split
    · rename_i hclosed
      exact h.keep ht rfl rfl rfl rfl (fun _ => hclosed) nofun
    · exact h.advance ht (fun _ => rfl) (fun _ => rfl) (fun _ _ _ => rfl) (add_zero _).symm
        (fun _ => le_rfl) nofun
  | closing waiting active =>
    simp only [Service.step]
    split
    · exact h.release ht rfl (fun _ => rfl) nofun
    · split
      · exact h.release ht rfl (fun _ => rfl) nofun
      · exact h.pass ht rfl (fun _ => rfl) nofun
  | joining =>
    simp only [Service.step]
    split
    · rename_i hwg
      exact h.keep ht rfl rfl rfl rfl (fun _ => h.closed _ (List.mem_of_getElem? ht) rfl)
        fun _ => hwg
    · exact h.pass ht rfl (fun _ => rfl) nofun
  | returned =>
    have hmem := List.mem_of_getElem? ht
    refine h.keep ht rfl rfl rfl rfl (fun _ => h.closed _ hmem rfl) fun _ => ?_
    rw [h.wg_eq, h.ended hmem]
    rfl
  | done => exact h.pass ht rfl nofun nofun

theorem new : Shutdown ({} : RelaySystem χ) where
  empty := nofun
  closed := nofun
  wg_eq := rfl
  ended := nofun

/-- A goroutine is started that neither splices nor has closed the service. -/
theorem start (h : s.Shutdown) (hwaiting : m'.waiting = s.service.waiting)
    (hclosed : m'.closed = s.service.closed) (hwg : m'.wg = s.service.wg)
    (hstarted : ∀ u ∈ started, u.splices = 0 ∧ u.stopped = false) :
    Shutdown ⟨m', s.tasks ++ started⟩ := by
  have htally : tally Task.splices (s.tasks ++ started) = tally Task.splices s.tasks := by
    rw [tally_append, tally_eq_zero fun u hu => (hstarted u hu).1, Nat.add_zero]
  have hold {u : Task} (hu : u ∈ s.tasks ++ started) (hstop : u.stopped = true) : u ∈ s.tasks := by
    rcases List.mem_append.mp hu with hu | hu
    · exact hu
    · rw [(hstarted u hu).2] at hstop
      cases hstop
  constructor
  · rw [hclosed, hwaiting]
    exact h.empty
  · intro u hu hstop
    rw [hclosed]
    exact h.closed u (hold hu hstop) hstop
  · rw [hwg, htally]
    exact h.wg_eq
  · intro hmem
    rw [htally]
    exact h.ended (hold hmem rfl)

end Shutdown

variable {limits : Limits}

/-- The three invariants, which every step keeps. -/
structure Sound (digest : Key → Key → χ) (limits : Limits) (s : RelaySystem χ) : Prop where
  ledger : s.service.Ledger limits
  ownership : s.Ownership digest
  shutdown : s.Shutdown

theorem Sound.next {digest : Key → Key → χ} {s : RelaySystem χ} (h : s.Sound digest limits)
    (i : RelayStep) : (s.next digest limits i).Sound digest limits := by
  cases i with
  | accept c =>
    simp only [RelaySystem.next]
    split
    · rename_i hroom
      refine ⟨h.ledger.admitConn hroom, h.ownership.accept h.ledger c,
        h.shutdown.start rfl rfl rfl ?_⟩
      intro u hu
      rw [List.mem_singleton.mp hu]
      exact ⟨rfl, rfl⟩
    · exact h
  | close =>
    refine ⟨h.ledger, h.ownership.call, h.shutdown.start rfl rfl rfl ?_⟩
    intro u hu
    rw [List.mem_singleton.mp hu]
    exact ⟨rfl, rfl⟩
  | closeConn c =>
    refine ⟨h.ledger.release c, h.ownership.closeConn c, ?_⟩
    show Shutdown ⟨s.service.release c, s.tasks⟩
    rw [← List.append_nil s.tasks]
    exact h.shutdown.start Service.waiting_release Service.closed_release Service.wg_release nofun
  | advance k ok choice =>
    simp only [RelaySystem.next]
    split
    · rename_i t ht
      exact ⟨h.ledger.step, h.ownership.step h.ledger.distinct ht, h.shutdown.step ht⟩
    · exact h

/-- The state of the relay after a run from its start. -/
def reached (digest : Key → Key → χ) (limits : Limits) (is : List RelayStep) : RelaySystem χ :=
  run (next digest limits) {} is

theorem sound_reached (digest : Key → Key → χ) (limits : Limits) (is : List RelayStep) :
    (reached digest limits is).Sound digest limits := by
  induction is using List.reverseRecOn with
  | nil => exact ⟨Service.ledger_new, Ownership.new, Shutdown.new⟩
  | append_singleton is i ih =>
    rw [reached, run_snoc]
    exact ih.next i

/-- How many goroutines handle a connection they have not paired. -/
def handled (s : RelaySystem χ) (c : ConnRef) : Nat := s.tasks.countP fun t => t.unpaired = some c

/-- The owners of a connection when nothing has been taken out of the map. -/
theorem share_of_settled {s : RelaySystem χ} (h : ∀ t ∈ s.tasks, t.taken = []) (c : ConnRef) :
    s.share c = s.handled c + s.service.waitCount c + s.service.active.count c := by
  have htasks (l : List Task) (hl : ∀ t ∈ l, t.taken = []) :
      tally (fun t => t.owns.count c) l = l.countP fun t => t.unpaired = some c := by
    induction l with
    | nil => rfl
    | cons t l ih =>
      rw [tally_cons, ih fun u hu => hl u (List.mem_cons_of_mem t hu), List.countP_cons, Task.owns,
        hl t List.mem_cons_self, List.append_nil, Nat.add_comm]
      cases t.unpaired with
      | none => rfl
      | some d => simp [List.count_singleton]
  rw [share, htasks _ h, handled]

/-- In every state of every run the counters are the numbers of open connections, within the
limits; no connection waits and is active at once; while no goroutine is about to close what it
took out of the map, an open connection has one owner; and once `Close` has returned nothing waits
and nothing is spliced. -/
theorem connections_accounted (digest : Key → Key → χ) (limits : Limits) (is : List RelayStep) :
    let s := reached digest limits is
    (s.service.conns = s.service.live.length ∧
      ∀ ip, s.service.countOf ip = s.service.openOf ip) ∧
    (0 ≤ s.service.conns ∧ s.service.conns ≤ limits.maxConns ∧
      ∀ ip, 0 ≤ s.service.countOf ip ∧ s.service.countOf ip ≤ limits.maxConnsPerIP) ∧
    (∀ ch c, s.service.waiting.lookup ch = some c → c ∉ s.service.active) ∧
    ((∀ t ∈ s.tasks, t.taken = []) → ∀ c ∈ s.service.live,
      s.handled c + s.service.waitCount c + s.service.active.count c = 1) ∧
    (.returned ∈ s.tasks → s.service.waiting = ∅ ∧ ∀ t ∈ s.tasks, t.splices = 0) := by
  intro s
  obtain ⟨ledger, ownership, shutdown⟩ : s.Sound digest limits := sound_reached digest limits is
  refine ⟨⟨ledger.conns_eq, ledger.countOf_eq⟩, ⟨?_, ledger.conns_le, ?_⟩, ?_, ?_, ?_⟩
  · rw [ledger.conns_eq]
    exact Int.natCast_nonneg _
  · intro ip
    refine ⟨?_, ledger.countOf_le ip⟩
    rw [ledger.countOf_eq]
    exact Int.natCast_nonneg _
  · intro ch c hc hactive
    have hwait := Service.waitCount_pos hc
    have hcount := List.count_pos_iff.mpr hactive
    have honce := ownership.once c
    rw [share] at honce
    omega
  · intro hsettled c hc
    rw [← share_of_settled hsettled]
    exact ownership.owned c hc
  · intro hreturned
    refine ⟨shutdown.empty (shutdown.closed _ hreturned rfl), ?_⟩
    intro t ht
    have hle := le_tally (f := Task.splices) ht
    rw [shutdown.ended hreturned] at hle
    exact Nat.le_zero.mp hle

end RelaySystem

end Veld.Relay
