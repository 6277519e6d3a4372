import Veld.Relay.Service

/-!
# Which connections the relay splices

A connection that finds a waiting one of its own client replaces it: it gives up
the lock, evicts the other one, takes the lock again and is paired with whatever
waits on the channel then. As long as no further connection of the client for the
same pair comes in between, that is a connection of the counterpart. Otherwise it
can be the further connection, and the client is spliced to itself.
-/

namespace Veld.Relay

/-- The connections come from one client and name one remote peer. -/
def Conn.SameEnd (c d : Conn) : Prop := c.clientKey = d.clientKey ∧ c.remoteKey = d.remoteKey

instance (c d : Conn) : Decidable (c.SameEnd d) := inferInstanceAs (Decidable (_ ∧ _))

/-- The connections come from different clients, and each named the other's. -/
def Conn.Matched (c d : Conn) : Prop :=
  c.clientKey ≠ d.clientKey ∧ c.remoteKey = d.clientKey ∧ d.remoteKey = c.clientKey

instance (c d : Conn) : Decidable (c.Matched d) := inferInstanceAs (Decidable (_ ∧ _))

theorem Conn.Matched.symm {c d : Conn} (h : c.Matched d) : d.Matched c :=
  ⟨h.1.symm, h.2.2, h.2.1⟩

section Channel

variable {χ : Type} {digest : Key → Key → χ}

theorem Conn.sameEnd_of_channel (hfree : CollisionFree digest) {c d : Conn}
    (hchannel : c.channel digest = d.channel digest) (hclient : c.clientKey = d.clientKey) :
    c.SameEnd d := by
  refine ⟨hclient, ?_⟩
  rcases hfree _ _ _ _ hchannel with ⟨-, hremote⟩ | ⟨hcross, hcross'⟩
  · exact hremote
  · rw [hcross', ← hclient, hcross]

/-- Different clients on one channel named each other. -/
theorem Conn.matched_of_channel (hfree : CollisionFree digest) {c d : Conn}
    (hchannel : c.channel digest = d.channel digest) (hclient : c.clientKey ≠ d.clientKey) :
    c.Matched d := by
  rcases hfree _ _ _ _ hchannel with ⟨hsame, -⟩ | ⟨hcross, hcross'⟩
  · exact absurd hsame hclient
  · exact ⟨hclient, hcross', hcross.symm⟩

end Channel

namespace Task

/-- The connection whose first critical section is next. -/
def enters : Task → Option ConnRef
  | entering c => some c
  | _ => none

/-- The connection that replaces a waiting one. -/
def reconnects : Task → Option ConnRef
  | evicting c _ => some c
  | dropping c _ => some c
  | resuming c => some c
  | _ => none

/-- The two connections of a splice that has not ended. -/
def spliced : Task → Option (ConnRef × ConnRef)
  | splicing dst src => some (dst, src)
  | failing dst src => some (dst, src)
  | _ => none

/-- The connections that may still be paired, or are. -/
def ends : Task → List ConnRef
  | handshaking c => [c]
  | entering c => [c]
  | evicting c _ => [c]
  | dropping c _ => [c]
  | resuming c => [c]
  | splicing dst src => [dst, src]
  | failing dst src => [dst, src]
  | _ => []

theorem mem_ends_of_reconnects {t : Task} {c : ConnRef} (h : c ∈ t.reconnects) : c ∈ t.ends := by
  cases t with
  | evicting d o | dropping d o | resuming d =>
    obtain rfl := Option.some.inj h
    exact List.mem_singleton_self _
  | _ => cases h

theorem mem_ends_of_spliced {t : Task} {p : ConnRef × ConnRef} (h : p ∈ t.spliced) :
    p.1 ∈ t.ends ∧ p.2 ∈ t.ends := by
  cases t with
  | splicing dst src | failing dst src =>
    obtain rfl := Option.some.inj h
    exact ⟨List.mem_cons_self, List.mem_cons_of_mem _ List.mem_cons_self⟩
  | _ => cases h

end Task

namespace RelaySystem

variable {χ : Type} [DecidableEq χ] (digest : Key → Key → χ) (limits : Limits) (s : RelaySystem χ)

/-- Two connections are spliced only if they are the two ends of a pair. -/
def Faithful : Prop :=
  ∀ t ∈ s.tasks, ∀ p ∈ t.spliced, (s.service.conn p.1).Matched (s.service.conn p.2)

/-- No connection enters while another one of its client, for the same remote peer, replaces a
waiting one. -/
def Undisturbed (s : RelaySystem χ) : RelayStep → Prop
  | .advance k _ _ => ∀ t ∈ s.tasks[k]?, ∀ c ∈ t.enters, ∀ u ∈ s.tasks, ∀ d ∈ u.reconnects,
      ¬(s.service.conn d).SameEnd (s.service.conn c)
  | _ => True

instance : Decidable s.Faithful :=
  inferInstanceAs (Decidable (∀ t ∈ s.tasks, ∀ p ∈ t.spliced, _))

instance (i : RelayStep) : Decidable (s.Undisturbed i) :=
  match i with
  | .advance k _ _ => inferInstanceAs (Decidable (∀ t ∈ s.tasks[k]?, ∀ c ∈ t.enters, ∀ u ∈ s.tasks,
      ∀ d ∈ u.reconnects, ¬(s.service.conn d).SameEnd (s.service.conn c)))
  | .accept _ | .close | .closeConn _ => inferInstanceAs (Decidable True)

/-- What the goroutines keep while no connection disturbs another. -/
structure Pairing : Prop where
  known : ∀ t ∈ s.tasks, ∀ c ∈ t.ends, c < s.service.size
  waits : ∀ ch c, s.service.waiting.lookup ch = some c →
    c < s.service.size ∧ s.service.channel digest c = ch
  faithful : s.Faithful
  alone : ∀ (i j : Nat) (t u : Task), i ≠ j → s.tasks[i]? = some t → s.tasks[j]? = some u →
    ∀ c ∈ t.reconnects, ∀ d ∈ u.reconnects, ¬(s.service.conn c).SameEnd (s.service.conn d)
  /-- A waiting connection of the same client is the one to evict. -/
  stale : ∀ t ∈ s.tasks, ∀ c ∈ t.reconnects, ∀ o, s.service.other digest c = some o →
    (s.service.conn o).clientKey = (s.service.conn c).clientKey → t = .evicting c o

end RelaySystem

namespace Service

variable {χ : Type} [DecidableEq χ] {digest : Key → Key → χ} {m : Service χ} {ok : Bool}
  {choice : Nat} {t : Task} {c o : ConnRef}

theorem other_release {d : ConnRef} : (m.release c).other digest d = m.other digest d := by
  rw [other, channel, waiting_release, conn_release]
  rfl

theorem join_of_none (h : m.other digest c = none) : m.join digest c = m.await digest c := by
  simp only [join, h]

theorem join_of_some (h : m.other digest c = some o) : m.join digest c = m.pair digest c o := by
  simp only [join, h]

end Service

namespace RelaySystem

variable {χ : Type} [DecidableEq χ] {digest : Key → Key → χ} {limits : Limits} {s : RelaySystem χ}
  {k : Nat} {t t' : Task} {m' : Service χ} {started : List Task}

namespace Pairing

/-- Nobody else replaces a waiting connection of the same end. -/
def Sole (s : RelaySystem χ) (k : Nat) (c : ConnRef) : Prop :=
  ∀ j u, j ≠ k → s.tasks[j]? = some u → ∀ d ∈ u.reconnects,
    ¬(s.service.conn d).SameEnd (s.service.conn c)

/-- A step that changes no more than it may. -/
theorem advance (h : s.Pairing digest) (hfree : CollisionFree digest)
    (hconn : m'.conn = s.service.conn) (hsize : m'.size = s.service.size)
    (hends : ∀ u ∈ t' :: started, ∀ c ∈ u.ends, c < s.service.size)
    (hwaits : ∀ ch c, m'.waiting.lookup ch = some c → s.service.waiting.lookup ch = some c ∨
      (c < s.service.size ∧ s.service.channel digest c = ch ∧ Sole s k c))
    (hmatched : ∀ u ∈ t' :: started, ∀ p ∈ u.spliced,
      (s.service.conn p.1).Matched (s.service.conn p.2))
    (hstarted : ∀ u ∈ started, u.reconnects = none)
    (hsole : ∀ c ∈ t'.reconnects, Sole s k c)
    (hstale : ∀ c ∈ t'.reconnects, ∀ o, m'.other digest c = some o →
      (s.service.conn o).clientKey = (s.service.conn c).clientKey → t' = .evicting c o) :
    Pairing digest ⟨m', s.tasks.set k t' ++ started⟩ := by
  have hnone {u : Task} (hu : u ∈ started) {c : ConnRef} (hc : c ∈ u.reconnects) : False := by
    rw [hstarted u hu] at hc
    cases hc
  constructor
  · intro u hu c hc
    rw [hsize]
    rcases mem_tasks hu with hu | ⟨j, -, hj⟩
    · exact hends u hu c hc
    · exact h.known u (List.mem_of_getElem? hj) c hc
  · intro ch c hc
    simp only [Service.channel, hconn, hsize]
    rcases hwaits ch c hc with hold | ⟨hlt, hch, -⟩
    · exact h.waits ch c hold
    · exact ⟨hlt, hch⟩
  · intro u hu p hp
    rw [hconn]
    rcases mem_tasks hu with hu | ⟨j, -, hj⟩
    · exact hmatched u hu p hp
    · exact h.faithful u (List.mem_of_getElem? hj) p hp
  · intro i j u v hij hu hv c hc d hd
    rw [hconn]
    rcases getElem?_tasks hu with ⟨rfl, rfl⟩ | ⟨hik, hu'⟩ | hu'
    · rcases getElem?_tasks hv with ⟨rfl, -⟩ | ⟨hjk, hv'⟩ | hv'
      · exact absurd rfl hij
      · exact fun hsame => hsole c hc j v hjk hv' d hd ⟨hsame.1.symm, hsame.2.symm⟩
      · exact (hnone hv' hd).elim
    · rcases getElem?_tasks hv with ⟨rfl, rfl⟩ | ⟨-, hv'⟩ | hv'
      · exact hsole d hd i u hik hu' c hc
      · exact h.alone i j u v hij hu' hv' c hc d hd
      · exact (hnone hv' hd).elim
    · exact (hnone hu' hc).elim
  · intro u hu c hc o ho hclient
    rw [hconn] at hclient
    rcases mem_tasks hu with hu | ⟨j, hj, hu⟩
    · rcases List.mem_cons.mp hu with rfl | hu
      · exact hstale c hc o ho hclient
      · exact (hnone hu hc).elim
    · have ho : m'.waiting.lookup ((s.service.conn c).channel digest) = some o := by
        rw [← hconn]
        exact ho
      rcases hwaits _ o ho with hold | ⟨-, hch, hsole'⟩
      · exact h.stale u (List.mem_of_getElem? hu) c hc o hold hclient
      · -- a connection that has begun to wait would be of the same end
        refine absurd ?_ (hsole' j u hj hu c hc)
        exact Conn.sameEnd_of_channel hfree hch.symm hclient.symm

theorem sole_of_reconnects (h : s.Pairing digest) (ht : s.tasks[k]? = some t) {c : ConnRef}
    (hc : c ∈ t.reconnects) : Sole s k c :=
  fun j u hj hu d hd => h.alone j k u t hj hu ht d hd c hc

/-- A step after which the goroutine replaces no connection. -/
theorem calm (h : s.Pairing digest) (hfree : CollisionFree digest) (ht : s.tasks[k]? = some t)
    (hconn : m'.conn = s.service.conn) (hsize : m'.size = s.service.size)
    (hwaits : ∀ ch c, m'.waiting.lookup ch = some c → s.service.waiting.lookup ch = some c)
    (hends : ∀ c ∈ t'.ends, c ∈ t.ends) (hspliced : ∀ p ∈ t'.spliced, p ∈ t.spliced)
    (hreconnects : t'.reconnects = none) : Pairing digest (s.after k (m', t', [])) := by
  have hmem := List.mem_of_getElem? ht
  have hnone {c : ConnRef} (hc : c ∈ t'.reconnects) : False := by
    rw [hreconnects] at hc
    cases hc
  refine h.advance hfree hconn hsize ?_ (fun ch c hc => .inl (hwaits ch c hc)) ?_ nofun
    (fun c hc => (hnone hc).elim) fun c hc => (hnone hc).elim
  · intro u hu c hc
    obtain rfl := List.mem_singleton.mp hu
    exact h.known t hmem c (hends c hc)
  · intro u hu p hp
    obtain rfl := List.mem_singleton.mp hu
    exact h.faithful t hmem p (hspliced p hp)

/-- A step that leaves the connections and those that wait, by a goroutine that then holds none. -/
theorem quiet (h : s.Pairing digest) (hfree : CollisionFree digest) (ht : s.tasks[k]? = some t)
    (hconn : m'.conn = s.service.conn) (hsize : m'.size = s.service.size)
    (hwaiting : m'.waiting = s.service.waiting)
    (hidle : t'.ends = [] ∧ t'.spliced = none ∧ t'.reconnects = none) :
    Pairing digest (s.after k (m', t', [])) := by
  obtain ⟨hends, hspliced, hreconnects⟩ := hidle
  refine h.calm hfree ht hconn hsize ?_ ?_ ?_ hreconnects
  · intro ch c hc
    rwa [hwaiting] at hc
  · intro c hc
    rw [hends] at hc
    cases hc
  · intro p hp
    rw [hspliced] at hp
    cases hp

/-- A step of a goroutine that releases a connection and then holds none. -/
theorem released (h : s.Pairing digest) (hfree : CollisionFree digest) (ht : s.tasks[k]? = some t)
    (c : ConnRef) (hidle : t'.ends = [] ∧ t'.spliced = none ∧ t'.reconnects = none) :
    Pairing digest (s.after k (s.service.release c, t', [])) :=
  h.quiet hfree ht Service.conn_release Service.size_release Service.waiting_release hidle

/-- A step of a goroutine that goes on replacing a connection. -/
theorem replace (h : s.Pairing digest) (hfree : CollisionFree digest) {c : ConnRef}
    (hlt : c < s.service.size) (hsole : Sole s k c) (hends : t'.ends = [c])
    (hspliced : t'.spliced = none) (hreconnects : t'.reconnects = some c)
    (hconn : m'.conn = s.service.conn) (hsize : m'.size = s.service.size)
    (hwaits : ∀ ch c, m'.waiting.lookup ch = some c → s.service.waiting.lookup ch = some c)
    (hstale : ∀ o, m'.other digest c = some o →
      (s.service.conn o).clientKey = (s.service.conn c).clientKey → t' = .evicting c o) :
    Pairing digest (s.after k (m', t', [])) := by
  refine h.advance hfree hconn hsize ?_ (fun ch c hc => .inl (hwaits ch c hc)) ?_ nofun ?_ ?_
  · intro u hu d hd
    obtain rfl := List.mem_singleton.mp hu
    rw [hends] at hd
    obtain rfl := List.mem_singleton.mp hd
    exact hlt
  · intro u hu p hp
    obtain rfl := List.mem_singleton.mp hu
    rw [hspliced] at hp
    cases hp
  · intro d hd
    rw [hreconnects] at hd
    obtain rfl := Option.some.inj hd
    exact hsole
  · intro d hd
    rw [hreconnects] at hd
    obtain rfl := Option.some.inj hd
    exact hstale

/-- A connection that nobody of its own end waits for waits or is paired with its counterpart. -/
theorem join (h : s.Pairing digest) (hfree : CollisionFree digest) {c : ConnRef}
    (hlt : c < s.service.size) (hsole : Sole s k c)
    (hother : ∀ o, s.service.other digest c = some o →
      (s.service.conn o).clientKey ≠ (s.service.conn c).clientKey) :
    Pairing digest (s.after k (s.service.join digest c)) := by
  cases ho : s.service.other digest c with
  | none =>
    rw [Service.join_of_none ho]
    refine h.advance hfree rfl rfl ?_ ?_ ?_ ?_ nofun nofun
    · rintro u (_ | ⟨_, _ | ⟨_, hu⟩⟩) d hd
      · cases hd
      · cases hd
      · cases hu
    · intro ch d hd
      rcases lookup_insert_eq_some.mp hd with ⟨rfl, rfl⟩ | ⟨-, hold⟩
      · exact .inr ⟨hlt, rfl, hsole⟩
      · exact .inl hold
    · rintro u (_ | ⟨_, _ | ⟨_, hu⟩⟩) p hp
      · cases hp
      · cases hp
      · cases hu
    · intro u hu
      obtain rfl := List.mem_singleton.mp hu
      rfl
  | some o =>
    rw [Service.join_of_some ho]
    obtain ⟨holt, hchannel⟩ := h.waits _ o ho
    have hmatched := Conn.matched_of_channel hfree hchannel (hother o ho)
    refine h.advance hfree rfl rfl ?_ ?_ ?_ ?_ nofun nofun
    · rintro u (_ | ⟨_, _ | ⟨_, hu⟩⟩) d hd
      · rcases List.mem_pair.mp hd with rfl | rfl
        · exact holt
        · exact hlt
      · rcases List.mem_pair.mp hd with rfl | rfl
        · exact hlt
        · exact holt
      · cases hu
    · intro ch d hd
      exact .inl (lookup_erase_eq_some.mp hd).2
    · rintro u (_ | ⟨_, _ | ⟨_, hu⟩⟩) p hp
      · obtain rfl := Option.some.inj hp
        exact hmatched
      · obtain rfl := Option.some.inj hp
        exact hmatched.symm
      · cases hu
    · intro u hu
      obtain rfl := List.mem_singleton.mp hu
      rfl

theorem step (h : s.Pairing digest) (hfree : CollisionFree digest) (ht : s.tasks[k]? = some t)
    (hin : ∀ c ∈ t.enters, Sole s k c) (ok : Bool) (choice : Nat) :
    Pairing digest (s.after k (s.service.step digest ok choice t)) := by
  have hmem := List.mem_of_getElem? ht
  cases t with
  | handshaking c =>
    simp only [Service.step]
    split
    · exact h.calm hfree ht rfl rfl (fun _ _ => id) (fun _ => id) nofun rfl
    · exact h.quiet hfree ht rfl rfl rfl ⟨rfl, rfl, rfl⟩
  | entering c =>
    have hlt := h.known _ hmem c List.mem_cons_self
    have hsole := hin c rfl
    simp only [Service.step]
    split
    · exact h.quiet hfree ht rfl rfl rfl ⟨rfl, rfl, rfl⟩
    · cases ho : s.service.other digest c with
      | none =>
        refine h.join hfree hlt hsole fun o ho' => ?_
        rw [ho] at ho'
        cases ho'
      | some o =>
        dsimp only
        split
        · refine h.replace hfree hlt hsole rfl rfl rfl rfl rfl (fun _ _ => id) fun o' ho' _ => ?_
          rw [Option.mem_unique ho ho']
        · rename_i hclient
          refine h.join hfree hlt hsole fun o' ho' => ?_
          rwa [← Option.mem_unique ho ho']
  | evicting c o =>
    have hlt := h.known _ hmem c List.mem_cons_self
    have hsole := h.sole_of_reconnects ht rfl
    simp only [Service.step]
    split
    · refine h.replace hfree hlt hsole rfl rfl rfl rfl rfl
        (fun ch d hd => (lookup_erase_eq_some.mp hd).2) fun o' ho' => ?_
      exact absurd rfl (lookup_erase_eq_some.mp ho').1
    · rename_i hother
      refine h.replace hfree hlt hsole rfl rfl rfl rfl rfl (fun _ _ => id) fun o' ho' hclient => ?_
      -- the other connection would still be the one that waits
      obtain rfl := (Task.evicting.inj (h.stale _ hmem c rfl o' ho' hclient)).2
      exact absurd ho' hother
  | dropping c o =>
    have hlt := h.known _ hmem c List.mem_cons_self
    refine h.replace hfree hlt (h.sole_of_reconnects ht rfl) rfl rfl rfl Service.conn_release
      Service.size_release (fun ch d hd => by rwa [Service.waiting_release] at hd) ?_
    intro o' ho' hclient
    rw [Service.other_release] at ho'
    cases h.stale _ hmem c rfl o' ho' hclient
  | resuming c =>
    have hlt := h.known _ hmem c List.mem_cons_self
    simp only [Service.step]
    split
    · exact h.quiet hfree ht rfl rfl rfl ⟨rfl, rfl, rfl⟩
    · refine h.join hfree hlt (h.sole_of_reconnects ht rfl) fun o ho hclient => ?_
      cases h.stale _ hmem c rfl o ho hclient
  | timer c =>
    simp only [Service.step]
    split
    · exact h.calm hfree ht rfl rfl (fun ch d hd => (lookup_erase_eq_some.mp hd).2) nofun nofun rfl
    · exact h.quiet hfree ht rfl rfl rfl ⟨rfl, rfl, rfl⟩
  | refusing c | expiring c | failed c =>
    exact h.released hfree ht _ ⟨rfl, rfl, rfl⟩
  | splicing dst src => exact h.calm hfree ht rfl rfl (fun _ _ => id) (fun _ => id) (fun _ => id) rfl
  | failing dst src =>
    exact h.released hfree ht _ ⟨rfl, rfl, rfl⟩
  | forgetting dst => exact h.quiet hfree ht rfl rfl rfl ⟨rfl, rfl, rfl⟩
  | leaving => exact h.quiet hfree ht rfl rfl rfl ⟨rfl, rfl, rfl⟩
  | stopping =>
    simp only [Service.step]
    split
    · exact h.quiet hfree ht rfl rfl rfl ⟨rfl, rfl, rfl⟩
    · exact h.calm hfree ht rfl rfl (fun _ _ hd => by cases hd) nofun nofun rfl
  | closing waiting active =>
    simp only [Service.step]
    split
    · exact h.released hfree ht _ ⟨rfl, rfl, rfl⟩
    · split
      · exact h.released hfree ht _ ⟨rfl, rfl, rfl⟩
      · exact h.quiet hfree ht rfl rfl rfl ⟨rfl, rfl, rfl⟩
  | joining =>
    simp only [Service.step]
    split
    · exact h.quiet hfree ht rfl rfl rfl ⟨rfl, rfl, rfl⟩
    · exact h.quiet hfree ht rfl rfl rfl ⟨rfl, rfl, rfl⟩
  | returned => exact h.quiet hfree ht rfl rfl rfl ⟨rfl, rfl, rfl⟩
  | done => exact h.quiet hfree ht rfl rfl rfl ⟨rfl, rfl, rfl⟩

/-- A goroutine that replaces a connection is not the one that was just started. -/
theorem getElem?_of_append {i : Nat} {u v : Task} {d : ConnRef} (hv : v.reconnects = none)
    (hd : d ∈ u.reconnects) (hu : (s.tasks ++ [v])[i]? = some u) : s.tasks[i]? = some u := by
  rcases getElem?_snoc_eq_some.mp hu with hu | ⟨-, rfl⟩
  · exact hu
  · rw [hv] at hd
    cases hd

/-- A new connection gets a new reference. -/
theorem accept (h : s.Pairing digest) (c : Conn) :
    Pairing digest ⟨s.service.admitConn c, s.tasks ++ [.handshaking s.service.size]⟩ := by
  have hconn {d : ConnRef} (hd : d < s.service.size) :
      (s.service.admitConn c).conn d = s.service.conn d :=
    Function.update_of_ne hd.ne _ _
  have hreconnects {u : Task} (hu : u ∈ s.tasks) {d : ConnRef} (hd : d ∈ u.reconnects) :
      d < s.service.size := h.known u hu d (Task.mem_ends_of_reconnects hd)
  have hwaiting {ch : χ} {d : ConnRef} (hd : s.service.waiting.lookup ch = some d) :
      d < s.service.size := (h.waits ch d hd).1
  constructor
  · intro u hu d hd
    rcases List.mem_append.mp hu with hu | hu
    · exact Nat.lt_succ_of_lt (h.known u hu d hd)
    · obtain rfl := List.mem_singleton.mp hu
      obtain rfl := List.mem_singleton.mp hd
      exact Nat.lt_succ_self _
  · intro ch d hd
    obtain ⟨hlt, hch⟩ := h.waits ch d hd
    refine ⟨Nat.lt_succ_of_lt hlt, ?_⟩
    rw [Service.channel, hconn hlt]
    exact hch
  · intro u hu p hp
    rcases List.mem_append.mp hu with hu | hu
    · obtain ⟨hfst, hsnd⟩ := Task.mem_ends_of_spliced hp
      rw [hconn (h.known u hu _ hfst), hconn (h.known u hu _ hsnd)]
      exact h.faithful u hu p hp
    · obtain rfl := List.mem_singleton.mp hu
      cases hp
  · intro i j u v hij hu hv d hd e he
    have hu := getElem?_of_append rfl hd hu
    have hv := getElem?_of_append rfl he hv
    rw [hconn (hreconnects (List.mem_of_getElem? hu) hd),
      hconn (hreconnects (List.mem_of_getElem? hv) he)]
    exact h.alone i j u v hij hu hv d hd e he
  · intro u hu d hd o ho hclient
    obtain ⟨i, hi⟩ := List.getElem?_of_mem hu
    have hu := List.mem_of_getElem? (getElem?_of_append rfl hd hi)
    have hlt := hreconnects hu hd
    rw [Service.other, Service.channel, hconn hlt] at ho
    rw [hconn hlt, hconn (hwaiting ho)] at hclient
    exact h.stale u hu d hd o ho hclient

/-- A goroutine joins that has to do with no connection yet. -/
theorem start (h : s.Pairing digest) : Pairing digest { s with tasks := s.tasks ++ [.stopping] } := by
  have hmem {u : Task} (hu : u ∈ s.tasks ++ [.stopping]) : u ∈ s.tasks ∨ u = .stopping :=
    (List.mem_append.mp hu).imp_right List.mem_singleton.mp
  refine ⟨fun u hu c hc => ?_, h.waits, fun u hu p hp => ?_, ?_, fun u hu c hc => ?_⟩
  · rcases hmem hu with hu | rfl
    · exact h.known u hu c hc
    · cases hc
  · rcases hmem hu with hu | rfl
    · exact h.faithful u hu p hp
    · cases hp
  · intro i j u v hij hu hv d hd e he
    exact h.alone i j u v hij (getElem?_of_append rfl hd hu) (getElem?_of_append rfl he hv) d hd e he
  · rcases hmem hu with hu | rfl
    · exact h.stale u hu c hc
    · cases hc

theorem closeConn (h : s.Pairing digest) (c : ConnRef) :
    Pairing digest { s with service := s.service.release c } := by
  constructor
  · simpa only [Service.size_release] using h.known
  · simpa only [Service.size_release, Service.waiting_release, Service.channel,
      Service.conn_release] using h.waits
  · simpa only [Faithful, Service.conn_release] using h.faithful
  · simpa only [Service.conn_release] using h.alone
  · simpa only [Service.other_release, Service.conn_release] using h.stale

theorem next (h : s.Pairing digest) (hfree : CollisionFree digest) {i : RelayStep}
    (hin : s.Undisturbed i) : Pairing digest (s.next digest limits i) := by
  cases i with
  | accept c =>
    simp only [RelaySystem.next]
    split
    · exact h.accept c
    · exact h
  | close => exact h.start
  | closeConn c => exact h.closeConn c
  | advance k ok choice =>
    simp only [RelaySystem.next]
    cases ht : s.tasks[k]? with
    | none => exact h
    | some t =>
      refine h.step hfree ht (fun c hc j u _ hu d hd => ?_) ok choice
      exact hin t ht c hc u (List.mem_of_getElem? hu) d hd

end Pairing

end RelaySystem

namespace Sample

def alice : Conn := { clientKey := 1, remoteKey := 2 }

def bob : Conn := { clientKey := 2, remoteKey := 1 }

/-- A goroutine takes some steps. -/
def go (k n : Nat) : List RelayStep := List.replicate n (.advance k true 0)

/-- The relay after some steps, with the pair of keys as the channel. -/
def relay (steps : List RelayStep) : RelaySystem (Key × Key) :=
  run (RelaySystem.next Prod.mk defaultLimits) {} steps

/-- A client connects three times. The second connection evicts the first, which waits, and the
third begins to wait before the second has taken the lock again. -/
def reconnected : List RelayStep :=
  [.accept alice] ++ go 0 2 ++ [.accept alice] ++ go 2 4 ++ [.accept alice] ++ go 3 2 ++ go 2 1

/-- A client connects twice, and the second connection replaces the first before its peer comes. -/
def replaced : List RelayStep :=
  [.accept alice] ++ go 0 2 ++ [.accept alice] ++ go 2 5 ++ [.accept bob] ++ go 4 2

end Sample

theorem collisionFree_mk : CollisionFree Prod.mk := by
  intro a b a' b' h
  unfold channelID at h
  split at h <;> split at h <;> obtain ⟨rfl, rfl⟩ := Prod.mk.inj h
  · exact .inl ⟨rfl, rfl⟩
  · exact .inr ⟨rfl, rfl⟩
  · exact .inr ⟨rfl, rfl⟩
  · exact .inl ⟨rfl, rfl⟩

namespace RelaySystem

variable {χ : Type} [DecidableEq χ] {digest : Key → Key → χ} {limits : Limits}

theorem pairing_new : Pairing digest ({} : RelaySystem χ) where
  known := nofun
  waits _ _ h := by cases h
  faithful := nofun
  alone := nofun
  stale := nofun

/-- In every run in which no connection enters while another one of its client and for the same
remote peer replaces a waiting one, the relay splices the two ends of a pair only. -/
theorem faithful_of_undisturbed {steps : List RelayStep} (hfree : CollisionFree digest)
    (h : Along (next digest limits) Undisturbed {} steps) :
    (run (next digest limits) {} steps).Faithful :=
  (h.keeps (Pairing digest) pairing_new fun _ _ hs hin => hs.next hfree hin).faithful

/-- The second connection of a client, which has replaced the first, is spliced to its peer. -/
theorem faithful_of_undisturbed_replaced :
    .splicing 1 2 ∈ (Sample.relay Sample.replaced).tasks ∧
      (Sample.relay Sample.replaced).Faithful :=
  ⟨by decide +kernel, faithful_of_undisturbed collisionFree_mk (by decide +kernel)⟩

/-- A client that connects again while one of its connections replaces another is spliced to
itself. -/
theorem spliced_to_itself : CollisionFree (Prod.mk : Key → Key → Key × Key) ∧
    .splicing 2 1 ∈ (Sample.relay Sample.reconnected).tasks ∧
      ((Sample.relay Sample.reconnected).service.conn 2).clientKey =
        ((Sample.relay Sample.reconnected).service.conn 1).clientKey ∧
      ¬(Sample.relay Sample.reconnected).Faithful :=
  ⟨collisionFree_mk, by decide +kernel, by decide +kernel, by decide +kernel⟩

end RelaySystem

end Veld.Relay
