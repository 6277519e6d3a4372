import Veld.Core.Tally
import Veld.Traversal.History

/-!
# Reported endpoints

Which endpoints the manager reports, whatever the order of its steps. The invariant
speaks only about sessions that have not ended: a call of `DeliverSignal` may still
send to the channel of one that has, but nobody reads it.
-/

namespace Veld.Traversal

open Netip Peer

/-- The invariant of the manager. -/
structure Guarded (nd : Node) (past : List (Manager × Step)) (m : Manager) : Prop where
  current : ∀ id k, m.sessions.lookup id = some k ↔
    ∃ s, m.memory[k]? = some s ∧ s.peerID = id ∧ s.phase ≠ .ended
  pending : ∀ id envelope, m.pending.lookup id = some envelope → Arrived nd past id envelope
  deliveries : ∀ d ∈ m.deliveries, Arrived nd past d.id d.envelope ∧
    ∃ s, m.memory[d.session]? = some s ∧ s.peerID = d.id
  sound : ∀ k s, m.memory[k]? = some s → s.phase ≠ .ended → Sound nd past k s

namespace Guarded

variable {nd : Node} {past : List (Manager × Step)} {m m' : Manager} {k : SessionRef}
  {s s' : NatSession} {x : Manager × Step}

theorem init : Guarded nd [] {} where
  current id k := by simp
  pending id envelope h := by simp at h
  deliveries := nofun
  sound k s h := by simp at h

theorem later (h : Guarded nd past m) : Guarded nd (past ++ [x]) m where
  current := h.current
  pending id envelope hin := (h.pending id envelope hin).later
  deliveries d hd := by
    obtain ⟨harrived, hs⟩ := h.deliveries d hd
    exact ⟨harrived.later, hs⟩
  sound k s hs hlive := (h.sound k s hs hlive).later

theorem answers (h : Guarded nd past m) (a : AList fun _ : BitVec 64 => ProbeAnswer) :
    Guarded nd past { m with answers := a } :=
  ⟨h.current, h.pending, h.deliveries, h.sound⟩

/-- The current session of the peer of a session that has not ended. -/
theorem lookup_of_live (h : Guarded nd past m) (hs : m.memory[k]? = some s)
    (hlive : s.phase ≠ .ended) : m.sessions.lookup s.peerID = some k :=
  (h.current _ _).mpr ⟨s, hs, rfl, hlive⟩

/-- A step that changes one session. -/
theorem change (h : Guarded nd past m) (hs : m.memory[k]? = some s) (hid : s'.peerID = s.peerID)
    (hsound : s'.phase ≠ .ended → Sound nd (past ++ [x]) k s')
    (hself : m'.memory[k]? = some s') (hother : ∀ j, k ≠ j → m'.memory[j]? = m.memory[j]?)
    (hcurrent : ∀ id j, m'.sessions.lookup id = some j ↔
      ∃ s, m'.memory[j]? = some s ∧ s.peerID = id ∧ s.phase ≠ .ended)
    (hpend : m'.pending = m.pending) (hdel : m'.deliveries = m.deliveries) :
    Guarded nd (past ++ [x]) m' := by
  refine ⟨hcurrent, fun id envelope hin => (h.pending id envelope (hpend ▸ hin)).later, ?_, ?_⟩
  · intro d hd
    obtain ⟨harrived, t, ht, htid⟩ := h.deliveries d (hdel ▸ hd)
    refine ⟨harrived.later, ?_⟩
    by_cases hj : k = d.session
    · subst hj
      obtain rfl := Option.mem_unique hs ht
      exact ⟨s', hself, hid.trans htid⟩
    · exact ⟨t, (hother _ hj).trans ht, htid⟩
  · intro j t ht hlive
    by_cases hj : k = j
    · subst hj
      obtain rfl := Option.mem_unique hself ht
      exact hsound hlive
    · exact (h.sound j t ((hother j hj).symm.trans ht) hlive).later

/-- A step that changes one session and does not end it. -/
theorem update (h : Guarded nd past m) (hs : m.memory[k]? = some s) (hid : s'.peerID = s.peerID)
    (hended : s'.phase = .ended ↔ s.phase = .ended)
    (hsound : s.phase ≠ .ended → Sound nd (past ++ [x]) k s')
    (hself : m'.memory[k]? = some s') (hother : ∀ j, k ≠ j → m'.memory[j]? = m.memory[j]?)
    (hsess : m'.sessions = m.sessions) (hpend : m'.pending = m.pending)
    (hdel : m'.deliveries = m.deliveries) : Guarded nd (past ++ [x]) m' := by
  refine h.change hs hid (fun hlive => hsound (mt hended.mpr hlive)) hself hother ?_ hpend hdel
  intro id j
  rw [hsess, h.current]
  by_cases hj : k = j
  · subst hj
    rw [hself, hs]
    simp [hid, hended]
  · rw [hother j hj]

/-- A step that ends a session and takes it out of the map. -/
theorem remove (h : Guarded nd past m) (hs : m.memory[k]? = some s) (hid : s'.peerID = s.peerID)
    (hlive : s.phase ≠ .ended) (hended : s'.phase = .ended)
    (hself : m'.memory[k]? = some s') (hother : ∀ j, k ≠ j → m'.memory[j]? = m.memory[j]?)
    (hsess : m'.sessions = m.sessions.erase s.peerID) (hpend : m'.pending = m.pending)
    (hdel : m'.deliveries = m.deliveries) : Guarded nd (past ++ [x]) m' := by
  refine h.change hs hid (fun hlive' => absurd hended hlive') hself hother ?_ hpend hdel
  intro id j
  rw [hsess, lookup_erase_eq_some, h.current]
  by_cases hj : k = j
  · subst hj
    rw [hself, hs]
    simp only [Option.some.injEq, exists_eq_left', hended, ne_eq, not_true_eq_false, and_false,
      iff_false]
    exact fun hne => hne.1 hne.2.1.symm
  · rw [hother j hj]
    refine and_iff_right_of_imp ?_
    -- the removed session was the only one of its peer
    rintro ⟨t, ht, htid, htlive⟩ rfl
    have hk := h.lookup_of_live hs hlive
    rw [(h.current _ _).mpr ⟨t, ht, htid, htlive⟩] at hk
    exact hj (Option.some.inj hk).symm

/-- A step that changes a session, if it exists, by a function that keeps its peer. -/
theorem modify (h : Guarded nd past m) (f : NatSession → NatSession)
    (hid : ∀ s, (f s).peerID = s.peerID) (hended : ∀ s, (f s).phase = .ended ↔ s.phase = .ended)
    (hsound : ∀ s, m.memory[k]? = some s → s.phase ≠ .ended → Sound nd (past ++ [x]) k (f s)) :
    Guarded nd (past ++ [x]) { m with memory := m.memory.modify k f } := by
  cases hs : m.memory[k]? with
  | none =>
    have hsame : m.memory.modify k f = m.memory :=
      List.modify_eq_self (List.getElem?_eq_none_iff.mp hs)
    rw [hsame]
    exact h.later
  | some s =>
    have hself : (m.memory.modify k f)[k]? = some (f s) := by
      rw [List.getElem?_modify_eq, hs]
      rfl
    have hother (j : SessionRef) (hj : k ≠ j) : (m.memory.modify k f)[j]? = m.memory[j]? :=
      List.getElem?_modify_ne f m.memory hj
    exact h.update hs (hid s) (hended s) (hsound s hs) hself hother rfl rfl rfl

theorem start (h : Guarded nd past m) (id : PeerID) (x25519Pub : BitVec 256) (nonce : BitVec 64) :
    Guarded nd (past ++ [x]) (m.start id x25519Pub nonce) := by
  unfold Manager.start
  split
  · exact h.later
  next hnone =>
    refine ⟨?_, ?_, ?_, ?_⟩
    · intro p j
      rw [lookup_insert_eq_some, h.current]
      simp only [getElem?_snoc_eq_some]
      constructor
      · rintro (⟨rfl, rfl⟩ | ⟨hne, s, hs, hid, hlive⟩)
        · exact ⟨_, .inr ⟨rfl, rfl⟩, rfl, nofun⟩
        · exact ⟨s, .inl hs, hid, hlive⟩
      · rintro ⟨s, hs | ⟨rfl, rfl⟩, hid, hlive⟩
        · refine .inr ⟨?_, s, hs, hid, hlive⟩
          rintro rfl
          rw [(h.current p j).mpr ⟨s, hs, hid, hlive⟩] at hnone
          cases hnone
        · exact .inl ⟨hid.symm, rfl⟩
    · intro p envelope hin
      exact (h.pending p envelope (lookup_erase_eq_some.mp hin).2).later
    · intro d hd
      obtain ⟨harrived, s, hs, hid⟩ := h.deliveries d hd
      exact ⟨harrived.later, s, getElem?_snoc_eq_some.mpr (.inl hs), hid⟩
    · intro j s hs hlive
      rcases getElem?_snoc_eq_some.mp hs with hs | ⟨rfl, rfl⟩
      · exact (h.sound j s hs hlive).later
      · refine ⟨?_, nofun, nofun, fun _ => rfl, nofun, nofun⟩
        intro envelope hphase
        exact (h.pending id envelope (Phase.starting.inj hphase)).later

theorem deliverSignal (h : Guarded nd past m) {fromPeerID : String} {envelope : Bytes}
    {nowSec : BitVec 64}
    (hunforged : Unforgeable nd past m (.deliverSignal fromPeerID envelope nowSec)) :
    Guarded nd (past ++ [(m, .deliverSignal fromPeerID envelope nowSec)])
      (m.deliverSignal fromPeerID envelope nowSec) := by
  have harrived {id : PeerID} (hid : hexToNatID fromPeerID = some id) :
      Arrived nd (past ++ [(m, .deliverSignal fromPeerID envelope nowSec)]) id envelope :=
    ⟨⟨_, List.mem_concat_self, fromPeerID, nowSec, rfl, hid⟩,
      fun id msg hverify => (hunforged id msg hverify).later⟩
  have hkeep : Guarded nd (past ++ [(m, .deliverSignal fromPeerID envelope nowSec)]) m := h.later
  unfold Manager.deliverSignal
  split
  · exact hkeep
  next id hid =>
    split
    · split
      · exact hkeep
      · refine ⟨hkeep.current, ?_, hkeep.deliveries, hkeep.sound⟩
        intro p env hin
        rcases lookup_insert_eq_some.mp hin with ⟨rfl, rfl⟩ | ⟨-, hin⟩
        · exact harrived hid
        · exact hkeep.pending p env hin
    next k hk =>
      refine ⟨hkeep.current, hkeep.pending, ?_, hkeep.sound⟩
      intro d hd
      rw [List.mem_append, List.mem_singleton] at hd
      rcases hd with hd | rfl
      · exact hkeep.deliveries d hd
      · obtain ⟨s, hs, hsid, -⟩ := (h.current id k).mp hk
        exact ⟨harrived hid, s, hs, hsid⟩

theorem launch (h : Guarded nd past m) (k : SessionRef) (entry : Option PeerID)
    (nowSec : BitVec 64) : Guarded nd (past ++ [(m, .launch k entry nowSec)])
      { m with memory := m.memory.modify k (·.launch nd entry nowSec) } := by
  refine h.modify _ (fun s => NatSession.peerID_launch entry nowSec) ?_ ?_
  · intro s
    unfold NatSession.launch
    split
    next buffered hphase => simp [hphase]
    · rfl
  · intro s hs hlive
    have hsound := h.sound k s hs hlive
    unfold NatSession.launch
    split
    next buffered hphase =>
      refine (Sound.deliver hsound.later ?_).rephase .gathering nofun nofun fun _ => ?_
      · intro plain hplain
        obtain ⟨envelope, rfl, hauth⟩ := Option.bind_eq_some_iff.mp hplain
        exact (hsound.buffered envelope hphase).received (h.lookup_of_live hs hlive)
          (.held hs rfl hphase hauth)
      · rw [NatSession.phase_deliver, hphase, Phase.early]
    · exact hsound.later

theorem handOver (h : Guarded nd past m) (i : Nat) (entry : Option PeerID) (nowSec : BitVec 64) :
    Guarded nd (past ++ [(m, .handOver i entry nowSec)]) (m.handOver nd i entry nowSec) := by
  unfold Manager.handOver
  split
  · exact h.later
  next d hd =>
    obtain ⟨harrived, t, ht, htid⟩ := h.deliveries d (List.mem_of_getElem? hd)
    have hmodify : Guarded nd (past ++ [(m, .handOver i entry nowSec)]) { m with
        memory := m.memory.modify d.session
          (·.deliver (nd.authenticateSignal entry d.id d.envelope nowSec)) } := by
      refine h.modify _ (fun s => s.peerID_deliver _) (fun s => by rw [s.phase_deliver]) ?_
      intro s hs hlive
      obtain rfl := Option.mem_unique ht hs
      refine (h.sound _ t hs hlive).later.deliver ?_
      intro plain hauth
      rw [htid]
      refine harrived.received ?_ (.found hd hauth)
      rw [← htid]
      exact h.lookup_of_live hs hlive
    refine ⟨hmodify.current, hmodify.pending, ?_, hmodify.sound⟩
    intro d' hd'
    exact hmodify.deliveries d' (List.mem_of_mem_eraseIdx hd')

theorem handleProbe (h : Guarded nd past m) (pkt : Bytes) (addr : AddrPort) (now : Int)
    (order : List SessionRef) : Guarded nd (past ++ [(m, .handleProbe pkt addr now order)])
      (m.handleProbe nd pkt addr now order).1 := by
  unfold Manager.handleProbe
  split
  · exact h.later
  next hlen =>
    split
    · split
      · exact h.later
      · split
        · exact h.later
        · exact h.later.answers _
    next hflags =>
      split
      · exact h.later
      next ep hep =>
        split
        · exact h.later
        next k hk =>
          refine h.modify _ (fun _ => rfl) (fun _ => Iff.rfl) ?_
          intro s hs hlive
          obtain ⟨t, ht, hpeer, hremote, htag⟩ := m.of_answered nd hk
          obtain rfl := Option.mem_unique ht hs
          refine (h.sound k t hs hlive).later.offer hpeer hremote ?_
          exact ⟨_, List.mem_concat_self,
            h.lookup_of_live hs hlive, pkt, addr, now, order, rfl, not_lt.mp hlen, hflags, hep,
            htag.symm⟩

theorem negotiate (h : Guarded nd past m) (k : SessionRef) (mv : Move) :
    Guarded nd (past ++ [x]) (m.negotiate nd k mv).1 := by
  unfold Manager.negotiate
  split
  · exact h.later
  next s hs =>
    have hmoved := s.moved nd k mv
    have hlt : k < m.memory.length := (List.getElem?_eq_some_iff.mp hs).1
    by_cases hclean : mv = .cleanUp ∧ s.phase = .returned
    · obtain ⟨rfl, hphase⟩ := hclean
      have hended : (s.move nd k .cleanUp).1.phase = .ended := by simp [NatSession.move, hphase]
      exact h.remove hs hmoved.peerID (by simp [hphase]) hended (List.getElem?_set_self hlt)
        (fun j hj => List.getElem?_set_ne hj) (if_pos hphase) rfl rfl
    · have hsess : m.sessionsAfter s mv = m.sessions := by
        unfold Manager.sessionsAfter
        split
        · exact if_neg fun hphase => hclean ⟨rfl, hphase⟩
        · rfl
      refine h.update hs hmoved.peerID (hmoved.ended_iff hclean) ?_ (List.getElem?_set_self hlt)
        (fun j hj => List.getElem?_set_ne hj) hsess rfl rfl
      intro hlive
      exact (h.sound k s hs hlive).later.move hmoved

theorem step (h : Guarded nd past m) {i : Step} (hunforged : Unforgeable nd past m i) :
    Guarded nd (past ++ [(m, i)]) (m.next nd i) := by
  cases i with
  | start id x25519Pub nonce => exact h.start id x25519Pub nonce
  | launch k entry nowSec => exact h.launch k entry nowSec
  | deliverSignal fromPeerID envelope nowSec => exact h.deliverSignal hunforged
  | handOver i entry nowSec => exact h.handOver i entry nowSec
  | handleProbe pkt addr now order => exact h.handleProbe pkt addr now order
  | negotiate k mv => exact h.negotiate k mv
  | sign id msg => exact h.later

theorem run {is : List Step} (h : Throughout (Manager.next nd) (Unforgeable nd) {} is) :
    Guarded nd (trail (Manager.next nd) {} is) (Veld.run (Manager.next nd) {} is) :=
  h.invariant (Guarded nd) init fun _ _ _ hguarded hunforged => hguarded.step hunforged

end Guarded

/-! ## Callbacks -/

/-- The callbacks for a session among the steps of a run. -/
def calls (nd : Node) (k : SessionRef) (past : List (Manager × Step)) : List Output :=
  past.flatMap fun x => (x.1.step nd x.2).2.filter (·.caller = some k)

/-- The goroutine of a session has returned. -/
def Phase.over : Phase → Bool
  | .returned | .ended => true
  | _ => false

/-- A session has had no callback, or one, and then its goroutine has returned. -/
def Called (nd : Node) (past : List (Manager × Step)) (m : Manager) (k : SessionRef) : Prop :=
  calls nd k past = [] ∨
    (calls nd k past).length = 1 ∧ ∃ s, m.memory[k]? = some s ∧ s.phase.over = true

section Callbacks

variable {nd : Node} {past : List (Manager × Step)} {m : Manager} {k : SessionRef}
  {s s' : NatSession} {i : Step} {mv : Move} {out : List Output} {o : Output}

/-- Callbacks are made by the goroutines of sessions. -/
theorem negotiate_of_caller (ho : o ∈ (m.step nd i).2) (hk : o.caller = some k) :
    ∃ mv s, i = .negotiate k mv ∧ m.memory[k]? = some s ∧ o ∈ (s.move nd k mv).2 := by
  cases i with
  | handleProbe pkt addr now order =>
    obtain ⟨reply, rfl⟩ := (m.handleProbe_effect nd pkt addr now order).2 o ho
    cases hk
  | negotiate j mv =>
    simp only [Manager.step, Manager.negotiate] at ho
    split at ho
    · cases ho
    next s hs =>
      obtain ⟨rfl, -⟩ := (s.moved nd j mv).calls ho hk
      exact ⟨mv, s, rfl, hs, ho⟩
  | start | launch | deliverSignal | handOver | sign => cases ho

/-- An endpoint is reported only after all that vouches for it. -/
theorem Guarded.vouched (h : Guarded nd past m) {id : PeerID} {ep : AddrPort}
    (hout : .endpointDiscovered k id ep ∈ (m.step nd i).2) : Vouched nd past m k id ep := by
  obtain ⟨mv, s, rfl, hs, ho⟩ := negotiate_of_caller hout rfl
  have hmoved := s.moved nd k mv
  obtain ⟨-, -, hphase, -⟩ := hmoved.calls ho rfl
  obtain ⟨rfl, hres⟩ := hmoved.discovers ho
  have hlive : s.phase ≠ .ended := by simp [hphase]
  have hsound := h.sound k s hs hlive
  obtain ⟨hpeer, hmem, hreplied⟩ := hsound.replied ep hres
  obtain ⟨plain, hreceived, hread⟩ := hsound.adopted hpeer
  exact ⟨s, plain, s.peerNonce, hs, rfl, h.lookup_of_live hs hlive, hreceived,
    offers_of_readSignal hread hmem, hreplied⟩

/-- A goroutine that has returned does not come back. -/
theorem Moved.over (h : Moved nd k s mv s' out) (hover : s.phase.over = true) :
    s'.phase.over = true := by
  cases h with
  | stay => exact hover
  | gaveUp | refused | timedOut | discovered | ended => rfl
  | sent hphase | read hphase | adopted hphase =>
    rw [hphase] at hover
    cases hover

theorem over_next (hs : m.memory[k]? = some s) (hover : s.phase.over = true) (i : Step) :
    ∃ s', (m.next nd i).memory[k]? = some s' ∧ s'.phase.over = true := by
  have hmodify (j : SessionRef) {f : NatSession → NatSession}
      (hf : (f s).phase.over = true) :
      ∃ s', (m.memory.modify j f)[k]? = some s' ∧ s'.phase.over = true := by
    by_cases hj : j = k
    · subst hj
      exact ⟨f s, by rw [List.getElem?_modify_eq, hs]; rfl, hf⟩
    · exact ⟨s, (List.getElem?_modify_ne f m.memory hj).trans hs, hover⟩
  cases i with
  | start id x25519Pub nonce =>
    simp only [Manager.next, Manager.step, Manager.start]
    split
    · exact ⟨s, hs, hover⟩
    · exact ⟨s, getElem?_snoc_eq_some.mpr (.inl hs), hover⟩
  | launch j entry nowSec =>
    refine hmodify j ?_
    rw [NatSession.launch_of_ne]
    · exact hover
    · intro buffered hphase
      rw [hphase] at hover
      cases hover
  | deliverSignal fromPeerID envelope nowSec =>
    exact ⟨s, (congrArg (·[k]?) (m.memory_deliverSignal ..)).trans hs, hover⟩
  | handOver j entry nowSec =>
    simp only [Manager.next, Manager.step, Manager.handOver]
    split
    · exact ⟨s, hs, hover⟩
    next d _ => exact hmodify d.session (by rw [NatSession.phase_deliver]; exact hover)
  | handleProbe pkt addr now order =>
    simp only [Manager.next, Manager.step]
    rcases (m.handleProbe_effect nd pkt addr now order).1 with hmem | ⟨j, ep, hmem⟩
    · exact ⟨s, hmem ▸ hs, hover⟩
    · rw [hmem]
      exact hmodify j hover
  | negotiate j mv =>
    simp only [Manager.next, Manager.step, Manager.negotiate]
    split
    · exact ⟨s, hs, hover⟩
    next t ht =>
      by_cases hj : j = k
      · subst hj
        obtain rfl := Option.mem_unique ht hs
        exact ⟨_, List.getElem?_set_self (List.getElem?_eq_some_iff.mp hs).1,
          (t.moved nd j mv).over hover⟩
      · exact ⟨s, (List.getElem?_set_ne hj).trans hs, hover⟩
  | sign id msg => exact ⟨s, hs, hover⟩

theorem Called.step (h : Called nd past m k) (i : Step) :
    Called nd (past ++ [(m, i)]) (m.next nd i) k := by
  have hcalls : calls nd k (past ++ [(m, i)]) =
      calls nd k past ++ (m.step nd i).2.filter (·.caller = some k) := by
    rw [calls, List.flatMap_append, List.flatMap_singleton]
    rfl
  rw [Called, hcalls]
  rcases List.eq_nil_or_concat ((m.step nd i).2.filter (·.caller = some k)) with hnil | ⟨_, o, ho⟩
  · rw [hnil, List.append_nil]
    refine h.imp_right ?_
    rintro ⟨hone, s, hs, hover⟩
    exact ⟨hone, over_next hs hover i⟩
  · -- a callback is the first one: the goroutine was still probing
    have hmem : o ∈ (m.step nd i).2.filter (·.caller = some k) := by
      rw [ho, List.concat_eq_append]
      exact List.mem_concat_self
    obtain ⟨hout, hcaller⟩ := List.mem_filter.mp hmem
    have hk : o.caller = some k := of_decide_eq_true hcaller
    obtain ⟨mv, s, rfl, hs, hout⟩ := negotiate_of_caller hout hk
    obtain ⟨-, hsingle, hphase, hreturned⟩ := (s.moved nd k mv).calls hout hk
    have hnone : calls nd k past = [] := by
      refine h.resolve_right ?_
      rintro ⟨-, t, ht, hover⟩
      obtain rfl := Option.mem_unique ht hs
      rw [hphase] at hover
      cases hover
    have hstep : m.step nd (.negotiate k mv) = m.negotiate nd k mv := rfl
    simp only [hnone, hstep, Manager.negotiate, hs, hsingle, Manager.next]
    refine .inr ⟨?_, (s.move nd k mv).1, ?_, ?_⟩
    · simp [hk]
    · exact List.getElem?_set_self (List.getElem?_eq_some_iff.mp hs).1
    · rw [hreturned, Phase.over]

end Callbacks

/-- Whatever the order of the steps is, an endpoint is reported for a peer only after the peer
itself has signed a signal to this node that contains the endpoint, the signal has come to the
peer's current session, and a packet with the reply tag of both nonces has come from the endpoint.
For each session that `Start` creates there is at most one callback. -/
theorem discovered_vouched {nd : Node} {is : List Step}
    (h : Throughout (Manager.next nd) (Unforgeable nd) {} is) :
    Throughout (Manager.next nd) (fun past m i => ∀ k id ep,
      .endpointDiscovered k id ep ∈ (m.step nd i).2 → Vouched nd past m k id ep) {} is ∧
    ∀ k, (calls nd k (trail (Manager.next nd) {} is)).length ≤ 1 := by
  constructor
  · rintro past i rest rfl k id ep hout
    have hpast : Throughout (Manager.next nd) (Unforgeable nd) {} past := by
      rintro past' j rest' rfl
      exact h past' j (rest' ++ i :: rest) (by simp)
    exact (Guarded.run hpast).vouched hout
  · intro k
    have hcalled : Called nd (trail (Manager.next nd) {} is) (run (Manager.next nd) {} is) k :=
      h.invariant (fun past m => Called nd past m k) (.inl rfl) fun _ _ i hcalled _ =>
        hcalled.step i
    rcases hcalled with hnil | ⟨hone, -⟩
    · rw [hnil]
      exact Nat.zero_le 1
    · exact hone.le

/-- The blob of the signal that peer 2 signs for node 1. -/
def blob : Bytes := List.replicate 60 0

/-- A node for which one message of peer 2 can be verified. -/
def listener : Node where
  localPeerID := 1
  verify key msg _ := key = keyBytes 2 && msg = signalSignedMessage 2 1 0 blob
  sign _ := List.replicate 64 0
  encryptSignal payload _ _ := some payload
  decryptSignal := some
  marshal _ := some []
  unmarshal _ := some ⟨"0000000000000003", ["192.0.2.2:51820"]⟩
  addrPortString _ := "192.0.2.1:51820"
  parseAddrPort _ := some ⟨.v4 0xc0000202, 51820⟩
  sha256 b := b.reverse
  onEndpointDiscovered := true
  onPunchTimeout := true

/-- Peer 2 signs its signal, which comes to the session after it was started, and then answers a
probe. -/
def answeredProbe : List Step :=
  [.sign 2 (signalSignedMessage 2 1 0 blob), .start 2 0 5,
    .deliverSignal (Hex.encodeToString (keyBytes 2)) (sealSignal listener.sign blob 2 1 0) 0,
    .launch 0 none 0, .negotiate 0 (.gather [⟨.v4 0xc0000201, 51820⟩] [] 0),
    .handOver 0 (some 2) 0, .negotiate 0 .receive, .negotiate 0 (.adopt 0),
    .handleProbe (buildProbe replyFlag (listener.replyTag 5 3)) ⟨.v4 0xc0000202, 51820⟩ 0 []]

theorem unforgeable_answeredProbe : Throughout (Manager.next listener) (Unforgeable listener) {}
    (answeredProbe ++ [.negotiate 0 .discover]) := by
  rintro past i rest he
  cases past with
  | nil =>
    obtain ⟨rfl, -⟩ := List.cons.inj he
    exact trivial
  | cons j past =>
    obtain ⟨rfl, -⟩ := List.cons.inj he
    cases i with
    | deliverSignal fromPeerID envelope nowSec =>
      intro id msg hverify
      obtain ⟨hkey, rfl⟩ : keyBytes id = keyBytes 2 ∧ msg = signalSignedMessage 2 1 0 blob := by
        simpa [listener] using hverify
      obtain rfl := keyBytes_inj hkey
      exact ⟨_, List.mem_cons_self, rfl⟩
    | start | launch | handOver | handleProbe | negotiate | sign => exact trivial

theorem discovered_vouched_answeredProbe :
    .endpointDiscovered 0 2 ⟨.v4 0xc0000202, 51820⟩ ∈
      ((run (Manager.next listener) {} answeredProbe).step listener (.negotiate 0 .discover)).2 ∧
    Vouched listener (trail (Manager.next listener) {} answeredProbe)
      (run (Manager.next listener) {} answeredProbe) 0 2 ⟨.v4 0xc0000202, 51820⟩ := by
  have hout : .endpointDiscovered 0 2 ⟨.v4 0xc0000202, 51820⟩ ∈
      ((run (Manager.next listener) {} answeredProbe).step listener (.negotiate 0 .discover)).2 := by
    decide +kernel
  exact ⟨hout, (discovered_vouched unforgeable_answeredProbe).1 answeredProbe _ [] rfl 0 2 _ hout⟩

end Veld.Traversal
