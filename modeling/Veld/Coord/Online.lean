import Veld.Core.Tally
import Veld.Coord.Presence

/-!
# A connected peer is stored

The count of a peer is the number of its open streams, so a sweep that asks for a
peer without an open stream is told that it is not connected. What then keeps the
peer in the registry until its stream is counted is that the opening of the stream
does not overlap the removal. A peer that a `Watch` found in the registry stays there
as long as no sweep removes it and it does not leave.
-/

namespace Veld.Coord

namespace Connected

variable (m : Connected) (peerID p : String)

theorem count_markConnected :
    (m.markConnected peerID).count p = m.count p + if p = peerID then 1 else 0 := by
  by_cases hp : p = peerID
  · subst hp
    rw [if_pos rfl, count, markConnected, AList.lookup_insert, Option.getD_some]
  · rw [if_neg hp, count, markConnected, AList.lookup_insert_ne hp]
    rfl

theorem count_markDisconnected :
    (m.markDisconnected peerID).count p = m.count p - if p = peerID then 1 else 0 := by
  unfold markDisconnected
  by_cases hp : p = peerID
  · subst hp
    rw [if_pos rfl]
    split
    · rw [count, AList.lookup_erase, Option.getD_none]
      omega
    · rw [count, AList.lookup_insert, Option.getD_some]
  · rw [if_neg hp]
    split
    · rw [count, AList.lookup_erase_ne hp]
      rfl
    · rw [count, AList.lookup_insert_ne hp]
      rfl

end Connected

namespace Registry

variable {simpleFold : Char → Char} {peerID : String}

theorem stored_insert {r r' : Registry} {k : String} {rec : PeerRecord}
    (h : r'.peers = r.peers.insert k rec) (hs : (r.peers.lookup peerID).isSome = true) :
    (r'.peers.lookup peerID).isSome = true := by
  rw [h]
  by_cases hp : peerID = k
  · rw [hp, AList.lookup_insert]
    rfl
  · rwa [AList.lookup_insert_ne hp]

/-- A committed sweep leaves the peers it did not remove. -/
theorem stored_expel (removed : List PeerRecord) (r : Registry)
    (h : ∀ rec ∈ removed, rec.id ≠ peerID) (hs : (r.peers.lookup peerID).isSome = true) :
    ((removed.foldl expel r).peers.lookup peerID).isSome = true := by
  rw [lookup_foldl_expel h]
  exact hs

theorem stored_createNetwork (now : Int) (id : String) (cidr : Netip.Prefix)
    (name accountID : String) (r : Registry) (hs : (r.peers.lookup peerID).isSome = true) :
    ((r.next simpleFold (.createNetwork now id cidr name accountID)).peers.lookup
      peerID).isSome = true := by
  simp only [next]
  cases h : r.createNetwork now id cidr name accountID with
  | error err => exact hs
  | ok r' =>
    obtain ⟨-, rfl⟩ := createNetwork_ok h
    exact hs

theorem stored_registerPeer (p : PeerRecord) (networkID : String) (maxMachines : Int)
    (r : Registry) (hs : (r.peers.lookup peerID).isSome = true) :
    ((r.next simpleFold (.registerPeer p networkID maxMachines)).peers.lookup
      peerID).isSome = true := by
  simp only [next]
  cases h : r.registerPeer simpleFold p networkID maxMachines with
  | error err => exact hs
  | ok res =>
    obtain ⟨r₁, hr₁, hr'⟩ := registerPeer_ok h
    show (res.1.peers.lookup peerID).isSome = true
    rw [hr']
    rcases register_ok hr₁ with ⟨rec, -, -, -, -, rfl⟩ | ⟨net, -, -, -, -, -, rfl⟩
    · exact stored_insert rfl hs
    · exact stored_insert rfl hs

theorem stored_touchPeer (now : Int) (id : String) (r : Registry)
    (hs : (r.peers.lookup peerID).isSome = true) :
    ((r.next simpleFold (.touchPeer now id)).peers.lookup peerID).isSome = true := by
  simp only [next]
  cases h : r.touchPeer now id with
  | error err => exact hs
  | ok r' =>
    obtain ⟨rec, -, rfl⟩ := touchPeer_ok h
    exact stored_insert rfl hs

theorem stored_removePeer {now : Int} {id : String} (hne : peerID ≠ id) (r : Registry)
    (hs : (r.peers.lookup peerID).isSome = true) :
    ((r.next simpleFold (.removePeer now id)).peers.lookup peerID).isSome = true := by
  simp only [next, removePeer]
  cases r.peers.lookup id with
  | none => exact hs
  | some rec =>
    show ((r.peers.erase id).lookup peerID).isSome = true
    rwa [AList.lookup_erase_ne hne]

end Registry

namespace Stream

variable (w : Stream)

/-- The next step is `authorizePeer`. -/
def entering : Bool :=
  match w.phase with
  | .entered _ => true
  | _ => false

/-- The stream is between `authorizePeer` and `markConnected`. -/
def opening : Bool :=
  match w.phase with
  | .authorized _ | .verified => true
  | _ => false

/-- The peer was found in the registry and the stream has not ended. -/
def holds : Bool := w.opening || w.phase = .streaming

/-- An open stream of the peer. -/
def online (peerID : String) : Bool := w.phase = .streaming && w.req.peerId = peerID

end Stream

namespace Presence

variable {δ : Type} [DecidableEq δ] {sv : Services δ} {s : Presence δ}

/-- The opening of a stream does not overlap the removal of its peer: a sweep asks for no peer
whose stream is between `authorizePeer` and `markConnected`, and no `authorizePeer` happens for a
peer that an uncommitted sweep decided to remove. -/
def Apart (s : Presence δ) : PresenceStep → Prop
  | .ask => ∀ sw ∈ s.sweep, ∀ rec ∈ sw.stale.head?,
    ∀ w ∈ s.streams, w.opening = true → w.req.peerId ≠ rec.id
  | .advance k _ => ∀ w ∈ s.streams[k]?, w.entering = true →
    ∀ sw ∈ s.sweep, ∀ rec ∈ sw.removed, w.req.peerId ≠ rec.id
  | _ => True

instance (s : Presence δ) : (step : PresenceStep) → Decidable (s.Apart step)
  | .ask => inferInstanceAs (Decidable (∀ sw ∈ s.sweep, ∀ rec ∈ sw.stale.head?,
      ∀ w ∈ s.streams, w.opening = true → w.req.peerId ≠ rec.id))
  | .advance k _ => inferInstanceAs (Decidable (∀ w ∈ s.streams[k]?, w.entering = true →
      ∀ sw ∈ s.sweep, ∀ rec ∈ sw.removed, w.req.peerId ≠ rec.id))
  | .watch _ | .collect .. | .commit | .createNetwork .. | .register .. | .touch .. | .leave .. =>
    inferInstanceAs (Decidable True)

/-- The peer's own `Leave` found it in the registry, and it was not there since. -/
def LeftItself (past : List (Presence δ × PresenceStep)) (s : Presence δ) (peerID : String) :
    Prop :=
  s.stored peerID = false ∧ ∃ pre before now post,
    past = pre ++ (before, .leave now peerID) :: post ∧ before.stored peerID = true ∧
      ∀ x ∈ post, x.1.stored peerID = false

/-- The peer is in the registry, or it left. -/
def Kept (past : List (Presence δ × PresenceStep)) (s : Presence δ) (peerID : String) : Prop :=
  s.stored peerID = true ∨ LeftItself past s peerID

omit [DecidableEq δ] in
/-- A write transaction that does not remove the peer. -/
theorem stored_transact {op : Op} {peerID : String} (hs : s.stored peerID = true)
    (hop : ∀ r : Registry, (r.peers.lookup peerID).isSome = true →
      ((r.next sv.simpleFold op).peers.lookup peerID).isSome = true) :
    (s.transact sv op).stored peerID = true := by
  unfold transact
  split
  · exact hs
  · exact hop _ hs

section Step

variable (now : Int) (w : Stream)

/-- The stream after its next step. -/
def moved (sv : Services δ) (s : Presence δ) : Stream := { w with phase := (s.step sv now w).2 }

/-- A stream changes neither the registry nor the sweep. -/
theorem step_keeps : (s.step sv now w).1.server.registry = s.server.registry ∧
    (s.step sv now w).1.sweep = s.sweep := by
  unfold step
  split
  · split <;> exact ⟨rfl, rfl⟩
  · split <;> exact ⟨rfl, rfl⟩
  · exact ⟨rfl, rfl⟩
  · exact ⟨rfl, rfl⟩
  · split <;> exact ⟨rfl, rfl⟩
  · exact ⟨rfl, rfl⟩

theorem registry_step : (s.step sv now w).1.server.registry = s.server.registry :=
  (step_keeps now w).1

theorem sweep_step : (s.step sv now w).1.sweep = s.sweep := (step_keeps now w).2

/-- A stream of a named peer holds it from `authorizePeer` on, which found it in the registry. -/
theorem holds_moved (hname : w.req.peerId ≠ "") (h : (moved now w sv s).holds = true) :
    w.holds = true ∨ (w.entering = true ∧ s.stored w.req.peerId = true) := by
  obtain ⟨req, phase⟩ := w
  cases phase with
  | arrived =>
    simp only [moved, step] at h
    split at h
    · cases h
    · rw [if_neg hname] at h
      cases h
  | entered accountID =>
    refine .inr ⟨rfl, ?_⟩
    simp only [moved, step] at h
    split at h
    · cases h
    · rename_i rec hrec
      obtain ⟨hstored, -⟩ := authorizePeer_ok_iff.mp hrec
      exact (congrArg Option.isSome hstored).trans rfl
  | authorized rec => exact .inl rfl
  | verified => exact .inl rfl
  | streaming => exact .inl rfl
  | ended => cases h

/-- A step counts the stream when it opens and takes it back when it ends. -/
theorem count_step {p : String} (hp : p ≠ "")
    (hle : (w.online p).toNat ≤ s.connected.count p) :
    (s.step sv now w).1.connected.count p + (w.online p).toNat =
      s.connected.count p + ((moved now w sv s).online p).toNat := by
  obtain ⟨req, phase⟩ := w
  cases phase with
  | arrived =>
    simp only [moved, step]
    split
    · rfl
    · by_cases hname : req.peerId = ""
      · have hne : req.peerId ≠ p := by
          rw [hname]
          exact hp.symm
        simp [Stream.online, hne]
      · simp [Stream.online, hname]
  | entered accountID =>
    simp only [moved, step]
    split <;> rfl
  | authorized rec =>
    simp only [moved, step]
    split <;> rfl
  | verified =>
    simp only [moved, step, Connected.count_markConnected]
    by_cases heq : req.peerId = p
    · simp [Stream.online, heq]
    · simp [Stream.online, heq, Ne.symm heq]
  | streaming =>
    simp only [moved, step]
    by_cases heq : req.peerId = p
    · have hname : req.peerId ≠ "" := heq ▸ hp
      have hone : (Stream.online ⟨req, .streaming⟩ p).toNat = 1 := by simp [Stream.online, heq]
      rw [hone] at hle ⊢
      rw [if_neg hname, Connected.count_markDisconnected, if_pos heq.symm]
      show s.connected.count p - 1 + 1 = s.connected.count p + 0
      omega
    · have hnone : (Stream.online ⟨req, .streaming⟩ p).toNat = 0 := by simp [Stream.online, heq]
      rw [hnone]
      split
      · rfl
      · show (s.connected.markDisconnected req.peerId).count p + 0 = s.connected.count p + 0
        rw [Connected.count_markDisconnected, if_neg (Ne.symm heq)]
        rfl
  | ended => rfl

end Step

section Kept

variable {past : List (Presence δ × PresenceStep)} {step : PresenceStep} {peerID : String}

/-- A peer that left is registered again, or it has left still. -/
theorem LeftItself.next (h : LeftItself past s peerID) :
    Kept (past ++ [(s, step)]) (s.next sv step) peerID := by
  obtain ⟨hgone, pre, before, now, post, rfl, hbefore, hpost⟩ := h
  cases hs : (s.next sv step).stored peerID with
  | true => exact .inl hs
  | false =>
    refine .inr ⟨hs, pre, before, now, post ++ [(s, step)], by simp, hbefore, fun x hx => ?_⟩
    rcases List.mem_append.mp hx with hx | hx
    · exact hpost x hx
    · rw [List.mem_singleton.mp hx]
      exact hgone

/-- Only the commit of a sweep that removes the peer takes it away. -/
theorem Kept.next (h : Kept past s peerID)
    (hcommit : step = .commit → ∀ sw ∈ s.sweep, ∀ rec ∈ sw.removed, rec.id ≠ peerID) :
    Kept (past ++ [(s, step)]) (s.next sv step) peerID := by
  rcases h with hs | hleft
  · cases step with
    | watch req => exact .inl hs
    | advance k now =>
      refine .inl ?_
      simp only [Presence.next]
      split
      · rename_i w _
        show ((s.step sv now w).1.server.registry.peers.lookup peerID).isSome = true
        rw [registry_step]
        exact hs
      · exact hs
    | collect now ttl =>
      refine .inl ?_
      simp only [Presence.next]
      split <;> exact hs
    | ask =>
      refine .inl ?_
      simp only [Presence.next]
      split <;> exact hs
    | commit =>
      refine .inl ?_
      simp only [Presence.next]
      split
      · rename_i removed hsweep
        exact Registry.stored_expel removed _ (hcommit rfl _ hsweep) hs
      · exact hs
    | createNetwork now id cidr name accountID =>
      refine .inl ?_
      rw [Presence.next]
      exact stored_transact hs (Registry.stored_createNetwork now id cidr name accountID)
    | register p networkID maxMachines =>
      refine .inl ?_
      rw [Presence.next]
      exact stored_transact hs (Registry.stored_registerPeer p networkID maxMachines)
    | touch now id =>
      refine .inl ?_
      rw [Presence.next]
      exact stored_transact hs (Registry.stored_touchPeer now id)
    | leave now id =>
      by_cases hid : peerID = id
      · subst hid
        cases hnext : (s.next sv (.leave now peerID)).stored peerID with
        | true => exact .inl hnext
        | false => exact .inr ⟨hnext, past, s, now, [], rfl, hs, List.forall_mem_nil _⟩
      · refine .inl ?_
        rw [Presence.next]
        exact stored_transact hs (Registry.stored_removePeer hid)
  · exact hleft.next

end Kept

/-- What every run keeps whose steps are apart. -/
structure Guarded (past : List (Presence δ × PresenceStep)) (s : Presence δ) : Prop where
  counted : ∀ p, p ≠ "" → s.connected.count p = tally (fun w => (w.online p).toNat) s.streams
  /-- A peer that is to be removed is not held by a stream. -/
  apart : ∀ sw ∈ s.sweep, ∀ rec ∈ sw.removed, ∀ w ∈ s.streams,
    w.req.peerId ≠ "" → w.holds = true → rec.id ≠ w.req.peerId
  kept : ∀ w ∈ s.streams, w.req.peerId ≠ "" → w.holds = true → Kept past s w.req.peerId

namespace Guarded

variable {past : List (Presence δ × PresenceStep)} {step : PresenceStep}

/-- A held peer stays in the registry unless it leaves. -/
theorem kept_next (h : Guarded past s) (step : PresenceStep) {w : Stream} (hw : w ∈ s.streams)
    (hname : w.req.peerId ≠ "") (hholds : w.holds = true) :
    Kept (past ++ [(s, step)]) (s.next sv step) w.req.peerId :=
  (h.kept w hw hname hholds).next fun _ sw hsw rec hrec => h.apart sw hsw rec hrec w hw hname hholds

/-- No stream changes and no further removal is decided. -/
theorem quiet (h : Guarded past s) (hstreams : (s.next sv step).streams = s.streams)
    (hconnected : (s.next sv step).connected = s.connected)
    (hsweep : ∀ sw ∈ (s.next sv step).sweep, ∀ rec ∈ sw.removed,
      ∃ sw' ∈ s.sweep, rec ∈ sw'.removed) :
    Guarded (past ++ [(s, step)]) (s.next sv step) where
  counted p hp := by
    rw [hstreams, hconnected]
    exact h.counted p hp
  apart sw hsw rec hrec w hw hname hholds := by
    obtain ⟨sw', hsw', hrec'⟩ := hsweep sw hsw rec hrec
    exact h.apart sw' hsw' rec hrec' w (hstreams ▸ hw) hname hholds
  kept w hw hname hholds := h.kept_next step (hstreams ▸ hw) hname hholds

/-- Nothing changes. -/
theorem idle (h : Guarded past s) (hnext : s.next sv step = s) :
    Guarded (past ++ [(s, step)]) (s.next sv step) := by
  refine h.quiet (by rw [hnext]) (by rw [hnext]) fun sw hsw rec hrec => ?_
  rw [hnext] at hsw
  exact ⟨sw, hsw, hrec⟩

theorem transact (h : Guarded past s) {op : Op}
    (hstep : s.next sv step = s.transact sv op) :
    Guarded (past ++ [(s, step)]) (s.next sv step) := by
  have hsame : (s.transact sv op).streams = s.streams ∧
      (s.transact sv op).connected = s.connected ∧ (s.transact sv op).sweep = s.sweep := by
    unfold Presence.transact
    split <;> exact ⟨rfl, rfl, rfl⟩
  rw [← hstep] at hsame
  refine h.quiet hsame.1 hsame.2.1 fun sw hsw rec hrec => ?_
  rw [hsame.2.2] at hsw
  exact ⟨sw, hsw, hrec⟩

theorem watch (h : Guarded past s) (req : WatchRequest) :
    Guarded (past ++ [(s, .watch req)]) (s.next sv (.watch req)) where
  counted p hp := by
    show s.connected.count p = tally _ (s.streams ++ [⟨req, .arrived⟩])
    rw [tally_append, h.counted p hp]
    rfl
  apart sw hsw rec hrec w hw hname hholds := by
    rcases List.mem_append.mp hw with hw | hw
    · exact h.apart sw hsw rec hrec w hw hname hholds
    · rw [List.mem_singleton.mp hw] at hholds
      cases hholds
  kept w hw hname hholds := by
    rcases List.mem_append.mp hw with hw | hw
    · exact h.kept_next (.watch req) hw hname hholds
    · rw [List.mem_singleton.mp hw] at hholds
      cases hholds

theorem advance (h : Guarded past s) {k : Nat} {now : Int} (hapart : s.Apart (.advance k now)) :
    Guarded (past ++ [(s, .advance k now)]) (s.next sv (.advance k now)) := by
  cases hk : s.streams[k]? with
  | none =>
    have hnext : s.next sv (.advance k now) = s := by simp only [Presence.next, hk]
    exact h.idle hnext
  | some w =>
    have hw : w ∈ s.streams := List.mem_of_getElem? hk
    have hnext : s.next sv (.advance k now) =
        { (s.step sv now w).1 with streams := s.streams.set k (moved now w sv s) } := by
      simp only [Presence.next, hk, moved]
    have hsweep : (s.next sv (.advance k now)).sweep = s.sweep := by rw [hnext, sweep_step]
    -- A stream is one of the others, or it is the one that moved.
    have hmem {x : Stream} (hx : x ∈ (s.next sv (.advance k now)).streams) :
        x ∈ s.streams ∨ x = moved now w sv s := by
      rw [hnext] at hx
      exact List.mem_or_eq_of_mem_set hx
    constructor
    · intro p hp
      have hle : (w.online p).toNat ≤ s.connected.count p := by
        rw [h.counted p hp]
        exact le_tally (f := fun w => (w.online p).toNat) hw
      have hset := tally_set (f := fun w => (w.online p).toNat) (b := moved now w sv s) hk
      have hcount : (s.step sv now w).1.connected.count p + _ = _ := count_step now w hp hle
      rw [h.counted p hp] at hcount
      rw [hnext]
      show (s.step sv now w).1.connected.count p = tally _ (s.streams.set k (moved now w sv s))
      omega
    · intro sw hsw rec hrec x hx hname hholds
      rw [hsweep] at hsw
      rcases hmem hx with hx | rfl
      · exact h.apart sw hsw rec hrec x hx hname hholds
      · rcases holds_moved now w hname hholds with hholds | ⟨hentering, -⟩
        · exact h.apart sw hsw rec hrec w hw hname hholds
        · exact (hapart w hk hentering sw hsw rec hrec).symm
    · intro x hx hname hholds
      rcases hmem hx with hx | rfl
      · exact h.kept_next _ hx hname hholds
      · rcases holds_moved now w hname hholds with hholds | ⟨-, hstored⟩
        · exact h.kept_next (w := w) _ hw hname hholds
        · exact Kept.next (.inl hstored) fun hcommit => by cases hcommit

theorem ask (h : Guarded past s) (hapart : s.Apart .ask) :
    Guarded (past ++ [(s, .ask)]) (s.next sv .ask) := by
  rcases hs : s.sweep with _ | ⟨_ | ⟨rec, stale⟩, removed⟩
  · have hnext : s.next sv .ask = s := by simp only [Presence.next, hs]
    exact h.idle hnext
  · have hnext : s.next sv .ask = s := by simp only [Presence.next, hs]
    exact h.idle hnext
  · have hnext : s.next sv .ask = { s with
        sweep := some
          ⟨stale, if s.connected.isConnected rec.id then removed else removed ++ [rec]⟩ } := by
      simp only [Presence.next, hs]
    refine ⟨by rw [hnext]; exact h.counted, ?_, fun w hw hname hholds =>
      h.kept_next .ask (by rwa [hnext] at hw) hname hholds⟩
    intro sw hsw rec' hrec' w hw hname hholds
    rw [hnext] at hsw hw
    obtain rfl := Option.some.inj hsw
    have hold : rec' ∈ removed → rec'.id ≠ w.req.peerId := fun hin =>
      h.apart _ hs rec' hin w hw hname hholds
    dsimp only at hrec'
    split at hrec'
    · exact hold hrec'
    · rename_i hoff
      rcases List.mem_append.mp hrec' with hin | hin
      · exact hold hin
      · -- The peer has no open stream, and none that is about to open.
        obtain rfl := List.mem_singleton.mp hin
        rintro hid
        have hopening : w.opening = false := by
          by_contra hop
          exact hapart _ hs rec' rfl w hw (by simpa using hop) hid.symm
        have hstreaming : w.phase = .streaming := by simpa [Stream.holds, hopening] using hholds
        have hone : (w.online rec'.id).toNat = 1 := by simp [Stream.online, hstreaming, hid]
        have hle := le_tally (f := fun w => (w.online rec'.id).toNat) hw
        rw [← h.counted rec'.id (hid ▸ hname), hone] at hle
        exact hoff (decide_eq_true hle)

theorem next (h : Guarded past s) (hapart : s.Apart step) :
    Guarded (past ++ [(s, step)]) (s.next sv step) := by
  cases step with
  | watch req => exact h.watch req
  | advance k now => exact h.advance hapart
  | collect now ttl =>
    have hnext : s.next sv (.collect now ttl) = s ∨ ∃ stale, s.next sv (.collect now ttl) =
        { s with sweep := some { stale } } := by
      simp only [Presence.next]
      split
      · exact .inl rfl
      · exact .inr ⟨_, rfl⟩
    rcases hnext with hnext | ⟨stale, hnext⟩
    · exact h.idle hnext
    · refine h.quiet (by rw [hnext]) (by rw [hnext]) fun sw hsw rec hrec => ?_
      rw [hnext] at hsw
      obtain rfl := Option.some.inj hsw
      cases hrec
  | ask => exact h.ask hapart
  | commit =>
    have hnext : s.next sv .commit = s ∨ ∃ server, s.next sv .commit =
        { s with server, sweep := none } := by
      simp only [Presence.next]
      split
      · exact .inr ⟨_, rfl⟩
      · exact .inl rfl
    rcases hnext with hnext | ⟨server, hnext⟩
    · exact h.idle hnext
    · refine h.quiet (by rw [hnext]) (by rw [hnext]) fun sw hsw => ?_
      rw [hnext] at hsw
      cases hsw
  | createNetwork now id cidr name accountID => exact h.transact rfl
  | register p networkID maxMachines => exact h.transact rfl
  | touch now id => exact h.transact rfl
  | leave now id => exact h.transact rfl

end Guarded

/-- A peer with an open stream is in the registry unless its own `Leave` removed it, in every run
in which no opening of a stream overlaps the removal of its peer. -/
theorem connected_peer_stored (server : Server δ) {steps : List PresenceStep}
    (h : Along (next sv) Apart { server } steps) :
    ∀ w ∈ (run (next sv) { server } steps).streams, w.phase = .streaming → w.req.peerId ≠ "" →
      Kept (trail (next sv) { server } steps) (run (next sv) { server } steps) w.req.peerId := by
  have hguarded : Guarded (trail (next sv) { server } steps) (run (next sv) { server } steps) := by
    refine h.invariant Guarded ?_ fun _ _ _ hg hapart => hg.next hapart
    exact ⟨fun _ _ => rfl, nofun, List.forall_mem_nil _⟩
  intro w hw hphase hname
  refine hguarded.kept w hw hname ?_
  rw [Stream.holds, hphase]
  exact Bool.or_true _

end Presence

namespace Sample

/-- A day after the time to live of a peer that registered at the epoch. -/
def later : Int := 31 * 86400 * second

def watchPeer : WatchRequest := ⟨"net", "token", "peer1", unix later, [1]⟩

/-- The server with one registered peer, after some steps. -/
def presence (steps : List PresenceStep) : Presence Bytes :=
  run (Presence.next services) { server := joined } steps

/-- The peer returns after the time to live. -/
def returning : List PresenceStep := [.watch watchPeer, .advance 0 later, .advance 0 later]

/-- The sweep of all peers older than thirty days, up to its commit. -/
def sweeping : List PresenceStep := [.collect later (30 * 86400 * second), .ask]

end Sample

namespace Presence

/-- The stream opens before the sweep asks: the peer is skipped. -/
theorem connected_peer_stored_skipped :
    let steps := Sample.returning ++ [.advance 0 Sample.later, .advance 0 Sample.later] ++
      Sample.sweeping ++ [.commit]
    (Sample.presence steps).streams.map (·.phase) = [.streaming] ∧
      Kept (trail (next Sample.services) { server := Sample.joined } steps)
        (Sample.presence steps) "peer1" := by
  intro steps
  have hphase : (Sample.presence steps).streams = [⟨Sample.watchPeer, .streaming⟩] := by
    decide +kernel
  refine ⟨by rw [hphase]; rfl, ?_⟩
  exact connected_peer_stored Sample.joined (by decide +kernel) ⟨Sample.watchPeer, .streaming⟩
    (hphase ▸ List.mem_singleton_self _) rfl (by decide)

/-- The sweep asks after the peer was authorized and before its stream is counted. The stream
opens, and the commit removes the peer, which did not leave. -/
theorem connected_peer_swept :
    let steps := Sample.returning ++ Sample.sweeping ++
      [.advance 0 Sample.later, .advance 0 Sample.later, .commit]
    let s := Sample.presence steps
    s.streams = [⟨Sample.watchPeer, .streaming⟩] ∧ s.connected.isConnected "peer1" = true ∧
      ¬Kept (trail (next Sample.services) { server := Sample.joined } steps) s "peer1" := by
  intro steps s
  refine ⟨by decide +kernel, by decide +kernel, ?_⟩
  have hgone : s.stored "peer1" = false := by decide +kernel
  rintro (hstored | ⟨-, pre, before, now, post, htrail, -⟩)
  · rw [hgone] at hstored
    cases hstored
  · have hleave : PresenceStep.leave now "peer1" ∈ steps := by
      have hmem : (before, PresenceStep.leave now "peer1") ∈
          trail (next Sample.services) { server := Sample.joined } steps := by
        rw [htrail]
        exact List.mem_append_right _ List.mem_cons_self
      exact snd_mem_of_mem_trail hmem
    simp [steps, Sample.returning, Sample.sweeping] at hleave

end Presence

end Veld.Coord
