import Veld.Coord.Invariants

/-!
# When a peer expires

The calls of the registry with the clock readings they take. `Register` reads the
clock for `RegisteredAt` and again for `LastSeen`, the other calls read it once. A
stored peer has the time it was last seen rounded down to the hour, and a sweep
compares this with a cutoff that is not rounded. A peer is therefore safe for the
ttl less the part of an hour that the rounding took away.
-/

namespace Veld.Coord

open Netip

/-- A call of the registry without its clock reading. -/
inductive Visit
  | createNetwork (id : String) (cidr : Prefix) (name accountID : String)
  | registerPeer (registeredAt : Int) (p : PeerRecord) (networkID : String) (maxMachines : Int)
  | updateEndpoint (peerID endpoint : String)
  | touchPeer (peerID : String)
  | removePeer (peerID : String)
  | sweepStalePeers (ttl : Int) (skip : Option (String → Bool))
  | reopen

/-- A call with its clock reading, in nanoseconds. -/
structure Dated where
  now : Int
  visit : Visit

namespace Dated

/-- The call as it is made. -/
def op (d : Dated) : Op :=
  match d.visit with
  | .createNetwork id cidr name accountID => .createNetwork d.now id cidr name accountID
  | .registerPeer registeredAt p networkID maxMachines =>
    .registerPeer { p with registeredAt := unix registeredAt, lastSeen := unix d.now } networkID
      maxMachines
  | .updateEndpoint peerID endpoint => .updateEndpoint d.now peerID endpoint
  | .touchPeer peerID => .touchPeer d.now peerID
  | .removePeer peerID => .removePeer d.now peerID
  | .sweepStalePeers ttl skip => .sweepStalePeers d.now ttl skip
  | .reopen => .reopen

/-- The clock readings of a call are positive. -/
def Positive (d : Dated) : Prop :=
  0 < d.now ∧ match d.visit with
    | .registerPeer registeredAt _ _ _ => 0 < registeredAt
    | _ => True

end Dated

namespace Registry

variable (simpleFold : Char → Char)

/-- The registry after a call. -/
def dated (r : Registry) (d : Dated) : Registry := r.next simpleFold d.op

/-- The peer that a call registered, moved or touched. -/
def seen (r : Registry) (d : Dated) : Option String :=
  match d.op with
  | .registerPeer p networkID maxMachines =>
    if (r.registerPeer simpleFold p networkID maxMachines).isOk then some p.id else none
  | .updateEndpoint now peerID endpoint =>
    if (r.updateEndpoint now peerID endpoint).isOk then some peerID else none
  | .touchPeer now peerID => if (r.touchPeer now peerID).isOk then some peerID else none
  | _ => none

/-- The time of the last registration, endpoint update or touch of a peer. -/
def lastSeenAt (id : String) (past : List (Registry × Dated)) : Option Int :=
  past.foldl (fun t x => if x.1.seen simpleFold x.2 = some id then some x.2.now else t) none

variable {simpleFold} {r : Registry} {d : Dated} {k : String} {rec rec' : PeerRecord}
  {past : List (Registry × Dated)}

theorem lastSeenAt_snoc : lastSeenAt simpleFold k (past ++ [(r, d)]) =
    if r.seen simpleFold d = some k then some d.now else lastSeenAt simpleFold k past :=
  List.foldl_append

/-- A record under its id that a call wrote for the peer it saw. -/
inductive Written (r : Registry) (d : Dated) (k : String) (rec' : PeerRecord) : Prop
  | again (rec : PeerRecord) (stored : r.peers.lookup k = some rec) (id : rec'.id = rec.id)
    (endpoint : rec'.endpoint = rec.endpoint) (registeredAt : rec'.registeredAt = rec.registeredAt)
  | first (id : rec'.id = k) (endpoint : rec'.endpoint = "")
    (registeredAt : d.Positive → 0 ≤ rec'.registeredAt)

/-- A stored record is an old one, or it is that of the peer the call has seen. -/
def Recorded (simpleFold : Char → Char) (r : Registry) (d : Dated) (k : String)
    (rec' : PeerRecord) : Prop :=
  (r.seen simpleFold d ≠ some k ∧ r.peers.lookup k = some rec') ∨
  (r.seen simpleFold d = some k ∧ rec'.lastSeen = roundToHour (unix d.now) ∧ r.Written d k rec')

theorem recorded_of_lookup (hs : r.seen simpleFold d = none)
    (hl : r.peers.lookup k = some rec') : r.Recorded simpleFold d k rec' :=
  .inl ⟨by rw [hs]; exact nofun, hl⟩

/-- A call that writes the record of the peer it has seen. -/
theorem recorded_of_insert {id : String} (rec : PeerRecord) (hs : r.seen simpleFold d = some id)
    (hseen : rec.lastSeen = roundToHour (unix d.now)) (hw : r.Written d id rec)
    (hl : (r.peers.insert id rec).lookup k = some rec') : r.Recorded simpleFold d k rec' := by
  rcases lookup_insert_eq_some.mp hl with ⟨rfl, rfl⟩ | ⟨hne, hl⟩
  · exact .inr ⟨hs, hseen, hw⟩
  · refine .inl ⟨?_, hl⟩
    rw [hs]
    exact fun he => hne (Option.some.inj he).symm

theorem recorded_registerPeer {registeredAt now : Int} {p : PeerRecord} {networkID : String}
    {maxMachines : Int}
    (hl : (r.dated simpleFold ⟨now, .registerPeer registeredAt p networkID maxMachines⟩).peers.lookup
      k = some rec') :
    r.Recorded simpleFold ⟨now, .registerPeer registeredAt p networkID maxMachines⟩ k rec' := by
  simp only [dated, Dated.op, next] at hl
  generalize hp : ({ p with registeredAt := unix registeredAt, lastSeen := unix now } : PeerRecord) =
    q at hl
  cases hres : r.registerPeer simpleFold q networkID maxMachines with
  | error err =>
    rw [hres] at hl
    refine recorded_of_lookup ?_ hl
    simp only [seen, Dated.op, hp, hres]
    rfl
  | ok res =>
    rw [hres] at hl
    have hs : r.seen simpleFold ⟨now, .registerPeer registeredAt p networkID maxMachines⟩ =
        some q.id := by
      simp only [seen, Dated.op, hp, hres]
      rfl
    obtain ⟨r₁, hreg, hr⟩ := registerPeer_ok hres
    rw [show (Option.map Prod.fst (Except.ok res).toOption).getD r = res.1 from rfl, hr] at hl
    have hnow : (settled simpleFold r q networkID).lastSeen = unix now := by rw [← hp]; rfl
    rcases register_ok hreg with ⟨rec, hrec, -, -, -, rfl⟩ | ⟨net, -, -, -, -, -, rfl⟩
    · refine recorded_of_insert (renewed rec (settled simpleFold r q networkID)) hs ?_
        (.again rec hrec rfl rfl rfl) hl
      rw [renewed, hnow]
    · refine recorded_of_insert (joined (settled simpleFold r q networkID) networkID res.2) hs ?_
        (.first rfl rfl fun hpos => ?_) hl
      · rw [joined, hnow]
      · have hreg : 0 < registeredAt := hpos.2
        show 0 ≤ q.registeredAt
        rw [← hp]
        exact Int.ediv_nonneg hreg.le (by decide)

theorem recorded_touchPeer {r₁ r' : Registry} {peerID : String}
    (h : r.touchPeer d.now peerID = .ok r₁) (hs : r.seen simpleFold d = some peerID)
    (hp : r'.peers = r₁.peers) (hl : r'.peers.lookup k = some rec') :
    r.Recorded simpleFold d k rec' := by
  obtain ⟨rec, hrec, rfl⟩ := touchPeer_ok h
  rw [hp] at hl
  exact recorded_of_insert { rec with lastSeen := roundToHour (unix d.now) } hs rfl
    (.again rec hrec rfl rfl rfl) hl

/-- What is stored after a call. -/
theorem recorded_dated (hblank : ∀ k rec, r.peers.lookup k = some rec → rec.endpoint = "")
    (hl : (r.dated simpleFold d).peers.lookup k = some rec') : r.Recorded simpleFold d k rec' := by
  obtain ⟨now, visit⟩ := d
  cases visit with
  | createNetwork id cidr name accountID =>
    refine recorded_of_lookup rfl ?_
    simp only [dated, Dated.op, next] at hl
    cases hres : r.createNetwork now id cidr name accountID with
    | error err => rwa [hres] at hl
    | ok r' =>
      rw [hres] at hl
      obtain ⟨-, rfl⟩ := createNetwork_ok hres
      exact hl
  | registerPeer registeredAt p networkID maxMachines => exact recorded_registerPeer hl
  | updateEndpoint peerID endpoint =>
    simp only [dated, Dated.op, next] at hl
    cases hres : r.updateEndpoint now peerID endpoint with
    | error err =>
      rw [hres] at hl
      exact recorded_of_lookup (by simp [seen, Dated.op, hres, Except.isOk, Except.toBool]) hl
    | ok r' =>
      rw [hres] at hl
      obtain ⟨r₁, ht, rfl⟩ := updateEndpoint_ok hres
      exact recorded_touchPeer ht (by simp [seen, Dated.op, hres, Except.isOk, Except.toBool]) rfl hl
  | touchPeer peerID =>
    simp only [dated, Dated.op, next] at hl
    cases hres : r.touchPeer now peerID with
    | error err =>
      rw [hres] at hl
      exact recorded_of_lookup (by simp [seen, Dated.op, hres, Except.isOk, Except.toBool]) hl
    | ok r' =>
      rw [hres] at hl
      exact recorded_touchPeer hres (by simp [seen, Dated.op, hres, Except.isOk, Except.toBool]) rfl
        hl
  | removePeer peerID =>
    refine recorded_of_lookup rfl ?_
    simp only [dated, Dated.op, next, removePeer] at hl
    cases hrec : r.peers.lookup peerID with
    | none => rwa [hrec] at hl
    | some rec =>
      rw [hrec] at hl
      exact (lookup_erase_eq_some.mp hl).2
  | sweepStalePeers ttl skip =>
    refine recorded_of_lookup rfl ?_
    simp only [dated, Dated.op, next, sweepStalePeers] at hl
    split at hl
    · exact hl
    · exact lookup_of_foldl_expel hl
  | reopen =>
    refine recorded_of_lookup rfl ?_
    rwa [dated, show r.next simpleFold (Dated.op ⟨now, .reopen⟩) = r.reopen from rfl,
      reopen_peers hblank] at hl

/-- The records of a registry against the calls so far. -/
structure Attended (simpleFold : Char → Char) (past : List (Registry × Dated)) (r : Registry) :
    Prop where
  keyed : ∀ k rec, r.peers.lookup k = some rec → rec.id = k
  blank : ∀ k rec, r.peers.lookup k = some rec → rec.endpoint = ""
  registered : ∀ k rec, r.peers.lookup k = some rec → 0 ≤ rec.registeredAt
  lastSeen : ∀ k rec, r.peers.lookup k = some rec → ∃ t, lastSeenAt simpleFold k past = some t ∧
    0 < t ∧ rec.lastSeen = roundToHour (unix t)

theorem Attended.step (h : Attended simpleFold past r) (hd : d.Positive) :
    Attended simpleFold (past ++ [(r, d)]) (r.dated simpleFold d) where
  keyed k rec hl := by
    rcases recorded_dated h.blank hl with ⟨-, hold⟩ | ⟨-, -, ⟨rec₀, hold, hid, -, -⟩ | ⟨hid, -, -⟩⟩
    · exact h.keyed k rec hold
    · exact hid.trans (h.keyed k rec₀ hold)
    · exact hid
  blank k rec hl := by
    rcases recorded_dated h.blank hl with ⟨-, hold⟩ | ⟨-, -, ⟨rec₀, hold, -, he, -⟩ | ⟨-, he, -⟩⟩
    · exact h.blank k rec hold
    · exact he.trans (h.blank k rec₀ hold)
    · exact he
  registered k rec hl := by
    rcases recorded_dated h.blank hl with ⟨-, hold⟩ | ⟨-, -, ⟨rec₀, hold, -, -, hr⟩ | ⟨-, -, hr⟩⟩
    · exact h.registered k rec hold
    · exact hr.symm ▸ h.registered k rec₀ hold
    · exact hr hd
  lastSeen k rec hl := by
    rw [lastSeenAt_snoc]
    rcases recorded_dated h.blank hl with ⟨hs, hold⟩ | ⟨hs, hseen, -⟩
    · rw [if_neg hs]
      exact h.lastSeen k rec hold
    · rw [if_pos hs]
      exact ⟨d.now, rfl, hd.1, hseen⟩

theorem attended_run {ds : List Dated} (hpos : ∀ d ∈ ds, d.Positive) :
    Attended simpleFold (trail (dated simpleFold) empty ds) (run (dated simpleFold) empty ds) := by
  have halong : Along (dated simpleFold) (fun _ d => d.Positive) empty ds :=
    fun x hx => hpos x.2 (snd_mem_of_mem_trail hx)
  exact halong.invariant (Attended simpleFold) ⟨nofun, nofun, nofun, nofun⟩
    fun _ _ _ h hd => h.step hd

/-- The rounding takes less than an hour away. -/
theorem cutoff_le_roundToHour {t s ttl : Int} (ht : 0 < t)
    (hage : s - t + unix t % lastSeenGranularity * second ≤ ttl) :
    unix (s - ttl) ≤ roundToHour (unix t) := by
  unfold roundToHour unix lastSeenGranularity second at *
  split <;> omega

/-- A record whose last time is at or after the cutoff is not stale, also when this time is the
first hour of the epoch, which counts as never. -/
theorem not_isStale {cutoff : Int} (hr : 0 ≤ rec.registeredAt) (hc : cutoff ≤ rec.lastSeen) :
    isStale cutoff rec = false := by
  rw [isStale, decide_eq_false_iff_not]
  split <;> omega

/-- A peer is not removed by a sweep unless the time since it was last seen, counted from the full
hour before, exceeds the ttl. -/
theorem seen_peer_kept {ds : List Dated} (hpos : ∀ d ∈ ds, d.Positive) {id : String}
    {t s ttl : Int} (skip : Option (String → Bool))
    (hseen : lastSeenAt simpleFold id (trail (dated simpleFold) empty ds) = some t)
    (hage : s - t + unix t % lastSeenGranularity * second ≤ ttl) :
    let r := run (dated simpleFold) empty ds
    (∀ rec ∈ (r.sweepStalePeers s ttl skip).2, rec.id ≠ id) ∧
      (r.sweepStalePeers s ttl skip).1.peers.lookup id = r.peers.lookup id := by
  intro r
  have hattended : Attended simpleFold _ r := attended_run hpos
  have hkept : ∀ rec ∈ (r.sweepStalePeers s ttl skip).2, rec.id ≠ id := by
    intro rec hrec hid
    unfold sweepStalePeers at hrec
    split at hrec
    · cases hrec
    · obtain ⟨hstale, -⟩ := List.mem_filter.mp hrec
      obtain ⟨hmem, hstale⟩ := List.mem_filter.mp hstale
      obtain ⟨k, hk⟩ := mem_values.mp hmem
      obtain rfl : k = id := (hattended.keyed k rec hk).symm.trans hid
      obtain ⟨t', ht', hpos', hround⟩ := hattended.lastSeen k rec hk
      obtain rfl : t' = t := Option.mem_unique ht' hseen
      have hcutoff := cutoff_le_roundToHour hpos' hage
      rw [← hround] at hcutoff
      rw [not_isStale (hattended.registered k rec hk) hcutoff] at hstale
      cases hstale
  refine ⟨hkept, ?_⟩
  unfold sweepStalePeers at hkept ⊢
  split
  · rfl
  · rename_i httl
    rw [if_neg httl] at hkept
    exact lookup_foldl_expel hkept

end Registry

namespace Sample

/-- A network, and a peer that registers one second before the hour. -/
def lateVisits : List Dated :=
  [⟨second, .createNetwork "net" cidr "home" "account"⟩,
    ⟨7199 * second, .registerPeer (7199 * second) { id := "a" } "net" 0⟩]

end Sample

namespace Registry

/-- With a ttl of two hours the peer survives a sweep an hour later. -/
theorem seen_peer_kept_late :
    let r := run (dated id) empty Sample.lateVisits
    ((r.sweepStalePeers (10799 * second) (7200 * second) none).1.peers.lookup "a").isSome = true := by
  have hpos : ∀ d ∈ Sample.lateVisits, d.Positive := by
    simp [Sample.lateVisits, Dated.Positive, second]
  have hseen : lastSeenAt id "a" (trail (dated id) empty Sample.lateVisits) =
      some (7199 * second) := by decide +kernel
  have hage : 10799 * second - 7199 * second +
      unix (7199 * second) % lastSeenGranularity * second ≤ 7200 * second := by decide
  have hkept := (seen_peer_kept hpos none hseen hage).2
  intro r
  rw [hkept]
  decide +kernel

/-- With a ttl of one hour a sweep two seconds after the registration removes the peer. -/
theorem seen_peer_swept :
    let r := run (dated id) empty Sample.lateVisits
    lastSeenAt id "a" (trail (dated id) empty Sample.lateVisits) = some (7199 * second) ∧
      7201 * second - 7199 * second ≤ 3600 * second ∧
      (r.sweepStalePeers (7201 * second) (3600 * second) none).2.map PeerRecord.id = ["a"] := by
  decide +kernel

end Registry

end Veld.Coord
