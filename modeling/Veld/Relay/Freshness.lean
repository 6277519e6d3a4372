import Veld.Core.Assoc
import Veld.Core.Bytes
import Veld.Core.Run

/-!
# Replayed relay handshakes

`freshMsg1` of `relay/service.go`. Instants are nanoseconds since the Unix epoch.
The timestamp of a message is a 64-bit word that counts milliseconds and is read
as a signed number, as the client writes it. It has no monotonic reading, so all
comparisons are between wall clocks. An ephemeral key is forgotten only when the
cache is full, and only once its timestamp has become too old to pass again.
-/

namespace Veld.Relay

/-- `minDuration` of package time. -/
def minDuration : Int := -2 ^ 63

/-- `maxDuration` of package time. -/
def maxDuration : Int := 2 ^ 63 - 1

/-- `Time.Sub`: the difference is computed in an `int64` and then checked. -/
def sub (t u : Int) : Int :=
  let d := (BitVec.ofInt 64 (t - u)).toInt
  if u + d = t then d else if t < u then minDuration else maxDuration

/-- A difference that fits is exact, any other one is at the end of the range. -/
theorem sub_eq (t u : Int) : sub t u = max minDuration (min maxDuration (t - u)) := by
  have hlower := BitVec.le_toInt (BitVec.ofInt 64 (t - u))
  have hupper := BitVec.toInt_lt (x := BitVec.ofInt 64 (t - u))
  unfold sub minDuration maxDuration
  by_cases hfits : -2 ^ 63 ≤ t - u ∧ t - u ≤ 2 ^ 63 - 1
  · have hexact : (BitVec.ofInt 64 (t - u)).toInt = t - u := by
      rw [BitVec.toInt_ofInt, Int.bmod_eq_of_le] <;> omega
    simp only [hexact]
    rw [if_pos (by omega)]
    omega
  · rw [if_neg (by omega)]
    split <;> omega

/-- `msg1MaxAge`. -/
def msg1MaxAge : Int := 30 * second

/-- `maxSeenMsg1`. -/
def maxSeenMsg1 : Nat := 65536

/-- A message_1 with its decrypted payload. -/
structure Msg1 where
  msg1 : Bytes
  payload : Bytes
  size : payload.length = 32 + 8
  deriving DecidableEq

namespace Msg1

/-- The first 32 bytes of the message, copied into a `[32]byte`. -/
def ephemeral (x : Msg1) : Bytes := (x.msg1 ++ List.replicate 32 0).take 32

def timestamp (x : Msg1) : BitVec 64 := BitVec.ofNat 64 (Bytes.beNat (x.payload.drop 32))

/-- `time.UnixMilli` of the timestamp. -/
def sent (x : Msg1) : Int := x.timestamp.toInt * millisecond

/-- What makes two messages the same handshake. -/
def handshake (x : Msg1) : Bytes × BitVec 64 := (x.ephemeral, x.timestamp)

/-- When the ephemeral key may be forgotten. -/
def expiry (x : Msg1) : Int := x.sent + msg1MaxAge

theorem expiry_eq_of_handshake {x y : Msg1} (h : x.handshake = y.handshake) :
    x.expiry = y.expiry := by
  rw [expiry, sent, (Prod.mk.inj h).2, expiry, sent]

end Msg1

/-- The ephemeral keys of recent messages. -/
abbrev SeenMsg1 := AList fun _ : Bytes => Int

namespace SeenMsg1

/-- The cache without the keys that have expired. -/
def purge (seen : SeenMsg1) (now : Int) : SeenMsg1 := keepValues (fun exp => !decide (now > exp)) seen

def record (seen : SeenMsg1) (x : Msg1) : SeenMsg1 := seen.insert x.ephemeral x.expiry

def freshMsg1 (seen : SeenMsg1) (now : Int) (x : Msg1) : SeenMsg1 × Bool :=
  if sub now x.sent > msg1MaxAge ∨ sub now x.sent < -msg1MaxAge then (seen, false)
  else if (seen.lookup x.ephemeral).isSome then (seen, false)
  else if seen.entries.length ≥ maxSeenMsg1 then
    if (seen.purge now).entries.length ≥ maxSeenMsg1 then (seen.purge now, false)
    else ((seen.purge now).record x, true)
  else (seen.record x, true)

end SeenMsg1

/-- A message and the clock reading at its check. -/
structure Arrival where
  now : Int
  msg : Msg1
  deriving DecidableEq

namespace SeenMsg1

variable {seen : SeenMsg1} {a : Arrival} {exp : Int} {eph : Bytes}

def next (seen : SeenMsg1) (a : Arrival) : SeenMsg1 := (seen.freshMsg1 a.now a.msg).1

/-- The message is reported fresh. -/
def fresh (seen : SeenMsg1) (a : Arrival) : Bool := (seen.freshMsg1 a.now a.msg).2

/-- The clock and the timestamp are at most the allowed age apart. -/
def Recent (a : Arrival) : Prop :=
  a.now - a.msg.sent ≤ msg1MaxAge ∧ a.msg.sent - a.now ≤ msg1MaxAge

theorem recent_of_sub
    (h : ¬(sub a.now a.msg.sent > msg1MaxAge ∨ sub a.now a.msg.sent < -msg1MaxAge)) :
    Recent a := by
  rw [sub_eq] at h
  simp only [Recent, msg1MaxAge, second, minDuration, maxDuration] at h ⊢
  omega

/-- A check leaves the cache or purges it, and records the message if it is new, recent and there
is room. -/
theorem freshMsg1_cases (seen : SeenMsg1) (a : Arrival) :
    ∃ kept : SeenMsg1, (kept = seen ∨ kept = seen.purge a.now) ∧
      ((seen.next a = kept ∧ seen.fresh a = false) ∨
        (seen.next a = kept.record a.msg ∧ seen.fresh a = true ∧ Recent a ∧
          seen.lookup a.msg.ephemeral = none ∧ kept.entries.length < maxSeenMsg1)) := by
  unfold next fresh freshMsg1
  split
  · exact ⟨seen, .inl rfl, .inl ⟨rfl, rfl⟩⟩
  rename_i hrecent
  split
  · exact ⟨seen, .inl rfl, .inl ⟨rfl, rfl⟩⟩
  rename_i hnew
  have hnew := Option.not_isSome_iff_eq_none.mp hnew
  have hrecent := recent_of_sub hrecent
  split
  · split
    · exact ⟨seen.purge a.now, .inr rfl, .inl ⟨rfl, rfl⟩⟩
    · rename_i hroom
      exact ⟨seen.purge a.now, .inr rfl, .inr ⟨rfl, rfl, hrecent, hnew, Nat.lt_of_not_le hroom⟩⟩
  · rename_i hroom
    exact ⟨seen, .inl rfl, .inr ⟨rfl, rfl, hrecent, hnew, Nat.lt_of_not_le hroom⟩⟩

theorem recent_of_fresh (h : seen.fresh a = true) : Recent a := by
  obtain ⟨kept, -, ⟨-, hfalse⟩ | ⟨-, -, hrecent, -⟩⟩ := freshMsg1_cases seen a
  · rw [h] at hfalse
    cases hfalse
  · exact hrecent

theorem lookup_of_fresh (h : seen.fresh a = true) : seen.lookup a.msg.ephemeral = none := by
  obtain ⟨kept, -, ⟨-, hfalse⟩ | ⟨-, -, -, hnew, -⟩⟩ := freshMsg1_cases seen a
  · rw [h] at hfalse
    cases hfalse
  · exact hnew

/-- A fresh message is recorded. -/
theorem lookup_next_self (h : seen.fresh a = true) :
    (seen.next a).lookup a.msg.ephemeral = some a.msg.expiry := by
  obtain ⟨kept, -, ⟨-, hfalse⟩ | ⟨hnext, -⟩⟩ := freshMsg1_cases seen a
  · rw [h] at hfalse
    cases hfalse
  · rw [hnext]
    exact AList.lookup_insert kept

/-- A recorded message stays recorded until it has expired. -/
theorem lookup_next (h : seen.lookup eph = some exp) :
    (seen.next a).lookup eph = some exp ∨ exp < a.now := by
  by_cases hexp : exp < a.now
  · exact .inr hexp
  · refine .inl ?_
    obtain ⟨kept, hkept, hcases⟩ := freshMsg1_cases seen a
    have hkeep : kept.lookup eph = some exp := by
      rcases hkept with rfl | rfl
      · exact h
      · exact lookup_keepValues_eq_some.mpr ⟨h, by simpa using hexp⟩
    rcases hcases with ⟨hnext, -⟩ | ⟨hnext, -, -, hnew, -⟩
    · rw [hnext, hkeep]
    · have hne : eph ≠ a.msg.ephemeral := by
        rintro rfl
        rw [h] at hnew
        cases hnew
      rw [hnext, record, AList.lookup_insert_ne hne, hkeep]

theorem length_next (h : seen.entries.length ≤ maxSeenMsg1) :
    (seen.next a).entries.length ≤ maxSeenMsg1 := by
  obtain ⟨kept, hkept, hcases⟩ := freshMsg1_cases seen a
  rcases hcases with ⟨hnext, -⟩ | ⟨hnext, -, -, -, hroom⟩
  · have hle : kept.entries.length ≤ seen.entries.length := by
      rcases hkept with rfl | rfl
      · exact le_rfl
      · exact List.length_filter_le _ _
    rw [hnext]
    exact hle.trans h
  · have hle := (List.kerase_sublist a.msg.ephemeral kept.entries).length_le
    rw [hnext, record, AList.entries_insert, List.length_cons]
    omega

/-- The checks of a run that report a given handshake fresh. -/
def timesFresh (past : List (SeenMsg1 × Arrival)) (id : Bytes × BitVec 64) : Nat :=
  past.countP fun x => x.1.fresh x.2 && decide (x.2.msg.handshake = id)

/-- What a run keeps: a message that was fresh is recorded, or the clock has passed its expiry. -/
structure Guarded (past : List (SeenMsg1 × Arrival)) (seen : SeenMsg1) : Prop where
  bounded : seen.entries.length ≤ maxSeenMsg1
  recorded : ∀ x ∈ past, x.1.fresh x.2 = true →
    seen.lookup x.2.msg.ephemeral = some x.2.msg.expiry ∨ ∃ y ∈ past, x.2.msg.expiry < y.2.now
  once : ∀ id, timesFresh past id ≤ 1

variable {past : List (SeenMsg1 × Arrival)}

/-- A handshake that was fresh before is not fresh again. -/
theorem Guarded.not_fresh (h : Guarded past seen) (hclock : ∀ x ∈ past, x.2.now ≤ a.now)
    {x : SeenMsg1 × Arrival} (hx : x ∈ past) (hfresh : x.1.fresh x.2 = true)
    (hsame : x.2.msg.handshake = a.msg.handshake) : seen.fresh a = false := by
  by_contra hagain
  have hagain : seen.fresh a = true := by simpa using hagain
  rcases h.recorded x hx hfresh with hseen | ⟨y, hy, hexpired⟩
  · have hnew := lookup_of_fresh hagain
    rw [← (Prod.mk.inj hsame).1, hseen] at hnew
    cases hnew
  · have hage := (recent_of_fresh hagain).1
    have hnow := hclock y hy
    rw [Msg1.expiry_eq_of_handshake hsame, Msg1.expiry] at hexpired
    omega

theorem Guarded.next (h : Guarded past seen) (hclock : ∀ x ∈ past, x.2.now ≤ a.now) :
    Guarded (past ++ [(seen, a)]) (seen.next a) where
  bounded := length_next h.bounded
  recorded := by
    intro x hx hfresh
    rcases List.mem_append.mp hx with hx | hx
    · rcases h.recorded x hx hfresh with hseen | ⟨y, hy, hexpired⟩
      · rcases lookup_next hseen with hkept | hexpired
        · exact .inl hkept
        · exact .inr ⟨(seen, a), List.mem_concat_self, hexpired⟩
      · exact .inr ⟨y, List.mem_append_left _ hy, hexpired⟩
    · obtain rfl := List.mem_singleton.mp hx
      exact .inl (lookup_next_self hfresh)
  once := by
    intro id
    have hpast := h.once id
    rw [timesFresh, List.countP_append, List.countP_singleton]
    split
    · rename_i hnew
      rw [Bool.and_eq_true, decide_eq_true_eq] at hnew
      -- The new check reports the handshake fresh, so no earlier one did.
      have hnone : timesFresh past id = 0 := by
        refine List.countP_eq_zero.mpr fun x hx hcount => ?_
        rw [Bool.and_eq_true, decide_eq_true_eq] at hcount
        have hagain := h.not_fresh hclock hx hcount.1 (hcount.2.trans hnew.2.symm)
        rw [hnew.1] at hagain
        cases hagain
      rw [timesFresh] at hnone
      omega
    · exact hpast

/-- The invariant over a whole run with nondecreasing clock readings. -/
theorem guarded_of_pairwise {arrivals : List Arrival}
    (h : arrivals.Pairwise fun a b => a.now ≤ b.now) :
    Guarded (trail next ∅ arrivals) (run next ∅ arrivals) := by
  have hclock : Throughout next (fun past _ a => ∀ x ∈ past, x.2.now ≤ a.now) ∅ arrivals := by
    rintro past a rest rfl x hx
    exact (List.pairwise_append.mp h).2.2 _ (snd_mem_of_mem_trail hx) a List.mem_cons_self
  exact hclock.invariant Guarded ⟨Nat.zero_le _, nofun, fun _ => Nat.zero_le _⟩
    fun _ _ _ hguarded hi => hguarded.next hi

/-- A handshake is reported fresh at most once, the cache stays within its bound, and a message is
fresh only if its timestamp is close to the clock. From half a minute after the epoch on this holds
for the timestamp as an unsigned number too. -/
theorem handshake_fresh_once {arrivals : List Arrival}
    (h : arrivals.Pairwise fun a b => a.now ≤ b.now) :
    (∀ id, timesFresh (trail next ∅ arrivals) id ≤ 1) ∧
    (run next ∅ arrivals).entries.length ≤ 65536 ∧
    ∀ x ∈ trail next ∅ arrivals, x.1.fresh x.2 = true →
      (x.2.now - x.2.msg.sent ≤ 30 * second ∧ x.2.msg.sent - x.2.now ≤ 30 * second) ∧
      (30 * second < x.2.now → x.2.msg.sent = x.2.msg.timestamp.toNat * millisecond) := by
  have hguarded := guarded_of_pairwise h
  refine ⟨hguarded.once, hguarded.bounded, ?_⟩
  intro x _ hfresh
  have hrecent := recent_of_fresh hfresh
  refine ⟨hrecent, fun hnow => ?_⟩
  have hpos : 0 < x.2.msg.sent := by
    have := hrecent.1
    rw [msg1MaxAge] at this
    omega
  rw [Msg1.sent, millisecond] at hpos
  rw [Msg1.sent, BitVec.toInt_eq_toNat_of_lt]
  by_contra hlarge
  rw [BitVec.toInt_eq_toNat_cond, if_neg hlarge] at hpos
  have := x.2.msg.timestamp.isLt
  omega

/-- A message is sent one minute after the epoch and arrives twice within its age and once after. -/
def replayed : List Arrival :=
  let msg : Msg1 := ⟨List.replicate 32 7, List.replicate 38 0 ++ [0xea, 0x60], rfl⟩
  [⟨61 * second, msg⟩, ⟨90 * second, msg⟩, ⟨91 * second, msg⟩]

theorem handshake_fresh_once_replayed :
    (trail next ∅ replayed).map (fun x => x.1.fresh x.2) = [true, false, false] ∧
      (run next ∅ replayed).entries.length ≤ 65536 :=
  ⟨by decide +kernel, (handshake_fresh_once (by decide +kernel)).2.1⟩

end SeenMsg1

end Veld.Relay
