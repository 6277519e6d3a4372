import Mathlib.Algebra.Order.Group.Abs
import Mathlib.Algebra.Order.Ring.Int
import Veld.Core.Bytes
import Veld.Core.Run

/-!
# Signatures of handshake messages

`NormalizeTimestamp` and `VerifyPeerSig` of `internal/crypto/keys.go`. Timestamps
are 64-bit words read as signed numbers, and the arithmetic on them wraps. A clock
reading is an instant in nanoseconds since the epoch; `UnixNano` keeps its last 64
bits. Ed25519 is a parameter.
-/

namespace Veld.Crypto

variable {t : Int} {ts : BitVec 64}

/-- `time.Time.UnixNano` of an instant. -/
def unixNano (t : Int) : BitVec 64 := BitVec.ofInt 64 t

/-- `MaxTimestampSkew`. -/
def maxTimestampSkew : Int := 30 * second

/-- A raw timestamp above 10^12 counts nanoseconds, any other one seconds. -/
def normalizeTimestamp (raw : BitVec 64) : BitVec 64 :=
  if 1000000000000 < raw.toInt then raw else raw * 1000000000

/-- The message a peer signs for another one. -/
def peerMessage (theirX25519Public ourX25519Public : Bytes) (raw : BitVec 64) : Bytes :=
  theirX25519Public ++ ourX25519Public ++ Bytes.ofNatBE 8 raw.toNat

/-- The wrapped difference of two timestamps is at most the allowed skew. -/
def inSkew (now ts : BitVec 64) : Bool :=
  -maxTimestampSkew ≤ (now - ts).toInt && (now - ts).toInt ≤ maxTimestampSkew

/-- `VerifyPeerSig`, with the reading of the clock. -/
def verifyPeerSig (verify : Bytes → Bytes → Bytes → Bool)
    (peerEd25519Public peerX25519Public ourX25519Public sig : Bytes) (raw : BitVec 64)
    (now : Int) : Bool :=
  verify peerEd25519Public (peerMessage peerX25519Public ourX25519Public raw) sig &&
    inSkew (unixNano now) (normalizeTimestamp raw)

/-- An instant is at least the skew away from the ends of what `UnixNano` can tell apart, the years
1677 and 2262. -/
def Representable (t : Int) : Prop := -2 ^ 63 + maxTimestampSkew ≤ t ∧ t < 2 ^ 63 - maxTimestampSkew

instance (t : Int) : Decidable (Representable t) :=
  inferInstanceAs (Decidable (_ ∧ _))

/-- The cutoff of an instant does not wrap. -/
theorem toInt_unixNano_sub (h : Representable t) :
    (unixNano (t - maxTimestampSkew)).toInt = t - maxTimestampSkew := by
  have hskew : maxTimestampSkew = 30000000000 := rfl
  obtain ⟨hlo, hhi⟩ := h
  rw [unixNano, BitVec.toInt_ofInt, Int.bmod_eq_of_le] <;> omega

/-- A fresh timestamp is close to the clock in the integers, too. -/
theorem abs_sub_le_of_inSkew (h : Representable t)
    (hskew : inSkew (unixNano t) ts = true) : |t - ts.toInt| ≤ maxTimestampSkew := by
  have hval : maxTimestampSkew = 30000000000 := rfl
  obtain ⟨hlo, hhi⟩ := h
  have hts := BitVec.toInt_lt (x := ts)
  have hts' := BitVec.le_toInt ts
  rw [inSkew, Bool.and_eq_true, decide_eq_true_eq, decide_eq_true_eq, unixNano, BitVec.toInt_sub,
    BitVec.toInt_ofInt, hval] at hskew
  have hnow : t.bmod (2 ^ 64) = t := by
    rw [Int.bmod_eq_of_le] <;> omega
  rw [hnow, Int.bmod_def] at hskew
  rw [abs_le, hval]
  split at hskew <;> omega

theorem le_of_inSkew (h : Representable t)
    (hskew : inSkew (unixNano t) ts = true) : t - maxTimestampSkew ≤ ts.toInt := by
  have hclose := (abs_le.mp (abs_sub_le_of_inSkew h hskew)).2
  omega

/-! ## Timestamps in exact arithmetic

The conversion of seconds multiplies in 64 bits. A timestamp whose instant does not
fit is taken for another one, and there are such timestamps for every clock. -/

/-- The instant a raw timestamp denotes, in nanoseconds and without a bound. -/
def instant (raw : BitVec 64) : Int :=
  if 1000000000000 < raw.toInt then raw.toInt else raw.toInt * 1000000000

/-- An instant that an `int64` of nanoseconds can name. -/
def InRange (t : Int) : Prop := -2 ^ 63 ≤ t ∧ t < 2 ^ 63

instance (t : Int) : Decidable (InRange t) :=
  inferInstanceAs (Decidable (_ ∧ _))

/-- A reading of a clock from the beginning of 2020 to the end of 2200. -/
def Contemporary (now : Int) : Prop := 1577836800 * second ≤ now ∧ now < 7289654400 * second

instance (now : Int) : Decidable (Contemporary now) :=
  inferInstanceAs (Decidable (_ ∧ _))

theorem Contemporary.representable {now : Int} (h : Contemporary now) : Representable now := by
  have hsecond : second = 1000000000 := rfl
  have hskew : maxTimestampSkew = 30000000000 := rfl
  obtain ⟨hlo, hhi⟩ := h
  constructor <;> omega

/-- The normalized timestamp is the instant up to multiples of 2^64. -/
theorem toInt_normalizeTimestamp (raw : BitVec 64) :
    (normalizeTimestamp raw).toInt = (instant raw).bmod (2 ^ 64) := by
  have hlo := BitVec.le_toInt raw
  have hhi := BitVec.toInt_lt (x := raw)
  rw [normalizeTimestamp, instant]
  split
  · rw [Int.bmod_eq_of_le] <;> omega
  · rw [BitVec.toInt_mul]
    rfl

theorem toInt_normalizeTimestamp_of_inRange {raw : BitVec 64} (h : InRange (instant raw)) :
    (normalizeTimestamp raw).toInt = instant raw := by
  obtain ⟨hlo, hhi⟩ := h
  rw [toInt_normalizeTimestamp, Int.bmod_eq_of_le] <;> omega

/-- A timestamp that is accepted lies within the skew of the clock exactly if its instant was not
cut off. -/
theorem accepted_fresh_iff {verify : Bytes → Bytes → Bytes → Bool}
    {peerEd25519Public peerX25519Public ourX25519Public sig : Bytes} {raw : BitVec 64} {now : Int}
    (hnow : Contemporary now)
    (h : verifyPeerSig verify peerEd25519Public peerX25519Public ourX25519Public sig raw now =
      true) :
    |now - instant raw| ≤ maxTimestampSkew ↔ InRange (instant raw) := by
  have hskew := (Bool.and_eq_true_iff.mp h).2
  constructor
  · intro hclose
    have hval : maxTimestampSkew = 30000000000 := rfl
    have hsecond : second = 1000000000 := rfl
    obtain ⟨hlo, hhi⟩ := hnow
    obtain ⟨hbefore, hafter⟩ := abs_le.mp hclose
    constructor <;> omega
  · intro hrange
    rw [← toInt_normalizeTimestamp_of_inRange hrange]
    exact abs_sub_le_of_inSkew hnow.representable hskew

/-- The beginning of 2026. -/
def Sample.newYear : Int := 1767225600 * second

/-- The number of seconds of that instant, signed as the timestamp of an older daemon. -/
theorem accepted_fresh_iff_newYear :
    |Sample.newYear - instant 1767225600| ≤ maxTimestampSkew ↔ InRange (instant 1767225600) :=
  @accepted_fresh_iff (fun _ _ _ => true) [] [] [] [] 1767225600 Sample.newYear (by decide) (by decide)

/-- A timestamp of the year 2610 in seconds. Its product with 10^9 exceeds 2^64 by an instant less
than a second after the clock. -/
theorem distant_timestamp_accepted :
    let raw : BitVec 64 := 1767225600 + 18446744074
    Contemporary Sample.newYear ∧
      verifyPeerSig (fun _ _ _ => true) [] [] [] [] raw Sample.newYear = true ∧
      instant raw = Sample.newYear + 18446744074 * second ∧
      ¬|Sample.newYear - instant raw| ≤ maxTimestampSkew := by
  decide

end Veld.Crypto
