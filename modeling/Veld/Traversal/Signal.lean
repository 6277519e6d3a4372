import Veld.Core.Framing
import Veld.Peer.Table

/-!
# Sealed signals

The envelopes of `internal/nat/signal.go`: a version byte, a timestamp in seconds,
an Ed25519 signature and an encrypted blob. A timestamp and the reading of the clock
are `int64`, and their differences wrap. Ed25519 is a parameter.
-/

namespace Veld.Traversal

open Peer

/-- `signalVersion`. -/
def signalVersion : UInt8 := 1

/-- `signalDomain`. -/
def signalDomain : Bytes := "veld-nat-signal-v1".toUTF8.data.toList

/-- `ed25519SignatureSize`. -/
def ed25519SignatureSize : Nat := 64

/-- `ed25519PublicKeySize`. -/
def ed25519PublicKeySize : Nat := 32

/-- `signalMaxAgeSec`. -/
def signalMaxAgeSec : BitVec 64 := 60

/-- `signalMaxSkewSec`. -/
def signalMaxSkewSec : BitVec 64 := 60

/-- `signalHeaderLen`. -/
def signalHeaderLen : Nat := 1 + 8 + ed25519SignatureSize

/-- `signalMinLen`: the header, an X25519 key, a nonce and an AEAD tag. -/
def signalMinLen : Nat := signalHeaderLen + 32 + 12 + 16

/-- `signalMaxLen`. -/
def signalMaxLen : Nat := 16 * 1024

/-- The bytes of a peer ID, which are an Ed25519 public key. -/
def keyBytes (id : PeerID) : Bytes := Bytes.ofNatBE 32 id.toNat

theorem keyBytes_inj {p q : PeerID} (h : keyBytes p = keyBytes q) : p = q := by
  have hpow : 2 ^ 256 = 256 ^ 32 := rfl
  exact BitVec.eq_of_toNat_eq (Bytes.ofNatBE_inj (hpow ▸ p.isLt) (hpow ▸ q.isLt) h)

/-- The message of a signal from one peer to another; a timestamp is an `int64`. -/
def signalSignedMessage (sender recipient : PeerID) (ts : BitVec 64) (encrypted : Bytes) : Bytes :=
  signalDomain ++ Bytes.ofNatBE 32 sender.toNat ++ Bytes.ofNatBE 32 recipient.toNat ++
    Bytes.ofNatBE 8 ts.toNat ++ encrypted

/-- `sealSignal`, with the signing function of the sender's private key. -/
def sealSignal (sign : Bytes → Bytes) (encrypted : Bytes) (sender recipient : PeerID)
    (ts : BitVec 64) : Bytes :=
  [signalVersion] ++ Bytes.ofNatBE 8 ts.toNat ++
    sign (signalSignedMessage sender recipient ts encrypted) ++ encrypted

/-- The bytes `envelope[1:9]` as an `int64`. -/
def timestampOf (envelope : Bytes) : BitVec 64 :=
  BitVec.ofNat 64 (Bytes.beNat ((envelope.drop 1).take 8))

/-- The bytes `envelope[9:9+ed25519SignatureSize]`. -/
def signatureOf (envelope : Bytes) : Bytes := (envelope.drop 9).take ed25519SignatureSize

/-- The bytes `envelope[signalHeaderLen:]`. -/
def encryptedOf (envelope : Bytes) : Bytes := envelope.drop signalHeaderLen

/-- `openSignal`. The slices it takes lie in every envelope of at least `signalMinLen` bytes. -/
def openSignal (verify : Bytes → Bytes → Bytes → Bool) (envelope : Bytes)
    (sender recipient : PeerID) (senderKey : Bytes) (nowSec : BitVec 64) : Except String Bytes :=
  if envelope.length < signalMinLen then .error "signal envelope too short"
  else if signalMaxLen < envelope.length then .error "signal envelope too large"
  else if envelope.head? ≠ some signalVersion then .error "unsupported signal version"
  else if senderKey.length ≠ ed25519PublicKeySize then .error "invalid sender key"
  else if senderKey ≠ keyBytes sender then .error "sender key does not match claimed peer"
  else
    let ts := timestampOf envelope
    if signalMaxAgeSec.toInt < (nowSec - ts).toInt then .error "signal expired"
    else if signalMaxSkewSec.toInt < (ts - nowSec).toInt then
      .error "signal timestamp too far in the future"
    else
      let encrypted := encryptedOf envelope
      if !verify senderKey (signalSignedMessage sender recipient ts encrypted)
          (signatureOf envelope) then .error "invalid signal signature"
      else .ok encrypted

/-- `holdableSignal`. -/
def holdableSignal (envelope : Bytes) (nowSec : BitVec 64) : Bool :=
  if envelope.length < signalMinLen ∨ signalMaxLen < envelope.length then false
  else if envelope.head? ≠ some signalVersion then false
  else
    let ts := timestampOf envelope
    (nowSec - signalMaxAgeSec).toInt ≤ ts.toInt && ts.toInt ≤ (nowSec + signalMaxSkewSec).toInt

/-- What is accepted as a signal of a peer carries a signature that this peer's key verifies. -/
theorem verify_of_openSignal {verify : Bytes → Bytes → Bytes → Bool} {sender recipient : PeerID}
    {envelope senderKey encrypted : Bytes} {nowSec : BitVec 64}
    (h : openSignal verify envelope sender recipient senderKey nowSec = .ok encrypted) :
    encrypted = encryptedOf envelope ∧ verify (keyBytes sender)
      (signalSignedMessage sender recipient (timestampOf envelope) (encryptedOf envelope))
      (signatureOf envelope) = true := by
  simp only [openSignal, ite_error_eq_ok, Except.ok.injEq] at h
  obtain ⟨-, -, -, -, hkey, -, -, hverify, rfl⟩ := h
  rw [not_not] at hkey
  rw [hkey, Bool.not_eq_true, Bool.not_eq_false'] at hverify
  exact ⟨rfl, hverify⟩

/-! ## The window in exact arithmetic

Both differences of the timestamp and the clock wrap. They miss one timestamp, 2^63
seconds before the clock: its age and its skew are both the most negative number. -/

/-- A reading of the clock in seconds, as the `int64` the checks get. -/
def unixSec (now : Int) : BitVec 64 := BitVec.ofInt 64 now

/-- The timestamp is within a minute of the clock. -/
def InWindow (now ts : Int) : Prop := -60 ≤ now - ts ∧ now - ts ≤ 60

instance (now ts : Int) : Decidable (InWindow now ts) :=
  inferInstanceAs (Decidable (_ ∧ _))

section Window

variable {now : Int} {ts : BitVec 64}

theorem toInt_unixSec (hnow : 0 ≤ now ∧ now < 2 ^ 62) : (unixSec now).toInt = now := by
  rw [unixSec, BitVec.toInt_ofInt, Int.bmod_eq_of_le] <;> omega

/-- The two wrapped checks of `openSignal` pass in the window and at one timestamp beside it. -/
theorem fresh_iff (hnow : 0 ≤ now ∧ now < 2 ^ 62) :
    ¬signalMaxAgeSec.toInt < (unixSec now - ts).toInt ∧
        ¬signalMaxSkewSec.toInt < (ts - unixSec now).toInt ↔
      InWindow now ts.toInt ∨ ts.toInt = now - 2 ^ 63 := by
  have hage : signalMaxAgeSec.toInt = 60 := rfl
  have hskew : signalMaxSkewSec.toInt = 60 := rfl
  have hlo := BitVec.le_toInt ts
  have hhi := BitVec.toInt_lt (x := ts)
  rw [BitVec.toInt_sub, BitVec.toInt_sub, toInt_unixSec hnow, hage, hskew, InWindow,
    Int.bmod_def, Int.bmod_def]
  split <;> split <;> omega

/-- The comparisons of `holdableSignal` do not wrap. -/
theorem held_iff (hnow : 0 ≤ now ∧ now < 2 ^ 62) :
    (unixSec now - signalMaxAgeSec).toInt ≤ ts.toInt ∧
        ts.toInt ≤ (unixSec now + signalMaxSkewSec).toInt ↔ InWindow now ts.toInt := by
  have hage : signalMaxAgeSec.toInt = 60 := rfl
  have hskew : signalMaxSkewSec.toInt = 60 := rfl
  have hlower : (now - 60).bmod (2 ^ 64) = now - 60 := by
    rw [Int.bmod_eq_of_le] <;> omega
  have hupper : (now + 60).bmod (2 ^ 64) = now + 60 := by
    rw [Int.bmod_eq_of_le] <;> omega
  rw [BitVec.toInt_sub, BitVec.toInt_add, toInt_unixSec hnow, hage, hskew, hlower, hupper, InWindow]
  omega

end Window

section Seal

variable {sign : Bytes → Bytes} {sender recipient : PeerID} {ts : BitVec 64} {encrypted : Bytes}

/-- The envelope as its header and the rest. -/
theorem sealSignal_eq : sealSignal sign encrypted sender recipient ts =
    signalVersion :: (Bytes.ofNatBE 8 ts.toNat ++
      (sign (signalSignedMessage sender recipient ts encrypted) ++ encrypted)) := by
  simp [sealSignal]

theorem timestampOf_sealSignal :
    timestampOf (sealSignal sign encrypted sender recipient ts) = ts := by
  have hlt : ts.toNat < 256 ^ 8 := ts.isLt
  rw [timestampOf, sealSignal_eq, List.drop_one, List.tail_cons,
    List.take_left' (Bytes.length_ofNatBE 8 _), Bytes.beNat_ofNatBE hlt, BitVec.ofNat_toNat,
    BitVec.setWidth_eq]

variable (hlen : (sign (signalSignedMessage sender recipient ts encrypted)).length =
  ed25519SignatureSize)
include hlen

theorem signatureOf_sealSignal : signatureOf (sealSignal sign encrypted sender recipient ts) =
    sign (signalSignedMessage sender recipient ts encrypted) := by
  rw [signatureOf, sealSignal_eq, List.drop_succ_cons,
    List.drop_left' (Bytes.length_ofNatBE 8 _), List.take_left' hlen]

theorem encryptedOf_sealSignal :
    encryptedOf (sealSignal sign encrypted sender recipient ts) = encrypted := by
  have hheader : signalHeaderLen = (8 + ed25519SignatureSize) + 1 := rfl
  rw [encryptedOf, sealSignal_eq, hheader, List.drop_succ_cons, ← List.append_assoc,
    List.drop_left']
  rw [List.length_append, Bytes.length_ofNatBE, hlen]

theorem length_sealSignal :
    (sealSignal sign encrypted sender recipient ts).length = signalHeaderLen + encrypted.length := by
  have hheader : signalHeaderLen = 8 + ed25519SignatureSize + 1 := rfl
  rw [sealSignal_eq, List.length_cons, List.length_append, List.length_append,
    Bytes.length_ofNatBE, hlen, hheader]
  omega

end Seal

/-- The checks an accepted envelope passed. -/
theorem checks_of_openSignal {verify : Bytes → Bytes → Bytes → Bool} {sender recipient : PeerID}
    {envelope senderKey encrypted : Bytes} {nowSec : BitVec 64}
    (h : openSignal verify envelope sender recipient senderKey nowSec = .ok encrypted) :
    ¬envelope.length < signalMinLen ∧ ¬signalMaxLen < envelope.length ∧
      envelope.head? = some signalVersion ∧
      ¬signalMaxAgeSec.toInt < (nowSec - timestampOf envelope).toInt ∧
      ¬signalMaxSkewSec.toInt < (timestampOf envelope - nowSec).toInt := by
  simp only [openSignal, ite_error_eq_ok] at h
  obtain ⟨hmin, hmax, hversion, -, -, hage, hskew, -⟩ := h
  exact ⟨hmin, hmax, not_not.mp hversion, hage, hskew⟩

/-- `holdableSignal` tests the size, the version and the window. -/
theorem holdableSignal_iff {envelope : Bytes} {now : Int} (hnow : 0 ≤ now ∧ now < 2 ^ 62) :
    holdableSignal envelope (unixSec now) = true ↔
      ¬envelope.length < signalMinLen ∧ ¬signalMaxLen < envelope.length ∧
        envelope.head? = some signalVersion ∧ InWindow now (timestampOf envelope).toInt := by
  rw [← held_iff hnow, holdableSignal]
  split
  · next hsize =>
    refine iff_of_false (by decide) ?_
    rintro ⟨hmin, hmax, -⟩
    exact hsize.elim hmin hmax
  · next hsize =>
    obtain ⟨hmin, hmax⟩ := not_or.mp hsize
    split
    · next hversion => exact iff_of_false (by decide) fun h => hversion h.2.2.1
    · next hversion =>
      rw [Bool.and_eq_true, decide_eq_true_eq, decide_eq_true_eq]
      exact ⟨fun h => ⟨hmin, hmax, not_not.mp hversion, h⟩, fun h => h.2.2.2⟩

namespace Sample

/-- The beginning of 2026, in seconds. -/
def newYear : Int := 1767225600

/-- A signature of zeros, which `verify` accepts. -/
def sign (_ : Bytes) : Bytes := List.replicate 64 0

def verify (_ _ _ : Bytes) : Bool := true

/-- A blob of the least size, sealed at a time. -/
def envelope (ts : Int) : Bytes := sealSignal sign (List.replicate 60 7) 1 2 (BitVec.ofInt 64 ts)

end Sample

end Veld.Traversal
