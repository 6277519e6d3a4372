import Veld.Core.Bytes
import Veld.Core.Run

/-!
# Sessions

A session encrypts with a counter that is sent along with each packet and
accepts every counter value at most once, through a sliding window over the
last 2048 values. The two directions of the AEAD are the functions of the
`noise.Cipher` interface.
-/

namespace Veld

/-- The `noise.Cipher` of one direction: sealing, and opening where `none` is an
authentication failure. -/
structure Cipher where
  encrypt : UInt64 → Bytes → Bytes
  decrypt : UInt64 → Bytes → Option Bytes

/-- `RekeyThreshold`. -/
def rekeyThreshold : UInt64 := 4294967296

/-- `RekeyTimeLimit`. -/
def rekeyTimeLimit : Int := 120 * second

/-- `WindowSize`. -/
def windowSize : Nat := 2048

/-- The replay window; the words of the source's bitmap, one after another, are one bit vector. -/
structure ReplayWindow where
  max : UInt64 := 0
  bitmap : BitVec windowSize := 0
  inited : Bool := false
  deriving DecidableEq

namespace ReplayWindow

/-- The bit a nonce is recorded in. -/
def pos (n : UInt64) : Nat := n.toNat % windowSize

def getBit (w : ReplayWindow) (n : UInt64) : Bool := w.bitmap.getLsbD (pos n)

def setBit (w : ReplayWindow) (n : UInt64) : ReplayWindow :=
  { w with bitmap := w.bitmap ||| BitVec.twoPow windowSize (pos n) }

def clearBit (w : ReplayWindow) (n : UInt64) : ReplayWindow :=
  { w with bitmap := w.bitmap &&& ~~~BitVec.twoPow windowSize (pos n) }

/-- Whether a nonce would be accepted, without recording it. -/
def check (w : ReplayWindow) (n : UInt64) : Bool :=
  !w.inited || n > w.max || ((w.max - n).toNat < windowSize && !w.getBit n)

/-- The bits of the nonces `max + 1, …, max + count` are cleared. -/
def clearAhead (w : ReplayWindow) : Nat → ReplayWindow
  | 0 => w
  | count + 1 => (clearAhead w count).clearBit (w.max + UInt64.ofNat (count + 1))

/-- A new nonce is recorded and accepted, moving the window forward if it is the largest. -/
def checkAndMark (w : ReplayWindow) (n : UInt64) : ReplayWindow × Bool :=
  if !w.inited then ({ w with max := n, inited := true }.setBit n, true)
  else if n > w.max then
    let advance := (n - w.max).toNat
    let cleared := if advance ≥ windowSize then { w with bitmap := 0 } else w.clearAhead advance
    ({ cleared with max := n }.setBit n, true)
  else if (w.max - n).toNat ≥ windowSize then (w, false)
  else if w.getBit n then (w, false)
  else (w.setBit n, true)

end ReplayWindow

/-- One session with a peer. -/
structure Session where
  id : BitVec 64
  send : Cipher
  recv : Cipher
  sendNonce : UInt64 := 0
  createdAt : Int
  window : ReplayWindow := {}

namespace Session

/-- The nonce threshold or the time limit has been reached. -/
def needsRekey (s : Session) (now : Int) : Bool :=
  s.sendNonce ≥ rekeyThreshold || now - s.createdAt ≥ rekeyTimeLimit

/-- The nonce and the ciphertext of a packet; `none` is `ErrRekeyRequired`. -/
def encrypt (s : Session) (plaintext : Bytes) : Session × Option (UInt64 × Bytes) :=
  let n := s.sendNonce
  let s := { s with sendNonce := s.sendNonce + 1 }
  (s, if n ≥ rekeyThreshold then none else some (n, s.send.encrypt n plaintext))

/-- The plaintext of a packet, nil (the empty string) unless it authenticates and is new. -/
def decrypt (s : Session) (nonce : UInt64) (ciphertext : Bytes) : Session × Bytes :=
  if nonce ≥ rekeyThreshold then (s, [])
  else if !s.window.check nonce then (s, [])
  else
    match s.recv.decrypt nonce ciphertext with
    | none => (s, [])
    | some plaintext =>
      let (window, valid) := s.window.checkAndMark nonce
      ({ s with window := window }, if valid then plaintext else [])

/-- A session that needs no rekey encrypts. -/
theorem encrypt_isSome {s : Session} {now : Int} (h : s.needsRekey now = false)
    (plaintext : Bytes) : (s.encrypt plaintext).2.isSome := by
  simp only [needsRekey, Bool.or_eq_false_iff, decide_eq_false_iff_not] at h
  simp [encrypt, h.1]

end Session

end Veld
