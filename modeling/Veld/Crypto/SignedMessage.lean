import Veld.Core.Bytes

/-!
# Signed coordinator messages

`internal/crypto/register.go` and `internal/crypto/call.go`: the messages a peer
signs to register and to call the coordinator, and the checks of a signature with
its timestamp. Ed25519 and SHA-256 are parameters. The difference of the clock and
a timestamp is taken in the integers: for a clock between the epoch and 2^62
seconds a wrapped difference is outside the window just as the exact one is.
-/

namespace Veld.Crypto

/-- The bytes of a string. -/
def utf8 (s : String) : Bytes := s.toUTF8.data.toList

/-- `binary.BigEndian.AppendUint32`. -/
def appendUint32 (buf : Bytes) (n : Nat) : Bytes := buf ++ Bytes.ofNatBE 4 n

/-- `binary.BigEndian.AppendUint64` of an `int64`. -/
def appendInt64 (buf : Bytes) (n : Int) : Bytes := buf ++ Bytes.ofNatBE 8 (n % 2 ^ 64).toNat

/-- A string after its length. -/
def appendPrefixedString (buf : Bytes) (s : String) : Bytes :=
  appendUint32 buf (utf8 s).length ++ utf8 s

/-- The strings of a list after their number. -/
def appendPrefixedStrings (buf : Bytes) (l : List String) : Bytes :=
  l.foldl appendPrefixedString (appendUint32 buf l.length)

/-- `RegisterSignatureDomain`. -/
def registerSignatureDomain : Bytes := utf8 "veld-coord-register-v2" ++ [0]

/-- `CallSignatureDomain`. -/
def callSignatureDomain : Bytes := utf8 "veld-coord-call-v1" ++ [0]

/-- `RegisterTimestampWindow` and `CallTimestampWindow`, in seconds. -/
def callTimestampWindow : Int := 120

/-- The fields of a registration that its signature covers. -/
structure RegisterClaims where
  networkID : String
  name : String
  ed25519Public : String
  x25519Public : String
  endpoint : String
  subnetRoutes : List String
  timestampUnix : Int
  deriving DecidableEq

/-- The message of a registration; the routes are signed in sorted order. -/
def registerSignedMessage (claims : RegisterClaims) : Bytes :=
  let routes := claims.subnetRoutes.mergeSort
  let buf := registerSignatureDomain
  let buf := appendPrefixedString buf claims.networkID
  let buf := appendPrefixedString buf claims.name
  let buf := appendPrefixedString buf claims.ed25519Public
  let buf := appendPrefixedString buf claims.x25519Public
  let buf := appendPrefixedString buf claims.endpoint
  let buf := appendPrefixedStrings buf routes
  appendInt64 buf claims.timestampUnix

/-- The fields of a call that its signature covers. -/
structure CallClaims where
  method : String
  peerID : String
  args : List String := []
  timestampUnix : Int
  deriving DecidableEq

def leaveClaims (peerID : String) (ts : Int) : CallClaims :=
  { method := "Leave", peerID, timestampUnix := ts }

def watchClaims (peerID networkID : String) (ts : Int) : CallClaims :=
  { method := "Watch", peerID, args := [networkID], timestampUnix := ts }

/-- The payload is covered by its hash, in hexadecimal. -/
def sendSignalClaims (hexSum : Bytes → String) (fromPeerID toPeerID : String) (payload : Bytes)
    (ts : Int) : CallClaims :=
  { method := "SendSignal", peerID := fromPeerID, args := [toPeerID, hexSum payload],
    timestampUnix := ts }

/-- The message of a call. -/
def callSignedMessage (claims : CallClaims) : Bytes :=
  let buf := callSignatureDomain
  let buf := appendPrefixedString buf claims.method
  let buf := appendPrefixedString buf claims.peerID
  let buf := appendPrefixedStrings buf claims.args
  appendInt64 buf claims.timestampUnix

inductive SignatureError
  | missing
  | outsideWindow (timestampUnix now : Int)
  | invalid
  deriving DecidableEq, Repr

/-- The text of an error of a registration or a call. -/
def SignatureError.message (kind : String) : SignatureError → String
  | missing => "missing " ++ kind ++ " signature"
  | outsideWindow ts now => kind ++ " timestamp " ++ toString ts ++ " outside ±" ++
      toString callTimestampWindow ++ "s window of " ++ toString now
  | invalid => "invalid " ++ kind ++ " signature"

/-- A timestamp is inside the window around a clock reading, both in seconds. -/
def inWindow (ts now : Int) : Bool :=
  -callTimestampWindow ≤ now - ts && now - ts ≤ callTimestampWindow

/-- The checks of a signature over a message with a timestamp. -/
def verifySignature (verify : Bytes → Bytes → Bytes → Bool) (pub sig message : Bytes)
    (ts now : Int) : Except SignatureError Unit :=
  if sig.isEmpty then .error .missing
  else if !inWindow ts now then .error (.outsideWindow ts now)
  else if !verify pub message sig then .error .invalid
  else .ok ()

def verifyRegisterSignature (verify : Bytes → Bytes → Bytes → Bool) (pub sig : Bytes)
    (claims : RegisterClaims) (now : Int) : Except SignatureError Unit :=
  verifySignature verify pub sig (registerSignedMessage claims) claims.timestampUnix now

def verifyCallSignature (verify : Bytes → Bytes → Bytes → Bool) (pub sig : Bytes)
    (claims : CallClaims) (now : Int) : Except SignatureError Unit :=
  verifySignature verify pub sig (callSignedMessage claims) claims.timestampUnix now

theorem inWindow_iff {ts now : Int} :
    inWindow ts now = true ↔ ts - 120 ≤ now ∧ now ≤ ts + 120 := by
  have hw : callTimestampWindow = 120 := rfl
  rw [inWindow, Bool.and_eq_true, decide_eq_true_eq, decide_eq_true_eq, hw]
  constructor <;> intro h <;> omega

/-- Only a timestamp inside the window passes. -/
theorem inWindow_of_verifySignature {verify : Bytes → Bytes → Bytes → Bool}
    {pub sig message : Bytes} {ts now : Int}
    (h : verifySignature verify pub sig message ts now = .ok ()) : inWindow ts now = true := by
  unfold verifySignature at h
  split at h
  · cases h
  · split at h
    · cases h
    · rename_i hw
      simpa using hw

end Veld.Crypto
