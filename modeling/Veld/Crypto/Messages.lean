import Veld.Core.Encoding
import Veld.Core.Utf8
import Veld.Crypto.SignedMessage
import Veld.Traversal.Signal

/-!
# Signed messages are unambiguous

A Go string is a byte string that need not be a text. This is the encoding of
`internal/crypto/register.go` and `internal/crypto/call.go` for any strings; the
messages of the coordinator, whose requests carry texts, are the same bytes. Every
field is written in a self-delimiting way, so a message determines the fields it was
made from, up to the order of the routes, and the domain at its start the kind of
message it is.
-/

namespace Veld.Crypto

namespace Wire

open Bytes Peer

/-- `appendPrefixedString` of any string. -/
def appendPrefixedString (buf s : Bytes) : Bytes := appendUint32 buf s.length ++ s

def appendPrefixedStrings (buf : Bytes) (l : List Bytes) : Bytes :=
  l.foldl appendPrefixedString (appendUint32 buf l.length)

/-- `binary.BigEndian.AppendUint64` of an `int64`. -/
def appendUint64 (buf : Bytes) (n : BitVec 64) : Bytes := buf ++ ofNatBE 8 n.toNat

/-- `RegisterClaims`. -/
structure RegisterClaims where
  networkID : Bytes
  name : Bytes
  ed25519Public : Bytes
  x25519Public : Bytes
  endpoint : Bytes
  subnetRoutes : List Bytes
  timestampUnix : BitVec 64
  deriving DecidableEq

/-- `RegisterSignedMessage`; strings are sorted by their bytes. -/
def registerSignedMessage (claims : RegisterClaims) : Bytes :=
  let routes := claims.subnetRoutes.mergeSort
  let buf := registerSignatureDomain
  let buf := appendPrefixedString buf claims.networkID
  let buf := appendPrefixedString buf claims.name
  let buf := appendPrefixedString buf claims.ed25519Public
  let buf := appendPrefixedString buf claims.x25519Public
  let buf := appendPrefixedString buf claims.endpoint
  let buf := appendPrefixedStrings buf routes
  appendUint64 buf claims.timestampUnix

/-- `CallClaims`. -/
structure CallClaims where
  method : Bytes
  peerID : Bytes
  args : List Bytes := []
  timestampUnix : BitVec 64
  deriving DecidableEq

/-- `CallSignedMessage`. -/
def callSignedMessage (claims : CallClaims) : Bytes :=
  let buf := callSignatureDomain
  let buf := appendPrefixedString buf claims.method
  let buf := appendPrefixedString buf claims.peerID
  let buf := appendPrefixedStrings buf claims.args
  appendUint64 buf claims.timestampUnix

/-- The length of a string fits into its prefix. -/
def Short (s : Bytes) : Prop := s.length < 2 ^ 32

/-- The lengths of a list and of its strings fit into their prefixes. -/
def ShortList (l : List Bytes) : Prop := l.length < 2 ^ 32 ∧ ∀ s ∈ l, Short s

instance (s : Bytes) : Decidable (Short s) := inferInstanceAs (Decidable (_ < _))

instance (l : List Bytes) : Decidable (ShortList l) := inferInstanceAs (Decidable (_ ∧ _))

structure RegisterClaims.Fits (c : RegisterClaims) : Prop where
  networkID : Short c.networkID
  name : Short c.name
  ed25519Public : Short c.ed25519Public
  x25519Public : Short c.x25519Public
  endpoint : Short c.endpoint
  subnetRoutes : ShortList c.subnetRoutes

structure CallClaims.Fits (c : CallClaims) : Prop where
  method : Short c.method
  peerID : Short c.peerID
  args : ShortList c.args

theorem selfDelimiting_string : SelfDelimiting Short (prefixed 4) := selfDelimiting_prefixed 4

theorem selfDelimiting_strings : SelfDelimiting ShortList (counted 4 (prefixed 4)) :=
  selfDelimiting_counted 4 selfDelimiting_string

theorem selfDelimiting_toNat (k : Nat) :
    SelfDelimiting (fun _ => True) fun n : BitVec (8 * k) => ofNatBE k n.toNat := by
  have hpow : 2 ^ (8 * k) = 256 ^ k := by rw [Nat.pow_mul]
  refine .of_length (fun n => length_ofNatBE k n.toNat) fun n m _ _ h => BitVec.eq_of_toNat_eq ?_
  exact ofNatBE_inj (hpow ▸ n.isLt) (hpow ▸ m.isLt) h

theorem appendPrefixedString_eq (buf s : Bytes) :
    appendPrefixedString buf s = buf ++ prefixed 4 s := List.append_assoc ..

theorem appendPrefixedStrings_eq (buf : Bytes) (l : List Bytes) :
    appendPrefixedStrings buf l = buf ++ counted 4 (prefixed 4) l := by
  have hloop (buf : Bytes) (l : List Bytes) :
      l.foldl appendPrefixedString buf = buf ++ l.flatMap (prefixed 4) := by
    induction l generalizing buf with
    | nil => exact (List.append_nil buf).symm
    | cons s l ih =>
      rw [List.foldl_cons, ih, appendPrefixedString_eq, List.flatMap_cons, List.append_assoc]
  rw [appendPrefixedStrings, hloop, counted, appendUint32, List.append_assoc]

/-- The fields of a registration one after another. -/
theorem registerSignedMessage_eq (c : RegisterClaims) :
    registerSignedMessage c = registerSignatureDomain ++ (prefixed 4 c.networkID ++
      (prefixed 4 c.name ++ (prefixed 4 c.ed25519Public ++ (prefixed 4 c.x25519Public ++
        (prefixed 4 c.endpoint ++ (counted 4 (prefixed 4) c.subnetRoutes.mergeSort ++
          ofNatBE 8 c.timestampUnix.toNat)))))) := by
  simp [registerSignedMessage, appendUint64, appendPrefixedString_eq, appendPrefixedStrings_eq]

/-- The fields of a call one after another. -/
theorem callSignedMessage_eq (c : CallClaims) :
    callSignedMessage c = callSignatureDomain ++ (prefixed 4 c.method ++ (prefixed 4 c.peerID ++
      (counted 4 (prefixed 4) c.args ++ ofNatBE 8 c.timestampUnix.toNat))) := by
  simp [callSignedMessage, appendUint64, appendPrefixedString_eq, appendPrefixedStrings_eq]

theorem signalSignedMessage_eq (sender recipient : PeerID) (ts : BitVec 64) (encrypted : Bytes) :
    Traversal.signalSignedMessage sender recipient ts encrypted = Traversal.signalDomain ++
      (ofNatBE 32 sender.toNat ++ (ofNatBE 32 recipient.toNat ++
        (ofNatBE 8 ts.toNat ++ encrypted))) := by
  simp [Traversal.signalSignedMessage]

theorem mergeSort_eq_iff_perm {l l' : List Bytes} : l.mergeSort = l'.mergeSort ↔ l.Perm l' := by
  refine mergeSort_eq_mergeSort_iff (fun a b c hab hbc => ?_) (fun a b => ?_)
    (fun a b hab hba => ?_)
  · rw [decide_eq_true_eq] at hab hbc ⊢
    exact List.le_trans hab hbc
  · rw [Bool.or_eq_true, decide_eq_true_eq, decide_eq_true_eq]
    exact List.le_total a b
  · rw [decide_eq_true_eq] at hab hba
    exact List.le_antisymm hab hba

theorem ShortList.mergeSort {l : List Bytes} (h : ShortList l) : ShortList l.mergeSort := by
  refine ⟨?_, fun s hs => h.2 s (List.mem_mergeSort.mp hs)⟩
  rw [List.length_mergeSort]
  exact h.1

/-- A registration's message determines its fields, and its routes up to their order. -/
theorem registerSignedMessage_eq_iff {c c' : RegisterClaims} (h : c.Fits) (h' : c'.Fits) :
    registerSignedMessage c = registerSignedMessage c' ↔ c.networkID = c'.networkID ∧
      c.name = c'.name ∧ c.ed25519Public = c'.ed25519Public ∧ c.x25519Public = c'.x25519Public ∧
      c.endpoint = c'.endpoint ∧ c.timestampUnix = c'.timestampUnix ∧
      c.subnetRoutes.Perm c'.subnetRoutes := by
  rw [registerSignedMessage_eq, registerSignedMessage_eq, List.append_right_inj]
  constructor
  · intro he
    obtain ⟨hnetworkID, he⟩ := selfDelimiting_string h.networkID h'.networkID he
    obtain ⟨hname, he⟩ := selfDelimiting_string h.name h'.name he
    obtain ⟨hed, he⟩ := selfDelimiting_string h.ed25519Public h'.ed25519Public he
    obtain ⟨hx, he⟩ := selfDelimiting_string h.x25519Public h'.x25519Public he
    obtain ⟨hendpoint, he⟩ := selfDelimiting_string h.endpoint h'.endpoint he
    obtain ⟨hroutes, he⟩ := selfDelimiting_strings h.subnetRoutes.mergeSort
      h'.subnetRoutes.mergeSort he
    have hts := (selfDelimiting_toNat 8).eq trivial trivial he
    exact ⟨hnetworkID, hname, hed, hx, hendpoint, hts, mergeSort_eq_iff_perm.mp hroutes⟩
  · rintro ⟨hnetworkID, hname, hed, hx, hendpoint, hts, hroutes⟩
    rw [hnetworkID, hname, hed, hx, hendpoint, hts, mergeSort_eq_iff_perm.mpr hroutes]

/-- A call's message determines its fields. -/
theorem callSignedMessage_inj {c c' : CallClaims} (h : c.Fits) (h' : c'.Fits)
    (he : callSignedMessage c = callSignedMessage c') : c = c' := by
  rw [callSignedMessage_eq, callSignedMessage_eq, List.append_right_inj] at he
  obtain ⟨hmethod, he⟩ := selfDelimiting_string h.method h'.method he
  obtain ⟨hpeerID, he⟩ := selfDelimiting_string h.peerID h'.peerID he
  obtain ⟨hargs, he⟩ := selfDelimiting_strings h.args h'.args he
  have hts := (selfDelimiting_toNat 8).eq trivial trivial he
  cases c
  cases c'
  simp only at hmethod hpeerID hargs hts
  rw [hmethod, hpeerID, hargs, hts]

/-- A signal's message determines its fields. -/
theorem signalSignedMessage_inj {sender sender' recipient recipient' : PeerID} {ts ts' : BitVec 64}
    {encrypted encrypted' : Bytes}
    (he : Traversal.signalSignedMessage sender recipient ts encrypted =
      Traversal.signalSignedMessage sender' recipient' ts' encrypted') :
    sender = sender' ∧ recipient = recipient' ∧ ts = ts' ∧ encrypted = encrypted' := by
  rw [signalSignedMessage_eq, signalSignedMessage_eq, List.append_right_inj] at he
  obtain ⟨hsender, he⟩ := selfDelimiting_toNat 32 trivial trivial he
  obtain ⟨hrecipient, he⟩ := selfDelimiting_toNat 32 trivial trivial he
  obtain ⟨hts, he⟩ := selfDelimiting_toNat 8 trivial trivial he
  exact ⟨hsender, hrecipient, hts, he⟩

/-- Messages of different domains differ where their domains do. -/
theorem append_ne_append {d d' x y : Bytes} {i : Nat} (hi : i < d.length) (hi' : i < d'.length)
    (hne : d[i]? ≠ d'[i]?) : d ++ x ≠ d' ++ y := by
  intro he
  apply hne
  rw [← List.getElem?_append_left hi, ← List.getElem?_append_left hi', he]

/-- Messages are equal only if they are of one kind and made from the same fields, where the order
of the routes of a registration does not matter. -/
theorem signed_messages_separate {c c' : RegisterClaims} {d d' : CallClaims} (hc : c.Fits)
    (hc' : c'.Fits) (hd : d.Fits) (hd' : d'.Fits) (sender sender' recipient recipient' : PeerID)
    (ts ts' : BitVec 64) (encrypted encrypted' : Bytes) :
    (registerSignedMessage c = registerSignedMessage c' ↔ c.networkID = c'.networkID ∧
      c.name = c'.name ∧ c.ed25519Public = c'.ed25519Public ∧ c.x25519Public = c'.x25519Public ∧
      c.endpoint = c'.endpoint ∧ c.timestampUnix = c'.timestampUnix ∧
      c.subnetRoutes.Perm c'.subnetRoutes) ∧
    (callSignedMessage d = callSignedMessage d' → d = d') ∧
    (Traversal.signalSignedMessage sender recipient ts encrypted =
        Traversal.signalSignedMessage sender' recipient' ts' encrypted' →
      sender = sender' ∧ recipient = recipient' ∧ ts = ts' ∧ encrypted = encrypted') ∧
    registerSignedMessage c ≠ callSignedMessage d ∧
    registerSignedMessage c ≠ Traversal.signalSignedMessage sender recipient ts encrypted ∧
    callSignedMessage d ≠ Traversal.signalSignedMessage sender recipient ts encrypted := by
  refine ⟨registerSignedMessage_eq_iff hc hc', callSignedMessage_inj hd hd',
    signalSignedMessage_inj, ?_, ?_, ?_⟩
  · -- veld-coord-r against veld-coord-c
    rw [registerSignedMessage_eq, callSignedMessage_eq]
    exact append_ne_append (i := 11) (by decide) (by decide) (by decide)
  · -- veld-c against veld-n
    rw [registerSignedMessage_eq, signalSignedMessage_eq]
    exact append_ne_append (i := 5) (by decide) (by decide) (by decide)
  · rw [callSignedMessage_eq, signalSignedMessage_eq]
    exact append_ne_append (i := 5) (by decide) (by decide) (by decide)

end Wire

namespace Sample

/-- The claims of a registration with two routes. -/
def claims (routes : List Bytes) : Wire.RegisterClaims :=
  ⟨[110], [97], [1], [2], [], routes, 1700000000⟩

theorem fits_claims {routes : List Bytes} (h : Wire.ShortList routes) : (claims routes).Fits where
  networkID := show Wire.Short [110] by decide
  name := show Wire.Short [97] by decide
  ed25519Public := show Wire.Short [1] by decide
  x25519Public := show Wire.Short [2] by decide
  endpoint := show Wire.Short [] by decide
  subnetRoutes := h

def leave : Wire.CallClaims := { method := [76], peerID := [1], timestampUnix := 1700000000 }

theorem fits_leave : leave.Fits where
  method := by decide
  peerID := by decide
  args := by decide

end Sample

/-- Two routes in either order are signed by one message, which no call and no signal has. -/
theorem Wire.signed_messages_separate_swapped :
    Wire.registerSignedMessage (Sample.claims [[9], [8]]) =
        Wire.registerSignedMessage (Sample.claims [[8], [9]]) ∧
      Wire.registerSignedMessage (Sample.claims [[9], [8]]) ≠ Wire.callSignedMessage Sample.leave := by
  have hfits : (Sample.claims [[9], [8]]).Fits := Sample.fits_claims (by decide)
  have hfits' : (Sample.claims [[8], [9]]).Fits := Sample.fits_claims (by decide)
  have hall := Wire.signed_messages_separate hfits hfits' Sample.fits_leave Sample.fits_leave
    0 0 0 0 0 0 [] []
  exact ⟨hall.1.mpr ⟨rfl, rfl, rfl, rfl, rfl, rfl, by decide⟩, hall.2.2.2.1⟩

section Texts

theorem utf8_eq (s : String) : utf8 s = s.toList.flatMap String.utf8EncodeChar := by
  rw [utf8, String.toUTF8, ← String.utf8Encode_toList, List.utf8Encode,
    List.toList_data_toByteArray]

/-- The strings of a request are sorted as their bytes are. -/
theorem map_utf8_mergeSort (l : List String) : l.mergeSort.map utf8 = (l.map utf8).mergeSort := by
  refine List.map_mergeSort fun s _ t _ => decide_eq_decide.mpr (not_congr ?_)
  rw [utf8_eq, utf8_eq]
  exact Utf8.flatMap_utf8EncodeChar_lt_iff.symm

theorem appendPrefixedStrings_utf8 (buf : Bytes) (l : List String) :
    appendPrefixedStrings buf l = Wire.appendPrefixedStrings buf (l.map utf8) := by
  rw [appendPrefixedStrings, Wire.appendPrefixedStrings, List.foldl_map, List.length_map]
  rfl

theorem appendInt64_eq (buf : Bytes) (n : Int) :
    appendInt64 buf n = Wire.appendUint64 buf (BitVec.ofInt 64 n) := by
  rw [appendInt64, Wire.appendUint64, BitVec.toNat_ofInt]
  rfl

/-- The claims of a registration as the strings they are in Go. -/
def RegisterClaims.wire (c : RegisterClaims) : Wire.RegisterClaims where
  networkID := utf8 c.networkID
  name := utf8 c.name
  ed25519Public := utf8 c.ed25519Public
  x25519Public := utf8 c.x25519Public
  endpoint := utf8 c.endpoint
  subnetRoutes := c.subnetRoutes.map utf8
  timestampUnix := BitVec.ofInt 64 c.timestampUnix

/-- The claims of a call as the strings they are in Go. -/
def CallClaims.wire (c : CallClaims) : Wire.CallClaims where
  method := utf8 c.method
  peerID := utf8 c.peerID
  args := c.args.map utf8
  timestampUnix := BitVec.ofInt 64 c.timestampUnix

/-- The message the coordinator verifies for a registration. -/
theorem registerSignedMessage_wire (c : RegisterClaims) :
    registerSignedMessage c = Wire.registerSignedMessage c.wire := by
  simp only [registerSignedMessage, Wire.registerSignedMessage, appendInt64_eq,
    appendPrefixedStrings_utf8, map_utf8_mergeSort]
  rfl

/-- The message the coordinator verifies for a call. -/
theorem callSignedMessage_wire (c : CallClaims) :
    callSignedMessage c = Wire.callSignedMessage c.wire := by
  simp only [callSignedMessage, Wire.callSignedMessage, appendInt64_eq, appendPrefixedStrings_utf8]
  rfl

end Texts

end Veld.Crypto
