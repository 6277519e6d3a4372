import Veld.Core.Assoc
import Veld.Core.Hex
import Veld.Core.Utf8

/-!
# The store of pinned keys

`internal/tofu/store.go`. Addresses are byte strings, as Go strings are, and the
file is the list of pins the JSON document contains, in the order in which the
map was iterated. Writing a string as JSON replaces what is not UTF-8. SHA-256 is
a parameter. Every save succeeds. Files of the first version, which have no keys,
are not written by the store and are left out.
-/

namespace Veld.Tofu

/-- An Ed25519 public key. -/
abbrev PublicKey := { b : Bytes // b.length = 32 }

/-- A SHA-256 digest. -/
abbrev Digest := { b : Bytes // b.length = 32 }

def pubKeyString (pub : PublicKey) : String := Hex.encodeToString pub.val

structure PinValue where
  fingerprint : Digest
  ed25519Pub : String
  vpnAddr : Bytes
  /-- Addresses the key was pinned at before, the latest first. -/
  prevVPNAddrs : List Bytes := []
  deriving DecidableEq

def maxPrevVPNAddrs : Nat := 16

/-- The addresses a pin keeps reserved. -/
def PinValue.addresses (v : PinValue) : List Bytes := v.vpnAddr :: v.prevVPNAddrs

/-- The previous addresses after a move, before the oldest are released. -/
def PinValue.left (v : PinValue) (vpnAddr : Bytes) : List Bytes :=
  v.vpnAddr :: v.prevVPNAddrs.filter fun a => a ≠ vpnAddr ∧ a ≠ v.vpnAddr

/-- The pin after a move. -/
def PinValue.moveTo (v : PinValue) (vpnAddr : Bytes) : PinValue :=
  { v with prevVPNAddrs := (v.left vpnAddr).take maxPrevVPNAddrs, vpnAddr }

structure Store where
  pins : AList fun _ : String => PinValue := ∅
  vpnToPub : AList fun _ : Bytes => String := ∅

/-- An index entry is removed if it is the key's. -/
def unreserve (pub : String) (m : AList fun _ : Bytes => String) (a : Bytes) :
    AList fun _ : Bytes => String :=
  if m.lookup a = some pub then m.erase a else m

/-- An index entry is made if there is none. -/
def reserve (pub : String) (m : AList fun _ : Bytes => String) (a : Bytes) :
    AList fun _ : Bytes => String :=
  if (m.lookup a).isSome then m else m.insert a pub

namespace Store

variable (sha256 : Bytes → Digest) (s : Store)

/-- The index has the address for another key. -/
def taken (vpnAddr : Bytes) (pubStr : String) : Bool :=
  (s.vpnToPub.lookup vpnAddr).any (· ≠ pubStr)

/-- A pinned key moves to an address. -/
def move (stored : PinValue) (vpnAddr : Bytes) (pubStr : String) : Store where
  pins := s.pins.insert pubStr (stored.moveTo vpnAddr)
  vpnToPub := (eraseAll s.vpnToPub ((stored.left vpnAddr).drop maxPrevVPNAddrs)).insert vpnAddr pubStr

/-- A key is pinned for the first time. -/
def pin (fp : Digest) (vpnAddr : Bytes) (pubStr : String) : Store where
  pins := s.pins.insert pubStr { fingerprint := fp, ed25519Pub := pubStr, vpnAddr }
  vpnToPub := s.vpnToPub.insert vpnAddr pubStr

/-- `Check`: the store, and whether it was saved. No result is `ErrFingerprintMismatch`. -/
def check (vpnAddr : Bytes) (pub : PublicKey) : Option (Store × Bool) :=
  let fp := sha256 pub.val
  let pubStr := pubKeyString pub
  match s.pins.lookup pubStr with
  | some stored =>
    if stored.fingerprint ≠ fp then none
    else if stored.vpnAddr ≠ vpnAddr then
      if s.taken vpnAddr pubStr then none else some (s.move stored vpnAddr pubStr, true)
    else some (s, false)
  | none => if s.taken vpnAddr pubStr then none else some (s.pin fp vpnAddr pubStr, true)

def unpin (v : PinValue) : Store where
  pins := s.pins.erase v.ed25519Pub
  vpnToPub := v.addresses.foldl (unreserve v.ed25519Pub) s.vpnToPub

/-- `Forget`, before it saves. -/
def forget (pub : PublicKey) : Store :=
  match s.pins.lookup (pubKeyString pub) with
  | some v => s.unpin v
  | none => s

/-- `ForgetByVPNAddr`, before it saves. -/
def forgetByVPNAddr (vpnAddr : Bytes) : Store :=
  match s.vpnToPub.lookup vpnAddr with
  | none => s
  | some pubStr =>
    match s.pins.lookup pubStr with
    | some v => s.unpin v
    | none => { s with vpnToPub := s.vpnToPub.erase vpnAddr }

end Store

structure PinEntry where
  vpnAddr : Bytes
  ed25519Pub : String
  fingerprint : String
  prevVPNAddrs : List Bytes
  deriving DecidableEq

/-- What is read back from the file for a pin. -/
def PinValue.entry (v : PinValue) : PinEntry where
  vpnAddr := Utf8.coerce v.vpnAddr
  ed25519Pub := v.ed25519Pub
  fingerprint := Hex.encodeToString v.fingerprint.val
  prevVPNAddrs := v.prevVPNAddrs.map Utf8.coerce

/-- An order in which a map is iterated. -/
structure Order where
  arrange : List PinEntry → List PinEntry
  perm : ∀ l, (arrange l).Perm l

/-- The pins in the file. -/
abbrev File := Option (List PinEntry)

def Store.save (s : Store) (order : Order) : File :=
  some (order.arrange ((values s.pins).map PinValue.entry))

/-- The entry has a key and a fingerprint. -/
def PinEntry.complete (p : PinEntry) : Bool := p.ed25519Pub ≠ "" && p.fingerprint ≠ ""

/-- One pin of the file is loaded. -/
def Store.loadPin (s : Store) (p : PinEntry) : Store :=
  if p.complete then
    match Hex.decodeString p.fingerprint with
    | none => s
    | some b =>
      if h : b.length = 32 then
        { pins := s.pins.insert p.ed25519Pub ⟨⟨b, h⟩, p.ed25519Pub, p.vpnAddr, p.prevVPNAddrs⟩
          vpnToPub := p.prevVPNAddrs.foldl (reserve p.ed25519Pub)
            (s.vpnToPub.insert p.vpnAddr p.ed25519Pub) }
      else s
  else s

/-- `load` into a new store. -/
def Store.load : File → Store
  | none => {}
  | some f => if f.any PinEntry.complete then f.foldl Store.loadPin {} else {}

section Index

variable {pub p : String} {m : AList fun _ : Bytes => String} {l : List Bytes} {a : Bytes}

theorem lookup_unreserve :
    (l.foldl (unreserve pub) m).lookup a = some p ↔ m.lookup a = some p ∧ ¬(a ∈ l ∧ p = pub) := by
  induction l generalizing m with
  | nil => simp
  | cons b l ih =>
    have hhead : (unreserve pub m b).lookup a = some p ↔
        m.lookup a = some p ∧ ¬(a = b ∧ p = pub) := by
      unfold unreserve
      by_cases hb : m.lookup b = some pub
      · rw [if_pos hb, lookup_erase_eq_some]
        constructor
        · exact fun h => ⟨h.2, fun he => h.1 he.1⟩
        · rintro ⟨ha, hne⟩
          refine ⟨?_, ha⟩
          rintro rfl
          exact hne ⟨rfl, Option.mem_unique ha hb⟩
      · rw [if_neg hb]
        refine ⟨fun ha => ⟨ha, ?_⟩, And.left⟩
        rintro ⟨rfl, rfl⟩
        exact hb ha
    rw [List.foldl_cons, ih, hhead, List.mem_cons]
    tauto

theorem lookup_reserve : (l.foldl (reserve pub) m).lookup a = some p ↔
    m.lookup a = some p ∨ (m.lookup a = none ∧ a ∈ l ∧ p = pub) := by
  induction l generalizing m with
  | nil => simp
  | cons b l ih =>
    rw [List.foldl_cons, ih]
    unfold reserve
    by_cases hb : (m.lookup b).isSome = true
    · rw [if_pos hb]
      have hne : m.lookup a = none → a ≠ b := by
        rintro hnone rfl
        rw [hnone] at hb
        cases hb
      rw [List.mem_cons]
      tauto
    · rw [if_neg hb]
      by_cases hab : a = b
      · subst hab
        have hnone : m.lookup a = none := by simpa using hb
        simp [AList.lookup_insert, hnone, eq_comm]
      · rw [AList.lookup_insert_ne hab, List.mem_cons]
        tauto

end Index

theorem pubKeyString_inj {pub pub' : PublicKey} (h : pubKeyString pub = pubKeyString pub') :
    pub = pub' := by
  have hdecode := Hex.decodeString_encodeToString pub.val
  rw [← pubKeyString, h, pubKeyString, Hex.decodeString_encodeToString] at hdecode
  exact Subtype.ext (Option.some.inj hdecode).symm

/-- The text of bytes is not empty. -/
theorem encodeToString_ne_empty {b : Bytes} (h : b.length = 32) : Hex.encodeToString b ≠ "" := by
  intro hempty
  have hdecode := Hex.decodeString_encodeToString b
  rw [hempty] at hdecode
  obtain rfl : b = [] := (Option.some.inj hdecode).symm
  cases h

end Veld.Tofu
