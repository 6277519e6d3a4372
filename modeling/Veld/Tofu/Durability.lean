import Veld.Tofu.Trust

/-!
# Failed saves

`Check`, `Forget` and `ForgetByVPNAddr` change the store before they save it, and a save
that fails leaves the file as it was. The operations are atomic and durable over a whole
history exactly if no save fails after a change. One that does leaves a pin in memory only,
and a later `Check` of that pin succeeds without saving.
-/

namespace Veld.Tofu

inductive StoreCall
  | check (vpnAddr : Bytes) (pub : PublicKey)
  | forget (pub : PublicKey)
  | forgetByVPNAddr (vpnAddr : Bytes)

def StoreCall.Readable : StoreCall → Prop
  | .check vpnAddr _ => Utf8.valid vpnAddr = true
  | _ => True

/-- A call, the order in which its save iterates the pins, and whether a save succeeds. -/
structure Attempt where
  call : StoreCall
  order : Order
  saves : Bool

inductive Returned
  | nil
  | errFingerprintMismatch
  | saveError
  deriving DecidableEq

/-- What a call does in memory, and whether it then saves. -/
def Store.perform (sha256 : Bytes → Digest) (s : Store) : StoreCall → Option (Store × Bool)
  | .check vpnAddr pub => s.check sha256 vpnAddr pub
  | .forget pub => some (s.forget pub, true)
  | .forgetByVPNAddr vpnAddr => some (s.forgetByVPNAddr vpnAddr, true)

/-- The strings of a file are UTF-8, since the JSON decoder replaces what is not. -/
def File.Decoded (file : File) : Prop :=
  ∀ f, file = some f → ∀ e ∈ f, ∀ a ∈ e.vpnAddr :: e.prevVPNAddrs, Utf8.valid a = true

namespace Kept

variable (sha256 : Bytes → Digest)

/-- A save writes a temporary file and renames it, so one that fails leaves the file. -/
def attempt (k : Kept) (a : Attempt) : Kept × Returned :=
  match k.store.perform sha256 a.call with
  | none => (k, .errFingerprintMismatch)
  | some (s, false) => ({ k with store := s }, .nil)
  | some (s, true) =>
    if a.saves then (s.keep a.order, .nil) else ({ k with store := s }, .saveError)

def after (k : Kept) (a : Attempt) : Kept := (k.attempt sha256 a).1

/-- A restart gives the pins of the store. -/
def Matches (k : Kept) : Prop :=
  ∀ p, (Store.load k.file).pins.lookup p = k.store.pins.lookup p

/-- A save that fails comes after no change. -/
def Harmless (k : Kept) (a : Attempt) : Prop :=
  a.saves = false → ∀ s, k.store.perform sha256 a.call = some (s, true) → k.store.Same s

structure AtomicDurable (k : Kept) (a : Attempt) : Prop where
  atomic : (k.attempt sha256 a).2 ≠ .nil → k.store.Same (k.after sha256 a).store
  durable : (k.attempt sha256 a).2 = .nil → (k.after sha256 a).Matches
  survives : ∀ vpnAddr pub, a.call = .check vpnAddr pub → (k.attempt sha256 a).2 = .nil →
    let restarted := Store.load (k.after sha256 a).file
    restarted.check sha256 vpnAddr pub = some (restarted, false)

end Kept

section Memory

variable {sha256 : Bytes → Digest} {s s' : Store} {a : Bytes} {pub : PublicKey} {c : StoreCall}
  {b : Bool} {file : File}

theorem Store.keyed_load (file : File) : (Store.load file).Keyed := by
  intro p v hv
  cases file with
  | none => cases hv
  | some f =>
    rw [Store.load_some] at hv
    rcases Store.mem_of_lookup_foldl hv with ⟨e, -, rfl, hne, fp, rfl⟩ | hv
    · exact ⟨rfl, hne⟩
    · cases hv

theorem File.Decoded.readable_load (h : file.Decoded) : (Store.load file).Readable := by
  intro p v a hv ha
  cases file with
  | none => cases hv
  | some f =>
    rw [Store.load_some] at hv
    rcases Store.mem_of_lookup_foldl hv with ⟨e, he, -, -, fp, rfl⟩ | hv
    · exact h f rfl e he a ha
    · cases hv

theorem Store.Keyed.perform (h : s.Keyed) (hs : s.perform sha256 c = some (s', b)) :
    s'.Keyed := by
  cases c with
  | check a pub =>
    rcases Store.check_eq_some hs with ⟨_, -, -, hr⟩ | ⟨stored, hp, -, -, hr⟩ | ⟨-, -, hr⟩
    · obtain ⟨rfl, -⟩ := Prod.mk.inj hr
      exact h
    · obtain ⟨rfl, -⟩ := Prod.mk.inj hr
      intro p v hv
      rcases lookup_insert_eq_some.mp hv with ⟨rfl, rfl⟩ | ⟨-, hv⟩
      · exact h _ stored hp
      · exact h p v hv
    · obtain ⟨rfl, -⟩ := Prod.mk.inj hr
      intro p v hv
      rcases lookup_insert_eq_some.mp hv with ⟨rfl, rfl⟩ | ⟨-, hv⟩
      · exact ⟨rfl, Store.pubKeyString_ne_empty pub⟩
      · exact h p v hv
  | forget pub =>
    obtain ⟨rfl, -⟩ := Prod.mk.inj (Option.some.inj hs)
    exact fun p v hv => h p v (Store.lookup_of_forget hv)
  | forgetByVPNAddr a =>
    obtain ⟨rfl, -⟩ := Prod.mk.inj (Option.some.inj hs)
    exact fun p v hv => h p v (Store.lookup_of_forgetByVPNAddr hv)

theorem Store.Readable.perform (h : s.Readable) (hc : c.Readable)
    (hs : s.perform sha256 c = some (s', b)) : s'.Readable := by
  cases c with
  | check a pub => exact h.check hc hs
  | forget pub =>
    obtain ⟨rfl, -⟩ := Prod.mk.inj (Option.some.inj hs)
    exact h.forget pub
  | forgetByVPNAddr a =>
    obtain ⟨rfl, -⟩ := Prod.mk.inj (Option.some.inj hs)
    exact h.forgetByVPNAddr a

/-- Only a `Check` that changes nothing does not save. -/
theorem Store.eq_of_perform_unsaved (hs : s.perform sha256 c = some (s', false)) : s' = s := by
  cases c with
  | check a pub =>
    rcases Store.check_eq_some hs with ⟨_, -, -, hr⟩ | ⟨_, -, -, -, hr⟩ | ⟨-, -, hr⟩
    · exact (Prod.mk.inj hr).1
    · cases (Prod.mk.inj hr).2
    · cases (Prod.mk.inj hr).2
  | forget pub => cases (Prod.mk.inj (Option.some.inj hs)).2
  | forgetByVPNAddr a => cases (Prod.mk.inj (Option.some.inj hs)).2

/-- A key is accepted at its address without a change. -/
theorem Store.check_pinned {v : PinValue} (hv : s.pins.lookup (pubKeyString pub) = some v)
    (ha : v.vpnAddr = a) (hfp : v.fingerprint = sha256 pub.val) :
    s.check sha256 a pub = some (s, false) := by
  simp [Store.check, hv, hfp, ha]

end Memory

namespace Kept

variable {sha256 : Bytes → Digest} {k : Kept} {a : Attempt} {s : Store}

/-- The pins can be written and read back, and the file has them. -/
structure Steady (k : Kept) : Prop where
  keyed : k.store.Keyed
  readable : k.store.Readable
  matched : k.Matches

theorem Matches.steady (h : k.Matches) (hfile : k.file.Decoded) : k.Steady where
  keyed p v hv := Store.keyed_load k.file p v ((h p).trans hv)
  readable p v a hv := hfile.readable_load p v a ((h p).trans hv)
  matched := h

theorem steady_keep (hkeyed : s.Keyed) (hread : s.Readable) (order : Order) :
    (s.keep order).Steady := by
  obtain ⟨f, hf, -, hd⟩ := hkeyed.describes_save order
  refine ⟨hkeyed, hread, ?_⟩
  rw [Store.keep, hf]
  exact hkeyed.lookup_load hread hd

theorem Steady.same (h : k.Steady) (hs : k.store.Same s) :
    ({ k with store := s } : Kept).Steady where
  keyed p v hv := h.keyed p v ((hs.pins p).symm.trans hv)
  readable := hs.readable h.readable
  matched p := (h.matched p).trans (hs.pins p).symm

/-- What a call can do. -/
theorem attempt_cases (sha256 : Bytes → Digest) (k : Kept) (a : Attempt) :
    (k.store.perform sha256 a.call = none ∧
      k.attempt sha256 a = (k, .errFingerprintMismatch)) ∨
    (k.store.perform sha256 a.call = some (k.store, false) ∧ k.attempt sha256 a = (k, .nil)) ∨
    (∃ s, k.store.perform sha256 a.call = some (s, true) ∧ a.saves = true ∧
      k.attempt sha256 a = (s.keep a.order, .nil)) ∨
    (∃ s, k.store.perform sha256 a.call = some (s, true) ∧ a.saves = false ∧
      k.attempt sha256 a = ({ k with store := s }, .saveError)) := by
  unfold attempt
  split
  · rename_i hnone
    exact .inl ⟨hnone, rfl⟩
  · rename_i s hs
    obtain rfl := Store.eq_of_perform_unsaved hs
    exact .inr (.inl ⟨hs, rfl⟩)
  · rename_i s hs
    cases hsaves : a.saves with
    | true => exact .inr (.inr (.inl ⟨s, hs, rfl, rfl⟩))
    | false => exact .inr (.inr (.inr ⟨s, hs, rfl, rfl⟩))

theorem Steady.after (h : k.Steady) (ha : a.call.Readable) (hsave : k.Harmless sha256 a) :
    (k.after sha256 a).Steady := by
  unfold Kept.after
  rcases attempt_cases sha256 k a with ⟨-, he⟩ | ⟨-, he⟩ | ⟨s, hs, -, he⟩ | ⟨s, hs, hfails, he⟩
  · rw [he]
    exact h
  · rw [he]
    exact h
  · rw [he]
    exact steady_keep (h.keyed.perform hs) (h.readable.perform ha hs) a.order
  · rw [he]
    exact h.same (hsave hfails s hs)

/-- A `Check` that returns nil has pinned its key at its address. -/
theorem pinned_of_nil {vpnAddr : Bytes} {pub : PublicKey} (ha : a.call = .check vpnAddr pub)
    (hnil : (k.attempt sha256 a).2 = .nil) :
    ∃ v, (k.after sha256 a).store.pins.lookup (pubKeyString pub) = some v ∧
      v.vpnAddr = vpnAddr ∧ v.fingerprint = sha256 pub.val := by
  unfold Kept.after
  rcases attempt_cases sha256 k a with ⟨-, he⟩ | ⟨hs, he⟩ | ⟨s, hs, -, he⟩ | ⟨s, -, -, he⟩
  · rw [he] at hnil
    cases hnil
  · rw [ha] at hs
    rw [he]
    exact Store.pinned_of_check hs
  · rw [ha] at hs
    rw [he]
    exact Store.pinned_of_check hs
  · rw [he] at hnil
    cases hnil

theorem Steady.atomicDurable (h : k.Steady) (ha : a.call.Readable)
    (hsave : k.Harmless sha256 a) : k.AtomicDurable sha256 a where
  atomic herr := by
    unfold Kept.after
    rcases attempt_cases sha256 k a with ⟨-, he⟩ | ⟨-, he⟩ | ⟨s, -, -, he⟩ | ⟨s, hs, hfails, he⟩
    · rw [he]
      exact ⟨fun _ => rfl, fun _ => rfl⟩
    · rw [he] at herr
      exact absurd rfl herr
    · rw [he] at herr
      exact absurd rfl herr
    · rw [he]
      exact hsave hfails s hs
  durable _ := (h.after ha hsave).matched
  survives vpnAddr pub hcall hnil := by
    obtain ⟨v, hv, haddr, hfp⟩ := pinned_of_nil hcall hnil
    exact Store.check_pinned (((h.after ha hsave).matched _).trans hv) haddr hfp

theorem AtomicDurable.harmless (h : k.AtomicDurable sha256 a) : k.Harmless sha256 a := by
  intro hfails s hs
  have he : k.attempt sha256 a = ({ k with store := s }, .saveError) := by
    simp [attempt, hs, hfails]
  have hsame := h.atomic (by rw [he]; exact Returned.noConfusion)
  rw [Kept.after, he] at hsame
  exact hsame

/-- A key is pinned, and a save that fails is that of a key that was never pinned. -/
def harmlessAttempts : List Attempt :=
  [⟨.check [0x31] Sample.alice, Sample.inOrder, true⟩, ⟨.forget Sample.bob, Sample.inOrder, false⟩]

end Kept

end Veld.Tofu
