import Veld.Acl.Policy
import Veld.Core.Run

/-!
# The loader of the local policy

`internal/acl/loader.go`: reading the policy file, checking its permissions and
storing the compiled policy behind the pointer of the swap. A missing file stores
a nil pointer, and the swap denies everything while its pointer is nil, so the
local layer does not defer to the network policy then but shuts it off.
-/

namespace Veld.Acl

open Peer

/-- The platforms the permission check tells apart. -/
inductive Platform
  | linux
  | windows
  | other
  deriving DecidableEq, Repr

/-- What `os.Stat` and `os.ReadFile` report about a policy file. -/
structure PolicyFile where
  /-- The content, or the error of reading it. -/
  content : Except String String
  mode : BitVec 32
  uid : UInt32
  /-- Nanoseconds since the epoch. -/
  modTime : Int
  deriving DecidableEq

/-- The policy file as `os.Stat` finds it. -/
inductive FileView
  | absent
  /-- An error other than `os.ErrNotExist`. -/
  | statError (err : String)
  | present (file : PolicyFile)
  deriving DecidableEq

/-- The zero `time.Time`, January 1 of the year 1. -/
def zeroTime : Int := -62135596800 * second

/-- A `LocalPolicyLoader` with the pointer of its `PolicySwap`. -/
structure Loader where
  platform : Platform
  path : String
  /-- `os.Geteuid`. -/
  currentUID : UInt32
  codec : Codec
  swap : Option CompiledPolicy := none
  network : Option Decider := none
  lastModTime : Int := zeroTime
  lastErrorLog : Int := zeroTime

/-- The verb `%o`. -/
def octal (n : Nat) : String := String.ofList (Nat.toDigits 8 n)

namespace Loader

variable {src dst : PeerID} {proto : Proto} {port : UInt16}

/-- `checkRootOrCurrentOwnership` on Linux. -/
def checkRootOrCurrentOwnership (l : Loader) (file : PolicyFile) : Except String Unit :=
  if file.uid ≠ 0 ∧ file.uid ≠ l.currentUID then
    .error ("policy file " ++ l.codec.quote l.path ++
      " is not owned by root (uid=0) or current user (uid=" ++ toString l.currentUID ++
      "); got uid=" ++ toString file.uid)
  else .ok ()

def validatePolicyFilePermissions (l : Loader) (file : PolicyFile) : Except String Unit :=
  if l.platform = .windows then .ok ()
  else if file.mode &&& 0o022 ≠ 0 then
    .error ("policy file " ++ l.codec.quote l.path ++ " is group or world writable (mode " ++
      octal (file.mode &&& 0o777).toNat ++ "); must be 0600 or 0640")
  else if l.platform = .linux then l.checkRootOrCurrentOwnership file
  else .ok ()

/-- The part of `Load` that reads an existing file. -/
def readPolicy (l : Loader) (file : PolicyFile) : Except String Policy := do
  l.validatePolicyFilePermissions file
  let data ← file.content.mapError ("read policy file: " ++ ·)
  (parsePolicy l.codec data).mapError ("parse policy: " ++ ·)

/-- `Load`, with the error it returns. -/
def load (l : Loader) (view : FileView) : Loader × Option String :=
  match view with
  | .absent => ({ l with swap := none }, none)
  | .statError err => (l, some ("stat policy file: " ++ err))
  | .present file =>
    match l.readPolicy file with
    | .error err => (l, some err)
    | .ok p => ({ l with swap := some p.compile, lastModTime := file.modTime }, none)

/-- `CombinedPolicy`, asked while the pointer of the swap is what the loader has now. The swap
itself is never nil. -/
def combinedPolicy (l : Loader) : Option Decider := combine (some (swapDecide l.swap)) l.network

/-- The loader after one more call of `Load`. -/
def next (l : Loader) (view : FileView) : Loader := (l.load view).1

/-- What a successful `Load` finds: no policy when there is no file, else the compiled policy. -/
def accepted (l : Loader) (view : FileView) : Option (Option CompiledPolicy) :=
  match view with
  | .absent => some none
  | .statError _ => none
  | .present file => (l.readPolicy file).toOption.map fun p => some p.compile

variable {l l' : Loader} {view : FileView}

/-- Loaders that read policy files alike. -/
structure SameReader (l l' : Loader) : Prop where
  platform : l'.platform = l.platform
  path : l'.path = l.path
  currentUID : l'.currentUID = l.currentUID
  codec : l'.codec = l.codec
  network : l'.network = l.network

theorem SameReader.refl (l : Loader) : SameReader l l := ⟨rfl, rfl, rfl, rfl, rfl⟩

theorem SameReader.trans {l'' : Loader} (h : SameReader l l') (h' : SameReader l' l'') :
    SameReader l l'' :=
  ⟨h'.platform.trans h.platform, h'.path.trans h.path, h'.currentUID.trans h.currentUID,
    h'.codec.trans h.codec, h'.network.trans h.network⟩

theorem SameReader.accepted (h : SameReader l l') (view : FileView) :
    l'.accepted view = l.accepted view := by
  cases view with
  | absent => rfl
  | statError err => rfl
  | present file =>
    simp only [Loader.accepted, readPolicy, validatePolicyFilePermissions,
      checkRootOrCurrentOwnership, h.platform, h.path, h.currentUID, h.codec]

theorem sameReader_next (l : Loader) (view : FileView) : SameReader l (l.next view) := by
  cases view with
  | absent => exact ⟨rfl, rfl, rfl, rfl, rfl⟩
  | statError err => exact .refl l
  | present file =>
    simp only [next, load]
    split
    · exact .refl l
    · exact ⟨rfl, rfl, rfl, rfl, rfl⟩

/-- A successful `Load` stores what it finds, a failed one keeps the policy in force. -/
theorem load_spec (l : Loader) (view : FileView) :
    (l.next view).swap = (l.accepted view).getD l.swap ∧
      ((l.load view).2 = none ↔ (l.accepted view).isSome = true) := by
  cases view with
  | absent => exact ⟨rfl, by simp [load, accepted]⟩
  | statError err => exact ⟨rfl, by simp [load, accepted]⟩
  | present file =>
    cases hp : l.readPolicy file with
    | error err => simp [next, load, accepted, hp, Except.toOption]
    | ok p => simp [next, load, accepted, hp, Except.toOption]

/-- What the last successful one of some calls of `Load` found. -/
def lastAccepted (l : Loader) (views : List FileView) : Option (Option CompiledPolicy) :=
  (views.filterMap l.accepted).getLast?

theorem sameReader_run (l : Loader) (views : List FileView) :
    SameReader l (run next l views) := by
  induction views using List.reverseRecOn with
  | nil => exact .refl l
  | append_singleton views view ih =>
    rw [run_snoc]
    exact ih.trans (sameReader_next _ view)

/-- The swap holds what the last successful `Load` found. -/
theorem swap_run (l : Loader) (views : List FileView) :
    (run next l views).swap = (l.lastAccepted views).getD l.swap := by
  induction views using List.reverseRecOn with
  | nil => rfl
  | append_singleton views view ih =>
    rw [run_snoc, (load_spec _ view).1, (sameReader_run l views).accepted view]
    cases ha : l.accepted view with
    | none => simpa [lastAccepted, List.filterMap_append, ha] using ih
    | some found => simp [lastAccepted, List.filterMap_append, ha]

/-- The combined decider allows a connection start. -/
def Allows (l : Loader) (src dst : PeerID) (proto : Proto) (port : UInt16) : Prop :=
  ∃ pd, l.combinedPolicy = some pd ∧ (pd src dst proto port).action = .allow

instance (l : Loader) (src dst : PeerID) (proto : Proto) (port : UInt16) :
    Decidable (l.Allows src dst proto port) :=
  match h : l.combinedPolicy with
  | none => .isFalse (by simp [Allows, h])
  | some pd => decidable_of_iff ((pd src dst proto port).action = .allow) (by simp [Allows, h])

/-- The two layers as documented: each layer that exists must allow, an absent one is no
restriction. -/
def Intended (inForce : Option CompiledPolicy) (network : Option Decider) (src dst : PeerID)
    (proto : Proto) (port : UInt16) : Prop :=
  (∀ cp, inForce = some cp → (cp.decide src dst proto port).action = .allow) ∧
    ∀ net, network = some net → (net src dst proto port).action = .allow

/-- A nil pointer in the swap denies everything. -/
theorem not_allows_of_swap_none (h : l.swap = none) : ¬l.Allows src dst proto port := by
  rintro ⟨pd, hpd, hallow⟩
  cases hn : l.network with
  | none =>
    obtain rfl : swapDecide none = pd := by simpa [combinedPolicy, h, hn, combine] using hpd
    cases hallow
  | some net =>
    obtain rfl : combined (swapDecide none) net = pd := by
      simpa [combinedPolicy, h, hn, combine] using hpd
    cases ((combined_allow_iff ..).mp hallow).1

/-- With a policy in the swap the two layers are as documented. -/
theorem allows_iff_of_swap_some {cp : CompiledPolicy} (h : l.swap = some cp) :
    l.Allows src dst proto port ↔ Intended (some cp) l.network src dst proto port := by
  cases hn : l.network with
  | none => simp [Allows, Intended, combinedPolicy, combine, swapDecide, h, hn]
  | some net =>
    have hpd : l.combinedPolicy = some (combined (swapDecide (some cp)) net) := by
      simp only [combinedPolicy, h, hn, combine]
    simp [Allows, Intended, hpd, combined_allow_iff, swapDecide]

/-- After any calls of `Load`, the combined decider answers as documented exactly when the last
successful one found a file, or the network policy denies anyway. -/
theorem combined_intended_iff {views : List FileView} {inForce : Option CompiledPolicy}
    (h : l.lastAccepted views = some inForce) (src dst : PeerID) (proto : Proto) (port : UInt16) :
    ((run next l views).Allows src dst proto port ↔
        Intended inForce l.network src dst proto port) ↔
      inForce ≠ none ∨ ∃ net, l.network = some net ∧ (net src dst proto port).action = .deny := by
  have hswap : (run next l views).swap = inForce := by rw [swap_run, h, Option.getD_some]
  have hnet : (run next l views).network = l.network := (sameReader_run l views).network
  cases inForce with
  | some cp => simp [allows_iff_of_swap_some hswap, hnet]
  | none =>
    have hno : ¬(run next l views).Allows src dst proto port := not_allows_of_swap_none hswap
    rw [iff_false_left hno]
    cases hn : l.network with
    | none => simp [Intended]
    | some net => cases ha : (net src dst proto port).action <;> simp [Intended, ha]

end Loader

namespace Sample

/-- A decoder that takes the content for the default action of a policy with one peer. -/
def codec : Codec where
  decode s :=
    if s = "" then .error "empty"
    else .ok ({ version := 1, default := s, peers := AList.insert "alice" "ed25519:00" ∅ }, [])
  hex _ := some (List.replicate 32 0)
  base64 _ := none
  quote s := "\"" ++ s ++ "\""

/-- A file with the given content, owned by root and written at the given time. -/
def file (content : String) (modTime : Int) : FileView := .present ⟨.ok content, 0o600, 0, modTime⟩

/-- The policy of a file, by its default action. -/
def compiled (default : Action) : CompiledPolicy := ⟨[], default, ∅, {0}⟩

/-- A loader on Linux, run by root. -/
def loader : Loader := { platform := .linux, path := "/etc/veld/policy.toml", currentUID := 0, codec }

end Sample

namespace Loader

/-- A broken file keeps the policy of the last good one in force. -/
theorem combined_intended_iff_broken :
    let views := [Sample.file "deny" 0, Sample.file "allow" second, Sample.file "" (2 * second)]
    (run next Sample.loader views).Allows 2 1 protoTCP 22 ↔
      Intended (some (Sample.compiled .allow)) none 2 1 protoTCP 22 := by
  intro views
  have h : Sample.loader.lastAccepted views = some (some (Sample.compiled .allow)) := by
    decide +kernel
  exact (combined_intended_iff h 2 1 protoTCP 22).mpr (.inl nofun)

/-- Without a policy file and with a network policy that allows everything, everything is
denied. -/
theorem absent_file_denies :
    let l := { Sample.loader with network := some fun _ _ _ _ => ⟨.allow, -1, false⟩ }
    l.lastAccepted [.absent] = some none ∧ Intended none l.network 2 1 protoTCP 22 ∧
      ¬(run next l [.absent]).Allows 2 1 protoTCP 22 := by
  intro l
  refine ⟨rfl, ⟨nofun, ?_⟩, by decide⟩
  rintro net ⟨⟩
  rfl

end Loader

end Veld.Acl
