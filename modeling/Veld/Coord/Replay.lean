import Veld.Core.Assoc
import Veld.Core.Run
import Veld.Crypto.SignedMessage

/-!
# Signatures that were used before

`coord/server/replay.go` and its two callers. Every request is checked against a
clock reading in whole seconds and then against the cache of used signatures. A
registration reads the clock a second time for the cache, the other calls use
the reading of the check. Between the two checks of a request other requests may
go through either of theirs.
-/

namespace Veld.Coord

open Crypto

/-- `maxSeenSignatures`. -/
def maxSeenSignatures : Nat := 65536

/-- The hashes of used signatures, each with the time at which it may be forgotten. -/
structure SeenSignatures (δ : Type) where
  seen : AList fun _ : δ => Int
  window : Int

section Cache

variable {δ : Type} [DecidableEq δ]

namespace SeenSignatures

/-- `newSeenSignatures`. -/
def new (window : Int) : SeenSignatures δ := ⟨∅, window⟩

/-- The cache without the hashes that may be forgotten. -/
def purge (s : SeenSignatures δ) (now : Int) : SeenSignatures δ :=
  { s with seen := keepValues (now < ·) s.seen }

/-- The cache with a hash that was just used. -/
def record (s : SeenSignatures δ) (key : δ) (now : Int) : SeenSignatures δ :=
  { s with seen := s.seen.insert key (now + 2 * s.window) }

/-- The hash is in the cache and may not be forgotten yet. -/
def isSeen (s : SeenSignatures δ) (key : δ) (now : Int) : Bool :=
  (s.seen.lookup key).any (now < ·)

/-- `firstUse` of a signature with this hash. -/
def firstUse (s : SeenSignatures δ) (key : δ) (now : Int) : SeenSignatures δ × Bool :=
  if s.isSeen key now then (s, false)
  else if s.seen.entries.length < maxSeenSignatures then (s.record key now, true)
  else if (s.purge now).seen.entries.length < maxSeenSignatures then
    ((s.purge now).record key now, true)
  else (s.purge now, false)

variable {s : SeenSignatures δ} {key key' : δ} {now exp : Int}

/-- A use changes nothing, or it happens on the cache or on the purged one. -/
theorem firstUse_cases (s : SeenSignatures δ) (key : δ) (now : Int) :
    (s.isSeen key now = true ∧ s.firstUse key now = (s, false)) ∨
    (s.isSeen key now = false ∧ ∃ s', (s' = s ∨ s' = s.purge now) ∧
      (s.firstUse key now = (s'.record key now, true) ∨ s.firstUse key now = (s', false))) := by
  unfold firstUse
  cases s.isSeen key now with
  | true => exact .inl ⟨rfl, rfl⟩
  | false =>
    refine .inr ⟨rfl, ?_⟩
    rw [if_neg Bool.false_ne_true]
    split
    · exact ⟨s, .inl rfl, .inl rfl⟩
    · split
      · exact ⟨s.purge now, .inr rfl, .inl rfl⟩
      · exact ⟨s.purge now, .inr rfl, .inr rfl⟩

@[simp] theorem window_firstUse : (s.firstUse key now).1.window = s.window := by
  rcases firstUse_cases s key now with
    ⟨-, h⟩ | ⟨-, s', rfl | rfl, h | h⟩ <;> rw [h] <;> rfl

/-- A signature that was let through is in the cache. -/
theorem lookup_firstUse_self (h : (s.firstUse key now).2 = true) :
    (s.firstUse key now).1.seen.lookup key = some (now + 2 * s.window) := by
  rcases firstUse_cases s key now with
    ⟨-, hu⟩ | ⟨-, s', hs', hu | hu⟩
  · rw [hu] at h
    cases h
  · have hwindow : s'.window = s.window := by
      rcases hs' with rfl | rfl <;> rfl
    rw [hu, ← hwindow]
    exact AList.lookup_insert s'.seen
  · rw [hu] at h
    cases h

/-- Only an entry that may be forgotten lets its signature through. -/
theorem le_of_firstUse (h : (s.firstUse key now).2 = true)
    (hl : s.seen.lookup key = some exp) : exp ≤ now := by
  rcases firstUse_cases s key now with ⟨-, hu⟩ | ⟨hseen, -⟩
  · rw [hu] at h
    cases h
  · simpa [isSeen, hl] using hseen

/-- An entry stays, or it may be forgotten. -/
theorem lookup_firstUse (key : δ) (now : Int) (hl : s.seen.lookup key' = some exp) :
    (s.firstUse key now).1.seen.lookup key' = some exp ∨ exp ≤ now := by
  by_cases hlt : exp ≤ now
  · exact .inr hlt
  · refine .inl ?_
    rcases firstUse_cases s key now with
      ⟨-, hu⟩ | ⟨hseen, s', hs', hu⟩
    · rw [hu, hl]
    · have hl' : s'.seen.lookup key' = some exp := by
        rcases hs' with rfl | rfl
        · exact hl
        · exact lookup_keepValues_eq_some.mpr ⟨hl, by simpa using hlt⟩
      rcases hu with hu | hu
      · have hne : key' ≠ key := by
          rintro rfl
          rw [isSeen, hl] at hseen
          exact hlt (by simpa using hseen)
        rw [hu, record, AList.lookup_insert_ne hne, hl']
      · rw [hu, hl']

end SeenSignatures

end Cache

/-- A request with the key its signature is checked against. -/
inductive SignedRequest
  | register (pub : Bytes) (claims : RegisterClaims) (sig : Bytes)
  /-- Watch, SendSignal or Leave. -/
  | call (pub : Bytes) (claims : CallClaims) (sig : Bytes)
  deriving DecidableEq

namespace SignedRequest

def signature : SignedRequest → Bytes
  | register _ _ sig => sig
  | call _ _ sig => sig

def timestampUnix : SignedRequest → Int
  | register _ claims _ => claims.timestampUnix
  | call _ claims _ => claims.timestampUnix

/-- The check of the timestamp and the signature, with a clock reading in nanoseconds. -/
def verified (verify : Bytes → Bytes → Bytes → Bool) (now : Int) (req : SignedRequest) :
    Except SignatureError Unit :=
  match req with
  | register pub claims sig => verifyRegisterSignature verify pub sig claims (now / second)
  | call pub claims sig => verifyCallSignature verify pub sig claims (now / second)

/-- The reading `firstUse` gets: a registration reads the clock again. -/
def useTime (checkedAt now : Int) : SignedRequest → Int
  | register _ _ _ => now
  | call _ _ _ => checkedAt

/-- A request that passes the check has not left its window. -/
theorem lt_of_verified {verify : Bytes → Bytes → Bytes → Bool} {now : Int} {req : SignedRequest}
    (h : req.verified verify now = .ok ()) : now < (req.timestampUnix + 121) * second := by
  have hw : inWindow req.timestampUnix (now / second) = true := by
    cases req with
    | register pub claims sig => exact inWindow_of_verifySignature h
    | call pub claims sig => exact inWindow_of_verifySignature h
  have hle := (inWindow_iff.mp hw).2
  have hdiv : now < (now / second + 1) * second := Int.lt_ediv_add_one_mul_self now (by decide)
  have hmul : (now / second + 1) * second ≤ (req.timestampUnix + 121) * second :=
    Int.mul_le_mul_of_nonneg_right (by omega) (by decide)
  omega

end SignedRequest

/-- A server as the replay checks see it. -/
structure Gate (δ : Type) where
  seen : SeenSignatures δ
  /-- The time of the last step, in nanoseconds. -/
  clock : Int
  /-- The requests between their two checks, each with the reading of the first one. -/
  checked : List (SignedRequest × Int)

/-- One of the two checks of a request, and the time at which it happens. -/
inductive GateStep
  | check (req : SignedRequest) (now : Int)
  | use (k : Nat) (now : Int)

/-- The time of a step. -/
def GateStep.time : GateStep → Int
  | check _ now => now
  | use _ now => now

namespace Gate

section Steps

variable {δ : Type} [DecidableEq δ] (verify : Bytes → Bytes → Bytes → Bool) (sha256 : Bytes → δ)

/-- A server that was just started. -/
def new (start : Int) : Gate δ := ⟨.new (callTimestampWindow * second), start, []⟩

/-- The request a step hands to `firstUse`, and the reading it hands with it. -/
def use? (g : Gate δ) : GateStep → Option (SignedRequest × Int)
  | .check _ _ => none
  | .use k now => g.checked[k]?.map fun x => (x.1, x.1.useTime x.2 now)

/-- The request that gets past both checks by a step. -/
def passed? (g : Gate δ) (i : GateStep) : Option SignedRequest :=
  (g.use? i).bind fun x =>
    if (g.seen.firstUse (sha256 x.1.signature) x.2).2 then some x.1 else none

def next (g : Gate δ) (i : GateStep) : Gate δ where
  seen := match g.use? i with
    | some x => (g.seen.firstUse (sha256 x.1.signature) x.2).1
    | none => g.seen
  clock := i.time
  checked := match i with
    | .check req now =>
      if (req.verified verify now).isOk then g.checked ++ [(req, now)] else g.checked
    | .use k _ => g.checked.eraseIdx k

/-- The requests that got past both checks, in order. -/
def passed (past : List (Gate δ × GateStep)) : List SignedRequest :=
  past.filterMap fun x => x.1.passed? sha256 x.2

/-- The requests handed to `firstUse`, in order, with the readings. -/
def uses (past : List (Gate δ × GateStep)) : List (SignedRequest × Int) :=
  past.filterMap fun x => x.1.use? x.2

/-- A registration is used before its window ends, another call before the cache saw a later
reading. -/
def Prompt (uses : List (SignedRequest × Int)) (τ : Int) : SignedRequest → Prop
  | .register _ claims _ => τ < (claims.timestampUnix + 121) * second
  | .call _ _ _ => ∀ x ∈ uses, x.2 ≤ τ

/-- A request reaches the cache in time, not in the first second of its window, and its signature
was used with no other timestamp. -/
def InTime (past : List (Gate δ × GateStep)) (g : Gate δ) (i : GateStep) : Prop :=
  ∀ x ∈ g.use? i, (x.1.timestampUnix - 119) * second ≤ x.2 ∧ Prompt (uses past) x.2 x.1 ∧
    ∀ y ∈ uses past, y.1.signature = x.1.signature → y.1.timestampUnix = x.1.timestampUnix

/-- The clock never goes back. -/
def Forward (g : Gate δ) (i : GateStep) : Prop := g.clock ≤ i.time

instance (uses : List (SignedRequest × Int)) (τ : Int) :
    (req : SignedRequest) → Decidable (Prompt uses τ req)
  | .register _ claims _ => inferInstanceAs (Decidable (τ < (claims.timestampUnix + 121) * second))
  | .call _ _ _ => inferInstanceAs (Decidable (∀ x ∈ uses, x.2 ≤ τ))

instance (past : List (Gate δ × GateStep)) (g : Gate δ) (i : GateStep) :
    Decidable (InTime past g i) :=
  inferInstanceAs (Decidable (∀ x ∈ g.use? i, _))

instance (g : Gate δ) (i : GateStep) : Decidable (Forward g i) :=
  inferInstanceAs (Decidable (g.clock ≤ i.time))

end Steps

variable {δ : Type} {past : List (Gate δ × GateStep)} {g : Gate δ} {i : GateStep}
  {req : SignedRequest} {τ : Int}

theorem uses_snoc : uses (past ++ [(g, i)]) = uses past ++ (g.use? i).toList := by
  rw [uses, List.filterMap_append]
  cases h : g.use? i <;> simp [uses, h]

theorem mem_uses_snoc {x : SignedRequest × Int} :
    x ∈ uses (past ++ [(g, i)]) ↔ x ∈ uses past ∨ g.use? i = some x := by
  rw [uses_snoc, List.mem_append, Option.mem_toList]

variable [DecidableEq δ] {verify : Bytes → Bytes → Bytes → Bool} {sha256 : Bytes → δ}

theorem passed_snoc :
    passed sha256 (past ++ [(g, i)]) = passed sha256 past ++ (g.passed? sha256 i).toList := by
  rw [passed, List.filterMap_append]
  cases h : g.passed? sha256 i <;> simp [passed, h]

theorem mem_passed_snoc :
    req ∈ passed sha256 (past ++ [(g, i)]) ↔
      req ∈ passed sha256 past ∨ g.passed? sha256 i = some req := by
  rw [passed_snoc, List.mem_append, Option.mem_toList]

theorem passed?_eq_some : g.passed? sha256 i = some req ↔
    ∃ τ, g.use? i = some (req, τ) ∧ (g.seen.firstUse (sha256 req.signature) τ).2 = true := by
  rw [passed?, Option.bind_eq_some_iff]
  constructor
  · rintro ⟨⟨req', τ⟩, hu, hp⟩
    dsimp only at hp
    split at hp
    · rename_i hfirst
      obtain rfl := Option.some.inj hp
      exact ⟨τ, hu, hfirst⟩
    · cases hp
  · rintro ⟨τ, hu, hfirst⟩
    exact ⟨(req, τ), hu, by simp [hfirst]⟩

/-- What gets past both checks was handed to `firstUse`. -/
theorem exists_use_of_passed (h : req ∈ passed sha256 past) : ∃ τ, (req, τ) ∈ uses past := by
  obtain ⟨x, hx, hp⟩ := List.mem_filterMap.mp h
  obtain ⟨τ, hu, -⟩ := passed?_eq_some.mp hp
  exact ⟨τ, List.mem_filterMap.mpr ⟨x, hx, hu⟩⟩

/-- The end of the window of a request. -/
def closing (req : SignedRequest) : Int := (req.timestampUnix + 121) * second

/-- What holds while all requests are in time: the cache remembers a request that got past both
checks, or it has seen a reading after the end of its window. -/
structure Remembered (sha256 : Bytes → δ) (past : List (Gate δ × GateStep)) (g : Gate δ) :
    Prop where
  window : g.seen.window = 120 * second
  pending : ∀ x ∈ g.checked, x.2 ≤ g.clock ∧ x.2 < closing x.1
  used : ∀ x ∈ uses past, x.2 ≤ g.clock
  kept : ∀ req ∈ passed sha256 past,
    (∃ exp, g.seen.seen.lookup (sha256 req.signature) = some exp ∧ closing req ≤ exp) ∨
      ∃ x ∈ uses past, closing req ≤ x.2
  once : ∀ sig, (passed sha256 past).countP (·.signature = sig) ≤ 1

namespace Remembered

theorem new (start : Int) : Remembered sha256 [] (Gate.new start : Gate δ) where
  window := rfl
  pending := nofun
  used := nofun
  kept := nofun
  once _ := Nat.zero_le 1

variable (h : Remembered sha256 past g)

include h

theorem kept_next (hin : InTime past g i) :
    ∀ req ∈ passed sha256 (past ++ [(g, i)]),
      (∃ exp, (g.next verify sha256 i).seen.seen.lookup (sha256 req.signature) = some exp ∧
        closing req ≤ exp) ∨ ∃ x ∈ uses (past ++ [(g, i)]), closing req ≤ x.2 := by
  intro req hreq
  rcases mem_passed_snoc.mp hreq with hold | hnew
  · rcases h.kept req hold with ⟨exp, hl, hexp⟩ | ⟨x, hx, hle⟩
    · cases hu : g.use? i with
      | none => exact .inl ⟨exp, by simp only [Gate.next, hu, hl], hexp⟩
      | some x =>
        rcases SeenSignatures.lookup_firstUse (sha256 x.1.signature) x.2 hl with hl' | hle
        · exact .inl ⟨exp, by simp only [Gate.next, hu, hl'], hexp⟩
        · exact .inr ⟨x, mem_uses_snoc.mpr (.inr hu), hexp.trans hle⟩
    · exact .inr ⟨x, mem_uses_snoc.mpr (.inl hx), hle⟩
  · obtain ⟨τ, hu, hfirst⟩ := passed?_eq_some.mp hnew
    have hearly := (hin (req, τ) hu).1
    refine .inl ⟨τ + 2 * g.seen.window, ?_, ?_⟩
    · simp only [Gate.next, hu]
      exact SeenSignatures.lookup_firstUse_self hfirst
    · rw [h.window, closing]
      simp only [second] at hearly ⊢
      omega

variable (htime : g.clock ≤ i.time)

include htime

/-- A request is used before its window ends and with the latest reading so far. -/
theorem use (hin : InTime past g i) (hu : g.use? i = some (req, τ)) :
    τ ≤ i.time ∧ τ < closing req ∧ ∀ x ∈ uses past, x.2 ≤ τ := by
  obtain ⟨-, hlate, -⟩ := hin (req, τ) hu
  cases i with
  | check req' now => cases hu
  | use k now =>
    obtain ⟨⟨req', t⟩, hk, he⟩ := Option.map_eq_some_iff.mp hu
    obtain ⟨hle, hlt⟩ := h.pending (req', t) (List.mem_of_getElem? hk)
    obtain ⟨rfl, rfl⟩ := Prod.mk.inj he
    cases req' with
    | register pub claims sig =>
      exact ⟨le_rfl, hlate, fun x hx => (h.used x hx).trans htime⟩
    | call pub claims sig => exact ⟨hle.trans htime, hlt, hlate⟩

theorem pending_next : ∀ x ∈ (g.next verify sha256 i).checked,
    x.2 ≤ (g.next verify sha256 i).clock ∧ x.2 < closing x.1 := by
  intro x hx
  have hold (hx : x ∈ g.checked) : x.2 ≤ i.time ∧ x.2 < closing x.1 :=
    ⟨(h.pending x hx).1.trans htime, (h.pending x hx).2⟩
  cases i with
  | check req now =>
    simp only [next] at hx
    split at hx
    · rename_i hok
      rcases List.mem_append.mp hx with hx | hx
      · exact hold hx
      · obtain rfl := List.mem_singleton.mp hx
        cases hv : req.verified verify now with
        | error err =>
          rw [hv] at hok
          cases hok
        | ok u => exact ⟨le_rfl, SignedRequest.lt_of_verified hv⟩
    · exact hold hx
  | use k now => exact hold (List.mem_of_mem_eraseIdx hx)

/-- No request gets past both checks with the signature of an earlier one. -/
theorem fresh (hin : InTime past g i) (hp : g.passed? sha256 i = some req) :
    ∀ req' ∈ passed sha256 past, req'.signature ≠ req.signature := by
  intro req' hreq' hsig
  obtain ⟨τ, hu, hfirst⟩ := passed?_eq_some.mp hp
  obtain ⟨-, hlt, hlatest⟩ := h.use htime hin hu
  obtain ⟨τ', hu'⟩ := exists_use_of_passed hreq'
  have hclosing : closing req' = closing req := by
    rw [closing, closing, (hin (req, τ) hu).2.2 _ hu' hsig]
  rcases h.kept req' hreq' with ⟨exp, hl, hexp⟩ | ⟨x, hx, hle⟩
  · rw [hsig] at hl
    have hpast := SeenSignatures.le_of_firstUse hfirst hl
    omega
  · have hx' := hlatest x hx
    omega

theorem once_next (hin : InTime past g i) (sig : Bytes) :
    (passed sha256 (past ++ [(g, i)])).countP (·.signature = sig) ≤ 1 := by
  rw [passed_snoc, List.countP_append]
  cases hp : g.passed? sha256 i with
  | none => simpa using h.once sig
  | some req =>
    by_cases hsig : req.signature = sig
    · have hzero : (passed sha256 past).countP (·.signature = sig) = 0 := by
        refine List.countP_eq_zero.mpr fun req' hreq' => ?_
        rw [decide_eq_true_eq, ← hsig]
        exact h.fresh htime hin hp req' hreq'
      rw [hzero, Nat.zero_add]
      exact List.countP_le_length
    · simpa [hsig] using h.once sig

/-- One step keeps the invariant. -/
theorem next (hin : InTime past g i) :
    Remembered sha256 (past ++ [(g, i)]) (g.next verify sha256 i) where
  window := by
    cases hu : g.use? i with
    | none => simp only [Gate.next, hu, h.window]
    | some x => simp only [Gate.next, hu, SeenSignatures.window_firstUse, h.window]
  pending := h.pending_next htime
  used := by
    intro x hx
    rcases mem_uses_snoc.mp hx with hold | hnew
    · exact (h.used x hold).trans htime
    · exact (h.use htime hin hnew).1
  kept := h.kept_next hin
  once := h.once_next htime hin

end Remembered

/-- While all requests are in time, no two requests with one signature get past both checks. -/
theorem signature_passed_once {start : Int} {steps : List GateStep}
    (hclock : Along (next verify sha256) Forward (Gate.new start) steps)
    (hin : Throughout (next verify sha256) InTime (Gate.new start) steps) (sig : Bytes) :
    (passed sha256 (trail (next verify sha256) (Gate.new start) steps)).countP
      (·.signature = sig) ≤ 1 := by
  have hboth : Throughout (next verify sha256)
      (fun past g i => Forward g i ∧ InTime past g i) (Gate.new start) steps := by
    intro past i rest he
    refine ⟨?_, hin past i rest he⟩
    rw [he] at hclock
    exact (along_cons.mp (along_append.mp hclock).2).1
  have hinv := Throughout.invariant (Remembered sha256) hboth (.new start)
    fun past g i hr hi => hr.next hi.1 hi.2
  exact hinv.once sig

/-- A call that was signed for a timestamp, with the timestamp as its signature. -/
def sampleCall (ts : UInt8) : SignedRequest := .call [] (leaveClaims "peer" ts.toNat) [ts]

/-- A server whose signatures all verify and whose hash is the signature itself. -/
def sampleTrail (steps : List GateStep) : List (Gate Bytes × GateStep) :=
  trail (next (fun _ _ _ => true) id) (Gate.new 0) steps

/-- A call is signed 120 seconds ahead of the clock. When it is presented again 240.5 seconds after
its first use, its timestamp is still inside the window in whole seconds but its cache entry may
already be forgotten. -/
theorem signature_passed_twice :
    let steps := [GateStep.check (sampleCall 120) 0, .use 0 0,
      .check (sampleCall 120) (240 * second + 500 * millisecond),
      .use 0 (240 * second + 500 * millisecond)]
    Along (next (fun _ _ _ => true) id) Forward (Gate.new 0 : Gate Bytes) steps ∧
      passed id (sampleTrail steps) = [sampleCall 120, sampleCall 120] := by
  decide +kernel

/-- A replay of a call inside its window is refused. -/
theorem signature_passed_once_replayed :
    let steps := [GateStep.check (sampleCall 60) 0, .use 0 0, .check (sampleCall 60) second,
      .use 0 second]
    passed id (sampleTrail steps) = [sampleCall 60] ∧
      (passed id (sampleTrail steps)).countP (·.signature = [60]) ≤ 1 := by
  intro steps
  refine ⟨by decide +kernel, signature_passed_once ?_ ?_ [60]⟩
  · decide +kernel
  · decide +kernel

end Gate

end Veld.Coord
