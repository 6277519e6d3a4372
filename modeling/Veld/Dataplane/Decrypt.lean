import Veld.Core.Run
import Veld.Core.Tally
import Veld.Peer.Table
import Veld.Session.Window

/-!
# Concurrent decryption

Any number of `decryptDataPacket` calls on one peer entry. A call stands between
two of its steps: the window check, the AEAD and the marking of one
`Session.Decrypt` are separate steps, each attempt reads its slot of the entry
when it gets there, and the promotion is a step of its own. In between the
handshakes set and promote sessions and the peer encrypts.

The AEAD is ideal: opening succeeds exactly on what the peer's `Encrypt` made
with that session and nonce. `aeadSeal` is its sealing function. The callback of a
promotion sends held packets and touches nothing that is modelled here.
-/

namespace Veld.Dataplane

open Peer

/-- A packet the peer has encrypted. -/
structure Sealed where
  session : SessionRef
  nonce : UInt64
  plaintext : Bytes
  deriving DecidableEq

/-- The slot of the entry that an attempt takes its session from. -/
inductive Slot
  | active
  | pending
  | previous
  deriving DecidableEq

/-- What a call does next. -/
inductive Progress
  /-- The first critical section of `Decrypt`. -/
  | checking (slot : Slot) (s : SessionRef)
  | opening (slot : Slot) (s : SessionRef)
  /-- The second critical section of `Decrypt`. -/
  | marking (slot : Slot) (s : SessionRef) (plain : Bytes)
  | readPending
  | readPrevious
  | promoting (s : SessionRef) (plain : Bytes)
  /-- The call has returned: nil, or a plaintext and the session that opened it. -/
  | done (result : Option (SessionRef × Bytes))
  deriving DecidableEq

namespace Progress

/-- The next attempt. -/
def fail : Slot → Progress
  | .active => readPending
  | .pending => readPrevious
  | .previous => done none

/-- A plaintext ends the call; the empty one is nil and counts as a failure. -/
def succeed (slot : Slot) (s : SessionRef) (plain : Bytes) : Progress :=
  if plain.isEmpty then fail slot
  else if slot = .pending then promoting s plain
  else done (some (s, plain))

/-- The session of the attempt in progress. -/
def session : Progress → Option SessionRef
  | checking _ s => some s
  | opening _ s => some s
  | marking _ s _ => some s
  | promoting s _ => some s
  | _ => none

/-- The session and the plaintext, once the AEAD has opened the packet. -/
def opened : Progress → Option (SessionRef × Bytes)
  | marking _ s plain => some (s, plain)
  | promoting s plain => some (s, plain)
  | done result => result
  | _ => none

/-- The session and the plaintext, once the window has accepted the nonce. -/
def accepted : Progress → Option (SessionRef × Bytes)
  | promoting s plain => some (s, plain)
  | done result => result
  | _ => none

@[simp] theorem opened_fail (slot : Slot) : (fail slot).opened = none := by
  cases slot <;> rfl

/-- A call ends with the plaintext that was opened, or goes on. -/
theorem eq_of_opened_succeed {slot : Slot} {s : SessionRef} {plain : Bytes}
    {x : SessionRef × Bytes} (h : (succeed slot s plain).opened = some x) : x = (s, plain) := by
  unfold succeed at h
  split at h
  · rw [opened_fail] at h
    cases h
  · split at h
    · exact (Option.some.inj h).symm
    · exact (Option.some.inj h).symm

/-- What is accepted was opened. -/
theorem opened_of_accepted {p : Progress} {x : SessionRef × Bytes} (h : p.accepted = some x) :
    p.opened = some x := by
  cases p <;> first | exact h | cases h

end Progress

/-- A call of `decryptDataPacket`, with the session its caller read. -/
structure Call where
  sess : Option SessionRef
  nonce : UInt64
  payload : Bytes
  progress : Progress
  deriving DecidableEq

namespace Call

/-- A call that begins. -/
def new (sess : Option SessionRef) (nonce : UInt64) (payload : Bytes) : Call :=
  ⟨sess, nonce, payload, match sess with
    | some s => .checking .active s
    | none => .readPending⟩

/-- What the call has returned, as a packet of the session that opened it. -/
def returned (c : Call) : Option Sealed :=
  match c.progress with
  | .done (some (s, plain)) => some ⟨s, c.nonce, plain⟩
  | _ => none

theorem accepted_of_returned {c : Call} {x : Sealed} (h : c.returned = some x) :
    c.progress.accepted = some (x.session, x.plaintext) ∧ c.nonce = x.nonce := by
  unfold returned at h
  split at h
  · rename_i s plain hdone
    cases h
    exact ⟨by rw [hdone, Progress.accepted], rfl⟩
  · cases h

end Call

/-- A peer entry, the windows of the sessions, the peer that encrypts, and the calls. -/
structure Receiver where
  entry : Entry
  window : SessionRef → ReplayWindow := fun _ => {}
  /-- The counters of the peer's sessions. -/
  sendNonce : SessionRef → UInt64 := fun _ => 0
  /-- All the peer has encrypted. -/
  sent : List Sealed := []
  calls : List Call := []

inductive ReceiverStep
  /-- The peer's `Encrypt`. -/
  | encrypt (s : SessionRef) (plaintext : Bytes)
  /-- `decryptDataPacket` is called with any bytes. -/
  | receive (sess : Option SessionRef) (nonce : UInt64) (payload : Bytes)
  /-- The call with this number takes its next step. -/
  | advance (k : Nat)
  | setSession (s : Option SessionRef)
  | setPendingSession (s : Option SessionRef)
  | promotePendingSession
  deriving DecidableEq

namespace Receiver

variable (aeadSeal : SessionRef → UInt64 → Bytes → Bytes)

/-- The peer encrypts with its next nonce unless it has to rekey. -/
def encrypt (t : Receiver) (s : SessionRef) (plaintext : Bytes) : Receiver :=
  let n := t.sendNonce s
  { t with
    sendNonce := Function.update t.sendNonce s (n + 1)
    sent := if n ≥ rekeyThreshold then t.sent else t.sent ++ [⟨s, n, plaintext⟩] }

/-- The ideal AEAD. -/
def aeadOpen (t : Receiver) (s : SessionRef) (nonce : UInt64) (ciphertext : Bytes) : Option Bytes :=
  (t.sent.find? fun x => x.session = s ∧ x.nonce = nonce ∧
    aeadSeal s nonce x.plaintext = ciphertext).map Sealed.plaintext

/-- `checkAndMark` on the window of a session. -/
def mark (t : Receiver) (s : SessionRef) (nonce : UInt64) : Receiver :=
  { t with window := Function.update t.window s ((t.window s).checkAndMark nonce).1 }

/-- The next step of a call: its effect and where the call is afterwards. -/
def advance (t : Receiver) (c : Call) : Receiver × Progress :=
  match c.progress with
  | .checking slot s =>
    if c.nonce ≥ rekeyThreshold then (t, .fail slot)
    else if (t.window s).check c.nonce then (t, .opening slot s)
    else (t, .fail slot)
  | .opening slot s =>
    match t.aeadOpen aeadSeal s c.nonce c.payload with
    | some plain => (t, .marking slot s plain)
    | none => (t, .fail slot)
  | .marking slot s plain =>
    (t.mark s c.nonce,
      if ((t.window s).checkAndMark c.nonce).2 then .succeed slot s plain else .fail slot)
  | .readPending =>
    match t.entry.pendingSession with
    | some s => (t, .checking .pending s)
    | none => (t, .readPrevious)
  | .readPrevious =>
    match t.entry.prevSession with
    | some s => (t, if some s ≠ c.sess then .checking .previous s else .done none)
    | none => (t, .done none)
  | .promoting s plain =>
    ({ t with entry := t.entry.promotePendingSession }, .done (some (s, plain)))
  | .done result => (t, .done result)

def next (t : Receiver) : ReceiverStep → Receiver
  | .encrypt s plaintext => t.encrypt s plaintext
  | .receive sess nonce payload => { t with calls := t.calls ++ [.new sess nonce payload] }
  | .advance k =>
    match t.calls[k]? with
    | some c =>
      let (t', progress) := t.advance aeadSeal c
      { t' with calls := t.calls.set k { c with progress } }
    | none => t
  | .setSession s => { t with entry := t.entry.setSession s }
  | .setPendingSession s => { t with entry := t.entry.setPendingSession s }
  | .promotePendingSession => { t with entry := t.entry.promotePendingSession }

/-- The payload of a call is what the peer's `Encrypt` made of a plaintext with a session and the
nonce of the call. -/
def Authentic (t : Receiver) (c : Call) (s : SessionRef) (plain : Bytes) : Prop :=
  ⟨s, c.nonce, plain⟩ ∈ t.sent ∧ aeadSeal s c.nonce plain = c.payload

/-- All a step of a call can do. -/
inductive Advance (t : Receiver) (c : Call) : Receiver → Progress → Prop
  /-- Nothing is opened yet, an attempt has failed, or the call is over. -/
  | quiet {progress : Progress} (h : progress.opened = none ∨ progress = c.progress) :
    Advance t c t progress
  | opened {slot : Slot} {s : SessionRef} {plain : Bytes}
    (authentic : t.Authentic aeadSeal c s plain) : Advance t c t (.marking slot s plain)
  /-- The nonce is new. -/
  | marked {slot : Slot} {s : SessionRef} {plain : Bytes} {progress : Progress}
    (before : c.progress = .marking slot s plain) (new : (t.window s).check c.nonce = true)
    (after : ∀ x, progress.opened = some x → x = (s, plain)) :
    Advance t c (t.mark s c.nonce) progress
  | promoted {s : SessionRef} {plain : Bytes} (before : c.progress = .promoting s plain) :
    Advance t c { t with entry := t.entry.promotePendingSession } (.done (some (s, plain)))

section Advance

variable {aeadSeal} {t : Receiver} {c : Call}

theorem authentic_of_aeadOpen {s : SessionRef} {plain : Bytes}
    (h : t.aeadOpen aeadSeal s c.nonce c.payload = some plain) :
    t.Authentic aeadSeal c s plain := by
  obtain ⟨x, hfind, rfl⟩ := Option.map_eq_some_iff.mp h
  have hx := List.find?_some hfind
  rw [decide_eq_true_eq] at hx
  obtain ⟨rfl, hnonce, hseal⟩ := hx
  refine ⟨?_, hseal⟩
  rw [← hnonce]
  exact List.mem_of_find?_eq_some hfind

@[simp] theorem window_mark (s : SessionRef) (n : UInt64) :
    (t.mark s n).window = Function.update t.window s ((t.window s).checkAndMark n).1 := rfl

/-- Marking a nonce that is not accepted changes no window. -/
theorem mark_of_check {s : SessionRef} {n : UInt64} (h : (t.window s).check n = false) :
    t.mark s n = t := by
  rw [mark, ReplayWindow.checkAndMark_fst_of_check h, Function.update_eq_self]

theorem advance_spec : Advance aeadSeal t c (t.advance aeadSeal c).1 (t.advance aeadSeal c).2 := by
  unfold advance
  cases hc : c.progress with
  | checking slot s =>
    dsimp only
    split
    · exact .quiet (.inl (Progress.opened_fail slot))
    · split
      · exact .quiet (.inl rfl)
      · exact .quiet (.inl (Progress.opened_fail slot))
  | opening slot s =>
    dsimp only
    split
    · rename_i plain hopen
      exact .opened (authentic_of_aeadOpen hopen)
    · exact .quiet (.inl (Progress.opened_fail slot))
  | marking slot s plain =>
    dsimp only
    rw [ReplayWindow.checkAndMark_snd]
    split
    · rename_i hnew
      exact .marked hc hnew fun x hx => Progress.eq_of_opened_succeed hx
    · rename_i hold
      rw [mark_of_check (Bool.eq_false_iff.mpr hold)]
      exact .quiet (.inl (Progress.opened_fail slot))
  | readPending =>
    dsimp only
    split
    · exact .quiet (.inl rfl)
    · exact .quiet (.inl rfl)
  | readPrevious =>
    dsimp only
    split
    · refine .quiet (.inl ?_)
      dsimp only
      split <;> rfl
    · exact .quiet (.inl rfl)
  | promoting s plain => exact .promoted hc
  | done result => exact .quiet (.inr hc.symm)

end Advance

/-- No packet of the peer is returned by two calls. -/
def ReturnsOnce (t : Receiver) : Prop :=
  ∀ (i j : Nat) (c c' : Call) (x x' : Sealed), t.calls[i]? = some c → t.calls[j]? = some c' →
    c.returned = some x → c'.returned = some x' →
    x.session = x'.session → x.nonce = x'.nonce → i = j

/-- What a call returns is the plaintext of a packet the peer encrypted, and the call was given
its ciphertext. -/
def ReturnsSent (t : Receiver) : Prop :=
  ∀ c ∈ t.calls, ∀ x, c.returned = some x →
    x ∈ t.sent ∧ x.nonce = c.nonce ∧ aeadSeal x.session x.nonce x.plaintext = c.payload

/-- A step of a call whose packet does not authenticate under the session it is tried with
changes no window and promotes no session. -/
def IgnoresForgeries (t : Receiver) : Prop :=
  ∀ (k : Nat) (c : Call), t.calls[k]? = some c →
    (∀ s plain, c.progress.session = some s → ¬t.Authentic aeadSeal c s plain) →
    (t.next aeadSeal (.advance k)).window = t.window ∧
      (t.next aeadSeal (.advance k)).entry = t.entry

/-- The windows have recorded the nonces of the packets that were accepted, each for one call, and
what a call holds is authentic. -/
structure Sound (t : Receiver) (marked : SessionRef → Set UInt64) : Prop where
  records : ∀ s, (t.window s).Records (marked s)
  authentic : ∀ c ∈ t.calls, ∀ s plain, c.progress.opened = some (s, plain) →
    t.Authentic aeadSeal c s plain
  accepted : ∀ c ∈ t.calls, ∀ s plain, c.progress.accepted = some (s, plain) → c.nonce ∈ marked s
  distinct : ∀ (i j : Nat) (c c' : Call) s plain plain', t.calls[i]? = some c →
    t.calls[j]? = some c' → c.progress.accepted = some (s, plain) →
    c'.progress.accepted = some (s, plain') → c.nonce = c'.nonce → i = j

section Sound

variable {aeadSeal} {t t' : Receiver} {marked marked' : SessionRef → Set UInt64}

theorem sound_new (e : Entry) : Sound aeadSeal { entry := e } fun _ => ∅ where
  records _ := ReplayWindow.records_empty
  authentic _ hc := nomatch hc
  accepted _ hc := nomatch hc
  distinct _ _ _ _ _ _ _ hi := nomatch hi

/-- A call moves on: what it has opened is authentic, and it accepts only a nonce that was not
marked before. -/
theorem Sound.set (h : Sound aeadSeal t marked) {k : Nat} {c : Call} {p : Progress}
    (hc : t.calls[k]? = some c) (hsent : t'.sent = t.sent)
    (hrecords : ∀ s, (t'.window s).Records (marked' s)) (hsub : ∀ s, marked s ⊆ marked' s)
    (hopened : ∀ s plain, p.opened = some (s, plain) → t.Authentic aeadSeal c s plain)
    (haccepted : ∀ s plain, p.accepted = some (s, plain) →
      c.progress.accepted = some (s, plain) ∨ c.nonce ∈ marked' s ∧ c.nonce ∉ marked s) :
    Sound aeadSeal { t' with calls := t.calls.set k { c with progress := p } } marked' := by
  have hmem : c ∈ t.calls := List.mem_of_getElem? hc
  refine ⟨hrecords, ?_, ?_, ?_⟩
  · intro c' hc' s plain ho
    unfold Authentic
    rw [hsent]
    rcases List.mem_or_eq_of_mem_set hc' with hold | rfl
    · exact h.authentic c' hold s plain ho
    · exact hopened s plain ho
  · intro c' hc' s plain ha
    rcases List.mem_or_eq_of_mem_set hc' with hold | rfl
    · exact hsub s (h.accepted c' hold s plain ha)
    · rcases haccepted s plain ha with hbefore | hnew
      · exact hsub s (h.accepted c hmem s plain hbefore)
      · exact hnew.1
  · -- another call that accepted the same packet would have marked its nonce before
    have key : ∀ (j : Nat) (c' : Call) s plain plain', j ≠ k → t.calls[j]? = some c' →
        p.accepted = some (s, plain) → c'.progress.accepted = some (s, plain') →
        c.nonce = c'.nonce → False := by
      intro j c' s plain plain' hjk hj ha ha' hn
      rcases haccepted s plain ha with hbefore | hnew
      · exact hjk (h.distinct k j c c' s plain plain' hc hj hbefore ha' hn).symm
      · apply hnew.2
        rw [hn]
        exact h.accepted c' (List.mem_of_getElem? hj) s plain' ha'
    intro i j c₁ c₂ s plain plain' hi hj ha ha' hn
    rcases getElem?_set_eq_some hi with ⟨rfl, rfl⟩ | ⟨hik, hi'⟩
    · rcases getElem?_set_eq_some hj with ⟨rfl, -⟩ | ⟨hjk, hj'⟩
      · rfl
      · exact (key j c₂ s plain plain' hjk hj' ha ha' hn).elim
    · rcases getElem?_set_eq_some hj with ⟨rfl, rfl⟩ | ⟨-, hj'⟩
      · exact (key i c₁ s plain' plain hik hi' ha' ha hn.symm).elim
      · exact h.distinct i j c₁ c₂ s plain plain' hi' hj' ha ha' hn

theorem Sound.advance (h : Sound aeadSeal t marked) {k : Nat} {c : Call}
    (hc : t.calls[k]? = some c) {p : Progress} (hstep : Advance aeadSeal t c t' p) :
    ∃ marked', Sound aeadSeal { t' with calls := t.calls.set k { c with progress := p } } marked' := by
  have hauthentic := h.authentic c (List.mem_of_getElem? hc)
  cases hstep with
  | quiet hp =>
    refine ⟨marked, h.set hc rfl h.records (fun _ => subset_rfl) ?_ ?_⟩
    · intro s plain ho
      rcases hp with hnone | rfl
      · rw [hnone] at ho
        cases ho
      · exact hauthentic s plain ho
    · intro s plain ha
      rcases hp with hnone | rfl
      · rw [Progress.opened_of_accepted ha] at hnone
        cases hnone
      · exact .inl ha
  | opened hnew =>
    refine ⟨marked, h.set hc rfl h.records (fun _ => subset_rfl) ?_ nofun⟩
    rintro s plain ⟨⟩
    exact hnew
  | @marked slot s plain p before new after =>
    have hnotin : c.nonce ∉ marked s := ((h.records s).check_iff.mp new).1
    refine ⟨Function.update marked s (insert c.nonce (marked s)),
      h.set hc rfl ?_ ?_ ?_ ?_⟩
    · intro s'
      by_cases hs : s' = s
      · subst hs
        rw [window_mark, Function.update_self, Function.update_self]
        exact (h.records s').checkAndMark new
      · rw [window_mark, Function.update_of_ne hs, Function.update_of_ne hs]
        exact h.records s'
    · intro s'
      by_cases hs : s' = s
      · subst hs
        rw [Function.update_self]
        exact Set.subset_insert _ _
      · rw [Function.update_of_ne hs]
    · intro s' plain' ho
      obtain ⟨rfl, rfl⟩ := Prod.mk.inj (after _ ho)
      exact hauthentic s' plain' (by rw [before, Progress.opened])
    · intro s' plain' ha
      obtain ⟨rfl, rfl⟩ := Prod.mk.inj (after _ (Progress.opened_of_accepted ha))
      rw [Function.update_self]
      exact .inr ⟨Set.mem_insert _ _, hnotin⟩
  | @promoted s plain before =>
    refine ⟨marked, h.set hc rfl h.records (fun _ => subset_rfl) ?_ ?_⟩
    · rintro s' plain' ⟨⟩
      exact hauthentic s plain (by rw [before, Progress.opened])
    · rintro s' plain' ⟨⟩
      exact .inl (by rw [before, Progress.accepted])

/-- The other steps leave the windows and the calls there are alone. -/
theorem Sound.congr (h : Sound aeadSeal t marked) (hwindow : t'.window = t.window)
    (hcalls : t'.calls = t.calls) (hsent : ∀ x ∈ t.sent, x ∈ t'.sent) :
    Sound aeadSeal t' marked where
  records := hwindow ▸ h.records
  authentic c hc s plain ho :=
    (h.authentic c (hcalls ▸ hc) s plain ho).imp_left (hsent _)
  accepted := hcalls ▸ h.accepted
  distinct := hcalls ▸ h.distinct

theorem Sound.receive (h : Sound aeadSeal t marked) (sess : Option SessionRef) (nonce : UInt64)
    (payload : Bytes) :
    Sound aeadSeal { t with calls := t.calls ++ [.new sess nonce payload] } marked := by
  have hnew : (Call.new sess nonce payload).progress.opened = none := by cases sess <;> rfl
  have hnone : (Call.new sess nonce payload).progress.accepted = none := by cases sess <;> rfl
  have hold : ∀ (i : Nat) (c : Call) x, (t.calls ++ [.new sess nonce payload])[i]? = some c →
      c.progress.accepted = some x → t.calls[i]? = some c := by
    intro i c x hi ha
    rcases getElem?_snoc_eq_some.mp hi with hi | ⟨-, rfl⟩
    · exact hi
    · rw [hnone] at ha
      cases ha
  refine ⟨h.records, ?_, ?_, ?_⟩
  · intro c hc s plain ho
    rcases List.mem_append.mp hc with hc | hc
    · exact h.authentic c hc s plain ho
    · rw [List.mem_singleton.mp hc, hnew] at ho
      cases ho
  · intro c hc s plain ha
    rcases List.mem_append.mp hc with hc | hc
    · exact h.accepted c hc s plain ha
    · rw [List.mem_singleton.mp hc, hnone] at ha
      cases ha
  · intro i j c c' s plain plain' hi hj ha ha' hn
    exact h.distinct i j c c' s plain plain' (hold i c _ hi ha) (hold j c' _ hj ha') ha ha' hn

theorem Sound.next (h : Sound aeadSeal t marked) (i : ReceiverStep) :
    ∃ marked', Sound aeadSeal (t.next aeadSeal i) marked' := by
  cases i with
  | encrypt s plaintext =>
    refine ⟨marked, h.congr rfl rfl ?_⟩
    intro x hx
    simp only [Receiver.next, Receiver.encrypt]
    split
    · exact hx
    · exact List.mem_append_left _ hx
  | receive sess nonce payload => exact ⟨marked, h.receive sess nonce payload⟩
  | advance k =>
    simp only [Receiver.next]
    split
    · rename_i c hc
      exact h.advance hc advance_spec
    · exact ⟨marked, h⟩
  | setSession s => exact ⟨marked, h.congr rfl rfl fun _ => id⟩
  | setPendingSession s => exact ⟨marked, h.congr rfl rfl fun _ => id⟩
  | promotePendingSession => exact ⟨marked, h.congr rfl rfl fun _ => id⟩

theorem Sound.returnsOnce (h : Sound aeadSeal t marked) : t.ReturnsOnce := by
  intro i j c c' x x' hi hj hx hx' hs hn
  obtain ⟨ha, hnonce⟩ := Call.accepted_of_returned hx
  obtain ⟨ha', hnonce'⟩ := Call.accepted_of_returned hx'
  rw [← hs] at ha'
  exact h.distinct i j c c' _ _ _ hi hj ha ha' (by rw [hnonce, hnonce', hn])

theorem Sound.returnsSent (h : Sound aeadSeal t marked) : t.ReturnsSent aeadSeal := by
  intro c hc x hx
  obtain ⟨ha, hnonce⟩ := Call.accepted_of_returned hx
  have hsent := h.authentic c hc _ _ (Progress.opened_of_accepted ha)
  unfold Authentic at hsent
  rw [hnonce] at hsent
  exact ⟨hsent.1, hnonce.symm, hsent.2⟩

theorem Sound.ignoresForgeries (h : Sound aeadSeal t marked) : t.IgnoresForgeries aeadSeal := by
  intro k c hk hforged
  have hnot : ∀ s plain, c.progress.opened = some (s, plain) → c.progress.session ≠ some s :=
    fun s plain ho hs => hforged s plain hs (h.authentic c (List.mem_of_getElem? hk) s plain ho)
  have hstep : Advance aeadSeal t c (t.advance aeadSeal c).1 (t.advance aeadSeal c).2 :=
    advance_spec
  simp only [Receiver.next, hk]
  generalize t.advance aeadSeal c = r at hstep
  obtain ⟨t', p⟩ := r
  cases hstep with
  | quiet _ => exact ⟨rfl, rfl⟩
  | opened _ => exact ⟨rfl, rfl⟩
  | marked before _ _ =>
    rw [before] at hnot
    exact absurd rfl (hnot _ _ rfl)
  | promoted before =>
    rw [before] at hnot
    exact absurd rfl (hnot _ _ rfl)

end Sound

/-- In every interleaving of calls with each other, with the peer and with the changes of the
entry's sessions, a packet is returned at most once, nothing else is returned, and a forgery
leaves the windows and the sessions alone. -/
theorem packets_returned_once (e : Entry) (steps : List ReceiverStep) :
    (run (next aeadSeal) { entry := e } steps).ReturnsOnce ∧
      (run (next aeadSeal) { entry := e } steps).ReturnsSent aeadSeal ∧
      (run (next aeadSeal) { entry := e } steps).IgnoresForgeries aeadSeal := by
  have hall : Along (next aeadSeal) (fun _ _ => True) { entry := e } steps := fun _ _ => trivial
  obtain ⟨marked, h⟩ := hall.keeps (fun t => ∃ marked, Sound aeadSeal t marked)
    ⟨_, sound_new e⟩ fun t i ⟨_, h⟩ _ => h.next i
  exact ⟨h.returnsOnce, h.returnsSent, h.ignoresForgeries⟩

/-- A packet arrives twice. Both calls pass the check and open it before one of them marks it. -/
theorem packets_returned_once_race :
    let steps : List ReceiverStep :=
      [.encrypt 0 [7], .receive (some 0) 0 [7], .receive (some 0) 0 [7],
        .advance 0, .advance 1, .advance 0, .advance 1, .advance 1, .advance 0]
    let t := run (next fun _ _ plain => plain) { entry := { id := 1, vpnAddr := .v4 0 } } steps
    t.calls.map Call.returned = [none, some ⟨0, 0, [7]⟩] ∧ t.ReturnsOnce :=
  ⟨by decide +kernel, (packets_returned_once _ _ _).1⟩

end Receiver

end Veld.Dataplane
