import Veld.Coord.Replay
import Veld.Crypto.Messages

/-!
# The messages a client signs

`registerAndWatch`, `sendLeave` and `SendSignal` of `internal/coord/client.go`, as
far as they sign requests. Registrations, watches and departures take a timestamp
that was never used before. A signal takes the second of the clock, and a sealed
signal is sent again every half second, so two of its requests can be the same
message. All other requests of a client differ, and a server whose cache of used
signatures has room lets them through.
-/

namespace Veld.Coord

open Crypto (utf8)
open Crypto.Wire

/-- `signalResendInterval`. -/
def signalResendInterval : Int := 500 * millisecond

/-- `time.Time.Unix` of an instant in nanoseconds, as an `int64`. -/
def unixSeconds (now : Int) : BitVec 64 := BitVec.ofInt 64 (now / second)

/-- The part of a `Client` its signatures depend on; the keys are base64 texts. -/
structure Signer where
  networkID : Bytes
  localName : Bytes
  ed25519Public : Bytes
  x25519Public : Bytes
  endpoint : Bytes
  subnetRoutes : List Bytes
  /-- Empty until the first registration. -/
  peerID : Bytes := []
  lastTS : BitVec 64 := 0

inductive SignerCall
  /-- A registration, with the ID in the answer if it succeeds. -/
  | register (response : Option Bytes)
  /-- A watch with the ID of the registration before it. -/
  | watch
  /-- `sendLeave`, which does nothing before the first registration. -/
  | leave
  /-- `SendSignal` of a connected client. -/
  | sendSignal (toPeerID payload : Bytes)
  deriving DecidableEq

/-- A call and the reading of the clock, in nanoseconds. -/
structure SignerInput where
  now : Int
  call : SignerCall
  deriving DecidableEq

/-- The requests that send a sealed signal: at once, then every resend interval. -/
def resends (start : Int) (toPeerID payload : Bytes) (count : Nat) : List SignerInput :=
  (List.range (count + 1)).map fun k => ⟨start + k * signalResendInterval, .sendSignal toPeerID payload⟩

namespace Signer

/-- `nextTimestamp`, whose result is the new `lastTS`. -/
def nextTimestamp (c : Signer) (now : Int) : BitVec 64 :=
  if (unixSeconds now).toInt ≤ c.lastTS.toInt then c.lastTS + 1 else unixSeconds now

def registerClaims (c : Signer) (ts : BitVec 64) : RegisterClaims where
  networkID := c.networkID
  name := c.localName
  ed25519Public := c.ed25519Public
  x25519Public := c.x25519Public
  endpoint := c.endpoint
  subnetRoutes := c.subnetRoutes
  timestampUnix := ts

def watchClaims (c : Signer) (ts : BitVec 64) : CallClaims :=
  { method := utf8 "Watch", peerID := c.peerID, args := [c.networkID], timestampUnix := ts }

def leaveClaims (c : Signer) (ts : BitVec 64) : CallClaims :=
  { method := utf8 "Leave", peerID := c.peerID, timestampUnix := ts }

/-- The payload is covered by its hash, in hexadecimal. -/
def sendSignalClaims (hexSum : Bytes → Bytes) (c : Signer) (toPeerID payload : Bytes)
    (ts : BitVec 64) : CallClaims :=
  { method := utf8 "SendSignal", peerID := c.peerID, args := [toPeerID, hexSum payload]
    timestampUnix := ts }

/-- The message a call signs, if it sends a request. -/
def message (hexSum : Bytes → Bytes) (c : Signer) (i : SignerInput) : Option Bytes :=
  match i.call with
  | .register _ => some (registerSignedMessage (c.registerClaims (c.nextTimestamp i.now)))
  | .watch => some (callSignedMessage (c.watchClaims (c.nextTimestamp i.now)))
  | .leave =>
    if c.peerID = [] then none
    else some (callSignedMessage (c.leaveClaims (c.nextTimestamp i.now)))
  | .sendSignal toPeerID payload =>
    some (callSignedMessage (c.sendSignalClaims hexSum toPeerID payload (unixSeconds i.now)))

/-- The client after a call. -/
def next (c : Signer) (i : SignerInput) : Signer :=
  match i.call with
  | .register response =>
    { c with lastTS := c.nextTimestamp i.now, peerID := response.getD c.peerID }
  | .watch => { c with lastTS := c.nextTimestamp i.now }
  | .leave => if c.peerID = [] then c else { c with lastTS := c.nextTimestamp i.now }
  | .sendSignal _ _ => c

/-- All messages of a sequence of calls. -/
def messages (hexSum : Bytes → Bytes) (c : Signer) (is : List SignerInput) : List Bytes :=
  (trail next c is).filterMap fun x => x.1.message hexSum x.2

/-- The call takes a timestamp from `nextTimestamp`. -/
def stamps (c : Signer) (i : SignerInput) : Bool :=
  match i.call with
  | .register _ | .watch => true
  | .leave => c.peerID ≠ []
  | .sendSignal _ _ => false

/-- Two calls send one payload to one peer under one ID in the same second. -/
def SameSignal (x y : Signer × SignerInput) : Prop :=
  ∃ toPeerID payload, x.2.call = .sendSignal toPeerID payload ∧
    y.2.call = .sendSignal toPeerID payload ∧ x.1.peerID = y.1.peerID ∧
    x.2.now / second = y.2.now / second

/-- No payload is sent to the same peer twice in a second. -/
def Spaced (c : Signer) (is : List SignerInput) : Prop :=
  (trail next c is).Pairwise fun x y => ¬SameSignal x y

/-- The clock and the number of calls are so far from the end of the `int64` range that no
timestamp wraps. -/
structure Timely (c : Signer) (is : List SignerInput) : Prop where
  start : 0 ≤ c.lastTS.toInt ∧ c.lastTS.toInt < 2 ^ 62
  clock : ∀ i ∈ is, 0 ≤ i.now / second ∧ i.now / second < 2 ^ 62
  number : is.length < 2 ^ 62

/-- The IDs of a call are shorter than 4 GiB, and the payloads differ in their hashes. -/
structure Legible (hexSum : Bytes → Bytes) (c : Signer) (is : List SignerInput) : Prop where
  hash : ∀ payload, Short (hexSum payload)
  own : ∀ x ∈ trail next c is, Short x.1.peerID
  recipient : ∀ i ∈ is, ∀ toPeerID payload, i.call = .sendSignal toPeerID payload → Short toPeerID
  collision : ∀ i ∈ is, ∀ j ∈ is, ∀ a p b q, i.call = .sendSignal a p → j.call = .sendSignal b q →
    hexSum p = hexSum q → p = q

section Timestamps

variable {c : Signer} {i : SignerInput} {is : List SignerInput}

theorem toInt_unixSeconds {now : Int} (h : 0 ≤ now / second ∧ now / second < 2 ^ 62) :
    (unixSeconds now).toInt = now / second := by
  rw [unixSeconds, BitVec.toInt_ofInt, Int.bmod_eq_of_le] <;> omega

/-- A new timestamp is later than the last one and not later than it has to be. -/
theorem nextTimestamp_spec {now bound : Int} (h : 0 ≤ now / second ∧ now / second < 2 ^ 62)
    (hbound : 2 ^ 62 ≤ bound ∧ bound < 2 ^ 63)
    (hlast : 0 ≤ c.lastTS.toInt ∧ c.lastTS.toInt < bound) :
    c.lastTS.toInt < (c.nextTimestamp now).toInt ∧ (c.nextTimestamp now).toInt < bound + 1 := by
  rw [nextTimestamp, toInt_unixSeconds h]
  split
  · have hone : (1 : BitVec 64).toInt = 1 := rfl
    have hsum : (c.lastTS + 1).toInt = c.lastTS.toInt + 1 := by
      rw [BitVec.toInt_add, hone, Int.bmod_eq_of_le] <;> omega
    omega
  · rw [toInt_unixSeconds h]
    omega

theorem lastTS_next : (c.next i).lastTS = if c.stamps i then c.nextTimestamp i.now else c.lastTS := by
  cases hcall : i.call with
  | register response => simp [next, stamps, hcall]
  | watch => simp [next, stamps, hcall]
  | leave => by_cases hid : c.peerID = [] <;> simp [next, stamps, hcall, hid]
  | sendSignal toPeerID payload => simp [next, stamps, hcall]

/-- The timestamps that were taken so far, each later than the ones before it. -/
structure Stamped (past : List (Signer × SignerInput)) (c : Signer) : Prop where
  nonneg : 0 ≤ c.lastTS.toInt
  bound : c.lastTS.toInt < 2 ^ 62 + past.length
  latest : ∀ x ∈ past, x.1.stamps x.2 = true →
    (x.1.nextTimestamp x.2.now).toInt ≤ c.lastTS.toInt
  increasing : past.Pairwise fun x y => x.1.stamps x.2 = true → y.1.stamps y.2 = true →
    (x.1.nextTimestamp x.2.now).toInt < (y.1.nextTimestamp y.2.now).toInt

theorem Stamped.step {past : List (Signer × SignerInput)} (h : Stamped past c)
    (hclock : 0 ≤ i.now / second ∧ i.now / second < 2 ^ 62) (hpast : past.length < 2 ^ 62) :
    Stamped (past ++ [(c, i)]) (c.next i) := by
  obtain ⟨hlater, hbound⟩ := @nextTimestamp_spec c _ (2 ^ 62 + past.length) hclock
    (by omega) ⟨h.nonneg, h.bound⟩
  have hlast : c.lastTS.toInt ≤ (c.next i).lastTS.toInt ∧
      (c.next i).lastTS.toInt < 2 ^ 62 + past.length + 1 := by
    rw [lastTS_next]
    split
    · exact ⟨hlater.le, hbound⟩
    · exact ⟨le_rfl, h.bound.trans (Int.lt_succ _)⟩
  refine ⟨h.nonneg.trans hlast.1, ?_, ?_, ?_⟩
  · rw [List.length_append, List.length_singleton]
    omega
  · intro x hx hs
    rcases List.mem_append.mp hx with hx | hx
    · exact (h.latest x hx hs).trans hlast.1
    · obtain rfl := List.mem_singleton.mp hx
      rw [lastTS_next, if_pos hs]
  · refine List.pairwise_append.mpr ⟨h.increasing, List.pairwise_singleton _ _, ?_⟩
    intro x hx y hy hsx hsy
    obtain rfl := List.mem_singleton.mp hy
    exact (h.latest x hx hsx).trans_lt hlater

theorem Timely.stamped (h : c.Timely is) : Stamped (trail next c is) (run next c is) := by
  have hcond : Throughout next (fun past _ i => (0 ≤ i.now / second ∧ i.now / second < 2 ^ 62) ∧
      past.length < 2 ^ 62) c is := by
    intro past i rest he
    have hlen := h.number
    rw [he, List.length_append, List.length_cons] at hlen
    refine ⟨h.clock i (by simp [he]), ?_⟩
    rw [length_trail]
    omega
  refine hcond.invariant Stamped ?_ fun past c i hs hi => hs.step hi.1 hi.2
  exact ⟨h.start.1, h.start.2, List.forall_mem_nil _, List.Pairwise.nil⟩

end Timestamps

section Messages

variable {hexSum : Bytes → Bytes} {c : Signer} {i : SignerInput} {x y : Signer × SignerInput}
  {m : Bytes}

/-- A request with a timestamp of its own ends with it. -/
theorem message_stamped (hs : c.stamps i = true) (hm : c.message hexSum i = some m) :
    ∃ front, m = front ++ Bytes.ofNatBE 8 (c.nextTimestamp i.now).toNat := by
  cases hcall : i.call with
  | register response =>
    rw [message, hcall] at hm
    rw [← Option.some.inj hm, registerSignedMessage]
    exact ⟨_, rfl⟩
  | watch =>
    rw [message, hcall] at hm
    rw [← Option.some.inj hm, callSignedMessage]
    exact ⟨_, rfl⟩
  | leave =>
    have hid : c.peerID ≠ [] := by simpa [stamps, hcall] using hs
    simp only [message, hcall, hid, ite_false] at hm
    rw [← Option.some.inj hm, callSignedMessage]
    exact ⟨_, rfl⟩
  | sendSignal toPeerID payload => simp [stamps, hcall] at hs

/-- Requests with different timestamps of their own are different. -/
theorem message_ne_of_stamped (hx : x.1.stamps x.2 = true) (hy : y.1.stamps y.2 = true)
    (hts : (x.1.nextTimestamp x.2.now).toInt < (y.1.nextTimestamp y.2.now).toInt)
    (hmx : x.1.message hexSum x.2 = some m) : y.1.message hexSum y.2 ≠ some m := by
  intro hmy
  obtain ⟨front, rfl⟩ := message_stamped hx hmx
  obtain ⟨front', he⟩ := message_stamped hy hmy
  obtain ⟨-, he⟩ := List.append_inj' he (by rw [Bytes.length_ofNatBE, Bytes.length_ofNatBE])
  have heq := (selfDelimiting_toNat 8).eq trivial trivial he
  rw [heq] at hts
  exact lt_irrefl _ hts

/-- The method of a call stands behind the domain. -/
theorem callSignedMessage_ne {d d' : CallClaims} (hd : Short d.method) (hd' : Short d'.method)
    (hne : d.method ≠ d'.method) : callSignedMessage d ≠ callSignedMessage d' := by
  intro he
  rw [callSignedMessage_eq, callSignedMessage_eq, List.append_right_inj] at he
  exact hne (selfDelimiting_string hd hd' he).1

theorem short_sendSignal : Short (utf8 "SendSignal") := by decide

/-- A signal is no other request. -/
theorem message_ne_signal {toPeerID payload : Bytes} (hs : c.stamps i = true)
    (hm : c.message hexSum i = some m) (d : Signer) (ts : BitVec 64) :
    callSignedMessage (d.sendSignalClaims hexSum toPeerID payload ts) ≠ m := by
  rintro rfl
  cases hcall : i.call with
  | register response =>
    rw [message, hcall] at hm
    have he := Option.some.inj hm
    rw [registerSignedMessage_eq, callSignedMessage_eq] at he
    exact append_ne_append (i := 11) (by decide) (by decide) (by decide) he
  | watch =>
    rw [message, hcall] at hm
    exact callSignedMessage_ne (show Short (utf8 "Watch") by decide) short_sendSignal
      (show utf8 "Watch" ≠ utf8 "SendSignal" by decide) (Option.some.inj hm)
  | leave =>
    have hid : c.peerID ≠ [] := by simpa [stamps, hcall] using hs
    simp only [message, hcall, hid, ite_false] at hm
    exact callSignedMessage_ne (show Short (utf8 "Leave") by decide) short_sendSignal
      (show utf8 "Leave" ≠ utf8 "SendSignal" by decide) (Option.some.inj hm)
  | sendSignal toPeerID payload => simp [stamps, hcall] at hs

/-- A request has a timestamp of its own or is a signal. -/
theorem stamps_or_signal (hm : c.message hexSum i = some m) : c.stamps i = true ∨
    ∃ toPeerID payload, i.call = .sendSignal toPeerID payload ∧
      m = callSignedMessage (c.sendSignalClaims hexSum toPeerID payload (unixSeconds i.now)) := by
  cases hcall : i.call with
  | register response => exact .inl (by simp [stamps, hcall])
  | watch => exact .inl (by simp [stamps, hcall])
  | leave =>
    refine .inl ?_
    by_cases hid : c.peerID = []
    · simp [message, hcall, hid] at hm
    · simp [stamps, hcall, hid]
  | sendSignal toPeerID payload =>
    rw [message, hcall] at hm
    exact .inr ⟨toPeerID, payload, rfl, (Option.some.inj hm).symm⟩

variable {is : List SignerInput}

/-- Two signals are one message exactly if they are the same signal. -/
theorem signal_message_eq (h : c.Legible hexSum is) (ht : c.Timely is) (hx : x ∈ trail next c is)
    (hy : y ∈ trail next c is) {a p b q : Bytes} (hcx : x.2.call = .sendSignal a p)
    (hcy : y.2.call = .sendSignal b q)
    (he : callSignedMessage (x.1.sendSignalClaims hexSum a p (unixSeconds x.2.now)) =
      callSignedMessage (y.1.sendSignalClaims hexSum b q (unixSeconds y.2.now))) :
    SameSignal x y := by
  have hix := snd_mem_of_mem_trail hx
  have hiy := snd_mem_of_mem_trail hy
  have hfits {z : Signer × SignerInput} {a p : Bytes} (hz : z ∈ trail next c is)
      (hcz : z.2.call = .sendSignal a p) :
      (z.1.sendSignalClaims hexSum a p (unixSeconds z.2.now)).Fits := by
    refine ⟨short_sendSignal, h.own z hz, show 2 < 2 ^ 32 by decide, ?_⟩
    refine List.forall_mem_cons.mpr ⟨h.recipient _ (snd_mem_of_mem_trail hz) a p hcz, ?_⟩
    exact List.forall_mem_cons.mpr ⟨h.hash p, List.forall_mem_nil _⟩
  have hclaims := callSignedMessage_inj (hfits hx hcx) (hfits hy hcy) he
  simp only [sendSignalClaims, CallClaims.mk.injEq, List.cons.injEq, true_and, and_true] at hclaims
  obtain ⟨hid, ⟨rfl, hhash⟩, hts⟩ := hclaims
  obtain rfl := h.collision _ hix _ hiy a p a q hcx hcy hhash
  refine ⟨a, p, hcx, hcy, hid, ?_⟩
  rw [← toInt_unixSeconds (ht.clock _ hix), ← toInt_unixSeconds (ht.clock _ hiy), hts]

/-- The same signal is the same message. -/
theorem SameSignal.message_eq (h : SameSignal x y) (hexSum : Bytes → Bytes) :
    ∃ m, x.1.message hexSum x.2 = some m ∧ y.1.message hexSum y.2 = some m := by
  obtain ⟨a, p, hcx, hcy, hid, hnow⟩ := h
  refine ⟨callSignedMessage (x.1.sendSignalClaims hexSum a p (unixSeconds x.2.now)), ?_, ?_⟩
  · rw [message, hcx]
  · rw [message, hcy]
    simp only [sendSignalClaims, unixSeconds, hid, hnow]

/-- The messages of a client are pairwise distinct exactly if no signal is repeated within a
second. -/
theorem nodup_messages_iff (ht : c.Timely is) (h : c.Legible hexSum is) :
    (c.messages hexSum is).Nodup ↔ c.Spaced is := by
  rw [messages, List.Nodup, List.pairwise_filterMap, Spaced]
  constructor
  · refine List.Pairwise.imp fun {x y} hne hsame => ?_
    obtain ⟨m, hmx, hmy⟩ := hsame.message_eq hexSum
    exact hne m hmx m hmy rfl
  · intro hspaced
    refine (hspaced.and ht.stamped.increasing).imp_of_mem ?_
    rintro x y hx hy ⟨hsame, hts⟩ m hmx _ hmy rfl
    rcases stamps_or_signal hmx with hsx | ⟨a, p, hcx, rfl⟩
    · rcases stamps_or_signal hmy with hsy | ⟨b, q, hcy, he⟩
      · exact message_ne_of_stamped hsx hsy (hts hsx hsy) hmx hmy
      · exact message_ne_signal hsx hmx _ _ he.symm
    · rcases stamps_or_signal hmy with hsy | ⟨b, q, hcy, he⟩
      · exact message_ne_signal hsy hmy _ _ rfl
      · exact hsame (signal_message_eq h ht hx hy hcx hcy he)

end Messages

end Signer

namespace SeenSignatures

variable {δ : Type} [DecidableEq δ] {s : SeenSignatures δ} {key key' : δ} {now : Int}

/-- The cache is not full, or not any more once the old entries are gone. -/
def hasRoom (s : SeenSignatures δ) (now : Int) : Bool :=
  s.seen.entries.length < maxSeenSignatures ||
    (s.purge now).seen.entries.length < maxSeenSignatures

/-- The cache after a use of a signature. -/
def next (s : SeenSignatures δ) (u : δ × Int) : SeenSignatures δ := (s.firstUse u.1 u.2).1

/-- A signature that is not in the cache is let through while there is room. -/
theorem firstUse_of_lookup_none (hnew : s.seen.lookup key = none) (hroom : s.hasRoom now = true) :
    (s.firstUse key now).2 = true := by
  have hseen : ¬s.isSeen key now = true := by simp [isSeen, hnew]
  rw [firstUse, if_neg hseen]
  split
  · rfl
  · next hfull =>
    rw [hasRoom, decide_eq_false hfull, Bool.false_or, decide_eq_true_eq] at hroom
    rw [if_pos hroom]

/-- A use puts only its own signature into the cache. -/
theorem lookup_next_eq_none (hnew : s.seen.lookup key = none) {u : δ × Int} (hne : key ≠ u.1) :
    (s.next u).seen.lookup key = none := by
  have hpurge : (s.purge u.2).seen.lookup key = none := by
    rw [Option.eq_none_iff_forall_ne_some]
    intro exp hexp
    rw [(lookup_keepValues_eq_some.mp hexp).1] at hnew
    cases hnew
  rcases firstUse_cases s u.1 u.2 with ⟨-, h⟩ | ⟨-, s', hs', h | h⟩
  · rw [next, h]
    exact hnew
  · rw [next, h]
    rcases hs' with rfl | rfl
    · exact (AList.lookup_insert_ne hne).trans hnew
    · exact (AList.lookup_insert_ne hne).trans hpurge
  · rw [next, h]
    rcases hs' with rfl | rfl
    · exact hnew
    · exact hpurge

theorem lookup_run_eq_none (hnew : s.seen.lookup key = none) {us : List (δ × Int)}
    (hus : key ∉ us.map Prod.fst) : (run next s us).seen.lookup key = none := by
  induction us generalizing s with
  | nil => exact hnew
  | cons u us ih =>
    rw [List.map_cons, List.mem_cons, not_or] at hus
    obtain ⟨hne, hus⟩ := hus
    exact ih (lookup_next_eq_none hnew hne) hus

end SeenSignatures

namespace Signer

/-- A client's messages are pairwise distinct exactly if no signal is repeated within a second.
Then a server that sees each of its requests at most once, in any order and between requests of
others, and that has room for their signatures refuses none of them. -/
theorem messages_pass_once {hexSum : Bytes → Bytes} {c : Signer} {is : List SignerInput}
    (ht : c.Timely is) (h : c.Legible hexSum is) :
    ((c.messages hexSum is).Nodup ↔ c.Spaced is) ∧
    (c.Spaced is → ∀ {δ : Type} [DecidableEq δ] (digest : Bytes → δ) (s : SeenSignatures δ)
      (uses : List (δ × Int)),
      (∀ m ∈ c.messages hexSum is, ∀ m' ∈ c.messages hexSum is, digest m = digest m' → m = m') →
      (∀ m ∈ c.messages hexSum is, s.seen.lookup (digest m) = none) →
      (∀ m ∈ c.messages hexSum is, (uses.map Prod.fst).count (digest m) ≤
        ((c.messages hexSum is).map digest).count (digest m)) →
      Throughout SeenSignatures.next (fun _ s u => ∀ m ∈ c.messages hexSum is, digest m = u.1 →
        s.hasRoom u.2 = true → (s.firstUse u.1 u.2).2 = true) s uses) := by
  refine ⟨nodup_messages_iff ht h, ?_⟩
  rintro hspaced δ _ digest s uses hinj hnew hcount before u after rfl m hm hu hroom
  have hnodup : ((c.messages hexSum is).map digest).Nodup :=
    ((nodup_messages_iff ht h).mpr hspaced).map_on hinj
  have hone := (hcount m hm).trans (List.nodup_iff_count_le_one.mp hnodup (digest m))
  rw [hu, List.map_append, List.map_cons, List.count_append, List.count_cons_self] at hone
  have hbefore : u.1 ∉ before.map Prod.fst := by
    rw [← List.count_eq_zero]
    omega
  refine SeenSignatures.firstUse_of_lookup_none ?_ hroom
  exact SeenSignatures.lookup_run_eq_none (hu ▸ hnew m hm) hbefore

end Signer

namespace Sample

/-- A client that was just made. -/
def signer : Signer where
  networkID := utf8 "net"
  localName := utf8 "laptop"
  ed25519Public := utf8 "key1"
  x25519Public := utf8 "key2"
  endpoint := []
  subnetRoutes := []

/-- A hash that tells short payloads apart. -/
def hexSum (payload : Bytes) : Bytes := payload.take 64

/-- A registration that fails and the one after it, all within a second, then a signal, the same
signal a second later and the departure. -/
def calls : List SignerInput :=
  [⟨0, .register none⟩, ⟨0, .register (some [1])⟩, ⟨0, .watch⟩, ⟨0, .sendSignal [2] [3]⟩,
    ⟨second, .sendSignal [2] [3]⟩, ⟨second, .leave⟩]

/-- A client joins and sends a sealed signal, which is sent again after the resend interval. -/
def punch : List SignerInput :=
  [⟨0, .register (some [1])⟩, ⟨0, .watch⟩] ++ resends 0 [2] [3] 1

theorem timely_calls : signer.Timely calls := ⟨by decide, by decide, by decide⟩

theorem call_of_mem_calls {i : SignerInput} (hi : i ∈ calls) {a p : Bytes}
    (hc : i.call = .sendSignal a p) : a = [2] ∧ p = [3] := by
  have hall : ∀ i ∈ calls, i.call = .register none ∨ i.call = .register (some [1]) ∨
      i.call = .watch ∨ i.call = .leave ∨ i.call = .sendSignal [2] [3] := by decide
  rcases hall i hi with h | h | h | h | h
  all_goals rw [h] at hc
  · cases hc
  · cases hc
  · cases hc
  · cases hc
  · cases hc
    exact ⟨rfl, rfl⟩

theorem legible_calls : signer.Legible hexSum calls where
  hash payload := (List.length_take_le 64 payload).trans_lt (by decide)
  own := by decide
  recipient i hi a p hc := by
    rw [(call_of_mem_calls hi hc).1]
    decide
  collision i hi j hj a p b q hc hc' _ := by
    rw [(call_of_mem_calls hi hc).2, (call_of_mem_calls hj hc').2]

theorem spaced_calls : signer.Spaced calls := by
  have hpairs : (trail Signer.next signer calls).Pairwise fun x y =>
      x.1.stamps x.2 = true ∨ y.1.stamps y.2 = true ∨ x.2.now / second ≠ y.2.now / second := by
    decide
  refine hpairs.imp fun {x y} h => ?_
  rintro ⟨a, p, hx, hy, -, hnow⟩
  rcases h with h | h | h
  · simp [Signer.stamps, hx] at h
  · simp [Signer.stamps, hy] at h
  · exact h hnow

end Sample

/-- Every one of these requests is let through, in the order in which they are sent. -/
theorem Signer.messages_pass_once_calls :
    let uses := (Sample.signer.messages Sample.hexSum Sample.calls).map fun m => (m, second)
    Throughout SeenSignatures.next
      (fun _ s u => ∀ m ∈ Sample.signer.messages Sample.hexSum Sample.calls, m = u.1 →
        s.hasRoom u.2 = true → (s.firstUse u.1 u.2).2 = true)
      (SeenSignatures.new (120 * second)) uses := by
  intro uses
  have hfst : uses.map Prod.fst = Sample.signer.messages Sample.hexSum Sample.calls := by
    rw [List.map_map]
    exact List.map_id _
  refine (Signer.messages_pass_once Sample.timely_calls Sample.legible_calls).2 Sample.spaced_calls
    id (.new (120 * second)) uses (fun _ _ _ _ h => h) (fun _ _ => rfl) fun m _ => ?_
  rw [hfst, List.map_id]

/-- The second request of the signal is the message of the first one, and the server refuses it. -/
theorem Signer.resent_signal_refused :
    let sent := Sample.signer.messages Sample.hexSum Sample.punch
    let uses := [(0 : Int), 0, 0, signalResendInterval].zipWith (fun now m => (m, now)) sent
    Sample.punch.map SignerInput.now = [0, 0, 0, signalResendInterval] ∧ sent.length = 4 ∧
      ¬sent.Nodup ∧ (trail SeenSignatures.next (.new (120 * second)) uses).map
        (fun x => (x.1.firstUse x.2.1 x.2.2).2) = [true, true, true, false] := by
  decide +kernel

end Veld.Coord
