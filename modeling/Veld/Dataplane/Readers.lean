import Veld.Core.Bytes
import Veld.Core.Run
import Veld.Core.Tally

/-!
# The readers of the TUN devices

The `tunLoop` goroutines of `internal/dataplane/dispatcher.go` and the calls that
start and end them. `Start` and `SetTUN` both start a loop. A loop looks up the
device of the dispatcher when it first runs, which may be later than another call,
and then reads this device until it is closed. `Read` fails only on a closed device.
`SetTUN` always gets a new device; the devices are numbered in the order they are
created. A loop hands each packet to `handleTunPacket` and reads the next one after
it returned.
-/

namespace Veld.Dataplane

/-- A `tun.TUN`. -/
abbrev TunRef := Nat

/-- Where a `tunLoop` stands. -/
inductive LoopPhase
  /-- Started, before it looks up the device. -/
  | starting
  /-- In `Read`. -/
  | reading (t : TunRef)
  /-- In `handleTunPacket` with a packet of the device. -/
  | handling (t : TunRef) (pkt : Bytes)
  | ended
  deriving DecidableEq, Repr

namespace LoopPhase

/-- The device a loop reads or is going to look up. -/
def device (tun : Option TunRef) : LoopPhase → Option TunRef
  | starting => tun
  | reading t => some t
  | handling t _ => some t
  | ended => none

/-- The packet of a device that a loop is handling. -/
def packet (t : TunRef) : LoopPhase → Option Bytes
  | handling u pkt => if u = t then some pkt else none
  | _ => none

@[simp] theorem packet_reading (t u : TunRef) : (reading u).packet t = none := rfl

@[simp] theorem packet_handling_self (t : TunRef) (pkt : Bytes) :
    (handling t pkt).packet t = some pkt := if_pos rfl

end LoopPhase

/-- The device of the dispatcher, the loops, and what they have read and handled. -/
structure Readers where
  /-- `Dispatcher.tun`. -/
  tun : Option TunRef := none
  created : Nat := 0
  closed : List TunRef := []
  loops : List LoopPhase := []
  /-- Every packet that was read, with its device, in the order of the reads. -/
  read : List (TunRef × Bytes) := []
  /-- Every packet whose handling has returned, in this order. -/
  handled : List (TunRef × Bytes) := []
  deriving DecidableEq

/-- What happens to the readers. -/
inductive ReaderStep
  /-- `SetTUN` with a new device. -/
  | setTUN
  | start
  /-- The daemon closes a device it has replaced. -/
  | close (t : TunRef)
  | stop
  /-- The next step of a loop; a read returns the given bytes. -/
  | advance (k : Nat) (pkt : Bytes)
  deriving DecidableEq, Repr

namespace Readers

variable (s : Readers)

/-- Where a loop goes on after it looked up the device. -/
def lookUp : LoopPhase := (s.tun.map .reading).getD .ended

/-- The step of the loop at a place. -/
def loopStep (k : Nat) (pkt : Bytes) : LoopPhase → Readers
  | .starting => { s with loops := s.loops.set k s.lookUp }
  | .reading t =>
    if t ∈ s.closed then { s with loops := s.loops.set k .ended }
    else if pkt = [] then s
    else { s with loops := s.loops.set k (.handling t pkt), read := s.read ++ [(t, pkt)] }
  | .handling t pkt =>
    { s with loops := s.loops.set k (.reading t), handled := s.handled ++ [(t, pkt)] }
  | .ended => s

def next : ReaderStep → Readers
  | .setTUN => { s with
      tun := some s.created, created := s.created + 1, loops := s.loops ++ [.starting] }
  | .start => { s with loops := s.loops ++ [.starting] }
  | .close t => { s with closed := t :: s.closed }
  | .stop => { s with closed := s.tun.toList ++ s.closed }
  | .advance k pkt =>
    match s.loops[k]? with
    | some phase => s.loopStep k pkt phase
    | none => s

/-- The loop at a place waits for a packet of a device or handles one. -/
def Reads (k : Nat) (t : TunRef) : Prop :=
  ∃ phase, s.loops[k]? = some phase ∧ phase.device none = some t

/-- The loop at a place reads a device or is going to look it up. -/
def Serves (k : Nat) (t : TunRef) : Prop :=
  ∃ phase, s.loops[k]? = some phase ∧ phase.device s.tun = some t

/-- The packets that were read from a device. -/
def readFrom (t : TunRef) : List Bytes := (s.read.filter (·.1 = t)).map Prod.snd

/-- The packets of a device that have been handled. -/
def handledFrom (t : TunRef) : List Bytes := (s.handled.filter (·.1 = t)).map Prod.snd

/-- The packets of a device that loops are handling. -/
def inHand (t : TunRef) : List Bytes := s.loops.filterMap (LoopPhase.packet t)

/-- `Start` comes before the first device, and `SetTUN` after all loops have looked up theirs. -/
def Orderly : ReaderStep → Prop
  | .setTUN => ∀ phase ∈ s.loops, phase ≠ .starting
  | .start => s.tun = none
  | _ => True

instance (step : ReaderStep) : Decidable (s.Orderly step) :=
  match step with
  | .setTUN => inferInstanceAs (Decidable (∀ phase ∈ s.loops, phase ≠ .starting))
  | .start => inferInstanceAs (Decidable (s.tun = none))
  | .close _ | .stop | .advance _ _ => isTrue trivial

variable {s} {s' : Readers} {i j k : Nat} {t : TunRef} {pkt : Bytes} {phase phase' : LoopPhase}
  {tun : Option TunRef}

theorem Reads.serves (h : s.Reads k t) : s.Serves k t := by
  obtain ⟨phase, hk, hdev⟩ := h
  refine ⟨phase, hk, ?_⟩
  cases phase with
  | starting => cases hdev
  | reading u => exact hdev
  | handling u pkt => exact hdev
  | ended => cases hdev

theorem device_of_packet (h : phase.packet t = some pkt) : phase.device tun = some t := by
  cases phase with
  | handling u pkt' =>
    by_cases hu : u = t
    · rw [LoopPhase.device, hu]
    · rw [LoopPhase.packet, if_neg hu] at h
      cases h
  | _ => cases h

theorem device_of_ne_starting (h : phase ≠ .starting) : phase.device tun = phase.device none := by
  cases phase with
  | starting => exact absurd rfl h
  | _ => rfl

/-- A device has at most one loop, and while it is open it has one. -/
structure Sole (s : Readers) : Prop where
  tun_lt : ∀ t, s.tun = some t → t < s.created
  serves_lt : ∀ k t, s.Serves k t → t < s.created
  alone : ∀ t i j, s.Serves i t → s.Serves j t → i = j
  served : ∀ t, t < s.created → t ∉ s.closed → ∃ k, s.Serves k t

/-- What was read from a device has been handled, but for what is in the hands of a loop. -/
def Logged (s : Readers) : Prop := ∀ t, s.readFrom t = s.handledFrom t ++ s.inHand t

section Started

/-- A new device is served by the loop that is started for it. -/
theorem Sole.setTUN (h : Sole s) (hnone : ∀ phase ∈ s.loops, phase ≠ .starting) :
    Sole (s.next .setTUN) := by
  have hsame : ∀ (k : Nat) (phase : LoopPhase), s.loops[k]? = some phase →
      phase.device (some s.created) = phase.device s.tun := by
    intro k phase hk
    have hne := hnone phase (List.mem_of_getElem? hk)
    exact (device_of_ne_starting hne).trans (device_of_ne_starting hne).symm
  have hserves : ∀ k t, (s.next .setTUN).Serves k t →
      s.Serves k t ∨ (k = s.loops.length ∧ t = s.created) := by
    rintro k t ⟨phase, hk, hdev⟩
    rcases getElem?_snoc_eq_some.mp hk with hk | ⟨hlast, rfl⟩
    · exact .inl ⟨phase, hk, (hsame k phase hk).symm.trans hdev⟩
    · exact .inr ⟨hlast, (Option.some.inj hdev).symm⟩
  refine ⟨?_, ?_, ?_, ?_⟩
  · intro t ht
    obtain rfl : s.created = t := Option.some.inj ht
    exact Nat.lt_succ_self _
  · intro k t hk
    rcases hserves k t hk with hk | ⟨-, rfl⟩
    · exact Nat.lt_succ_of_lt (h.serves_lt k t hk)
    · exact Nat.lt_succ_self _
  · intro t i j hi hj
    rcases hserves i t hi with hi' | ⟨rfl, rfl⟩
    · rcases hserves j t hj with hj' | ⟨-, rfl⟩
      · exact h.alone t i j hi' hj'
      · exact absurd (h.serves_lt i _ hi') (Nat.lt_irrefl _)
    · rcases hserves j _ hj with hj' | ⟨rfl, -⟩
      · exact absurd (h.serves_lt j _ hj') (Nat.lt_irrefl _)
      · rfl
  · intro t ht hopen
    rcases Nat.lt_succ_iff_lt_or_eq.mp ht with ht | rfl
    · obtain ⟨k, phase, hk, hdev⟩ := h.served t ht hopen
      exact ⟨k, phase, getElem?_snoc_eq_some.mpr (.inl hk), (hsame k phase hk).trans hdev⟩
    · exact ⟨s.loops.length, .starting, List.getElem?_concat_length, rfl⟩

/-- Without a device the loop that `Start` starts serves none. -/
theorem Sole.start (h : Sole s) (hnone : s.tun = none) : Sole (s.next .start) := by
  have hserves : ∀ k t, (s.next .start).Serves k t → s.Serves k t := by
    rintro k t ⟨phase, hk, hdev⟩
    rcases getElem?_snoc_eq_some.mp hk with hk | ⟨-, rfl⟩
    · exact ⟨phase, hk, hdev⟩
    · cases hnone.symm.trans hdev
  refine ⟨h.tun_lt, fun k t hk => h.serves_lt k t (hserves k t hk),
    fun t i j hi hj => h.alone t i j (hserves i t hi) (hserves j t hj), fun t ht hopen => ?_⟩
  obtain ⟨k, phase, hk, hdev⟩ := h.served t ht hopen
  exact ⟨k, phase, getElem?_snoc_eq_some.mpr (.inl hk), hdev⟩

/-- A loop that is started holds no packet. -/
theorem Logged.snoc (h : Logged s) (hloops : s'.loops = s.loops ++ [.starting])
    (hread : s'.read = s.read) (hhandled : s'.handled = s.handled) : Logged s' := by
  intro t
  rw [readFrom, handledFrom, inHand, hread, hhandled, hloops, List.filterMap_append]
  show s.readFrom t = s.handledFrom t ++ (s.inHand t ++ [])
  rw [List.append_nil]
  exact h t

end Started

/-- Closing devices leaves fewer of them to serve. -/
theorem Sole.shut (h : Sole s) (ts : List TunRef) : Sole { s with closed := ts ++ s.closed } where
  tun_lt := h.tun_lt
  serves_lt := h.serves_lt
  alone := h.alone
  served t ht hopen := h.served t ht fun hmem => hopen (List.mem_append_right ts hmem)

section Advance

/-- A loop goes on with its device, or ends after the device was closed. -/
theorem Sole.advance (h : Sole s) (hk : s.loops[k]? = some phase)
    (hloops : s'.loops = s.loops.set k phase') (htun : s'.tun = s.tun)
    (hcreated : s'.created = s.created) (hclosed : s'.closed = s.closed)
    (hsub : ∀ t, phase'.device s.tun = some t → phase.device s.tun = some t)
    (hkeep : ∀ t, phase.device s.tun = some t → t ∉ s.closed → phase'.device s.tun = some t) :
    Sole s' := by
  have hserves : ∀ j t, s'.Serves j t → s.Serves j t := by
    rintro j t ⟨u, hj, hdev⟩
    rw [hloops] at hj
    rw [htun] at hdev
    rcases getElem?_set_eq_some hj with ⟨rfl, rfl⟩ | ⟨-, hj⟩
    · exact ⟨phase, hk, hsub t hdev⟩
    · exact ⟨u, hj, hdev⟩
  refine ⟨fun t ht => ?_, fun j t hj => ?_, fun t i j hi hj => ?_, fun t ht hopen => ?_⟩
  · rw [hcreated]
    exact h.tun_lt t (htun ▸ ht)
  · rw [hcreated]
    exact h.serves_lt j t (hserves j t hj)
  · exact h.alone t i j (hserves i t hi) (hserves j t hj)
  · rw [hcreated] at ht
    rw [hclosed] at hopen
    obtain ⟨j, u, hj, hdev⟩ := h.served t ht hopen
    unfold Serves
    rw [hloops, htun]
    by_cases hjk : j = k
    · subst hjk
      obtain rfl : u = phase := Option.mem_unique hj hk
      refine ⟨j, phase', ?_, hkeep t hdev hopen⟩
      rw [List.getElem?_set_self', hk]
      rfl
    · exact ⟨j, u, by rwa [List.getElem?_set_ne (Ne.symm hjk)], hdev⟩

/-- Another loop handles no packet of the device of this one. -/
theorem Sole.packet_none (h : Sole s) (hk : s.loops[k]? = some phase)
    (hdev : phase.device s.tun = some t) (hj : s.loops[j]? = some phase') (hjk : j ≠ k) :
    phase'.packet t = none := by
  cases hp : phase'.packet t with
  | none => rfl
  | some pkt => exact absurd (h.alone t j k ⟨phase', hj, device_of_packet hp⟩ ⟨phase, hk, hdev⟩) hjk

/-- What is in hand of the device of a loop is what this loop has. -/
theorem Sole.inHand_set (h : Sole s) (hk : s.loops[k]? = some phase)
    (hdev : phase.device s.tun = some t) (phase' : LoopPhase) :
    (s.loops.set k phase').filterMap (LoopPhase.packet t) = (phase'.packet t).toList :=
  filterMap_set_of_forall hk fun _ _ hjk hj => h.packet_none hk hdev hj hjk

theorem packet_none_of_device (h : phase.device tun ≠ some t) : phase.packet t = none := by
  cases hp : phase.packet t with
  | none => rfl
  | some pkt => exact absurd (device_of_packet hp) h

/-- A loop goes on; what it takes and returns is only about its device. -/
theorem Logged.advance (h : Logged s) (hsole : Sole s) (hk : s.loops[k]? = some phase)
    (hloops : s'.loops = s.loops.set k phase')
    (hsub : ∀ t, phase'.device s.tun = some t → phase.device s.tun = some t)
    (hother : ∀ t, phase.device s.tun ≠ some t →
      s'.readFrom t = s.readFrom t ∧ s'.handledFrom t = s.handledFrom t)
    (hown : ∀ t, phase.device s.tun = some t →
      s.readFrom t = s.handledFrom t ++ (phase.packet t).toList →
        s'.readFrom t = s'.handledFrom t ++ (phase'.packet t).toList) : Logged s' := by
  intro t
  by_cases hdev : phase.device s.tun = some t
  · have hnow := h t
    rw [inHand, ← set_eq_self hk, hsole.inHand_set hk hdev] at hnow
    rw [inHand, hloops, hsole.inHand_set hk hdev]
    exact hown t hdev hnow
  · obtain ⟨hread, hhandled⟩ := hother t hdev
    have hdev' : phase'.device s.tun ≠ some t := fun he => hdev (hsub t he)
    rw [hread, hhandled, inHand, hloops, filterMap_set_of_none hk (packet_none_of_device hdev)
      (packet_none_of_device hdev')]
    exact h t

theorem readFrom_snoc {l : List (TunRef × Bytes)} {u : TunRef} :
    ((l ++ [(t, pkt)]).filter (·.1 = u)).map Prod.snd =
      (l.filter (·.1 = u)).map Prod.snd ++ if t = u then [pkt] else [] := by
  rw [List.filter_append, List.map_append]
  by_cases h : t = u
  · simp [h]
  · simp [h]

/-- One step of a loop. -/
theorem Sole.loopStep (h : Sole s) (hlogged : Logged s) (hk : s.loops[k]? = some phase) :
    Sole (s.loopStep k pkt phase) ∧ Logged (s.loopStep k pkt phase) := by
  cases phase with
  | starting =>
    have hdev : s.lookUp.device s.tun = LoopPhase.starting.device s.tun := by
      unfold lookUp
      cases s.tun with
      | none => rfl
      | some t => rfl
    have hpacket : ∀ t, s.lookUp.packet t = none := by
      unfold lookUp
      cases s.tun with
      | none => exact fun _ => rfl
      | some t => exact fun _ => rfl
    refine ⟨h.advance hk rfl rfl rfl rfl (fun t ht => hdev ▸ ht) (fun t ht _ => hdev.trans ht),
      hlogged.advance h hk rfl (fun t ht => hdev ▸ ht) (fun t _ => ⟨rfl, rfl⟩) fun t _ hnow => ?_⟩
    rw [hpacket t]
    exact hnow
  | reading t =>
    simp only [Readers.loopStep]
    split
    · rename_i hclosed
      refine ⟨h.advance hk rfl rfl rfl rfl nofun fun u hu hopen => ?_,
        hlogged.advance h hk rfl nofun (fun _ _ => ⟨rfl, rfl⟩) fun _ _ hnow => hnow⟩
      obtain rfl : t = u := Option.some.inj hu
      exact absurd hclosed hopen
    · split
      · exact ⟨h, hlogged⟩
      · refine ⟨h.advance hk rfl rfl rfl rfl (fun _ hu => hu) fun _ hu _ => hu,
          hlogged.advance h hk rfl (fun _ hu => hu) (fun u hu => ⟨?_, rfl⟩) fun u hu hnow => ?_⟩
        · have hne : t ≠ u := fun he => hu (congrArg some he)
          rw [readFrom, readFrom_snoc, if_neg hne, List.append_nil]
          rfl
        · obtain rfl : t = u := Option.some.inj hu
          rw [LoopPhase.packet_reading, Option.toList_none, List.append_nil] at hnow
          rw [readFrom, readFrom_snoc, if_pos rfl, LoopPhase.packet_handling_self]
          exact congrArg (· ++ [pkt]) hnow
  | handling t pkt' =>
    simp only [Readers.loopStep]
    refine ⟨h.advance hk rfl rfl rfl rfl (fun _ hu => hu) fun _ hu _ => hu,
      hlogged.advance h hk rfl (fun _ hu => hu) (fun u hu => ⟨rfl, ?_⟩) fun u hu hnow => ?_⟩
    · have hne : t ≠ u := fun he => hu (congrArg some he)
      rw [handledFrom, readFrom_snoc, if_neg hne, List.append_nil]
      rfl
    · obtain rfl : t = u := Option.some.inj hu
      rw [LoopPhase.packet_handling_self] at hnow
      rw [handledFrom, readFrom_snoc, if_pos rfl, LoopPhase.packet_reading, Option.toList_none,
        List.append_nil]
      exact hnow
  | ended => exact ⟨h, hlogged⟩

end Advance

theorem Sole.next (h : Sole s) (hlogged : Logged s) {step : ReaderStep} (hstep : s.Orderly step) :
    Sole (s.next step) ∧ Logged (s.next step) := by
  cases step with
  | setTUN => exact ⟨h.setTUN hstep, hlogged.snoc rfl rfl rfl⟩
  | start => exact ⟨h.start hstep, hlogged.snoc rfl rfl rfl⟩
  | close t => exact ⟨h.shut [t], hlogged⟩
  | stop => exact ⟨h.shut s.tun.toList, hlogged⟩
  | advance k pkt =>
    simp only [Readers.next]
    cases hk : s.loops[k]? with
    | none => exact ⟨h, hlogged⟩
    | some phase => exact h.loopStep hlogged hk

theorem sole_run {steps : List ReaderStep} (h : Along next Orderly {} steps) :
    Sole (run next {} steps) ∧ Logged (run next {} steps) := by
  refine h.keeps (fun s => Sole s ∧ Logged s) ⟨⟨nofun, ?_, ?_, ?_⟩, fun _ => rfl⟩
    fun s step hs hstep => hs.1.next hs.2 hstep
  · rintro k t ⟨phase, hk, -⟩
    cases hk
  · rintro t i j ⟨phase, hi, -⟩
    cases hi
  · intro t ht
    exact absurd ht (Nat.not_lt_zero t)

/-- A device has at most one packet in hand. -/
theorem Sole.length_inHand (h : Sole s) (t : TunRef) : (s.inHand t).length ≤ 1 := by
  cases hin : s.inHand t with
  | nil => exact Nat.zero_le 1
  | cons pkt rest =>
    have hmem : pkt ∈ s.inHand t := by rw [hin]; exact List.mem_cons_self
    obtain ⟨phase, hphase, hpacket⟩ := List.mem_filterMap.mp hmem
    obtain ⟨k, hk⟩ := List.getElem?_of_mem hphase
    have hone := h.inHand_set hk (device_of_packet hpacket) phase
    rw [set_eq_self hk, hpacket] at hone
    rw [← hin, inHand, hone]
    exact Nat.le_refl 1

/-- When `Start` precedes the devices and every loop has looked up its device before the next
`SetTUN`: a device is never read by two loops, an open one is served by exactly one, and the
packets of a device are handled one after another in the order they were read. -/
theorem one_reader {steps : List ReaderStep} (h : Along next Orderly {} steps) :
    let s := run next {} steps
    (∀ t i j, s.Reads i t → s.Reads j t → i = j) ∧
    (∀ t, t < s.created → t ∉ s.closed → ∃! k, s.Serves k t) ∧
    ∀ t, s.readFrom t = s.handledFrom t ++ s.inHand t ∧ (s.inHand t).length ≤ 1 := by
  intro s
  obtain ⟨hsole, hlogged⟩ := sole_run h
  refine ⟨fun t i j hi hj => hsole.alone t i j hi.serves hj.serves, fun t ht hopen => ?_,
    fun t => ⟨hlogged t, hsole.length_inHand t⟩⟩
  obtain ⟨k, hk⟩ := hsole.served t ht hopen
  exact ⟨k, hk, fun j hj => hsole.alone t j k hj hk⟩

/-- An address is assigned and then another one; the second device has a packet. -/
def reassigned : List ReaderStep :=
  [.start, .advance 0 [], .setTUN, .advance 1 [], .setTUN, .advance 2 [], .close 0, .advance 1 [],
    .advance 2 [7]]

/-- The second device has one loop, and its packet is in hand. -/
theorem one_reader_reassigned :
    let s := run next {} reassigned
    s.loops = [.ended, .ended, .handling 1 [7]] ∧ (∃! k, s.Serves k 1) ∧
      s.readFrom 1 = s.handledFrom 1 ++ s.inHand 1 := by
  have horderly : Along next Orderly {} reassigned := by decide
  obtain ⟨-, hserved, hlogged⟩ := one_reader horderly
  exact ⟨by decide, hserved 1 (by decide) (by decide), (hlogged 1).1⟩

/-- In static mode `SetTUN` comes before `Start`: two loops read the device, and of two packets the
second one is handled first. -/
theorem two_readers :
    let s := run next {} [.setTUN, .start, .advance 0 [], .advance 1 [], .advance 0 [1],
      .advance 1 [2], .advance 1 []]
    s.loops = [.handling 0 [1], .reading 0] ∧ s.readFrom 0 = [[1], [2]] ∧
      s.handledFrom 0 = [[2]] := by
  decide

end Readers

end Veld.Dataplane
