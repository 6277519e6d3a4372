import Veld.Core.Run
import Veld.Tofu.Trust

/-!
# Two processes and one file

The daemon keeps a store open and checks keys with it. The command line opens the
file, forgets the pin of an address and ends. Each store holds all pins in memory
and each save writes the whole file. A pin the command line forgets stays away if
the daemon does not hold it at that moment.
-/

namespace Veld.Tofu

/-- The file, the store of the daemon while it runs and the one of the command line while it has
the file open. -/
structure Shared where
  file : File := none
  daemon : Option Store := none
  cli : Option Store := none

inductive ProcessStep
  /-- The daemon starts, or starts again. -/
  | start
  | stop
  /-- `Check` of the daemon. -/
  | check (vpnAddr : Bytes) (pub : PublicKey) (order : Order)
  /-- The command line opens the store. -/
  | openStore
  /-- `ForgetByVPNAddr` of the command line, which ends then. -/
  | forget (vpnAddr : Bytes) (order : Order)

/-- The step checks a key. -/
def ProcessStep.checks : ProcessStep → Option PublicKey
  | .check _ pub _ => some pub
  | _ => none

namespace Shared

variable (sha256 : Bytes → Digest)

def next (s : Shared) : ProcessStep → Shared
  | .start => { s with daemon := some (Store.load s.file) }
  | .stop => { s with daemon := none }
  | .check vpnAddr pub order =>
    match s.daemon.bind fun d => d.check sha256 vpnAddr pub with
    | some (d, true) => { s with file := d.save order, daemon := some d }
    | some (d, false) => { s with daemon := some d }
    | none => s
  | .openStore => { s with cli := some (Store.load s.file) }
  | .forget vpnAddr order =>
    match s.cli with
    | some c => { s with file := (c.forgetByVPNAddr vpnAddr).save order, cli := none }
    | none => s

/-- The key that owns an address in the store of the command line. -/
def owner (s : Shared) (vpnAddr : Bytes) : Option String :=
  s.cli.bind fun c => c.vpnToPub.lookup vpnAddr

/-- The command line forgets a pin only while the daemon does not hold it. -/
def Unheld (s : Shared) : ProcessStep → Prop
  | .forget vpnAddr _ => ∀ p ∈ s.owner vpnAddr, ∀ d ∈ s.daemon, d.pins.lookup p = none
  | _ => True

instance (s : Shared) : (step : ProcessStep) → Decidable (s.Unheld step)
  | .forget vpnAddr _ => inferInstanceAs (Decidable (∀ p ∈ s.owner vpnAddr, ∀ d ∈ s.daemon,
      d.pins.lookup p = none))
  | .start | .stop | .check .. | .openStore => inferInstanceAs (Decidable True)

/-- The stores and the file were written by the program. -/
structure Sound (s : Shared) : Prop where
  file : ∀ f, s.file = some f → Authentic sha256 f
  daemon : ∀ d, s.daemon = some d → d.Genuine sha256
  cli : ∀ c, s.cli = some c → c.Genuine sha256

/-- Nobody has a pin of the key. -/
structure Absent (p : String) (s : Shared) : Prop where
  file : ∀ f, s.file = some f → ∀ e ∈ f, e.ed25519Pub ≠ p
  daemon : ∀ d, s.daemon = some d → d.pins.lookup p = none
  cli : ∀ c, s.cli = some c → c.pins.lookup p = none

end Shared

section Files

variable {sha256 : Bytes → Digest} {file : File} {s : Store} {p : String} {order : Order}
  {f : List PinEntry}

theorem genuine_load (h : ∀ f, file = some f → Authentic sha256 f) :
    (Store.load file).Genuine sha256 := by
  cases file with
  | none => exact Store.genuine_new
  | some f => exact (h f rfl).genuine_load

/-- What is not in the file is not in the store that is loaded. -/
theorem lookup_load (h : ∀ f, file = some f → ∀ e ∈ f, e.ed25519Pub ≠ p) :
    (Store.load file).pins.lookup p = none := by
  cases file with
  | none => rfl
  | some f =>
    rw [Store.load_some, Option.eq_none_iff_forall_ne_some]
    intro v hv
    rcases Store.mem_of_lookup_foldl hv with ⟨e, he, hp, -⟩ | hv
    · exact h f rfl e he hp
    · cases hv

theorem Store.Genuine.authentic_save (h : s.Genuine sha256)
    (hf : s.save order = some f) : Authentic sha256 f := by
  obtain ⟨f', hf', hauthentic, -⟩ := h.describes_save order
  rwa [← Option.mem_unique hf' hf]

/-- What is not in the store is not in the file that is saved. -/
theorem Store.Genuine.ne_of_mem_save (h : s.Genuine sha256) (hp : s.pins.lookup p = none) (hf : s.save order = some f) :
    ∀ e ∈ f, e.ed25519Pub ≠ p := by
  obtain ⟨f', hf', -, hd⟩ := h.describes_save order
  obtain rfl := Option.mem_unique hf' hf
  rintro e he rfl
  obtain ⟨q, v, hv, rfl⟩ := (hd e).mp he
  obtain ⟨-, -, hkey, -⟩ := h.pinned q v hv
  have hkey : v.entry.ed25519Pub = q := hkey
  rw [hkey, hv] at hp
  cases hp

/-- A check pins no other key. -/
theorem Store.lookup_check {a : Bytes} {pub : PublicKey} {r : Store × Bool}
    (hr : s.check sha256 a pub = some r) (hne : pubKeyString pub ≠ p) (hp : s.pins.lookup p = none) :
    r.1.pins.lookup p = none := by
  rcases check_eq_some hr with ⟨_, -, -, rfl⟩ | ⟨_, -, -, -, rfl⟩ | ⟨-, -, rfl⟩
  · exact hp
  · exact (AList.lookup_insert_ne hne.symm).trans hp
  · exact (AList.lookup_insert_ne hne.symm).trans hp

end Files

namespace Shared

variable {sha256 : Bytes → Digest} {s : Shared} {p : String}

/-- What a check of the daemon does. -/
theorem next_check (sha256 : Bytes → Digest) (s : Shared) (a : Bytes) (pub : PublicKey) (order : Order) :
    s.next sha256 (.check a pub order) = s ∨
      ∃ d r, s.daemon = some d ∧ d.check sha256 a pub = some r ∧
        (s.next sha256 (.check a pub order) = { s with daemon := some r.1 } ∨
          s.next sha256 (.check a pub order) =
            { s with file := r.1.save order, daemon := some r.1 }) := by
  simp only [next]
  split
  · rename_i d hd
    obtain ⟨d₀, hd₀, hr⟩ := Option.bind_eq_some_iff.mp hd
    exact .inr ⟨d₀, _, hd₀, hr, .inr rfl⟩
  · rename_i d hd
    obtain ⟨d₀, hd₀, hr⟩ := Option.bind_eq_some_iff.mp hd
    exact .inr ⟨d₀, _, hd₀, hr, .inl rfl⟩
  · exact .inl rfl

theorem Sound.next (h : s.Sound sha256) (step : ProcessStep) :
    (s.next sha256 step).Sound sha256 := by
  cases step with
  | start =>
    refine ⟨h.file, ?_, h.cli⟩
    rintro d ⟨⟩
    exact genuine_load h.file
  | stop => exact ⟨h.file, nofun, h.cli⟩
  | check a pub order =>
    rcases next_check sha256 s a pub order with he | ⟨d, r, hd, hr, he | he⟩
    · rw [he]
      exact h
    · have hr := (h.daemon d hd).check hr
      rw [he]
      refine ⟨h.file, ?_, h.cli⟩
      rintro _ ⟨⟩
      exact hr
    · have hr := (h.daemon d hd).check hr
      rw [he]
      refine ⟨fun f hf => hr.authentic_save hf, ?_, h.cli⟩
      rintro _ ⟨⟩
      exact hr
  | openStore =>
    refine ⟨h.file, h.daemon, ?_⟩
    rintro c ⟨⟩
    exact genuine_load h.file
  | forget a order =>
    simp only [Shared.next]
    split
    · rename_i c hc
      exact ⟨fun f hf => ((h.cli c hc).forgetByVPNAddr a).authentic_save hf, h.daemon, nofun⟩
    · exact h

theorem sound_run {steps : List ProcessStep} : (run (next sha256) {} steps).Sound sha256 := by
  induction steps using List.reverseRecOn with
  | nil => exact ⟨nofun, nofun, nofun⟩
  | append_singleton steps step ih =>
    rw [run_snoc]
    exact ih.next step

/-- A pin nobody has comes back only by a check of its key. -/
theorem Absent.next (h : s.Absent p) (hs : s.Sound sha256) {step : ProcessStep}
    (hstep : ∀ pub ∈ step.checks, pubKeyString pub ≠ p) : (s.next sha256 step).Absent p := by
  cases step with
  | start =>
    refine ⟨h.file, ?_, h.cli⟩
    rintro d ⟨⟩
    exact lookup_load h.file
  | stop => exact ⟨h.file, nofun, h.cli⟩
  | check a pub order =>
    rcases next_check sha256 s a pub order with he | ⟨d, r, hd, hr, he | he⟩
    · rw [he]
      exact h
    · have hp := Store.lookup_check hr (hstep pub rfl) (h.daemon d hd)
      rw [he]
      refine ⟨h.file, ?_, h.cli⟩
      rintro _ ⟨⟩
      exact hp
    · have hp := Store.lookup_check hr (hstep pub rfl) (h.daemon d hd)
      have hgenuine := (hs.daemon d hd).check hr
      rw [he]
      refine ⟨fun f hf => hgenuine.ne_of_mem_save hp hf, ?_, h.cli⟩
      rintro _ ⟨⟩
      exact hp
  | openStore =>
    refine ⟨h.file, h.daemon, ?_⟩
    rintro c ⟨⟩
    exact lookup_load h.file
  | forget a order =>
    simp only [Shared.next]
    split
    · rename_i c hc
      have hgenuine := (hs.cli c hc).forgetByVPNAddr a
      refine ⟨fun f hf => hgenuine.ne_of_mem_save ?_ hf, h.daemon, nofun⟩
      rcases (hs.cli c hc).forgetByVPNAddr_eq a with ⟨-, he⟩ | ⟨q, v, -, -, -, he⟩
      · rw [he]
        exact h.cli c hc
      · rw [he, Option.eq_none_iff_forall_ne_some]
        intro w hw
        have hold := (lookup_erase_eq_some.mp hw).2
        rw [h.cli c hc] at hold
        cases hold
    · exact h

theorem Absent.run {steps : List ProcessStep} (h : s.Absent p) (hs : s.Sound sha256)
    (hsteps : ∀ step ∈ steps, ∀ pub ∈ step.checks, pubKeyString pub ≠ p) :
    (Veld.run (Shared.next sha256) s steps).Absent p := by
  induction steps generalizing s with
  | nil => exact h
  | cons step steps ih =>
    obtain ⟨hstep, hsteps⟩ := List.forall_mem_cons.mp hsteps
    exact ih (h.next hs hstep) (hs.next step) hsteps

/-- The command line forgets a pin the daemon does not hold. -/
theorem absent_forget (hs : s.Sound sha256) {a : Bytes} {order : Order}
    (howner : s.owner a = some p) (hunheld : s.Unheld (.forget a order)) :
    (s.next sha256 (.forget a order)).Absent p := by
  obtain ⟨c, hc, ha⟩ := Option.bind_eq_some_iff.mp howner
  have hgenuine := hs.cli c hc
  have hgone : (c.forgetByVPNAddr a).pins.lookup p = none := by
    rcases hgenuine.forgetByVPNAddr_eq a with ⟨hnone, -⟩ | ⟨q, v, hq, hv, -, he⟩
    · rw [ha] at hnone
      cases hnone
    · obtain rfl := Option.mem_unique hq ha
      obtain ⟨-, -, hkey, -⟩ := hgenuine.pinned q v hv
      rw [he, Store.unpin, hkey]
      exact AList.lookup_erase _ _
  simp only [Shared.next, hc]
  exact ⟨fun f hf => (hgenuine.forgetByVPNAddr a).ne_of_mem_save hgone hf,
    fun d hd => hunheld p howner d hd, nofun⟩

/-- In every run in which the command line forgets pins only while the daemon does not hold them, a
pin it forgot is neither in the file nor in the daemon's store until its key is checked again, and
the daemon accepts another key at the address if no other pin has it. -/
theorem forgotten_stays_away (past mid : List ProcessStep) (a : Bytes) (order : Order) (p : String)
    (h : Along (next sha256) Unheld {} (past ++ .forget a order :: mid))
    (howner : (run (next sha256) {} past).owner a = some p)
    (hmid : ∀ step ∈ mid, ∀ pub ∈ step.checks, pubKeyString pub ≠ p) :
    let s := run (next sha256) {} (past ++ .forget a order :: mid)
    (∀ f ∈ s.file, ∀ e ∈ f, e.ed25519Pub ≠ p) ∧
    (∀ d ∈ s.daemon, d.pins.lookup p = none) ∧
    ∀ d ∈ s.daemon, ∀ pub, (∀ q v, d.pins.lookup q = some v → q ≠ p → a ∈ v.addresses →
      q = pubKeyString pub) → (d.check sha256 a pub).isSome = true := by
  intro s
  have hunheld := (along_cons.mp (along_append.mp h).2).1
  have habsent : s.Absent p := by
    show (run (next sha256) {} (past ++ .forget a order :: mid)).Absent p
    rw [run_append, run_cons]
    exact (absent_forget sound_run howner hunheld).run (sound_run.next _) hmid
  refine ⟨habsent.file, habsent.daemon, ?_⟩
  intro d hd pub hfree
  refine (sound_run.daemon d hd).check_isSome fun q v hv hmem => hfree q v hv ?_ hmem
  rintro rfl
  rw [habsent.daemon d hd] at hv
  cases hv

end Shared

namespace Sample

/-- The processes after some steps. -/
def processes (steps : List ProcessStep) : Shared := run (Shared.next digest) {} steps

/-- The daemon has pinned a key, stopped, and the command line has opened the file. -/
def stopped : List ProcessStep := [.start, .check [0x31] alice inOrder, .stop, .openStore]

/-- The same while the daemon goes on. -/
def running : List ProcessStep := [.start, .check [0x31] alice inOrder, .openStore]

end Sample

namespace Shared

/-- A daemon that starts after a key was forgotten accepts another one at the address. -/
theorem forgotten_stays_away_stopped :
    let s := Sample.processes (Sample.stopped ++ .forget [0x31] Sample.inOrder :: [.start])
    (∀ d ∈ s.daemon, d.pins.lookup (pubKeyString Sample.alice) = none) ∧
      (s.daemon.bind fun d => d.check Sample.digest [0x31] Sample.bob).isSome = true :=
  ⟨(forgotten_stays_away Sample.stopped [.start] [0x31] Sample.inOrder (pubKeyString Sample.alice)
    (by decide +kernel) (by decide +kernel) (by decide +kernel)).2.1, by decide +kernel⟩

/-- A daemon that runs while a key is forgotten still holds its pin, refuses another key at the
address although the file has no pin left, and writes the pin back with its next save. -/
theorem forgotten_comes_back :
    let s := Sample.processes (Sample.running ++ [.forget [0x31] Sample.inOrder])
    let s' := s.next Sample.digest (.check [0x32] Sample.bob Sample.inOrder)
    s.file = some [] ∧
      (s.daemon.bind fun d => d.pins.lookup (pubKeyString Sample.alice)).isSome = true ∧
      (s.daemon.bind fun d => d.check Sample.digest [0x31] Sample.bob).isSome = false ∧
      (s'.file.getD []).map PinEntry.ed25519Pub =
        [pubKeyString Sample.bob, pubKeyString Sample.alice] := by
  decide +kernel

end Shared

end Veld.Tofu
