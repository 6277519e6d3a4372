import Veld.Acl.Loader

/-!
# Watching the policy file

`watchLoop` of `internal/acl/loader.go`: changes of the file add events to a
queue, and an event is ignored when it is handled less than 100 ms after the time
the loader keeps. That time is the last reload's or the modification time of the
file it loaded. The policy in force follows the file in the runs in which the
last event about the file is ignored only if the file is as the last reload saw it.
-/

namespace Veld.Acl

/-- `fsnotify.Op`, a set of bits. -/
abbrev Op := BitVec 32

def opCreate : Op := 1
def opWrite : Op := 2
def opRemove : Op := 4
def opRename : Op := 8

/-- `fsnotify.Event`. -/
structure FsEvent where
  name : String
  op : Op
  deriving DecidableEq, Repr

/-- A change of the policy file. -/
inductive Change
  | truncate
  /-- The file has the given content afterwards. -/
  | write (content : String)
  | remove
  | create (mode : BitVec 32) (uid : UInt32)
  /-- A file prepared elsewhere, with its own modification time, is moved into place. -/
  | rename (file : PolicyFile)

namespace Change

def apply (c : Change) (now : Int) (view : FileView) : FileView :=
  match c, view with
  | truncate, .present file => .present { file with content := .ok "", modTime := now }
  | write content, .present file => .present { file with content := .ok content, modTime := now }
  | create mode uid, .absent => .present ⟨.ok "", mode, uid, now⟩
  | remove, _ => .absent
  | rename file, _ => .present file
  | _, view => view

/-- What the watcher of the directory reports about the change. -/
def op : Change → Op
  | truncate | write _ => opWrite
  | remove => opRemove
  | create _ _ | rename _ => opCreate

end Change

/-- `logError`, which prints at most one error in 30 seconds. -/
def Loader.logError (l : Loader) (now : Int) : Loader :=
  if now - l.lastErrorLog < 30 * second then l else { l with lastErrorLog := now }

/-- A `Load` whose error is logged, as in `Reload`. -/
def Loader.reload (l : Loader) (view : FileView) (now : Int) : Loader :=
  match l.load view with
  | (l', some _) => l'.logError now
  | (l', none) => l'

/-- The policy file, the events about its directory that wait to be handled, and the loader. -/
structure Watch where
  disk : FileView
  queue : List FsEvent
  loader : Loader
  /-- `filepath.Clean`. -/
  clean : String → String

namespace Watch

/-- What happens to the file and to the loader. -/
inductive Input
  | change (now : Int) (c : Change)
  /-- An event that is no change of the file: about another file, or a `Chmod`. -/
  | notice (ev : FsEvent)
  /-- `watchLoop` takes the next event. -/
  | handle (now : Int)
  /-- SIGHUP. -/
  | reload (now : Int)

/-- The event is about the policy file and one `watchLoop` reacts to. -/
def reacts (w : Watch) (ev : FsEvent) : Bool :=
  w.clean ev.name = w.clean w.loader.path &&
    ev.op &&& (opWrite ||| opCreate ||| opRename ||| opRemove) ≠ 0

/-- The event comes too soon after the time the loader keeps. -/
def debounces (w : Watch) (now : Int) : Bool := now - w.loader.lastModTime < 100 * millisecond

/-- One round of `watchLoop`. -/
def handle (w : Watch) (now : Int) : Watch :=
  match w.queue with
  | [] => w
  | ev :: rest =>
    if !w.reacts ev then { w with queue := rest }
    else if w.debounces now then { w with queue := rest }
    else
      { w with
        queue := rest
        loader := { w.loader with lastModTime := now }.reload w.disk now }

def next (w : Watch) : Input → Watch
  | .change now c =>
    { w with disk := c.apply now w.disk, queue := w.queue ++ [⟨w.loader.path, c.op⟩] }
  | .notice ev => { w with queue := w.queue ++ [ev] }
  | .handle now => w.handle now
  | .reload now => { w with loader := w.loader.reload w.disk now }

/-- The input makes the loader read the file. -/
def reads (w : Watch) : Input → Bool
  | .handle now => w.queue.head?.any fun ev => w.reacts ev && !w.debounces now
  | .reload _ => true
  | _ => false

/-- The file as the last reload of a run saw it, at first as the initial `Load` saw it. -/
def seen (view : FileView) (past : List (Watch × Input)) : FileView :=
  past.foldl (fun v x => if x.1.reads x.2 then x.1.disk else v) view

/-- The last event about the file is ignored only if the file is as the last reload saw it. -/
def Caught (view : FileView) (past : List (Watch × Input)) (w : Watch) (i : Input) : Prop :=
  ∀ now ev rest, i = .handle now → w.queue = ev :: rest → w.reacts ev = true →
    (∀ ev' ∈ rest, w.reacts ev' = false) → w.debounces now = true → w.disk = seen view past

/-- The policy in force is that of the file the last reload saw, and once no event about the file
is left, that is the file. -/
structure Follows (view : FileView) (past : List (Watch × Input)) (w : Watch) : Prop where
  swap : ∀ p, w.loader.accepted (seen view past) = some p → w.loader.swap = p
  disk : (∀ ev ∈ w.queue, w.reacts ev = false) → w.disk = seen view past

variable {view : FileView} {past : List (Watch × Input)} {w : Watch} {i : Input}

theorem seen_snoc (view : FileView) (past : List (Watch × Input)) (w : Watch) (i : Input) :
    seen view (past ++ [(w, i)]) = if w.reads i then w.disk else seen view past := by
  simp [seen]

/-- A reload is a load, after which the time of the last error may be another one. -/
theorem reload_eq (l : Loader) (view : FileView) (now : Int) :
    ∃ t, l.reload view now = { l.next view with lastErrorLog := t } := by
  unfold Loader.reload
  split
  · rename_i l' err h
    have hl : l' = l.next view := by rw [Loader.next, h]
    subst hl
    unfold Loader.logError
    split
    · exact ⟨(l.next view).lastErrorLog, rfl⟩
    · exact ⟨now, rfl⟩
  · rename_i l' h
    rw [Loader.next, h]
    exact ⟨l'.lastErrorLog, rfl⟩

theorem sameReader_reload (l : Loader) (view : FileView) (now : Int) :
    Loader.SameReader l (l.reload view now) := by
  have hnext := Loader.sameReader_next l view
  obtain ⟨t, ht⟩ := reload_eq l view now
  rw [ht]
  exact ⟨hnext.platform, hnext.path, hnext.currentUID, hnext.codec, hnext.network⟩

theorem swap_reload (l : Loader) (view : FileView) (now : Int) :
    (l.reload view now).swap = (l.accepted view).getD l.swap := by
  obtain ⟨t, ht⟩ := reload_eq l view now
  rw [ht]
  exact (Loader.load_spec l view).1

/-- Nothing but the loader's own times and the policy in force changes during a run. -/
theorem sameReader_next (w : Watch) (i : Input) :
    Loader.SameReader w.loader (w.next i).loader ∧ (w.next i).clean = w.clean := by
  cases i with
  | change now c => exact ⟨.refl _, rfl⟩
  | notice ev => exact ⟨.refl _, rfl⟩
  | reload now => exact ⟨sameReader_reload _ _ now, rfl⟩
  | handle now =>
    simp only [next, handle]
    split
    · exact ⟨.refl _, rfl⟩
    · split
      · exact ⟨.refl _, rfl⟩
      · split
        · exact ⟨.refl _, rfl⟩
        · refine ⟨Loader.SameReader.trans ?_ (sameReader_reload _ _ now), rfl⟩
          exact ⟨rfl, rfl, rfl, rfl, rfl⟩

theorem reacts_next (w : Watch) (i : Input) (ev : FsEvent) :
    (w.next i).reacts ev = w.reacts ev := by
  obtain ⟨hreader, hclean⟩ := sameReader_next w i
  simp only [reacts, hclean, hreader.path]

theorem reacts_change (w : Watch) (c : Change) : w.reacts ⟨w.loader.path, c.op⟩ = true := by
  have hop : c.op &&& (opWrite ||| opCreate ||| opRename ||| opRemove) ≠ 0 := by
    cases c <;> simp only [Change.op] <;> decide
  simp only [reacts, hop, ne_eq, not_false_eq_true, decide_true, Bool.and_self]

/-- A step that does not read the file keeps the policy in force, one that reads it puts the policy
of the file in force. -/
theorem swap_next (w : Watch) (i : Input) :
    (w.next i).loader.swap = if w.reads i then (w.loader.accepted w.disk).getD w.loader.swap
      else w.loader.swap := by
  cases i with
  | change now c => rfl
  | notice ev => rfl
  | reload now => exact swap_reload _ _ now
  | handle now =>
    cases hq : w.queue with
    | nil => simp [next, handle, reads, hq]
    | cons ev rest =>
      cases hr : w.reacts ev with
      | false => simp [next, handle, reads, hq, hr]
      | true =>
        cases hd : w.debounces now with
        | true => simp [next, handle, reads, hq, hr, hd]
        | false =>
          simp only [next, handle, reads, hq, hr, hd, Bool.not_true, Bool.false_eq_true, ite_false,
            List.head?_cons, Option.any_some, Bool.not_false, Bool.and_self, ite_true, swap_reload]
          rfl

/-- One step keeps the policy in force with the file. -/
theorem Follows.step (h : Follows view past w) (hc : Caught view past w i) :
    Follows view (past ++ [(w, i)]) (w.next i) := by
  constructor
  · intro p hp
    rw [(sameReader_next w i).1.accepted, seen_snoc] at hp
    rw [swap_next]
    cases hr : w.reads i with
    | true =>
      rw [hr, if_pos rfl] at hp
      simp [hp]
    | false =>
      rw [hr, if_neg (by simp)] at hp
      simpa only [Bool.false_eq_true, ite_false] using h.swap p hp
  · intro hnone
    simp only [reacts_next] at hnone
    rw [seen_snoc]
    cases i with
    | change now c =>
      have hlast := hnone ⟨w.loader.path, c.op⟩ (List.mem_append_right _ List.mem_cons_self)
      rw [reacts_change] at hlast
      cases hlast
    | notice ev => exact h.disk fun ev' hm => hnone ev' (List.mem_append_left _ hm)
    | reload now => rfl
    | handle now =>
      cases hq : w.queue with
      | nil =>
        have hdisk := h.disk (by simp [hq])
        simpa [next, handle, reads, hq] using hdisk
      | cons ev rest =>
        have hrest : ∀ ev' ∈ rest, w.reacts ev' = false := by
          intro ev' hm
          refine hnone ev' ?_
          simp only [next, handle, hq]
          split
          · exact hm
          · split <;> exact hm
        cases hr : w.reacts ev with
        | false =>
          have hdisk := h.disk (by simpa [hq, hr] using hrest)
          simpa [next, handle, reads, hq, hr] using hdisk
        | true =>
          cases hd : w.debounces now with
          | true =>
            have hdisk := hc now ev rest rfl hq hr hrest hd
            simpa [next, handle, reads, hq, hr, hd] using hdisk
          | false => simp [next, handle, reads, hq, hr, hd]

/-- After an initial `Load`, in every run in which the last event about the file is ignored only if
the file is as the last reload saw it: whenever no event waits, a valid file is in force, and without
a file the swap is as `Load` leaves it then. -/
theorem watched_in_force {w₀ : Watch} {l : Loader} {is : List Input}
    (hload : w₀.loader = (l.load w₀.disk).1) (h : Throughout next (Caught w₀.disk) w₀ is)
    (hempty : (run next w₀ is).queue = []) :
    (∀ file p, (run next w₀ is).disk = .present file →
      (run next w₀ is).loader.readPolicy file = .ok p →
      (run next w₀ is).loader.swap = some p.compile) ∧
    ((run next w₀ is).disk = .absent →
      (run next w₀ is).loader.swap = (l.load .absent).1.swap) := by
  have hstart : Follows w₀.disk [] w₀ := by
    refine ⟨fun p hp => ?_, fun _ => rfl⟩
    have hnext : w₀.loader = l.next w₀.disk := hload
    rw [hnext, (Loader.sameReader_next l w₀.disk).accepted] at hp
    rw [hnext, (Loader.load_spec l w₀.disk).1]
    have hseen : l.accepted w₀.disk = some p := hp
    rw [hseen, Option.getD_some]
  have hend : Follows w₀.disk (trail next w₀ is) (run next w₀ is) :=
    Throughout.invariant (Follows w₀.disk) h hstart fun past w i => Follows.step
  have hdisk := hend.disk (by simp [hempty])
  constructor
  · intro file p hfile hp
    refine hend.swap _ ?_
    rw [← hdisk, hfile]
    simp [Loader.accepted, hp, Except.toOption]
  · intro habsent
    refine hend.swap _ ?_
    rw [← hdisk, habsent]
    rfl

end Watch

/-- A watcher after the initial `Load` of a file that denies everything, written at time 0. -/
def Sample.watch : Watch where
  disk := Sample.file "deny" 0
  queue := []
  loader := (Sample.loader.load (Sample.file "deny" 0)).1
  clean := id

namespace Watch

/-- The file is truncated and written within a moment, and both events are handled well after the
last reload. -/
theorem watched_in_force_write :
    let is := [.change (10 * second) .truncate, .change (10 * second) (.write "allow"),
      .handle (11 * second), .handle (12 * second)]
    (run next Sample.watch is).loader.swap = some (Sample.compiled .allow) := by
  intro is
  have hcaught : Throughout next (Caught Sample.watch.disk) Sample.watch
      ([] ++ [is[0]] ++ [is[1]] ++ [is[2]] ++ [is[3]]) := by
    refine throughout_snoc.mpr ⟨throughout_snoc.mpr ⟨throughout_snoc.mpr ⟨throughout_snoc.mpr
      ⟨throughout_nil, nofun⟩, nofun⟩, ?_⟩, ?_⟩
    · rintro now ev rest ⟨⟩ - - - hd
      exact absurd hd (by decide +kernel)
    · rintro now ev rest ⟨⟩ - - - hd
      exact absurd hd (by decide +kernel)
  let file : PolicyFile := ⟨.ok "allow", 0o600, 0, 10 * second⟩
  have haccepted : (run next Sample.watch is).loader.accepted (.present file) =
      some (some (Sample.compiled .allow)) := by decide +kernel
  cases hp : (run next Sample.watch is).loader.readPolicy file with
  | error err => simp [Loader.accepted, hp, Except.toOption] at haccepted
  | ok p =>
    have hcompiled : p.compile = Sample.compiled .allow := by
      simpa [Loader.accepted, hp, Except.toOption] using haccepted
    have hempty : (run next Sample.watch is).queue = [] := by decide +kernel
    have hfile : (run next Sample.watch is).disk = .present file := by decide +kernel
    rw [← hcompiled]
    exact (watched_in_force (l := Sample.loader) rfl hcaught hempty).1 file p hfile hp

/-- The file is truncated and written 50 ms later. The first event finds the truncated file, the
second one is ignored, and the old policy stays in force. -/
theorem write_after_truncate_lost :
    let is := [.change second .truncate, .handle second,
      .change (second + 50 * millisecond) (.write "allow"), .handle (second + 50 * millisecond)]
    let w := run next Sample.watch is
    w.queue = [] ∧ w.disk = Sample.file "allow" (second + 50 * millisecond) ∧
      w.loader.accepted w.disk = some (some (Sample.compiled .allow)) ∧
      w.loader.swap = some (Sample.compiled .deny) := by
  decide +kernel

end Watch

end Veld.Acl
