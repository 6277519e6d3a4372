import Mathlib.Data.Set.Insert
import Veld.Session.Session

/-!
# The replay window as a set

The window of `internal/session/window.go` stands for the set of the nonces that
were accepted. It keeps the largest of them and, in a ring of bits, those less
than 2048 below it; anything older is rejected without being looked up. The
nonces are the whole range of `uint64`.
-/

namespace Veld.ReplayWindow

variable {w : ReplayWindow} {n : UInt64}

section Bits

variable (w : ReplayWindow) (n m : UInt64)

theorem pos_lt : pos n < windowSize := Nat.mod_lt _ (by decide)

theorem getBit_setBit : (w.setBit n).getBit m = (w.getBit m || decide (pos m = pos n)) := by
  rw [getBit, setBit, BitVec.getLsbD_or, BitVec.getLsbD_twoPow]
  simp [pos_lt, getBit, eq_comm]

theorem getBit_clearBit : (w.clearBit n).getBit m = (w.getBit m && decide (pos m ≠ pos n)) := by
  rw [getBit, clearBit, BitVec.getLsbD_and, BitVec.getLsbD_not, BitVec.getLsbD_twoPow]
  simp [pos_lt, getBit, eq_comm]

/-- Two nonces of one window have different bits. -/
theorem pos_inj_of_window {top n m : UInt64} (hm : m ≤ top)
    (hmw : (top - m).toNat < windowSize) (hn : n ≤ top)
    (hnw : (top - n).toNat < windowSize) : pos m = pos n ↔ m = n := by
  rw [UInt64.toNat_sub_of_le _ _ hm] at hmw
  rw [UInt64.toNat_sub_of_le _ _ hn] at hnw
  rw [UInt64.le_iff_toNat_le] at hm hn
  rw [← UInt64.toNat_inj]
  unfold pos windowSize at *
  omega

theorem pos_eq_iff {n m : UInt64} (hm : m ≤ n) (hw : (n - m).toNat < windowSize) :
    pos m = pos n ↔ m = n :=
  pos_inj_of_window hm hw (UInt64.le_refl n) (by rw [UInt64.sub_self]; decide)

/-- The loop clears the bits of the nonces it visits and no others. -/
theorem getBit_clearAhead (count : Nat) :
    (w.clearAhead count).getBit m = true ↔
      w.getBit m = true ∧ ∀ k, 0 < k → k ≤ count → pos m ≠ pos (w.max + UInt64.ofNat k) := by
  induction count with
  | zero =>
    refine (and_iff_left ?_).symm
    intro k hpos hk
    omega
  | succ count ih =>
    rw [clearAhead, getBit_clearBit, Bool.and_eq_true, ih, decide_eq_true_eq, and_assoc]
    refine and_congr_right' ⟨?_, ?_⟩
    · rintro ⟨hbefore, hlast⟩ k hpos hk
      rcases Nat.le_succ_iff.mp hk with hk | rfl
      · exact hbefore k hpos hk
      · exact hlast
    · intro h
      exact ⟨fun k hpos hk => h k hpos (Nat.le_succ_of_le hk), h _ (Nat.succ_pos _) le_rfl⟩

@[simp] theorem inited_clearAhead (count : Nat) : (w.clearAhead count).inited = w.inited := by
  induction count with
  | zero => rfl
  | succ count ih => exact ih

end Bits

/-- The window before it moves up to a nonce: the bits on the way are cleared. -/
def cleared (w : ReplayWindow) (n : UInt64) : ReplayWindow :=
  if (n - w.max).toNat ≥ windowSize then { w with bitmap := 0 } else w.clearAhead (n - w.max).toNat

/-- The window has recorded exactly the nonces of a set. -/
structure Records (w : ReplayWindow) (seen : Set UInt64) : Prop where
  unused : w.inited = false → w.bitmap = 0 ∧ seen = ∅
  max_mem : w.inited = true → w.max ∈ seen
  le_max : ∀ n ∈ seen, n ≤ w.max
  getBit_iff : ∀ n ≤ w.max, (w.max - n).toNat < windowSize → (w.getBit n = true ↔ n ∈ seen)

/-- A nonce is not older than the window of a set reaches. -/
def Recent (seen : Set UInt64) (n : UInt64) : Prop :=
  ∀ m ∈ seen, n ≤ m → (m - n).toNat < windowSize

/-- A new window has recorded nothing. -/
theorem records_empty : Records {} ∅ where
  unused _ := ⟨rfl, rfl⟩
  max_mem h := nomatch h
  le_max n hn := nomatch hn
  getBit_iff n _ _ := by simp [getBit]

/-- Looking first gives the answer that marking would give. -/
theorem checkAndMark_snd (w : ReplayWindow) (n : UInt64) : (w.checkAndMark n).2 = w.check n := by
  unfold checkAndMark check
  cases w.inited with
  | false => rfl
  | true =>
    by_cases hmax : n > w.max
    · simp [hmax]
    · by_cases hold : (w.max - n).toNat ≥ windowSize
      · simp [hmax, hold]
      · cases w.getBit n <;> simp [hmax, hold, Nat.lt_of_not_le hold]

/-- A rejected nonce changes nothing. -/
theorem checkAndMark_fst_of_check (h : w.check n = false) : (w.checkAndMark n).1 = w := by
  rw [check, Bool.or_eq_false_iff, Bool.or_eq_false_iff, Bool.not_eq_false'] at h
  obtain ⟨⟨hinit, hmax⟩, hbit⟩ := h
  rw [decide_eq_false_iff_not] at hmax
  unfold checkAndMark
  simp only [hinit, hmax, Bool.not_true, Bool.false_eq_true, ite_false]
  split
  · rfl
  · rename_i hold
    have hget : w.getBit n = true := by simpa [Nat.lt_of_not_le hold] using hbit
    rw [if_pos hget]

section Records

variable {w : ReplayWindow} {seen : Set UInt64} {n : UInt64}

/-- The window accepts the new nonces it can still tell apart. -/
theorem Records.check_iff (h : w.Records seen) :
    w.check n = true ↔ n ∉ seen ∧ Recent seen n := by
  unfold check
  cases hinit : w.inited with
  | false =>
    obtain ⟨-, rfl⟩ := h.unused hinit
    simp [Recent]
  | true =>
    by_cases hmax : n > w.max
    · have hlt : ∀ m ∈ seen, m < n := fun m hm => UInt64.lt_of_le_of_lt (h.le_max m hm) hmax
      have hnew : n ∉ seen := fun hn => UInt64.lt_irrefl n (hlt n hn)
      have hrecent : Recent seen n := fun m hm hle => absurd (hlt m hm) (UInt64.not_lt.mpr hle)
      simp [hmax, hnew, hrecent]
    · have hle : n ≤ w.max := UInt64.not_lt.mp hmax
      have hrecent : (w.max - n).toNat < windowSize ↔ Recent seen n := by
        refine ⟨fun hw m hm hnm => lt_of_le_of_lt ?_ hw, fun hr => hr _ (h.max_mem hinit) hle⟩
        have hm' := h.le_max m hm
        rw [UInt64.toNat_sub_of_le _ _ hnm, UInt64.toNat_sub_of_le _ _ hle]
        exact Nat.sub_le_sub_right (UInt64.le_iff_toNat_le.mp hm') _
      simp only [hmax, Bool.not_true, decide_false, Bool.false_or, Bool.and_eq_true,
        decide_eq_true_eq, Bool.not_eq_true']
      constructor
      · rintro ⟨hw, hbit⟩
        refine ⟨fun hn => ?_, hrecent.mp hw⟩
        rw [(h.getBit_iff n hle hw).mpr hn] at hbit
        cases hbit
      · rintro ⟨hnew, hr⟩
        have hw := hrecent.mpr hr
        exact ⟨hw, Bool.eq_false_iff.mpr fun hbit => hnew ((h.getBit_iff n hle hw).mp hbit)⟩

/-- The first nonce is recorded alone. -/
theorem Records.markFirst (h : w.Records seen) (hinit : w.inited = false) :
    ({ w with max := n, inited := true }.setBit n).Records (insert n seen) := by
  obtain ⟨hzero, rfl⟩ := h.unused hinit
  refine ⟨nofun, fun _ => Set.mem_insert _ _, ?_, ?_⟩
  · rintro m (rfl | hm)
    · exact UInt64.le_refl m
    · cases hm
  · intro m hm hw
    have hmn : pos m = pos n ↔ m = n := pos_eq_iff hm hw
    rw [getBit_setBit, Bool.or_eq_true, decide_eq_true_eq, hmn]
    simp [getBit, hzero]

/-- A nonce inside the window is recorded in its bit, which no other nonce there has. -/
theorem Records.markWithin (h : w.Records seen) (hinit : w.inited = true) (hle : n ≤ w.max)
    (hn : (w.max - n).toNat < windowSize) : (w.setBit n).Records (insert n seen) where
  unused hfalse := absurd (hinit.symm.trans hfalse) nofun
  max_mem _ := Set.mem_insert_of_mem _ (h.max_mem hinit)
  le_max m hm := hm.elim (fun he => he ▸ hle) (h.le_max m)
  getBit_iff m hm hw := by
    have hmn : pos m = pos n ↔ m = n := pos_inj_of_window hm hw hle hn
    rw [getBit_setBit, Bool.or_eq_true, h.getBit_iff m hm hw, decide_eq_true_eq, hmn]
    exact or_comm

/-- Before the window moves up to a nonce, the bits it will read are those of the nonces seen. -/
theorem Records.getBit_cleared (h : w.Records seen) (hlt : w.max < n) {m : UInt64} (hm : m ≤ n)
    (hw : (n - m).toNat < windowSize) : (w.cleared n).getBit m = true ↔ m ∈ seen := by
  have hadvance : (n - w.max).toNat = n.toNat - w.max.toNat :=
    UInt64.toNat_sub_of_le _ _ (UInt64.le_of_lt hlt)
  have hdiff : (n - m).toNat = n.toNat - m.toNat := UInt64.toNat_sub_of_le _ _ hm
  have hnew : w.max < m → m ∉ seen := fun hlt' hmem => UInt64.not_lt.mpr (h.le_max m hmem) hlt'
  rw [UInt64.lt_iff_toNat_lt] at hlt
  rw [UInt64.le_iff_toNat_le] at hm
  unfold cleared
  split
  · rename_i hfar
    have hmax : w.max < m := UInt64.lt_iff_toNat_lt.mpr (by omega)
    simp [getBit, hnew hmax]
  · rename_i hnear
    rw [getBit_clearAhead]
    by_cases hmax : w.max < m
    · -- the loop visits the nonce itself
      refine iff_of_false (fun hbit => ?_) (hnew hmax)
      rw [UInt64.lt_iff_toNat_lt] at hmax
      apply hbit.2 (m.toNat - w.max.toNat) (by omega) (by omega)
      rw [pos, pos, UInt64.toNat_add, UInt64.toNat_ofNat']
      have := m.toNat_lt
      congr 1
      omega
    · have hle : m ≤ w.max := UInt64.not_lt.mp hmax
      have hold : (w.max - m).toNat < windowSize := by
        rw [UInt64.toNat_sub_of_le _ _ hle]
        omega
      rw [h.getBit_iff m hle hold]
      refine and_iff_left ?_
      intro k hpos hk
      rw [UInt64.le_iff_toNat_le] at hle
      have := n.toNat_lt
      unfold pos windowSize at *
      rw [UInt64.toNat_add, UInt64.toNat_ofNat']
      omega

/-- A larger nonce moves the window up. -/
theorem Records.markAhead (h : w.Records seen) (hinit : w.inited = true) (hlt : w.max < n) :
    ({ w.cleared n with max := n }.setBit n).Records (insert n seen) where
  unused hfalse := by
    have : (w.cleared n).inited = true := by
      unfold cleared
      split
      · exact hinit
      · rwa [inited_clearAhead]
    exact absurd (this.symm.trans hfalse) nofun
  max_mem _ := Set.mem_insert _ _
  le_max m hm := by
    rcases hm with rfl | hm
    · exact UInt64.le_refl m
    · exact UInt64.le_of_lt (UInt64.lt_of_le_of_lt (h.le_max m hm) hlt)
  getBit_iff m hm hw := by
    have hmn : pos m = pos n ↔ m = n := pos_eq_iff hm hw
    have hbit : { w.cleared n with max := n }.getBit m = true ↔ m ∈ seen :=
      h.getBit_cleared hlt hm hw
    rw [getBit_setBit, Bool.or_eq_true, hbit, decide_eq_true_eq, hmn]
    exact or_comm

/-- An accepted nonce joins the set. -/
theorem Records.checkAndMark (h : w.Records seen) (hcheck : w.check n = true) :
    (w.checkAndMark n).1.Records (insert n seen) := by
  have hanswer := checkAndMark_snd w n
  rw [hcheck] at hanswer
  unfold ReplayWindow.checkAndMark at hanswer ⊢
  by_cases hinit : w.inited = true
  · by_cases hmax : n > w.max
    · rw [if_neg (by simp [hinit]), if_pos hmax]
      exact h.markAhead hinit hmax
    · by_cases hold : (w.max - n).toNat ≥ windowSize
      · simp [hinit, hmax, hold] at hanswer
      · by_cases hbit : w.getBit n = true
        · simp [hinit, hmax, hold, hbit] at hanswer
        · rw [if_neg (by simp [hinit]), if_neg hmax, if_neg hold, if_neg hbit]
          exact h.markWithin hinit (UInt64.not_lt.mp hmax) (Nat.lt_of_not_le hold)
  · have hunused : w.inited = false := Bool.eq_false_iff.mpr hinit
    rw [if_pos (by simp [hunused])]
    exact h.markFirst hunused

end Records

/-- The two calls on a window. -/
inductive Query
  | check (n : UInt64)
  | checkAndMark (n : UInt64)
  deriving DecidableEq, Repr

/-- A call on a window, with its answer. -/
def answer (w : ReplayWindow) : Query → ReplayWindow × Bool
  | .check n => (w, w.check n)
  | .checkAndMark n => w.checkAndMark n

def next (w : ReplayWindow) (q : Query) : ReplayWindow := (w.answer q).1

/-- The nonce a call accepts. -/
def accepts (w : ReplayWindow) : Query → Option UInt64
  | .check _ => none
  | .checkAndMark n => if (w.checkAndMark n).2 then some n else none

/-- The nonces that were accepted in a run of calls on a new window. -/
def accepted (qs : List Query) : List UInt64 :=
  (trail next {} qs).filterMap fun x => x.1.accepts x.2

theorem accepted_snoc (qs : List Query) (q : Query) :
    accepted (qs ++ [q]) = accepted qs ++ ((run next {} qs).accepts q).toList := by
  rw [accepted, trail_snoc, List.filterMap_append]
  refine congrArg _ ?_
  generalize run next {} qs = w
  cases h : w.accepts q with
  | none => simp [h]
  | some n => simp [h]

/-- A call records what it accepts. -/
theorem Records.next {w : ReplayWindow} {seen : Set UInt64} (h : w.Records seen) (q : Query) :
    (w.next q).Records (seen ∪ {n | n ∈ w.accepts q}) := by
  cases q with
  | check n =>
    rw [show {m | m ∈ w.accepts (.check n)} = ∅ from Set.eq_empty_of_forall_notMem nofun,
      Set.union_empty]
    exact h
  | checkAndMark n =>
    cases hcheck : w.check n with
    | false =>
      have hsame : w.next (.checkAndMark n) = w := checkAndMark_fst_of_check hcheck
      have hnone : w.accepts (.checkAndMark n) = none := by
        rw [accepts, checkAndMark_snd, hcheck]
        rfl
      simpa [hsame, hnone] using h
    | true =>
      have hsome : w.accepts (.checkAndMark n) = some n := by
        rw [accepts, checkAndMark_snd, hcheck]
        rfl
      have hinsert : seen ∪ {m | m ∈ w.accepts (.checkAndMark n)} = insert n seen := by
        ext m
        simp [hsome, eq_comm]
      rw [hinsert]
      exact h.checkAndMark hcheck

/-- A window has recorded the nonces it accepted. -/
theorem records_run (qs : List Query) : (run next {} qs).Records {n | n ∈ accepted qs} := by
  induction qs using List.reverseRecOn with
  | nil =>
    rw [show {n | n ∈ accepted []} = ∅ from Set.eq_empty_of_forall_notMem nofun]
    exact records_empty
  | append_singleton qs q ih =>
    have hseen : {n | n ∈ accepted (qs ++ [q])} =
        {n | n ∈ accepted qs} ∪ {n | n ∈ (run next {} qs).accepts q} := by
      ext n
      simp [accepted_snoc]
    rw [run_snoc, hseen]
    exact ih.next q

/-- Being recent is being less than a window below the largest nonce. -/
theorem Records.recent_iff {l : List UInt64} (h : w.Records {m | m ∈ l}) : Recent {m | m ∈ l} n ↔ l = [] ∨ ∃ top ∈ l, (∀ m ∈ l, m ≤ top) ∧
      (top < n ∨ top.toNat - n.toNat < windowSize) := by
  constructor
  · intro hrecent
    cases hinit : w.inited with
    | false => exact .inl (List.eq_nil_iff_forall_not_mem.mpr fun m hm => (h.unused hinit).2.le hm)
    | true =>
      refine .inr ⟨w.max, h.max_mem hinit, h.le_max, ?_⟩
      by_cases hlt : w.max < n
      · exact .inl hlt
      · have hle : n ≤ w.max := UInt64.not_lt.mp hlt
        have hwindow := hrecent w.max (h.max_mem hinit) hle
        rw [UInt64.toNat_sub_of_le _ _ hle] at hwindow
        exact .inr hwindow
  · rintro (rfl | ⟨top, -, hmax, hn⟩) m hm hle
    · cases hm
    · have htop : m ≤ top := hmax m hm
      rw [UInt64.toNat_sub_of_le _ _ hle]
      rw [UInt64.le_iff_toNat_le] at hle htop
      rw [UInt64.lt_iff_toNat_lt] at hn
      unfold windowSize at *
      omega

/-- After any calls on a new window, a nonce is accepted exactly if it was not accepted before and
is larger than all that were or less than a window below the largest; asking first gives the same
answer and leaves the window alone. -/
theorem window_refines_accepted (qs : List Query) (n : UInt64) :
    (((run next {} qs).checkAndMark n).2 = true ↔
      n ∉ accepted qs ∧ (accepted qs = [] ∨ ∃ top ∈ accepted qs, (∀ m ∈ accepted qs, m ≤ top) ∧
        (top < n ∨ top.toNat - n.toNat < 2048))) ∧
    (run next {} qs).answer (.check n) =
      (run next {} qs, ((run next {} qs).checkAndMark n).2) := by
  constructor
  · rw [checkAndMark_snd, (records_run qs).check_iff, (records_run qs).recent_iff]
    rfl
  · rw [answer, checkAndMark_snd]

end Veld.ReplayWindow
