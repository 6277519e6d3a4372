import Veld.Coord.Registry

/-!
# The allocation of addresses

The scan of `RegisterPeer` over the host addresses, which stops at the first
address without a mark, finds the lowest address that was never assigned, or else
the one with the smallest positive mark, the lowest on ties. Addresses with the
mark 0 that no peer holds are not found.
-/

namespace Veld.Coord

open Netip

variable {used : List Addr} {assigned : AList fun _ : Addr => Int} {cidr : Prefix} {a : Addr}

/-- The address is not held and was never assigned. -/
def Unused (used : List Addr) (assigned : AList fun _ : Addr => Int) (a : Addr) : Prop :=
  a ∉ used ∧ assigned.lookup a = none

instance : Decidable (Unused used assigned a) := inferInstanceAs (Decidable (_ ∧ _))

/-- The address is not held and was freed at the given time. -/
def Freed (used : List Addr) (assigned : AList fun _ : Addr => Int) (a : Addr) (t : Int) : Prop :=
  a ∉ used ∧ assigned.lookup a = some t ∧ 0 < t

/-- The scan stops at the first unused address. -/
theorem neverUsed_scanHosts (l : List Addr) (c : Candidates) :
    (scanHosts used assigned l c).neverUsed =
      (l.find? fun a => Unused used assigned a).getD c.neverUsed := by
  induction l generalizing c with
  | nil => rfl
  | cons a rest ih =>
    by_cases hu : a ∈ used
    · have hnot : ¬Unused used assigned a := fun h => h.1 hu
      simp [scanHosts, hu, ih, hnot]
    · cases hl : assigned.lookup a with
      | none =>
        have hunused : Unused used assigned a := ⟨hu, hl⟩
        simp [scanHosts, hu, hl, hunused]
      | some t =>
        have hnot : ¬Unused used assigned a := by simp [Unused, hl]
        simp only [scanHosts, hu, hl, ite_false, List.find?_cons, hnot, decide_false]
        split <;> exact ih _

/-- A later candidate of a scan: the one it began with, when nothing in the list was freed earlier,
or the first one of the list that was freed earliest. -/
def Oldest (used : List Addr) (assigned : AList fun _ : Addr => Int) (l : List Addr)
    (c c' : Candidates) : Prop :=
  (c'.oldestFreed = c.oldestFreed ∧ c'.oldestFreedTime = c.oldestFreedTime ∧
    ∀ a ∈ l, ∀ t, Freed used assigned a t → c.oldestFreedTime ≠ -1 ∧ c.oldestFreedTime ≤ t) ∨
  ∃ l₁ l₂, l = l₁ ++ c'.oldestFreed :: l₂ ∧
    Freed used assigned c'.oldestFreed c'.oldestFreedTime ∧
    (c.oldestFreedTime = -1 ∨ c'.oldestFreedTime < c.oldestFreedTime) ∧
    (∀ b ∈ l₁, ∀ t, Freed used assigned b t → c'.oldestFreedTime < t) ∧
    ∀ b ∈ l₂, ∀ t, Freed used assigned b t → c'.oldestFreedTime ≤ t

section Oldest

variable {rest : List Addr} {c c' : Candidates}

/-- An address that does not replace the candidate. -/
theorem Oldest.skip (h : Oldest used assigned rest c c')
    (ha : ∀ t, Freed used assigned a t → c.oldestFreedTime ≠ -1 ∧ c.oldestFreedTime ≤ t) :
    Oldest used assigned (a :: rest) c c' := by
  rcases h with ⟨haddr, htime, hrest⟩ | ⟨l₁, l₂, rfl, hf, hearlier, hbefore, hafter⟩
  · exact .inl ⟨haddr, htime, List.forall_mem_cons.mpr ⟨ha, hrest⟩⟩
  · refine .inr ⟨a :: l₁, l₂, rfl, hf, hearlier, List.forall_mem_cons.mpr ⟨?_, hbefore⟩, hafter⟩
    intro t ht
    obtain ⟨hne, hle⟩ := ha t ht
    rcases hearlier with h | h
    · exact absurd h hne
    · omega

/-- An address that replaces the candidate. -/
theorem Oldest.take {t : Int}
    (h : Oldest used assigned rest { c with oldestFreed := a, oldestFreedTime := t } c')
    (ha : Freed used assigned a t) (hearlier : c.oldestFreedTime = -1 ∨ t < c.oldestFreedTime) :
    Oldest used assigned (a :: rest) c c' := by
  have hpos : 0 < t := ha.2.2
  rcases h with ⟨haddr, htime, hrest⟩ | ⟨l₁, l₂, rfl, hf, hlt, hbefore, hafter⟩
  · simp only at haddr htime hrest
    refine .inr ⟨[], rest, by rw [haddr]; rfl, ?_, ?_, nofun, ?_⟩
    · rw [haddr, htime]
      exact ha
    · rw [htime]
      exact hearlier
    · intro b hb s hs
      rw [htime]
      exact (hrest b hb s hs).2
  · simp only at hlt
    refine .inr ⟨a :: l₁, l₂, rfl, hf, ?_, List.forall_mem_cons.mpr ⟨?_, hbefore⟩, hafter⟩
    · omega
    · intro s hs
      obtain rfl : t = s := Option.mem_unique ha.2.1 hs.2.1
      omega

end Oldest

/-- The scan of a list without unused addresses remembers the one that was freed earliest. -/
theorem oldest_scanHosts {l : List Addr} (hl : ∀ a ∈ l, ¬Unused used assigned a)
    (c : Candidates) : Oldest used assigned l c (scanHosts used assigned l c) := by
  induction l generalizing c with
  | nil => exact .inl ⟨rfl, rfl, nofun⟩
  | cons a rest ih =>
    obtain ⟨ha, hrest⟩ := List.forall_mem_cons.mp hl
    by_cases hu : a ∈ used
    · simp only [scanHosts, hu, ite_true]
      exact (ih hrest c).skip fun t ht => absurd hu ht.1
    · cases hm : assigned.lookup a with
      | none => exact absurd ⟨hu, hm⟩ ha
      | some t =>
        simp only [scanHosts, hu, hm, ite_false]
        split
        · rename_i htake
          exact (ih hrest _).take ⟨hu, hm, htake.1⟩ htake.2
        · rename_i hkeep
          refine (ih hrest c).skip fun s hs => ?_
          obtain rfl : t = s := Option.mem_unique hm hs.2.1
          have hpos := hs.2.2
          omega

theorem ne_zero_of_isHost (h : cidr.IsHost a) : a ≠ .zero := by
  rintro rfl
  have hc := h.1
  unfold Prefix.contains at hc
  split at hc <;> simp_all

theorem isValid_of_isHost (h : cidr.IsHost a) : a.isValid = true := by
  have hne := ne_zero_of_isHost h
  cases a with
  | zero => exact absurd rfl hne
  | v4 b => rfl
  | v6 b z => rfl

/-- Where the hosts of a subnet lie around one of them. -/
theorem host_cases (hs : cidr.IsSubnet) {l₁ l₂ : List Addr} (hl : cidr.hosts = l₁ ++ a :: l₂)
    {b : Addr} (hb : cidr.IsHost b) : b ∈ l₁ ∨ (b = a ∨ b ∈ l₂) ∧ (a.compare b).isLE = true := by
  have hsorted := hs.hosts_sorted
  have hmem := hs.mem_hosts.mpr hb
  rw [hl] at hsorted hmem
  rcases List.mem_append.mp hmem with h | h
  · exact .inl h
  · refine .inr ⟨List.mem_cons.mp h, ?_⟩
    rcases List.mem_cons.mp h with rfl | h
    · rw [Addr.compare_self]
      rfl
    · have hlt := (List.pairwise_cons.mp (List.pairwise_append.mp hsorted).2.1).1 b h
      rw [hlt]
      rfl

/-- An address that is never assigned is the lowest one of its kind. -/
theorem allocate_unused (hs : cidr.IsSubnet)
    (h : cidr.hosts.find? (fun a => Unused used assigned a) = some a) :
    allocate cidr used assigned = some a ∧ cidr.IsHost a ∧ Unused used assigned a ∧
      ∀ b, cidr.IsHost b → Unused used assigned b → (a.compare b).isLE = true := by
  obtain ⟨hunused, l₁, l₂, hl, hbefore⟩ := List.find?_eq_some_iff_append.mp h
  have hhost : cidr.IsHost a := by
    rw [← hs.mem_hosts, hl]
    exact List.mem_append_right _ List.mem_cons_self
  have hnever : (scanHosts used assigned cidr.hosts {}).neverUsed = a := by
    rw [neverUsed_scanHosts, h, Option.getD_some]
  refine ⟨?_, hhost, of_decide_eq_true hunused, fun b hb hbu => ?_⟩
  · simp [allocate, hnever, ne_zero_of_isHost hhost]
  · rcases host_cases hs hl hb with hmem | ⟨-, hle⟩
    · have hnot := hbefore b hmem
      simp [hbu] at hnot
    · exact hle

/-- Without unused addresses, the scan finds the address that was freed earliest, the lowest on
ties, or nothing at all was freed. -/
theorem allocate_freed (hs : cidr.IsSubnet) (h : ∀ b, cidr.IsHost b → ¬Unused used assigned b) :
    (∃ a t, allocate cidr used assigned = some a ∧ cidr.IsHost a ∧ Freed used assigned a t ∧
      ∀ b s, cidr.IsHost b → Freed used assigned b s →
        t < s ∨ (t = s ∧ (a.compare b).isLE = true)) ∨
    (allocate cidr used assigned = none ∧ ∀ b t, cidr.IsHost b → ¬Freed used assigned b t) := by
  have hnone : ∀ b ∈ cidr.hosts, ¬Unused used assigned b := fun b hb => h b (hs.mem_hosts.mp hb)
  have hnever : (scanHosts used assigned cidr.hosts {}).neverUsed = .zero := by
    rw [neverUsed_scanHosts, List.find?_eq_none.mpr (by simpa using hnone), Option.getD_none]
  rcases oldest_scanHosts hnone {} with ⟨haddr, -, hrest⟩ | ⟨l₁, l₂, hl, hf, -, hbefore, hafter⟩
  · refine .inr ⟨?_, fun b t hb hbf => ?_⟩
    · simp [allocate, hnever, haddr]
    · exact (hrest b (hs.mem_hosts.mpr hb) t hbf).1 rfl
  · generalize hc : scanHosts used assigned cidr.hosts {} = c at *
    have hhost : cidr.IsHost c.oldestFreed := by
      rw [← hs.mem_hosts, hl]
      exact List.mem_append_right _ List.mem_cons_self
    refine .inl ⟨c.oldestFreed, c.oldestFreedTime, ?_, hhost, hf, fun b s hb hbf => ?_⟩
    · simp [allocate, hc, hnever, ne_zero_of_isHost hhost]
    · rcases host_cases hs hl hb with hmem | ⟨rfl | hmem, hle⟩
      · exact .inl (hbefore b hmem s hbf)
      · exact .inr ⟨Option.mem_unique hf.2.1 hbf.2.1, hle⟩
      · rcases lt_or_eq_of_le (hafter b hmem s hbf) with hlt | heq
        · exact .inl hlt
        · exact .inr ⟨heq, hle⟩

/-- The two ways an address is chosen. -/
theorem allocate_cases (hs : cidr.IsSubnet) (h : allocate cidr used assigned = some a) :
    cidr.IsHost a ∧
    ((Unused used assigned a ∧
      ∀ b, cidr.IsHost b → Unused used assigned b → (a.compare b).isLE = true) ∨
    ((∀ b, cidr.IsHost b → ¬Unused used assigned b) ∧ ∃ t, Freed used assigned a t ∧
      ∀ b s, cidr.IsHost b → Freed used assigned b s →
        t < s ∨ (t = s ∧ (a.compare b).isLE = true))) := by
  cases hfind : cidr.hosts.find? (fun a => Unused used assigned a) with
  | some a' =>
    obtain ⟨ha', hhost, hunused, hlow⟩ := allocate_unused hs hfind
    obtain rfl : a = a' := Option.mem_unique h ha'
    exact ⟨hhost, .inl ⟨hunused, hlow⟩⟩
  | none =>
    have hnone : ∀ b, cidr.IsHost b → ¬Unused used assigned b := by
      intro b hb
      simpa using List.find?_eq_none.mp hfind b (hs.mem_hosts.mpr hb)
    rcases allocate_freed hs hnone with ⟨a', t, ha', hhost, hf, hlow⟩ | ⟨hno, -⟩
    · obtain rfl : a = a' := Option.mem_unique h ha'
      exact ⟨hhost, .inr ⟨hnone, t, hf, hlow⟩⟩
    · rw [hno] at h
      cases h

theorem not_mem_used_of_allocate (hs : cidr.IsSubnet) (h : allocate cidr used assigned = some a) :
    a ∉ used := by
  rcases (allocate_cases hs h).2 with ⟨hunused, -⟩ | ⟨-, t, hf, -⟩
  · exact hunused.1
  · exact hf.1

/-- Allocation fails exactly when no host address is unused or freed. -/
theorem allocate_eq_none_iff (hs : cidr.IsSubnet) : allocate cidr used assigned = none ↔
    ∀ b, cidr.IsHost b → ¬Unused used assigned b ∧ ∀ t, ¬Freed used assigned b t := by
  constructor
  · intro h
    have hnone : ∀ b, cidr.IsHost b → ¬Unused used assigned b := by
      intro b hb hbu
      cases hfind : cidr.hosts.find? (fun a => Unused used assigned a) with
      | some a =>
        rw [(allocate_unused hs hfind).1] at h
        cases h
      | none =>
        have hnot := List.find?_eq_none.mp hfind b (hs.mem_hosts.mpr hb)
        simp [hbu] at hnot
    rcases allocate_freed hs hnone with ⟨a, t, ha, -⟩ | ⟨-, hno⟩
    · rw [ha] at h
      cases h
    · exact fun b hb => ⟨hnone b hb, fun t => hno b t hb⟩
  · intro h
    cases ha : allocate cidr used assigned with
    | none => rfl
    | some a =>
      obtain ⟨hhost, ⟨hunused, -⟩ | ⟨-, t, hf, -⟩⟩ := allocate_cases hs ha
      · exact absurd hunused (h a hhost).1
      · exact absurd hf ((h a hhost).2 t)

end Veld.Coord
