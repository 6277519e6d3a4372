import Mathlib.Data.List.AList
import Mathlib.Data.List.Sort

/-!
# Values of a map

How many values of an association list satisfy a predicate, and how the number
changes when an entry is added, replaced or erased; the part of a map whose
values satisfy a predicate, and what a function reads of the values; the entries
in the order of their keys.
-/

namespace Veld

variable {κ β : Type} [DecidableEq κ]

/-- The values of a map, in the order of its entries. -/
def values (m : AList fun _ : κ => β) : List β := m.entries.map Sigma.snd

/-- The number of values that satisfy a predicate. -/
def countValues (p : β → Bool) (m : AList fun _ : κ => β) : Nat := (values m).countP p

/-- The entries whose values satisfy a predicate. -/
def keepValues (p : β → Bool) (m : AList fun _ : κ => β) : AList fun _ : κ => β :=
  ⟨m.entries.filter fun e => p e.2, m.nodupKeys.sublist List.filter_sublist⟩

/-- The entries under other keys than those of a list. -/
def eraseAll (m : AList fun _ : κ => β) (ks : List κ) : AList fun _ : κ => β :=
  ks.foldl (fun m k => m.erase k) m

variable {p : β → Bool} {m : AList fun _ : κ => β} {k : κ} {v : β}

theorem mem_values : v ∈ values m ↔ ∃ k, m.lookup k = some v := by
  simp only [values, List.mem_map]
  constructor
  · rintro ⟨e, he, rfl⟩
    exact ⟨e.1, AList.mem_lookup_iff.mpr he⟩
  · rintro ⟨k, hk⟩
    exact ⟨⟨k, v⟩, AList.mem_lookup_iff.mp hk, rfl⟩

/-- Values that carry their own keys are found by them. -/
theorem filter_values_eq {key : β → κ} (h : ∀ k v, m.lookup k = some v → key v = k) (k : κ) :
    (values m).filter (fun v => key v = k) = (m.lookup k).toList := by
  obtain ⟨entries, hnodup⟩ := m
  have hkey : ∀ e ∈ entries, key e.2 = e.1 := fun e he => h e.1 e.2 (AList.mem_lookup_iff.mpr he)
  rw [values, List.filter_map]
  show (entries.filter fun e => key e.2 = k).map Sigma.snd = (entries.dlookup k).toList
  clear h
  induction entries with
  | nil => rfl
  | cons e rest ih =>
    obtain ⟨k', v⟩ := e
    obtain ⟨hnot, hrest⟩ := List.nodupKeys_cons.mp hnodup
    obtain ⟨hv, hkeys⟩ := List.forall_mem_cons.mp hkey
    have hv : key v = k' := hv
    by_cases hk : k' = k
    · subst hk
      have hnone : rest.filter (fun e => key e.2 = k') = [] := by
        refine List.filter_eq_nil_iff.mpr fun e he hek => hnot ?_
        rw [decide_eq_true_eq, hkeys e he] at hek
        have hmem : e.1 ∈ rest.keys := List.mem_keys_of_mem he
        rwa [hek] at hmem
      rw [List.filter_cons_of_pos (by simpa using hv), hnone, List.dlookup_cons_eq]
      rfl
    · have hlookup : List.dlookup k (⟨k', v⟩ :: rest : List (Σ _ : κ, β)) = rest.dlookup k :=
        List.dlookup_cons_ne _ _ (Ne.symm hk)
      rw [List.filter_cons_of_neg (by simpa [hv] using hk), hlookup]
      exact ih hrest hkeys

theorem countValues_insert :
    countValues p (m.insert k v) = countValues p (m.erase k) + if p v then 1 else 0 := by
  have hentries : (m.insert k v).entries = ⟨k, v⟩ :: (m.erase k).entries := rfl
  simp only [countValues, values, hentries, List.map_cons, List.countP_cons]

/-- A stored value counts once. -/
theorem countValues_of_lookup (h : m.lookup k = some v) :
    countValues p m = countValues p (m.erase k) + if p v then 1 else 0 := by
  have hmem : (⟨k, v⟩ : Σ _ : κ, β) ∈ m.entries := AList.mem_lookup_iff.mp h
  have hkey : k ∈ m.entries.keys := List.mem_keys_of_mem hmem
  obtain ⟨b, l₁, l₂, hnot, hl, her⟩ := List.exists_of_kerase hkey
  have hb : m.lookup k = some b := by
    refine AList.mem_lookup_iff.mpr ?_
    rw [hl]
    exact List.mem_append_right _ List.mem_cons_self
  obtain rfl : v = b := Option.mem_unique h hb
  have herase : (m.erase k).entries = l₁ ++ l₂ := her
  simp only [countValues, values, hl, herase, List.map_append, List.map_cons, List.countP_append,
    List.countP_cons]
  omega

theorem erase_of_lookup_none (h : m.lookup k = none) : m.erase k = m := by
  refine AList.ext ?_
  exact List.kerase_of_notMem_keys (AList.lookup_eq_none.mp h)

theorem lookup_insert_eq_some {k' : κ} {v' : β} :
    (m.insert k v).lookup k' = some v' ↔ (k' = k ∧ v' = v) ∨ (k' ≠ k ∧ m.lookup k' = some v') := by
  by_cases hk : k' = k
  · subst hk
    simp [AList.lookup_insert, eq_comm]
  · simp [AList.lookup_insert_ne hk, hk]

theorem lookup_erase_eq_some {k' : κ} {v' : β} :
    (m.erase k).lookup k' = some v' ↔ k' ≠ k ∧ m.lookup k' = some v' := by
  by_cases hk : k' = k
  · subst hk
    simp [AList.lookup_erase]
  · simp [AList.lookup_erase_ne hk, hk]

theorem lookup_eraseAll_eq_some {ks : List κ} :
    (eraseAll m ks).lookup k = some v ↔ k ∉ ks ∧ m.lookup k = some v := by
  induction ks generalizing m with
  | nil => simp [eraseAll]
  | cons k' ks ih =>
    have hstep : (eraseAll (m.erase k') ks).lookup k = some v ↔ _ := ih
    rw [eraseAll, List.foldl_cons, ← eraseAll, hstep, lookup_erase_eq_some, List.mem_cons, not_or]
    constructor
    · rintro ⟨hks, hne, hv⟩
      exact ⟨⟨hne, hks⟩, hv⟩
    · rintro ⟨⟨hne, hks⟩, hv⟩
      exact ⟨hks, hne, hv⟩

theorem lookup_eraseAll {ks : List κ} (h : k ∉ ks) : (eraseAll m ks).lookup k = m.lookup k := by
  refine Option.ext fun v => ?_
  rw [lookup_eraseAll_eq_some, and_iff_right h]

theorem lookup_keepValues_eq_some :
    (keepValues p m).lookup k = some v ↔ m.lookup k = some v ∧ p v = true := by
  have hmem : (keepValues p m).lookup k = some v ↔ ⟨k, v⟩ ∈ (keepValues p m).entries :=
    AList.mem_lookup_iff
  have hold : m.lookup k = some v ↔ ⟨k, v⟩ ∈ m.entries := AList.mem_lookup_iff
  rw [hmem, hold]
  exact List.mem_filter

section FilterMap

variable {γ : Type} {f : β → Option γ} {w : γ}

/-- The entry with the value a function reads from it. -/
def readEntry (f : β → Option γ) (e : Σ _ : κ, β) : Option (Σ _ : κ, γ) :=
  (f e.2).map fun w => ⟨e.1, w⟩

omit [DecidableEq κ] in
theorem readEntry_none {e : Σ _ : κ, β} (h : f e.2 = none) : readEntry f e = none := by
  rw [readEntry, h]
  rfl

omit [DecidableEq κ] in
theorem readEntry_some {e : Σ _ : κ, β} (h : f e.2 = some w) : readEntry f e = some ⟨e.1, w⟩ := by
  rw [readEntry, h]
  rfl

omit [DecidableEq κ] in
theorem keys_readEntry_sublist (f : β → Option γ) (l : List (Σ _ : κ, β)) :
    (l.filterMap (readEntry f)).keys.Sublist l.keys := by
  induction l with
  | nil => exact List.Sublist.refl []
  | cons e l ih =>
    cases he : f e.2 with
    | none =>
      rw [List.filterMap_cons_none (readEntry_none he)]
      exact ih.cons e.1
    | some w =>
      rw [List.filterMap_cons_some (readEntry_some he)]
      exact ih.cons_cons e.1

/-- The values a function reads, under their keys. -/
def filterMapValues (f : β → Option γ) (m : AList fun _ : κ => β) : AList fun _ : κ => γ :=
  ⟨m.entries.filterMap (readEntry f),
    List.Nodup.sublist (keys_readEntry_sublist f m.entries) m.nodupKeys⟩

theorem lookup_filterMapValues (k : κ) : (filterMapValues f m).lookup k = (m.lookup k).bind f := by
  refine Option.ext fun w => ?_
  have hmem : (filterMapValues f m).lookup k = some w ↔ ⟨k, w⟩ ∈ (filterMapValues f m).entries :=
    AList.mem_lookup_iff
  rw [hmem, Option.bind_eq_some_iff]
  simp only [filterMapValues, List.mem_filterMap, readEntry, Option.map_eq_some_iff]
  constructor
  · rintro ⟨⟨k', v⟩, hv, w', hw, heq⟩
    cases heq
    exact ⟨v, AList.mem_lookup_iff.mpr hv, hw⟩
  · rintro ⟨v, hv, hw⟩
    exact ⟨⟨k, v⟩, AList.mem_lookup_iff.mp hv, w, hw, rfl⟩

theorem filterMapValues_erase (k : κ) :
    filterMapValues f (m.erase k) = (filterMapValues f m).erase k := by
  obtain ⟨entries, hnodup⟩ := m
  refine AList.ext ?_
  show (entries.kerase k).filterMap (readEntry f) = (entries.filterMap (readEntry f)).kerase k
  induction entries with
  | nil => rfl
  | cons e l ih =>
    obtain ⟨hnot, hl⟩ := List.nodupKeys_cons.mp hnodup
    by_cases hk : k = e.1
    · -- No other entry has the key, so nothing else is erased from what is read.
      subst hk
      rw [List.kerase_cons_eq rfl]
      cases he : f e.2 with
      | none =>
        rw [List.filterMap_cons_none (readEntry_none he), List.kerase_of_notMem_keys]
        exact fun hmem => hnot ((keys_readEntry_sublist f l).subset hmem)
      | some w =>
        have hkey : e.1 = (⟨e.1, w⟩ : Σ _ : κ, γ).1 := rfl
        rw [List.filterMap_cons_some (readEntry_some he), List.kerase_cons_eq hkey]
    · rw [List.kerase_cons_ne hk]
      cases he : f e.2 with
      | none =>
        rw [List.filterMap_cons_none (readEntry_none he),
          List.filterMap_cons_none (readEntry_none he)]
        exact ih hl
      | some w =>
        rw [List.filterMap_cons_some (readEntry_some he),
          List.filterMap_cons_some (readEntry_some he), List.kerase_cons_ne, ih hl]
        exact hk

theorem filterMapValues_insert (hv : f v = some w) (k : κ) :
    filterMapValues f (m.insert k v) = (filterMapValues f m).insert k w := by
  refine AList.ext ?_
  have hentry : readEntry f (⟨k, v⟩ : Σ _ : κ, β) = some ⟨k, w⟩ := readEntry_some hv
  have herase := congrArg AList.entries (filterMapValues_erase (f := f) (m := m) k)
  show (⟨k, v⟩ :: m.entries.kerase k).filterMap (readEntry f) = _
  rw [List.filterMap_cons_some hentry]
  exact congrArg (List.cons _) herase

end FilterMap

section KeyOrder

variable {κ β : Type} [LinearOrder κ]

/-- The entries of a map in the order of their keys. -/
def sortedEntries (m : AList fun _ : κ => β) : List (Σ _ : κ, β) :=
  m.entries.insertionSort fun e e' => e.1 ≤ e'.1

theorem pairwise_sortedEntries (m : AList fun _ : κ => β) :
    (sortedEntries m).Pairwise fun e e' => e.1 ≤ e'.1 := by
  have htotal : Std.Total fun e e' : Σ _ : κ, β => e.1 ≤ e'.1 := ⟨fun e e' => le_total e.1 e'.1⟩
  have htrans : IsTrans (Σ _ : κ, β) fun e e' => e.1 ≤ e'.1 := ⟨fun _ _ _ => le_trans⟩
  exact List.pairwise_insertionSort _ _

/-- Two maps with the same entries of some kind list these in the same order. -/
theorem filter_sortedEntries_congr {m m' : AList fun _ : κ => β} {p : (Σ _ : κ, β) → Bool}
    (h : ∀ e, p e = true → (e ∈ m.entries ↔ e ∈ m'.entries)) :
    (sortedEntries m).filter p = (sortedEntries m').filter p := by
  have hnodup (m : AList fun _ : κ => β) : ((sortedEntries m).filter p).Nodup :=
    ((List.perm_insertionSort _ _).nodup_iff.mpr m.nodupKeys.nodup).filter _
  have hmem (m : AList fun _ : κ => β) (e : Σ _ : κ, β) :
      e ∈ (sortedEntries m).filter p ↔ e ∈ m.entries ∧ p e = true := by
    rw [List.mem_filter, sortedEntries, List.mem_insertionSort]
  refine List.Perm.eq_of_pairwise ?_ ((pairwise_sortedEntries m).filter p)
    ((pairwise_sortedEntries m').filter p) ?_
  · intro e e' he he' hle hge
    obtain ⟨he', hp⟩ := (hmem m' e').mp he'
    exact m.nodupKeys.eq_of_fst_eq ((hmem m e).mp he).1 ((h e' hp).mpr he') (le_antisymm hle hge)
  · refine (List.perm_ext_iff_of_nodup (hnodup m) (hnodup m')).mpr fun e => ?_
    rw [hmem, hmem]
    exact and_congr_left (h e)

end KeyOrder
end Veld
