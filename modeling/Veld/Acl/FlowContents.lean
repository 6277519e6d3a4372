import Veld.Acl.FlowRaces
import Veld.Acl.FlowReference

/-!
# What the memory of the flow table holds between two calls

The eviction list links the stored entries in the order of their use, the map of
every shard holds those whose keys belong to it, and the counter is their number.
Each thing a call does to an entry (removal, a move to the front, creation) changes
the maps, the list and the counter one after another; here it is one change, after
which the memory holds a list again.
-/

namespace Veld.Acl

namespace FlowMemory

/-- The memory holds these entries, most recently used first. -/
structure Holds (shardOf : FlowKey → ShardIdx) (m : FlowMemory) (xs : List FlowRef) : Prop where
  links : m.evictList.Links xs
  known : ∀ r ∈ xs, r < m.size
  keys : (xs.map fun r => (m.entry r).key).Nodup
  maps : ∀ i key r, m.find i key = some r ↔
    r ∈ xs ∧ (m.entry r).key = key ∧ shardOf key = i
  count : m.flowCount = xs.length

/-- An entry has left its map, the list and the counter. -/
def remove (m : FlowMemory) (i : ShardIdx) (key : FlowKey) (r : FlowRef) : FlowMemory :=
  ((m.delete i key).relink (m.evictList.unlink r)).addCount (-1)

/-- An entry has changed and moved to the front. -/
def use (m : FlowMemory) (r : FlowRef) (e : FlowEntry) : FlowMemory :=
  (m.setEntry r e).relink (m.evictList.moveToFront r)

/-- A new entry is stored, linked and counted. -/
def insert (m : FlowMemory) (i : ShardIdx) (e : FlowEntry) : FlowMemory :=
  ((m.create i e).relink (m.evictList.linkFront m.size)).addCount 1

variable {shardOf : FlowKey → ShardIdx} {m : FlowMemory} {xs l l' : List FlowRef} {r : FlowRef}
  {e : FlowEntry} {key : FlowKey} {i : ShardIdx}

theorem holds_new : Holds shardOf {} [] where
  links := Dll.links_nil
  known := nofun
  keys := List.nodup_nil
  maps i key r := by
    refine iff_of_false ?_ (fun h => nomatch h.1)
    intro h
    cases h
  count := rfl

namespace Holds

/-- Locks do not matter. -/
theorem owned (h : Holds shardOf m xs) (owner : ShardIdx → Option Nat) :
    Holds shardOf { m with owner } xs :=
  ⟨h.links, h.known, h.keys, h.maps, h.count⟩

theorem find_eq (h : Holds shardOf m xs) (hr : r ∈ xs) :
    m.find (shardOf (m.entry r).key) (m.entry r).key = some r :=
  (h.maps _ _ _).mpr ⟨hr, rfl, rfl⟩

theorem key_ne (h : Holds shardOf m (l ++ r :: l')) {x : FlowRef} (hx : x ∈ l ++ l') :
    (m.entry x).key ≠ (m.entry r).key := by
  have hkeys := h.keys
  rw [List.map_append, List.map_cons, List.nodup_middle] at hkeys
  intro heq
  refine (List.nodup_cons.mp hkeys).1 ?_
  rw [← heq, ← List.map_append]
  exact List.mem_map.mpr ⟨x, hx, rfl⟩

theorem remove (h : Holds shardOf m (l ++ r :: l')) :
    Holds shardOf (m.remove (shardOf (m.entry r).key) (m.entry r).key r) (l ++ l') where
  links := h.links.unlink
  known x hx := h.known x (List.perm_middle.mem_iff.mpr (List.mem_cons_of_mem _ hx))
  keys := h.keys.sublist (List.Sublist.map _ (by simp))
  maps i key x := by
    have hfind : (m.remove (shardOf (m.entry r).key) (m.entry r).key r).find i key = some x ↔
        m.find i key = some x ∧ ¬(i = shardOf (m.entry r).key ∧ key = (m.entry r).key) :=
      find_delete_eq_some
    rw [hfind, h.maps]
    constructor
    · rintro ⟨⟨hx, hkey, hi⟩, hne⟩
      refine ⟨?_, hkey, hi⟩
      rcases List.mem_cons.mp (List.perm_middle.mem_iff.mp hx) with rfl | hx
      · exact absurd ⟨hi ▸ hkey ▸ rfl, hkey.symm⟩ hne
      · exact hx
    · rintro ⟨hx, hkey, hi⟩
      exact ⟨⟨List.perm_middle.mem_iff.mpr (List.mem_cons_of_mem _ hx), hkey, hi⟩,
        fun hboth => h.key_ne hx (hkey.trans hboth.2)⟩
  count := by
    show m.flowCount + -1 = ((l ++ l').length : Int)
    rw [h.count]
    simp only [List.length_append, List.length_cons]
    omega

theorem use (h : Holds shardOf m (l ++ r :: l')) (hk : e.key = (m.entry r).key) :
    Holds shardOf (m.use r e) (r :: (l ++ l')) := by
  have hmem (x : FlowRef) : x ∈ r :: (l ++ l') ↔ x ∈ l ++ r :: l' := List.perm_middle.mem_iff.symm
  have hkey (x : FlowRef) : (Function.update m.entry r e x).key = (m.entry x).key := by
    by_cases hx : x = r
    · rw [hx, Function.update_self, hk]
    · rw [Function.update_of_ne hx]
  refine ⟨h.links.moveToFront, fun x hx => h.known x ((hmem x).mp hx), ?_, fun i key x => ?_, ?_⟩
  · show ((r :: (l ++ l')).map fun x => (Function.update m.entry r e x).key).Nodup
    simp only [hkey]
    exact (List.perm_middle.map fun x => (m.entry x).key).nodup_iff.mp h.keys
  · show m.find i key = some x ↔ _ ∧ (Function.update m.entry r e x).key = key ∧ _
    rw [h.maps, hmem, hkey]
  · show m.flowCount = ((r :: (l ++ l')).length : Int)
    rw [h.count]
    simp only [List.length_append, List.length_cons]
    omega

theorem insert (h : Holds shardOf m xs) (hk : ∀ x ∈ xs, (m.entry x).key ≠ e.key) :
    Holds shardOf (m.insert (shardOf e.key) e) (m.size :: xs) := by
  have hnew : m.size ∉ xs := fun hmem => lt_irrefl _ (h.known _ hmem)
  have hold {x : FlowRef} (hx : x ∈ xs) : Function.update m.entry m.size e x = m.entry x :=
    Function.update_of_ne (ne_of_mem_of_not_mem hx hnew) _ _
  refine ⟨h.links.linkFront hnew, fun x hx => ?_, ?_, fun i key x => ?_, ?_⟩
  · rcases List.mem_cons.mp hx with rfl | hx
    · exact Nat.lt_succ_self _
    · exact Nat.lt_succ_of_lt (h.known x hx)
  · show ((m.size :: xs).map fun x => (Function.update m.entry m.size e x).key).Nodup
    rw [List.map_cons, Function.update_self, List.nodup_cons]
    have hmap : (xs.map fun x => (Function.update m.entry m.size e x).key) =
        xs.map fun x => (m.entry x).key :=
      List.map_congr_left fun x hx => by rw [hold hx]
    rw [hmap]
    refine ⟨fun hin => ?_, h.keys⟩
    obtain ⟨x, hx, heq⟩ := List.mem_map.mp hin
    exact hk x hx heq
  · have hfind : (m.insert (shardOf e.key) e).find i key = some x ↔
        (i = shardOf e.key ∧ key = e.key ∧ x = m.size) ∨
          (¬(i = shardOf e.key ∧ key = e.key) ∧ m.find i key = some x) :=
      find_create_eq_some
    show _ ↔ x ∈ m.size :: xs ∧ (Function.update m.entry m.size e x).key = key ∧ shardOf key = i
    rw [hfind, h.maps, List.mem_cons]
    constructor
    · rintro (⟨rfl, rfl, rfl⟩ | ⟨-, hx, hkey, hi⟩)
      · exact ⟨.inl rfl, by rw [Function.update_self], rfl⟩
      · exact ⟨.inr hx, by rw [hold hx, hkey], hi⟩
    · rintro ⟨rfl | hx, hkey, hi⟩
      · rw [Function.update_self] at hkey
        exact .inl ⟨by rw [hkey, hi], hkey.symm, rfl⟩
      · rw [hold hx] at hkey
        exact .inr ⟨fun hboth => hk x hx (hkey.trans hboth.2), hx, hkey, hi⟩
  · show m.flowCount + 1 = ((m.size :: xs).length : Int)
    rw [h.count, List.length_cons]
    omega

/-- The list links what the maps store. -/
theorem perm_stored (h : Holds shardOf m xs) : xs.Perm m.stored := by
  have hkey {i : ShardIdx} {e : Σ _ : FlowKey, FlowRef} (he : e ∈ (m.shards i).entries) :
      (m.entry e.2).key = e.1 ∧ shardOf e.1 = i :=
    ((h.maps i e.1 e.2).mp (AList.mem_lookup_iff.mpr he)).2
  have hnodup : m.stored.Nodup := by
    refine List.nodup_flatMap.mpr ⟨fun i _ => ?_, ?_⟩
    · refine List.Nodup.map_on (fun e he e' he' heq => ?_) (m.shards i).nodupKeys.nodup
      have hsame : e.1 = e'.1 := by rw [← (hkey he).1, heq, (hkey he').1]
      exact Sigma.ext hsame (heq_of_eq heq)
    · refine (List.nodup_finRange numShards).imp fun {i j} hij => ?_
      intro r hi hj
      obtain ⟨e, he, rfl⟩ := List.mem_map.mp hi
      obtain ⟨e', he', heq⟩ := List.mem_map.mp hj
      refine hij ?_
      rw [← (hkey he).2, ← (hkey he').2, ← (hkey he).1, ← (hkey he').1, heq]
  refine (List.perm_ext_iff_of_nodup h.links.nodup hnodup).mpr fun r => ?_
  simp only [stored, List.mem_flatMap, List.mem_finRange, true_and, mem_values]
  constructor
  · exact fun hr => ⟨_, _, h.find_eq hr⟩
  · rintro ⟨i, key, hr⟩
    exact ((h.maps i key r).mp hr).1

end Holds

section Entries

variable {L : Lru FlowEntry.key}

theorem Holds.find_of_some (h : Holds shardOf m xs) (hL : L.entries = xs.map m.entry)
    (hr : m.find (shardOf key) key = some r) : L.find key = some (m.entry r) := by
  obtain ⟨hmem, hkey, -⟩ := (h.maps _ _ _).mp hr
  refine Lru.find_eq_some_iff.mpr ⟨?_, hkey⟩
  rw [hL]
  exact List.mem_map.mpr ⟨r, hmem, rfl⟩

/-- A found entry has the key, and it is somewhere in the list. -/
theorem Holds.split_of_find (h : Holds shardOf m xs) (hr : m.find (shardOf key) key = some r) :
    (m.entry r).key = key ∧ ∃ l l', xs = l ++ r :: l' := by
  obtain ⟨hmem, hkey, -⟩ := (h.maps _ _ _).mp hr
  exact ⟨hkey, List.append_of_mem hmem⟩

theorem Holds.key_ne_of_none (h : Holds shardOf m xs) (hr : m.find (shardOf key) key = none)
    {x : FlowRef} (hx : x ∈ xs) : (m.entry x).key ≠ key := by
  rintro rfl
  rw [h.find_eq hx] at hr
  cases hr

theorem Holds.find_of_none (h : Holds shardOf m xs) (hL : L.entries = xs.map m.entry)
    (hr : m.find (shardOf key) key = none) : L.find key = none := by
  refine Lru.find_eq_none_iff.mpr fun e he => ?_
  rw [hL] at he
  obtain ⟨x, hx, rfl⟩ := List.mem_map.mp he
  exact h.key_ne_of_none hr hx

theorem Holds.erase_eq (h : Holds shardOf m (l ++ r :: l'))
    (hL : L.entries = (l ++ r :: l').map m.entry) :
    (L.erase (m.entry r).key).entries = (l ++ l').map m.entry := by
  have hkept {ys : List FlowRef} (hys : ys ⊆ l ++ l') :
      (ys.map m.entry).filter (fun e => decide (e.key ≠ (m.entry r).key)) = ys.map m.entry := by
    refine List.filter_eq_self.mpr fun e he => ?_
    obtain ⟨x, hx, rfl⟩ := List.mem_map.mp he
    exact decide_eq_true (h.key_ne (hys hx))
  show L.entries.filter _ = _
  rw [hL, List.map_append, List.map_cons, List.filter_append,
    List.filter_cons_of_neg (by simp), hkept (List.subset_append_left l l'),
    hkept (List.subset_append_right l l'), List.map_append]

theorem erase_of_find_none (h : L.find key = none) : (L.erase key).entries = L.entries :=
  List.filter_eq_self.mpr fun e he => decide_eq_true (Lru.find_eq_none_iff.mp h e he)

theorem Holds.entries_use (h : Holds shardOf m (l ++ r :: l')) :
    (r :: (l ++ l')).map (m.use r e).entry = e :: (l ++ l').map m.entry := by
  have hr : r ∉ l ++ l' := (List.nodup_cons.mp (List.nodup_middle.mp h.links.nodup)).1
  show (r :: (l ++ l')).map (Function.update m.entry r e) = _
  rw [List.map_cons, Function.update_self]
  refine congrArg _ (List.map_congr_left fun x hx => ?_)
  exact Function.update_of_ne (ne_of_mem_of_not_mem hx hr) _ _

theorem Holds.entries_insert (h : Holds shardOf m xs) :
    (m.size :: xs).map (m.insert i e).entry = e :: xs.map m.entry := by
  have hr : m.size ∉ xs := fun hmem => lt_irrefl _ (h.known _ hmem)
  show (m.size :: xs).map (Function.update m.entry m.size e) = _
  rw [List.map_cons, Function.update_self]
  refine congrArg _ (List.map_congr_left fun x hx => ?_)
  exact Function.update_of_ne (ne_of_mem_of_not_mem hx hr) _ _

end Entries

end FlowMemory

end Veld.Acl
