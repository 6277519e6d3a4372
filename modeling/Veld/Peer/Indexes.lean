import Veld.Peer.Update

/-!
# The indexes of the peer table

A slot of an index leads to the current entry of some peer, and that entry has the
slot's key. An entry may have an endpoint or a name without having its slot, but a
current entry with a valid VPN address is always found by it. `Upsert` of a new
entry, `Remove` and `setEndpoint` keep this.
-/

namespace Veld.Peer

open Netip

namespace Entry

/-- The key of an entry in the VPN index. -/
def vpnKey (e : Entry) : Option Addr := if e.vpnAddr.isValid then some e.vpnAddr else none

/-- The key of an entry in the endpoint index. -/
def endpointKey (e : Entry) : Option AddrPort := if e.endpoint.isValid then some e.endpoint else none

/-- The key of an entry in the name index. -/
def nameKey (toLower : String → String) (e : Entry) : Option String :=
  if e.name ≠ "" then some (toLower e.name) else none

end Entry

namespace Table

/-- Every slot of an index leads to a current entry with the key of the slot. -/
def Slots {κ : Type} [DecidableEq κ] (t : Table) (m : AList fun _ : κ => EntryRef)
    (key : Entry → Option κ) : Prop :=
  ∀ k r, m.lookup k = some r → key (t.entry r) = some k ∧ t.byID.lookup (t.entry r).id = some r

/-- The indexes agree with the entries. -/
structure Consistent (toLower : String → String) (t : Table) : Prop where
  id : ∀ k r, t.byID.lookup k = some r → (t.entry r).id = k
  vpn : t.Slots t.byVPN Entry.vpnKey
  endpoint : t.Slots t.byEndpoint Entry.endpointKey
  name : t.Slots t.byName (Entry.nameKey toLower)
  found : ∀ k r, t.byID.lookup k = some r → (t.entry r).vpnAddr.isValid = true →
    t.byVPN.lookup (t.entry r).vpnAddr = some r

section Slots

variable {κ : Type} [DecidableEq κ] {t : Table} {m m' : AList fun _ : κ => EntryRef}
  {key : Entry → Option κ} {r r' : EntryRef} {k : κ} {k₀ : κ} {c : Prop} {a : Addr} {ep : AddrPort}
  {s : String} {id : PeerID}

/-- An entry that frees the slot of its key has no slot left. -/
theorem Slots.lookup_freeSlot (h : t.Slots m key) (hk₀ : ∀ k, key (t.entry r) = some k → k = k₀) :
    (freeSlot m k₀ r).lookup k = some r' ↔ m.lookup k = some r' ∧ r' ≠ r := by
  rw [lookup_freeSlot_eq_some]
  refine and_congr_right fun hk => not_congr ⟨And.right, ?_⟩
  rintro rfl
  exact ⟨hk₀ k (h k r' hk).1, rfl⟩

theorem Slots.lookup_freeSlot_ite (h : t.Slots m key) [Decidable c]
    (hkey : key (t.entry r) = if c then some k₀ else none) :
    (if c then freeSlot m k₀ r else m).lookup k = some r' ↔ m.lookup k = some r' ∧ r' ≠ r := by
  split
  · rename_i hc
    rw [if_pos hc] at hkey
    exact h.lookup_freeSlot fun k hk => Option.mem_unique hk hkey
  · rename_i hc
    rw [if_neg hc] at hkey
    refine ⟨fun hk => ⟨hk, ?_⟩, And.left⟩
    rintro rfl
    rw [(h k r' hk).1] at hkey
    cases hkey

variable {toLower : String → String}

theorem Consistent.byVPN_unindex (h : t.Consistent toLower) :
    (t.unindex toLower r).byVPN.lookup a = some r' ↔ t.byVPN.lookup a = some r' ∧ r' ≠ r := by
  refine h.vpn.lookup_freeSlot fun k hk => ?_
  rw [Entry.vpnKey] at hk
  split at hk
  · exact (Option.some.inj hk).symm
  · cases hk

theorem Consistent.byEndpoint_unindex (h : t.Consistent toLower) :
    (t.unindex toLower r).byEndpoint.lookup ep = some r' ↔
      t.byEndpoint.lookup ep = some r' ∧ r' ≠ r :=
  h.endpoint.lookup_freeSlot_ite rfl

theorem Consistent.byName_unindex (h : t.Consistent toLower) :
    (t.unindex toLower r).byName.lookup s = some r' ↔ t.byName.lookup s = some r' ∧ r' ≠ r :=
  h.name.lookup_freeSlot_ite rfl

/-- A current entry other than the one of a peer belongs to another peer. -/
theorem Consistent.ne_iff (h : t.Consistent toLower)
    (hr : t.byID.lookup id = some r) (hr' : t.byID.lookup (t.entry r').id = some r') :
    r' ≠ r ↔ (t.entry r').id ≠ id := by
  refine not_congr ⟨?_, ?_⟩
  · rintro rfl
    exact h.id id r' hr
  · intro hid
    rw [hid, hr] at hr'
    exact (Option.some.inj hr').symm

/-- After an eviction the slots of all other peers are left. -/
theorem Consistent.evict_iff (h : t.Consistent toLower) (hm : t.Slots m key)
    (index : Table → AList fun _ : κ => EntryRef) (hindex : index t = m)
    (hunindex : ∀ r k r', (index (t.unindex toLower r)).lookup k = some r' ↔
      m.lookup k = some r' ∧ r' ≠ r) :
    (index (t.evict toLower id)).lookup k = some r' ↔
      m.lookup k = some r' ∧ (t.entry r').id ≠ id := by
  unfold Table.evict
  cases hid : t.byID.lookup id with
  | none =>
    simp only [hindex]
    refine ⟨fun hk => ⟨hk, ?_⟩, And.left⟩
    rintro rfl
    rw [(hm k r' hk).2] at hid
    cases hid
  | some old =>
    simp only [hunindex]
    exact and_congr_right fun hk => h.ne_iff hid (hm k r' hk).2

theorem Consistent.byVPN_evict (h : t.Consistent toLower) :
    (t.evict toLower id).byVPN.lookup a = some r' ↔
      t.byVPN.lookup a = some r' ∧ (t.entry r').id ≠ id :=
  h.evict_iff h.vpn Table.byVPN rfl fun _ _ _ => h.byVPN_unindex

theorem Consistent.byEndpoint_evict (h : t.Consistent toLower) :
    (t.evict toLower id).byEndpoint.lookup ep = some r' ↔
      t.byEndpoint.lookup ep = some r' ∧ (t.entry r').id ≠ id :=
  h.evict_iff h.endpoint Table.byEndpoint rfl fun _ _ _ => h.byEndpoint_unindex

theorem Consistent.byName_evict (h : t.Consistent toLower) :
    (t.evict toLower id).byName.lookup s = some r' ↔
      t.byName.lookup s = some r' ∧ (t.entry r').id ≠ id :=
  h.evict_iff h.name Table.byName rfl fun _ _ _ => h.byName_unindex

/-- The slots of an index after an entry became current: those of other peers and perhaps its own. -/
theorem Slots.place (h : t.Slots m key)
    (hm' : ∀ k r', m'.lookup k = some r' → (key (t.entry r) = some k ∧ r' = r) ∨
      (m.lookup k = some r' ∧ (t.entry r').id ≠ (t.entry r).id)) :
    (t.place toLower r).Slots m' key := by
  intro k r' hk
  rw [entry_place, byID_place]
  rcases hm' k r' hk with ⟨hkey, rfl⟩ | ⟨hold, hne⟩
  · exact ⟨hkey, AList.lookup_insert _⟩
  · rw [AList.lookup_insert_ne hne]
    exact h k r' hold

/-- An index into which a slot is put under a condition. -/
theorem lookup_insert_ite [Decidable c] (hk : (if c then m.insert k₀ r else m).lookup k = some r') :
    (c ∧ k = k₀ ∧ r' = r) ∨ m.lookup k = some r' := by
  split at hk
  · rename_i hc
    rcases lookup_insert_eq_some.mp hk with ⟨rfl, rfl⟩ | ⟨-, hk⟩
    · exact .inl ⟨hc, rfl, rfl⟩
    · exact .inr hk
  · exact .inr hk

end Slots

section Steps

variable {toLower : String → String} {t : Table} {r : EntryRef}

theorem Consistent.place (h : t.Consistent toLower) (hfree : t.refuses r = false) :
    (t.place toLower r).Consistent toLower where
  id k r' hk := by
    rw [byID_place] at hk
    rw [entry_place]
    rcases lookup_insert_eq_some.mp hk with ⟨rfl, rfl⟩ | ⟨-, hk⟩
    · rfl
    · exact h.id k r' hk
  vpn := h.vpn.place fun k r' hk => by
    rcases lookup_insert_ite hk with ⟨hv, rfl, rfl⟩ | hk
    · exact .inl ⟨if_pos hv, rfl⟩
    · exact .inr (h.byVPN_evict.mp hk)
  endpoint := h.endpoint.place fun k r' hk => by
    rcases lookup_insert_ite hk with ⟨hv, rfl, rfl⟩ | hk
    · exact .inl ⟨if_pos (Bool.and_eq_true_iff.mp hv).1, rfl⟩
    · exact .inr (h.byEndpoint_evict.mp hk)
  name := h.name.place fun k r' hk => by
    rcases lookup_insert_ite hk with ⟨hv, rfl, rfl⟩ | hk
    · exact .inl ⟨if_pos (of_decide_eq_true (Bool.and_eq_true_iff.mp hv).1), rfl⟩
    · exact .inr (h.byName_evict.mp hk)
  found k r' hk hv := by
    rw [byID_place] at hk
    rw [entry_place] at hv ⊢
    show (if _ then _ else _ : AList fun _ : Addr => EntryRef).lookup _ = _
    rcases lookup_insert_eq_some.mp hk with ⟨rfl, rfl⟩ | ⟨hne, hk⟩
    · rw [if_pos hv, AList.lookup_insert]
    · have hid : (t.entry r').id ≠ (t.entry r).id := by rwa [h.id k r' hk]
      have hold := h.found k r' hk hv
      have hleft := h.byVPN_evict.mpr ⟨hold, hid⟩
      split
      · rename_i hvalid
        -- the address is not the new entry's: the table would have refused that one
        have haddr : (t.entry r').vpnAddr ≠ (t.entry r).vpnAddr := by
          intro heq
          rw [heq] at hold
          simp [refuses, hvalid, hold, mayTake, hid] at hfree
        rw [AList.lookup_insert_ne haddr]
        exact hleft
      · exact hleft

theorem Consistent.upsert (h : t.Consistent toLower) :
    (t.upsert toLower r).1.Consistent toLower := by
  unfold Table.upsert
  split
  · exact h
  · rename_i hfree
    exact h.place (Bool.not_eq_true _ ▸ hfree)

/-- The memory of an entry no index leads to does not matter. -/
theorem Consistent.alloc (h : t.Consistent toLower) (hr : t.Allocated r) (e : Entry) :
    (t.alloc r e).Consistent toLower := by
  have hsame {r' : EntryRef} (hr' : r' < r) : (t.alloc r e).entry r' = t.entry r' := by
    simp only [Table.alloc, Function.update_of_ne hr'.ne]
  constructor
  · intro k r' hk
    rw [hsame (hr.byID k r' hk)]
    exact h.id k r' hk
  · intro k r' hk
    rw [hsame (hr.byVPN k r' hk)]
    exact h.vpn k r' hk
  · intro k r' hk
    rw [hsame (hr.byEndpoint k r' hk)]
    exact h.endpoint k r' hk
  · intro k r' hk
    rw [hsame (hr.byName k r' hk)]
    exact h.name k r' hk
  · intro k r' hk
    rw [hsame (hr.byID k r' hk)]
    exact h.found k r' hk

theorem Slots.remove {κ : Type} [DecidableEq κ] {m m' : AList fun _ : κ => EntryRef}
    {key : Entry → Option κ} {t' : Table} {id : PeerID} (hm : t.Slots m key)
    (h : t.Consistent toLower) (hid : t.byID.lookup id = some r) (hentry : t'.entry = t.entry)
    (hbyID : t'.byID = t.byID.erase id)
    (hm' : ∀ k r', m'.lookup k = some r' → m.lookup k = some r' ∧ r' ≠ r) : t'.Slots m' key := by
  intro k r' hk
  obtain ⟨hk, hne⟩ := hm' k r' hk
  obtain ⟨hkey, hcur⟩ := hm k r' hk
  rw [hentry, hbyID, AList.lookup_erase_ne ((h.ne_iff hid hcur).mp hne)]
  exact ⟨hkey, hcur⟩

theorem Consistent.remove (h : t.Consistent toLower) (id : PeerID) :
    (t.remove toLower id).Consistent toLower := by
  unfold Table.remove
  split
  · exact h
  · rename_i r hr
    constructor
    · intro k r' hk
      exact h.id k r' (lookup_erase_eq_some.mp hk).2
    · exact h.vpn.remove h hr rfl rfl fun k r' => h.byVPN_unindex.mp
    · exact h.endpoint.remove h hr rfl rfl fun k r' => h.byEndpoint_unindex.mp
    · exact h.name.remove h hr rfl rfl fun k r' => h.byName_unindex.mp
    · intro k r' hk hv
      obtain ⟨hne, hk⟩ := lookup_erase_eq_some.mp hk
      have hcur : t.byID.lookup (t.entry r').id = some r' := by rw [h.id k r' hk, hk]
      refine h.byVPN_unindex.mpr ⟨h.found k r' hk hv, (h.ne_iff hr hcur).mpr ?_⟩
      rwa [h.id k r' hk]

end Steps

section Endpoints

variable {toLower : String → String} {t : Table} {r : EntryRef} {ep : AddrPort}

theorem entry_disown_of_ne {o : Option EntryRef} {q : EntryRef} (hq : o ≠ some q) :
    (t.disown o).entry q = t.entry q := by
  cases o with
  | none => rfl
  | some r =>
    rw [disown, entry_modify, if_neg]
    rintro rfl
    exact hq rfl

theorem entry_moveEndpoint (q : EntryRef) : (t.moveEndpoint r ep).entry q =
    if q = r then (t.entry q).setEndpoint ep else t.entry q :=
  entry_modify t r q (·.setEndpoint ep)

/-- A change of endpoints changes nothing else of the entries. -/
theorem entry_move (t : Table) (r : EntryRef) (ep : AddrPort) (o : Option EntryRef) (q : EntryRef) :
    ∃ ep', ((t.disown o).moveEndpoint r ep).entry q = (t.entry q).setEndpoint ep' := by
  have hdisown : ∃ ep', (t.disown o).entry q = (t.entry q).setEndpoint ep' := by
    by_cases hq : o = some q
    · subst hq
      exact ⟨{}, by rw [disown, entry_modify, if_pos rfl]⟩
    · exact ⟨(t.entry q).endpoint, entry_disown_of_ne hq⟩
  obtain ⟨ep', hep'⟩ := hdisown
  rw [entry_moveEndpoint, hep']
  split
  · exact ⟨ep, rfl⟩
  · exact ⟨ep', rfl⟩

theorem byEndpoint_disown (o : Option EntryRef) : (t.disown o).byEndpoint = t.byEndpoint := by
  cases o <;> rfl

theorem byID_move (o : Option EntryRef) : ((t.disown o).moveEndpoint r ep).byID = t.byID := by
  cases o <;> rfl

theorem byVPN_move (o : Option EntryRef) : ((t.disown o).moveEndpoint r ep).byVPN = t.byVPN := by
  cases o <;> rfl

theorem byName_move (o : Option EntryRef) :
    ((t.disown o).moveEndpoint r ep).byName = t.byName := by
  cases o <;> rfl

theorem byID_setEndpoint (id : PeerID) (claim : Bool) :
    (t.setEndpoint id ep claim).1.byID = t.byID := by
  unfold setEndpoint
  split
  · rfl
  · split
    · rfl
    · exact byID_move _

theorem entry_setEndpoint (t : Table) (ep : AddrPort) (id : PeerID) (claim : Bool) (q : EntryRef) :
    ∃ ep', (t.setEndpoint id ep claim).1.entry q = (t.entry q).setEndpoint ep' := by
  unfold setEndpoint
  split
  · exact ⟨(t.entry q).endpoint, rfl⟩
  · split
    · exact ⟨(t.entry q).endpoint, rfl⟩
    · exact entry_move _ _ _ _ q

/-- An index by anything but the endpoint is not affected by a change of endpoints. -/
theorem Slots.move {κ : Type} [DecidableEq κ] {m : AList fun _ : κ => EntryRef}
    {key : Entry → Option κ} (h : t.Slots m key) (hkey : ∀ e ep, key (e.setEndpoint ep) = key e)
    (o : Option EntryRef) : ((t.disown o).moveEndpoint r ep).Slots m key := by
  intro k q hk
  obtain ⟨ep', hq⟩ := entry_move t r ep o q
  rw [hq, hkey, byID_move]
  exact h k q hk

/-- The endpoint index after a move: the slot of the moved entry and those of the entries that still
have their endpoints. -/
theorem Consistent.endpoint_move (h : t.Consistent toLower) {id : PeerID}
    (hr : t.byID.lookup id = some r) :
    ((t.disown (t.heldByOther r ep)).moveEndpoint r ep).Slots
      ((t.disown (t.heldByOther r ep)).moveEndpoint r ep).byEndpoint Entry.endpointKey := by
  set o := t.heldByOther r ep with ho
  have hor : o ≠ some r := by
    intro he
    rw [ho, heldByOther] at he
    split at he
    · exact of_decide_eq_true (Option.filter_eq_some_iff.mp he).2 rfl
    · cases he
  have hkeep : (t.disown o).entry r = t.entry r := entry_disown_of_ne hor
  intro k q hk
  have hk : (if ep.isValid then (if (t.entry r).endpoint.isValid then
      freeSlot t.byEndpoint (t.entry r).endpoint r else t.byEndpoint).insert ep r
      else (if (t.entry r).endpoint.isValid then
        freeSlot t.byEndpoint (t.entry r).endpoint r else t.byEndpoint)).lookup k = some q := by
    simpa only [moveEndpoint, byEndpoint_disown, hkeep] using hk
  rw [byID_move, entry_moveEndpoint]
  by_cases hv : ep.isValid = true ∧ k = ep
  · obtain ⟨hv, rfl⟩ := hv
    rw [if_pos hv, AList.lookup_insert] at hk
    obtain rfl := Option.some.inj hk
    rw [if_pos rfl, hkeep]
    refine ⟨if_pos hv, ?_⟩
    show t.byID.lookup (t.entry r).id = some r
    rw [h.id id r hr, hr]
  · have hk : (if (t.entry r).endpoint.isValid then
        freeSlot t.byEndpoint (t.entry r).endpoint r else t.byEndpoint).lookup k = some q := by
      split at hk
      · rename_i hvalid
        rwa [AList.lookup_insert_ne fun he => hv ⟨hvalid, he⟩] at hk
      · exact hk
    obtain ⟨hk, hqr⟩ := (h.endpoint.lookup_freeSlot_ite rfl).mp hk
    -- the entry that lost its endpoint held the slot that was taken over
    have hqo : o ≠ some q := by
      intro he
      rw [ho, heldByOther] at he
      split at he
      · rename_i hvalid
        have hep := (Option.filter_eq_some_iff.mp he).1
        have hkey := (h.endpoint ep q hep).1
        rw [(h.endpoint k q hk).1] at hkey
        exact hv ⟨hvalid, Option.some.inj hkey⟩
      · cases he
    rw [if_neg hqr, entry_disown_of_ne hqo]
    exact h.endpoint k q hk

theorem Consistent.setEndpoint (h : t.Consistent toLower) (id : PeerID) (claim : Bool) :
    (t.setEndpoint id ep claim).1.Consistent toLower := by
  unfold Table.setEndpoint
  split
  · exact h
  · rename_i r hr
    split
    · exact h
    · have hentry := entry_move t r ep (t.heldByOther r ep)
      constructor
      · intro k q hk
        rw [byID_move] at hk
        obtain ⟨ep', hq⟩ := hentry q
        rw [hq]
        exact h.id k q hk
      · rw [byVPN_move]
        exact h.vpn.move (fun _ _ => rfl) _
      · exact h.endpoint_move hr
      · rw [byName_move]
        exact h.name.move (fun _ _ => rfl) _
      · intro k q hk hv
        rw [byID_move] at hk
        obtain ⟨ep', hq⟩ := hentry q
        rw [hq] at hv ⊢
        rw [byVPN_move]
        exact h.found k q hk hv

end Endpoints

end Table

end Veld.Peer
