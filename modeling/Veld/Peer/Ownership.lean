import Veld.Core.Run
import Veld.Peer.Indexes

/-!
# The owners of index slots

Runs of `Upsert` with new entries, `UpdateEndpoint`, `ClaimEndpoint` and `Remove`
on an empty table. The indexes stay consistent, and a slot that leads to a peer
leads to the same peer or to none after the next call. The one exception is an
endpoint that another peer claims; the entry that had it is left without one.
-/

namespace Veld.Peer

open Netip

namespace Table

section Holder

variable {κ : Type} [DecidableEq κ] {toLower : String → String} {t t' : Table}
  {m m' : AList fun _ : κ => EntryRef} {r : EntryRef}

/-- The peer an index slot leads to. -/
def holder (t : Table) (m : AList fun _ : κ => EntryRef) (k : κ) : Option PeerID :=
  (m.lookup k).map fun r => (t.entry r).id

/-- No slot of an index passes from one peer to another. -/
def Stays (t : Table) (m : AList fun _ : κ => EntryRef) (t' : Table)
    (m' : AList fun _ : κ => EntryRef) : Prop :=
  ∀ k x y, t.holder m k = some x → t'.holder m' k = some y → y = x

/-- The slots that are left are old ones, and the entries belong to the same peers. -/
theorem stays_of_subset (hm : ∀ k r, m'.lookup k = some r → m.lookup k = some r)
    (hid : ∀ k r, m.lookup k = some r → (t'.entry r).id = (t.entry r).id) : t.Stays m t' m' := by
  intro k x y hx hy
  obtain ⟨r, hr, rfl⟩ := Option.map_eq_some_iff.mp hx
  obtain ⟨r', hr', rfl⟩ := Option.map_eq_some_iff.mp hy
  obtain rfl := Option.mem_unique (hm k r' hr') hr
  exact hid k r' hr

theorem Stays.congr_left {t₀ : Table} (h : t.Stays m t' m')
    (hid : ∀ k r, m.lookup k = some r → (t.entry r).id = (t₀.entry r).id) : t₀.Stays m t' m' := by
  intro k x y hx hy
  obtain ⟨r, hr, rfl⟩ := Option.map_eq_some_iff.mp hx
  refine h k _ y ?_ hy
  rw [holder, hr, Option.map_some, hid k r hr]

/-- What a peer may take after its own slots are freed, no other peer had. -/
theorem owner_of_mayTake {id : PeerID} {k : κ} {q : EntryRef}
    (hevict : ∀ q, m'.lookup k = some q ↔ m.lookup k = some q ∧ (t.entry q).id ≠ id)
    (hmay : t.mayTake (m'.lookup k) id = true) (hq : m.lookup k = some q) :
    (t.entry q).id = id := by
  by_contra hne
  rw [(hevict q).mpr ⟨hq, hne⟩] at hmay
  exact hne (of_decide_eq_true hmay)

/-- An entry that becomes current takes the slots of its own peer and free ones. -/
theorem stays_place (hplace : ∀ k q, m'.lookup k = some q →
      (q = r ∧ ∀ o, m.lookup k = some o → (t.entry o).id = (t.entry r).id) ∨
        m.lookup k = some q) : t.Stays m (t.place toLower r) m' := by
  intro k x y hx hy
  obtain ⟨q, hq, rfl⟩ := Option.map_eq_some_iff.mp hx
  obtain ⟨q', hq', rfl⟩ := Option.map_eq_some_iff.mp hy
  rw [entry_place]
  rcases hplace k q' hq' with ⟨rfl, hown⟩ | hold
  · exact (hown q hq).symm
  · rw [Option.mem_unique hq hold]

end Holder

section Calls

variable {toLower : String → String} {t : Table} {r : EntryRef} {id : PeerID} {ep : AddrPort}

/-- No slot of any index passes from one peer to another. -/
structure Settled (t t' : Table) : Prop where
  vpn : t.Stays t.byVPN t' t'.byVPN
  name : t.Stays t.byName t' t'.byName
  endpoint : t.Stays t.byEndpoint t' t'.byEndpoint

theorem Consistent.settled_place (h : t.Consistent toLower) (hfree : t.refuses r = false) :
    t.Settled (t.place toLower r) where
  vpn := stays_place fun k q hq => by
    rcases lookup_insert_ite hq with ⟨hv, rfl, rfl⟩ | hq
    · refine .inl ⟨rfl, fun o ho => ?_⟩
      rw [refuses, hv, ho, Bool.true_and, Bool.not_eq_false'] at hfree
      exact of_decide_eq_true hfree
    · exact .inr (h.byVPN_evict.mp hq).1
  name := stays_place fun k q hq => by
    rcases lookup_insert_ite hq with ⟨hv, rfl, rfl⟩ | hq
    · have hmay := (Bool.and_eq_true_iff.mp hv).2
      rw [mayTake, entry_evict] at hmay
      exact .inl ⟨rfl, fun o => owner_of_mayTake (fun _ => h.byName_evict) hmay⟩
    · exact .inr (h.byName_evict.mp hq).1
  endpoint := stays_place fun k q hq => by
    rcases lookup_insert_ite hq with ⟨hv, rfl, rfl⟩ | hq
    · have hmay := (Bool.and_eq_true_iff.mp hv).2
      rw [mayTake, entry_evict] at hmay
      exact .inl ⟨rfl, fun o => owner_of_mayTake (fun _ => h.byEndpoint_evict) hmay⟩
    · exact .inr (h.byEndpoint_evict.mp hq).1

theorem Settled.refl (t : Table) : t.Settled t :=
  have hsame {κ : Type} [DecidableEq κ] (m : AList fun _ : κ => EntryRef) : t.Stays m t m :=
    stays_of_subset (fun _ _ => id) fun _ _ _ => rfl
  ⟨hsame _, hsame _, hsame _⟩

theorem Consistent.settled_upsert (h : t.Consistent toLower) :
    t.Settled (t.upsert toLower r).1 := by
  unfold Table.upsert
  split
  · exact .refl t
  · rename_i hfree
    exact h.settled_place (Bool.not_eq_true _ ▸ hfree)

/-- The entries the indexes lead to are as they were. -/
theorem Settled.of_alloc {t' : Table} {n : Nat} (hn : t.Allocated n) {e : Entry}
    (h : (t.alloc n e).Settled t') : t.Settled t' := by
  have hsame {q : EntryRef} (hq : q < n) : ((t.alloc n e).entry q).id = (t.entry q).id := by
    simp only [alloc, Function.update_of_ne hq.ne]
  exact ⟨h.vpn.congr_left fun k q hq => hsame (hn.byVPN k q hq),
    h.name.congr_left fun k q hq => hsame (hn.byName k q hq),
    h.endpoint.congr_left fun k q hq => hsame (hn.byEndpoint k q hq)⟩

theorem Consistent.settled_remove (h : t.Consistent toLower) : t.Settled (t.remove toLower id) := by
  unfold Table.remove
  split
  · exact .refl t
  · exact ⟨stays_of_subset (fun _ _ hk => (h.byVPN_unindex.mp hk).1) fun _ _ _ => rfl,
      stays_of_subset (fun _ _ hk => (h.byName_unindex.mp hk).1) fun _ _ _ => rfl,
      stays_of_subset (fun _ _ hk => (h.byEndpoint_unindex.mp hk).1) fun _ _ _ => rfl⟩

theorem id_setEndpoint (claim : Bool) (q : EntryRef) :
    ((t.setEndpoint id ep claim).1.entry q).id = (t.entry q).id := by
  obtain ⟨ep', hq⟩ := entry_setEndpoint t ep id claim q
  rw [hq]
  rfl

theorem byVPN_setEndpoint (claim : Bool) : (t.setEndpoint id ep claim).1.byVPN = t.byVPN := by
  unfold setEndpoint
  split
  · rfl
  · split
    · rfl
    · exact byVPN_move _

theorem byName_setEndpoint (claim : Bool) : (t.setEndpoint id ep claim).1.byName = t.byName := by
  unfold setEndpoint
  split
  · rfl
  · split
    · rfl
    · exact byName_move _

/-- The endpoint slots after a move are old ones and the one of the entry that moved. -/
theorem byEndpoint_move {o : Option EntryRef} {k : AddrPort} {q : EntryRef}
    (hq : ((t.disown o).moveEndpoint r ep).byEndpoint.lookup k = some q) :
    (ep.isValid = true ∧ k = ep ∧ q = r) ∨ t.byEndpoint.lookup k = some q := by
  rcases lookup_insert_ite hq with hnew | hold
  · exact .inl hnew
  · refine .inr ?_
    split at hold
    · rw [← byEndpoint_disown o]
      exact (lookup_freeSlot_eq_some.mp hold).1
    · rwa [byEndpoint_disown] at hold

/-- The entry another one takes an endpoint from. -/
theorem heldByOther_eq {q : EntryRef} (hv : ep.isValid = true) (hq : t.byEndpoint.lookup ep = some q)
    (hne : q ≠ r) : t.heldByOther r ep = some q := by
  rw [heldByOther, if_pos hv, hq, Option.filter_some, if_pos (decide_eq_true hne)]

/-- An endpoint slot passes from one peer to another only by a claim, and the peer that had it is
left without an endpoint. -/
theorem Consistent.endpoint_setEndpoint (h : t.Consistent toLower) {claim : Bool} {k : AddrPort}
    {x y : PeerID} (hx : t.holder t.byEndpoint k = some x)
    (hy : (t.setEndpoint id ep claim).1.holder (t.setEndpoint id ep claim).1.byEndpoint k = some y)
    (hne : y ≠ x) : claim = true ∧ y = id ∧ k = ep ∧
      ∃ q, (t.setEndpoint id ep claim).1.byID.lookup x = some q ∧
        ((t.setEndpoint id ep claim).1.entry q).endpoint = {} := by
  obtain ⟨q, hq, rfl⟩ := Option.map_eq_some_iff.mp hx
  obtain ⟨q', hq', rfl⟩ := Option.map_eq_some_iff.mp hy
  have hcur := (h.endpoint k q hq).2
  rw [id_setEndpoint] at hne ⊢
  rw [byID_setEndpoint]
  unfold Table.setEndpoint at hq' ⊢
  split at hq'
  · exact absurd (congrArg (fun r => (t.entry r).id) (Option.mem_unique hq' hq)) hne
  rename_i r hr
  split at hq'
  · exact absurd (congrArg (fun r => (t.entry r).id) (Option.mem_unique hq' hq)) hne
  rename_i hclaim
  rcases byEndpoint_move hq' with ⟨hv, rfl, rfl⟩ | hold
  · have hqr : q ≠ q' := by
      rintro rfl
      exact hne rfl
    have hheld := heldByOther_eq hv hq hqr
    rw [hheld] at hclaim ⊢
    refine ⟨by simpa using hclaim, h.id id q' hr, rfl, q, hcur, ?_⟩
    rw [if_neg hclaim, entry_moveEndpoint, if_neg hqr, disown, entry_modify, if_pos rfl]
    rfl
  · exact absurd (congrArg (fun r => (t.entry r).id) (Option.mem_unique hold hq)) hne

end Calls

end Table

/-- A table with the number of entries allocated so far. -/
structure Peers where
  table : Table
  size : Nat

inductive TableOp
  /-- `Upsert` of a new entry. -/
  | upsert (e : Entry)
  | updateEndpoint (id : PeerID) (ep : AddrPort)
  | claimEndpoint (id : PeerID) (ep : AddrPort)
  | remove (id : PeerID)

namespace Peers

variable (toLower : String → String)

/-- The table after a call, with the result of the call. -/
def call (s : Peers) : TableOp → Peers × Bool
  | .upsert e =>
    let r := (s.table.alloc s.size e).upsert toLower s.size
    (⟨r.1, s.size + 1⟩, r.2)
  | .updateEndpoint id ep =>
    let r := s.table.updateEndpoint id ep
    (⟨r.1, s.size⟩, r.2)
  | .claimEndpoint id ep =>
    let r := s.table.claimEndpoint id ep
    (⟨r.1, s.size⟩, r.2)
  | .remove id => (⟨s.table.remove toLower id, s.size⟩, true)

/-- The state after some calls on an empty table. The memory may hold anything at first. -/
def reached (entry : EntryRef → Entry) (session : SessionRef → Session) (ops : List TableOp) :
    Peers :=
  run (fun s op => (s.call toLower op).1) ⟨{ entry, session }, 0⟩ ops

/-- The indexes are consistent and lead to allocated entries only. -/
structure Sound (s : Peers) : Prop where
  consistent : s.table.Consistent toLower
  allocated : s.table.Allocated s.size

variable {toLower} {s : Peers}

theorem Sound.call (h : s.Sound toLower) (op : TableOp) : (s.call toLower op).1.Sound toLower := by
  cases op with
  | upsert e =>
    exact ⟨(h.consistent.alloc h.allocated e).upsert,
      ((h.allocated.alloc _ e).mono (Nat.le_succ _)).upsert (Nat.lt_succ_self _)⟩
  | updateEndpoint id ep =>
    exact ⟨h.consistent.setEndpoint id false, h.allocated.setEndpoint id ep false⟩
  | claimEndpoint id ep =>
    exact ⟨h.consistent.setEndpoint id true, h.allocated.setEndpoint id ep true⟩
  | remove id => exact ⟨h.consistent.remove id, h.allocated.remove id⟩

theorem sound_reached (entry : EntryRef → Entry) (session : SessionRef → Session)
    (ops : List TableOp) : (reached toLower entry session ops).Sound toLower := by
  induction ops using List.reverseRecOn with
  | nil => exact ⟨⟨nofun, nofun, nofun, nofun, nofun⟩, ⟨nofun, nofun, nofun, nofun⟩⟩
  | append_singleton ops op ih =>
    rw [reached, run_snoc]
    exact ih.call op

/-- `Upsert` of a new entry leaves every slot with its peer. -/
theorem Sound.settled_upsert (h : s.Sound toLower) (e : Entry) :
    s.table.Settled (s.call toLower (.upsert e)).1.table :=
  ((h.consistent.alloc h.allocated e).settled_upsert).of_alloc h.allocated

theorem stays_byVPN (h : s.Sound toLower) (op : TableOp) :
    s.table.Stays s.table.byVPN (s.call toLower op).1.table (s.call toLower op).1.table.byVPN := by
  cases op with
  | upsert e => exact (h.settled_upsert e).vpn
  | updateEndpoint id ep | claimEndpoint id ep =>
    refine Table.stays_of_subset (fun k q hq => ?_) fun _ q _ => Table.id_setEndpoint _ q
    exact (Table.byVPN_setEndpoint _).symm ▸ hq
  | remove id => exact h.consistent.settled_remove.vpn

theorem stays_byName (h : s.Sound toLower) (op : TableOp) :
    s.table.Stays s.table.byName (s.call toLower op).1.table
      (s.call toLower op).1.table.byName := by
  cases op with
  | upsert e => exact (h.settled_upsert e).name
  | updateEndpoint id ep | claimEndpoint id ep =>
    refine Table.stays_of_subset (fun k q hq => ?_) fun _ q _ => Table.id_setEndpoint _ q
    exact (Table.byName_setEndpoint _).symm ▸ hq
  | remove id => exact h.consistent.settled_remove.name

/-- Only a claim takes an endpoint from a peer. -/
theorem taken_endpoint (h : s.Sound toLower) {op : TableOp} {ep : AddrPort} {x y : PeerID}
    (hx : s.table.holder s.table.byEndpoint ep = some x)
    (hy : (s.call toLower op).1.table.holder (s.call toLower op).1.table.byEndpoint ep = some y)
    (hne : y ≠ x) : op = .claimEndpoint y ep ∧
      ∃ r, (s.call toLower op).1.table.byID.lookup x = some r ∧
        ((s.call toLower op).1.table.entry r).endpoint = {} := by
  cases op with
  | upsert e => exact absurd ((h.settled_upsert e).endpoint ep x y hx hy) hne
  | updateEndpoint id ep' =>
    have hclaim := (h.consistent.endpoint_setEndpoint hx hy hne).1
    cases hclaim
  | claimEndpoint id ep' =>
    obtain ⟨-, rfl, rfl, hleft⟩ := h.consistent.endpoint_setEndpoint hx hy hne
    exact ⟨rfl, hleft⟩
  | remove id => exact absurd (h.consistent.settled_remove.endpoint ep x y hx hy) hne

/-- The indexes and the entries allocated so far are the same. -/
structure Unchanged (s s' : Peers) : Prop where
  byID : s'.table.byID = s.table.byID
  byVPN : s'.table.byVPN = s.table.byVPN
  byEndpoint : s'.table.byEndpoint = s.table.byEndpoint
  byName : s'.table.byName = s.table.byName
  entry : ∀ r < s.size, s'.table.entry r = s.table.entry r

theorem setEndpoint_of_false {t : Table} {id : PeerID} {ep : AddrPort} {claim : Bool}
    (h : (t.setEndpoint id ep claim).2 = false) : (t.setEndpoint id ep claim).1 = t := by
  unfold Table.setEndpoint at h ⊢
  split
  · rfl
  · rename_i hr
    simp only [hr] at h
    split
    · rfl
    · rename_i hclaim
      rw [if_neg hclaim] at h
      cases h

theorem unchanged_of_false {op : TableOp} (h : (s.call toLower op).2 = false) :
    s.Unchanged (s.call toLower op).1 := by
  cases op with
  | upsert e =>
    have hsame : ((s.table.alloc s.size e).upsert toLower s.size).1 = s.table.alloc s.size e := by
      unfold Table.upsert
      split
      · rfl
      · rename_i hfree
        simp only [Peers.call, Table.upsert, if_neg hfree] at h
        cases h
    simp only [Peers.call, hsame]
    exact ⟨rfl, rfl, rfl, rfl, fun r hr => Function.update_of_ne hr.ne _ _⟩
  | updateEndpoint id ep | claimEndpoint id ep =>
    have hsame := setEndpoint_of_false h
    simp only [Peers.call, Table.updateEndpoint, Table.claimEndpoint, hsame]
    exact ⟨rfl, rfl, rfl, rfl, fun _ _ => rfl⟩
  | remove id => cases h

/-- After every sequence of calls on an empty table the indexes are consistent and VPN addresses
are distinct. The next call takes no address and no name from a peer that has it, takes an endpoint
only by a claim that leaves the peer without one, and changes nothing if its result is false. -/
theorem slots_owned (toLower : String → String) (entry : EntryRef → Entry)
    (session : SessionRef → Session) (ops : List TableOp) (op : TableOp) :
    let s := reached toLower entry session ops
    let s' := (s.call toLower op).1
    s.table.Consistent toLower ∧
    (∀ id id' r r', s.table.byID.lookup id = some r → s.table.byID.lookup id' = some r' →
      (s.table.entry r).vpnAddr.isValid = true →
      (s.table.entry r).vpnAddr = (s.table.entry r').vpnAddr → id = id') ∧
    (∀ addr x y, s.table.holder s.table.byVPN addr = some x →
      s'.table.holder s'.table.byVPN addr = some y → y = x) ∧
    (∀ name x y, s.table.holder s.table.byName name = some x →
      s'.table.holder s'.table.byName name = some y → y = x) ∧
    (∀ ep x y, s.table.holder s.table.byEndpoint ep = some x →
      s'.table.holder s'.table.byEndpoint ep = some y → y ≠ x →
      op = .claimEndpoint y ep ∧
        ∃ r, s'.table.byID.lookup x = some r ∧ (s'.table.entry r).endpoint = {}) ∧
    ((s.call toLower op).2 = false → s.Unchanged s') := by
  intro s s'
  have h : s.Sound toLower := sound_reached entry session ops
  refine ⟨h.consistent, ?_, stays_byVPN h op, stays_byName h op, ?_, unchanged_of_false⟩
  · intro id id' r r' hr hr' hv heq
    have hfound := h.consistent.found id r hr hv
    have hfound' := h.consistent.found id' r' hr' (heq ▸ hv)
    rw [← heq, hfound] at hfound'
    obtain rfl := Option.some.inj hfound'
    rw [← h.consistent.id id r hr, h.consistent.id id' r hr']
  · exact fun ep x y hx hy hne => taken_endpoint h hx hy hne

end Peers

end Veld.Peer
