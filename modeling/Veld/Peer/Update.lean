import Veld.Core.Assoc
import Veld.Peer.Table

/-!
# Updates of the peer table

`Upsert`, `UpdateEndpoint`, `ClaimEndpoint` and `Remove` of
`internal/peer/table.go`. A reference that is put into the table stands for an
entry that was allocated before; `Allocated` says that the table holds no other
references, so that the next number is a new one.
-/

namespace Veld.Peer

open Netip

section Slots

variable {κ : Type} [DecidableEq κ]

/-- A slot is freed if it still points at the entry. -/
def freeSlot (m : AList fun _ : κ => EntryRef) (k : κ) (r : EntryRef) :
    AList fun _ : κ => EntryRef :=
  if m.lookup k = some r then m.erase k else m

theorem lookup_freeSlot_eq_some {m : AList fun _ : κ => EntryRef} {k k' : κ} {r r' : EntryRef} :
    (freeSlot m k r).lookup k' = some r' ↔ m.lookup k' = some r' ∧ ¬(k' = k ∧ r' = r) := by
  unfold freeSlot
  by_cases hk : k' = k
  · subst hk
    split
    · rename_i h
      rw [AList.lookup_erase, h]
      simp [eq_comm]
    · rename_i h
      constructor
      · intro h'
        refine ⟨h', ?_⟩
        rintro ⟨-, rfl⟩
        exact h h'
      · exact And.left
  · split
    · rw [AList.lookup_erase_ne hk]
      simp [hk]
    · simp [hk]

end Slots

namespace Table

/-- The memory of a new entry. -/
def alloc (t : Table) (r : EntryRef) (e : Entry) : Table :=
  { t with entry := Function.update t.entry r e }

/-- A peer may take an index slot that is free or points at an entry of the peer. -/
def mayTake (t : Table) (slot : Option EntryRef) (id : PeerID) : Bool :=
  slot.all fun r => (t.entry r).id = id

/-- `unindex`: an entry's slots are freed. -/
def unindex (toLower : String → String) (t : Table) (r : EntryRef) : Table :=
  let e := t.entry r
  { t with
    byVPN := freeSlot t.byVPN e.vpnAddr r
    byEndpoint := if e.endpoint.isValid then freeSlot t.byEndpoint e.endpoint r else t.byEndpoint
    byName := if e.name ≠ "" then freeSlot t.byName (toLower e.name) r else t.byName }

/-- The table without the slots of the entry an ID has. -/
def evict (toLower : String → String) (t : Table) (id : PeerID) : Table :=
  match t.byID.lookup id with
  | some old => t.unindex toLower old
  | none => t

/-- Another peer has the address of an entry. -/
def refuses (t : Table) (r : EntryRef) : Bool :=
  (t.entry r).vpnAddr.isValid &&
    !t.mayTake (t.byVPN.lookup (t.entry r).vpnAddr) (t.entry r).id

/-- An entry becomes the one of its peer. It does not take over the endpoint or the name of another
peer. -/
def place (toLower : String → String) (t : Table) (r : EntryRef) : Table :=
  let e := t.entry r
  let t := t.evict toLower e.id
  let key := toLower e.name
  { t with
    byID := t.byID.insert e.id r
    byVPN := if e.vpnAddr.isValid then t.byVPN.insert e.vpnAddr r else t.byVPN
    byEndpoint :=
      if e.endpoint.isValid && t.mayTake (t.byEndpoint.lookup e.endpoint) e.id then
        t.byEndpoint.insert e.endpoint r
      else t.byEndpoint
    byName :=
      if e.name ≠ "" && t.mayTake (t.byName.lookup key) e.id then t.byName.insert key r
      else t.byName }

/-- `Upsert`. -/
def upsert (toLower : String → String) (t : Table) (r : EntryRef) : Table × Bool :=
  if t.refuses r then (t, false) else (t.place toLower r, true)

/-- The other entry that holds a valid endpoint. -/
def heldByOther (t : Table) (r : EntryRef) (ep : AddrPort) : Option EntryRef :=
  if ep.isValid then (t.byEndpoint.lookup ep).filter (· ≠ r) else none

/-- An entry loses its endpoint. -/
def disown (t : Table) : Option EntryRef → Table
  | some r => t.modify r (·.setEndpoint {})
  | none => t

/-- An entry moves to an endpoint. -/
def moveEndpoint (t : Table) (r : EntryRef) (ep : AddrPort) : Table :=
  let old := (t.entry r).endpoint
  let byEndpoint := if old.isValid then freeSlot t.byEndpoint old r else t.byEndpoint
  { t.modify r (·.setEndpoint ep) with
    byEndpoint := if ep.isValid then byEndpoint.insert ep r else byEndpoint }

/-- `setEndpoint`: an endpoint another entry holds is taken over only by a claim. -/
def setEndpoint (t : Table) (id : PeerID) (ep : AddrPort) (claim : Bool) : Table × Bool :=
  match t.byID.lookup id with
  | none => (t, false)
  | some r =>
    if (t.heldByOther r ep).isSome && !claim then (t, false)
    else ((t.disown (t.heldByOther r ep)).moveEndpoint r ep, true)

def updateEndpoint (t : Table) (id : PeerID) (ep : AddrPort) : Table × Bool :=
  t.setEndpoint id ep false

def claimEndpoint (t : Table) (id : PeerID) (ep : AddrPort) : Table × Bool :=
  t.setEndpoint id ep true

/-- `Remove`. -/
def remove (toLower : String → String) (t : Table) (id : PeerID) : Table :=
  match t.byID.lookup id with
  | none => t
  | some r => { t with byID := t.byID.erase id }.unindex toLower r

section Place

variable {toLower : String → String} {t : Table} {r : EntryRef}

@[simp] theorem entry_evict (id : PeerID) : (t.evict toLower id).entry = t.entry := by
  unfold evict
  split <;> rfl

@[simp] theorem byID_evict (id : PeerID) : (t.evict toLower id).byID = t.byID := by
  unfold evict
  split <;> rfl

@[simp] theorem entry_place : (t.place toLower r).entry = t.entry := entry_evict _

@[simp] theorem byID_place :
    (t.place toLower r).byID = t.byID.insert (t.entry r).id r :=
  congrArg (·.insert (t.entry r).id r) (byID_evict _)

end Place

/-- All references in the indexes are below a number. -/
structure Allocated (t : Table) (n : Nat) : Prop where
  byID : ∀ id r, t.byID.lookup id = some r → r < n
  byVPN : ∀ a r, t.byVPN.lookup a = some r → r < n
  byEndpoint : ∀ ep r, t.byEndpoint.lookup ep = some r → r < n
  byName : ∀ name r, t.byName.lookup name = some r → r < n

section Allocation

variable {toLower : String → String} {t : Table} {n : Nat} {r : EntryRef}

private theorem bounded_freeSlot {κ : Type} [DecidableEq κ] {m : AList fun _ : κ => EntryRef}
    (h : ∀ k r, m.lookup k = some r → r < n) (k₀ : κ) (r₀ : EntryRef) :
    ∀ k r, (freeSlot m k₀ r₀).lookup k = some r → r < n :=
  fun k r hk => h k r (lookup_freeSlot_eq_some.mp hk).1

private theorem bounded_insert {κ : Type} [DecidableEq κ] {m : AList fun _ : κ => EntryRef}
    (h : ∀ k r, m.lookup k = some r → r < n) (hr : r < n) (k₀ : κ) :
    ∀ k r', (m.insert k₀ r).lookup k = some r' → r' < n := by
  intro k r' hk
  rcases lookup_insert_eq_some.mp hk with ⟨-, rfl⟩ | ⟨-, hold⟩
  · exact hr
  · exact h k r' hold

private theorem bounded_ite {κ : Type} [DecidableEq κ] {m m' : AList fun _ : κ => EntryRef}
    {c : Prop} [Decidable c] (h : ∀ k r, m.lookup k = some r → r < n)
    (h' : ∀ k r, m'.lookup k = some r → r < n) :
    ∀ k r, (if c then m else m').lookup k = some r → r < n := by
  split
  · exact h
  · exact h'

theorem Allocated.mono (h : t.Allocated n) {n' : Nat} (hn : n ≤ n') : t.Allocated n' where
  byID id r hr := (h.byID id r hr).trans_le hn
  byVPN a r hr := (h.byVPN a r hr).trans_le hn
  byEndpoint ep r hr := (h.byEndpoint ep r hr).trans_le hn
  byName name r hr := (h.byName name r hr).trans_le hn

theorem Allocated.alloc (h : t.Allocated n) (r : EntryRef) (e : Entry) :
    (t.alloc r e).Allocated n :=
  ⟨h.byID, h.byVPN, h.byEndpoint, h.byName⟩

theorem Allocated.unindex (h : t.Allocated n) (r : EntryRef) :
    (t.unindex toLower r).Allocated n where
  byID := h.byID
  byVPN := bounded_freeSlot h.byVPN _ _
  byEndpoint := bounded_ite (bounded_freeSlot h.byEndpoint _ _) h.byEndpoint
  byName := bounded_ite (bounded_freeSlot h.byName _ _) h.byName

theorem Allocated.evict (h : t.Allocated n) (id : PeerID) : (t.evict toLower id).Allocated n := by
  unfold Table.evict
  split
  · exact h.unindex _
  · exact h

theorem Allocated.upsert (h : t.Allocated n) (hr : r < n) :
    (t.upsert toLower r).1.Allocated n := by
  have he : (t.evict toLower (t.entry r).id).Allocated n := h.evict _
  unfold Table.upsert
  split
  · exact h
  · exact
      { byID := bounded_insert he.byID hr _
        byVPN := bounded_ite (bounded_insert he.byVPN hr _) he.byVPN
        byEndpoint := bounded_ite (bounded_insert he.byEndpoint hr _) he.byEndpoint
        byName := bounded_ite (bounded_insert he.byName hr _) he.byName }

theorem Allocated.remove (h : t.Allocated n) (id : PeerID) :
    (t.remove toLower id).Allocated n := by
  unfold Table.remove
  split
  · exact h
  · rename_i r hr
    have herase : { t with byID := t.byID.erase id }.Allocated n :=
      ⟨fun k r hk => h.byID k r (lookup_erase_eq_some.mp hk).2, h.byVPN, h.byEndpoint, h.byName⟩
    exact herase.unindex r

theorem Allocated.disown (h : t.Allocated n) (o : Option EntryRef) : (t.disown o).Allocated n := by
  cases o with
  | none => exact h
  | some r => exact ⟨h.byID, h.byVPN, h.byEndpoint, h.byName⟩

theorem Allocated.moveEndpoint (h : t.Allocated n) (hr : r < n) (ep : AddrPort) :
    (t.moveEndpoint r ep).Allocated n := by
  have hfree := bounded_ite (c := (t.entry r).endpoint.isValid = true)
    (bounded_freeSlot h.byEndpoint (t.entry r).endpoint r) h.byEndpoint
  exact ⟨h.byID, h.byVPN, bounded_ite (bounded_insert hfree hr _) hfree, h.byName⟩

theorem Allocated.setEndpoint (h : t.Allocated n) (id : PeerID) (ep : AddrPort) (claim : Bool) :
    (t.setEndpoint id ep claim).1.Allocated n := by
  unfold Table.setEndpoint
  split
  · exact h
  · rename_i r hr
    split
    · exact h
    · exact (h.disown _).moveEndpoint (h.byID id r hr) ep

end Allocation

end Table

end Veld.Peer
