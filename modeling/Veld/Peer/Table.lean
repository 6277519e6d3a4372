import Mathlib.Data.List.AList
import Veld.Core.Netip
import Veld.Session.Session

/-!
# Peer entries and the peer table

The entries and the sessions of the source are shared through pointers: the
indexes of the table, an entry's three session fields and the handlers all hold
references. Here a reference is a number and the table carries the memory behind
the references, so that two references to one entry are equal exactly when the
pointers are. The hold queue carries the bound `Enqueue` maintains.
-/

namespace Veld.Peer

open Netip

/-- An Ed25519 public key. -/
abbrev PeerID := BitVec 256

/-- A `*Entry`. -/
abbrev EntryRef := Nat

/-- A `*session.Session`. -/
abbrev SessionRef := Nat

/-- `HoldQueueMax`. -/
def holdQueueMax : Nat := 64

/-- The packets held for a peer, never more than fit. -/
def HoldQueue := { q : List Bytes // q.length ≤ holdQueueMax }

namespace HoldQueue

def empty : HoldQueue := ⟨[], Nat.zero_le _⟩

/-- There is room for one more packet. -/
def hasRoom (q : HoldQueue) : Bool := q.val.length < holdQueueMax

/-- A full queue does not take the packet. -/
def enqueue (q : HoldQueue) (pkt : Bytes) : HoldQueue × Bool :=
  if h : q.val.length < holdQueueMax then
    (⟨q.val ++ [pkt], by rw [List.length_append, List.length_singleton]; exact h⟩, true)
  else (q, false)

theorem mem_enqueue {q : HoldQueue} {pkt p : Bytes} (h : p ∈ (q.enqueue pkt).1.val) :
    p ∈ q.val ∨ (p = pkt ∧ q.hasRoom = true) := by
  by_cases hr : q.val.length < holdQueueMax
  · simp only [enqueue, hr, dite_true, List.mem_append, List.mem_singleton] at h
    exact h.imp_right fun he => ⟨he, by simpa only [hasRoom, decide_eq_true_eq] using hr⟩
  · simp only [enqueue, hr, dite_false] at h
    exact .inl h

end HoldQueue

/-- The connection state of a peer. -/
inductive State
  | statePending
  | stateHandshaking
  | stateConnected
  deriving DecidableEq, Repr

/-- One peer; the first five fields never change after insertion. -/
structure Entry where
  id : PeerID
  x25519Pub : BitVec 256 := 0
  vpnAddr : Addr
  name : String := ""
  subnetRoutes : List Prefix := []
  endpoint : AddrPort := {}
  session : Option SessionRef := none
  pendingSession : Option SessionRef := none
  prevSession : Option SessionRef := none
  state : State := .statePending
  lastSeen : Int := 0
  holdQueue : HoldQueue := .empty

namespace Entry

/-- The replaced session stays as the previous one. -/
def setSession (e : Entry) (s : Option SessionRef) : Entry :=
  { e with
    prevSession := if e.session.isSome && e.session != s then e.session else e.prevSession
    session := s
    state := .stateConnected }

def setPendingSession (e : Entry) (s : Option SessionRef) : Entry := { e with pendingSession := s }

/-- The pending session, if there is one, becomes the active one. -/
def promotePendingSession (e : Entry) : Entry :=
  if e.pendingSession.isSome then
    { e with
      prevSession := if e.session.isSome then e.session else e.prevSession
      session := e.pendingSession
      pendingSession := none
      state := .stateConnected }
  else e

def setEndpoint (e : Entry) (ep : AddrPort) : Entry := { e with endpoint := ep }

def setState (e : Entry) (s : State) : Entry := { e with state := s }

def touch (e : Entry) (now : Int) : Entry := { e with lastSeen := now }

/-- `Enqueue` without its result, which is whether the queue had room. -/
def enqueue (e : Entry) (pkt : Bytes) : Entry :=
  { e with holdQueue := (e.holdQueue.enqueue pkt).1 }

/-- `DrainQueue` without its result, which is the queue. -/
def drainQueue (e : Entry) : Entry := { e with holdQueue := .empty }

end Entry

/-- The peer table with the entries and sessions its references stand for. -/
structure Table where
  entry : EntryRef → Entry
  session : SessionRef → Session
  byID : AList fun _ : PeerID => EntryRef := ∅
  byVPN : AList fun _ : Addr => EntryRef := ∅
  byEndpoint : AList fun _ : AddrPort => EntryRef := ∅
  byName : AList fun _ : String => EntryRef := ∅

namespace Table

/-- One entry is changed in memory. -/
def modify (t : Table) (r : EntryRef) (f : Entry → Entry) : Table :=
  { t with entry := Function.update t.entry r (f (t.entry r)) }

/-- One session is changed in memory. -/
def setSessionAt (t : Table) (r : SessionRef) (s : Session) : Table :=
  { t with session := Function.update t.session r s }

def lookupByID (t : Table) (id : PeerID) : Option EntryRef := t.byID.lookup id

def lookupByVPN (t : Table) (addr : Addr) : Option EntryRef := t.byVPN.lookup addr

def lookupByEndpoint (t : Table) (ep : AddrPort) : Option EntryRef := t.byEndpoint.lookup ep

theorem entry_modify (t : Table) (r q : EntryRef) (f : Entry → Entry) :
    (t.modify r f).entry q = if q = r then f (t.entry q) else t.entry q := by
  by_cases h : q = r
  · subst h
    simp [modify]
  · simp [modify, h]

/-- The same peers under the same keys and addresses; sessions, queues and endpoints may differ. -/
structure SamePeers (t t' : Table) : Prop where
  byID : t'.byID = t.byID
  byVPN : t'.byVPN = t.byVPN
  id : ∀ r, (t'.entry r).id = (t.entry r).id
  vpnAddr : ∀ r, (t'.entry r).vpnAddr = (t.entry r).vpnAddr
  subnetRoutes : ∀ r, (t'.entry r).subnetRoutes = (t.entry r).subnetRoutes

/-- The same peers, reached by the same endpoints. -/
structure SameIndex (t t' : Table) : Prop extends SamePeers t t' where
  byEndpoint : t'.byEndpoint = t.byEndpoint

theorem SamePeers.refl (t : Table) : SamePeers t t :=
  ⟨rfl, rfl, fun _ => rfl, fun _ => rfl, fun _ => rfl⟩

theorem SamePeers.trans {t t' t'' : Table} (h : SamePeers t t') (h' : SamePeers t' t'') :
    SamePeers t t'' where
  byID := h'.byID.trans h.byID
  byVPN := h'.byVPN.trans h.byVPN
  id r := (h'.id r).trans (h.id r)
  vpnAddr r := (h'.vpnAddr r).trans (h.vpnAddr r)
  subnetRoutes r := (h'.subnetRoutes r).trans (h.subnetRoutes r)

theorem SameIndex.refl (t : Table) : SameIndex t t := ⟨.refl t, rfl⟩

theorem SameIndex.trans {t t' t'' : Table} (h : SameIndex t t') (h' : SameIndex t' t'') :
    SameIndex t t'' :=
  ⟨h.toSamePeers.trans h'.toSamePeers, h'.byEndpoint.trans h.byEndpoint⟩

theorem sameIndex_setSessionAt (t : Table) (r : SessionRef) (s : Session) :
    SameIndex t (t.setSessionAt r s) :=
  ⟨⟨rfl, rfl, fun _ => rfl, fun _ => rfl, fun _ => rfl⟩, rfl⟩

/-- A change of one entry that leaves its immutable fields alone. -/
theorem sameIndex_modify (t : Table) (r : EntryRef) {f : Entry → Entry}
    (hid : ∀ e, (f e).id = e.id) (hvpn : ∀ e, (f e).vpnAddr = e.vpnAddr)
    (hroutes : ∀ e, (f e).subnetRoutes = e.subnetRoutes) : SameIndex t (t.modify r f) := by
  refine ⟨⟨rfl, rfl, fun q => ?_, fun q => ?_, fun q => ?_⟩, rfl⟩
  all_goals
    rw [entry_modify]
    split
  · exact hid _
  · rfl
  · exact hvpn _
  · rfl
  · exact hroutes _
  · rfl

/-- The indexes agree with the entries: an endpoint leads to a current entry, and a current entry
is found by its VPN address. -/
structure Indexed (t : Table) : Prop where
  endpoint : ∀ ep r, t.lookupByEndpoint ep = some r → t.lookupByID (t.entry r).id = some r
  vpn : ∀ id r, t.lookupByID id = some r → (t.entry r).vpnAddr.isValid →
    t.lookupByVPN (t.entry r).vpnAddr = some r

theorem Indexed.sameIndex {t t' : Table} (h : t.Indexed) (ha : SameIndex t t') : t'.Indexed := by
  refine ⟨fun ep r he => ?_, fun id r hr hv => ?_⟩
  · rw [lookupByID, ha.byID, ha.id]
    rw [lookupByEndpoint, ha.byEndpoint] at he
    exact h.endpoint ep r he
  · rw [lookupByVPN, ha.byVPN, ha.vpnAddr]
    rw [lookupByID, ha.byID] at hr
    rw [ha.vpnAddr] at hv
    exact h.vpn id r hr hv

end Table

end Veld.Peer
