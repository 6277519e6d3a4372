import Veld.Client.Events
import Veld.Core.Roster
import Veld.Peer.Indexes

/-!
# The client's table as a roster

What an event does to the peer table, seen through the IDs, VPN addresses and keys
of the entries: a JOIN is refused when another peer has the address, a LEAVE drops
the entry, and all other events change nothing.
-/

namespace Veld.Coord

open Netip Peer

/-- What a client knows of a peer: its VPN address and its X25519 key. -/
abbrev Known := Addr × BitVec 256

namespace Codec

variable (cd : Codec)

/-- The change of the table that an event asks for. -/
def change (myID : String) (ev : PeerEvent) : Option (Change PeerID Known) :=
  match ev.type, ev.peer with
  | .join, some p =>
    if p.id = myID then none
    else (cd.peerFromProto p).map fun e => .join e.id (e.vpnAddr, e.x25519Pub)
  | .leave, some p => if p.id = myID then none else (cd.hexToID p.id).map .leave
  | _, _ => none

/-- The changes some events ask for. -/
def changes (myID : String) (evs : List PeerEvent) : List (Change PeerID Known) :=
  evs.filterMap (cd.change myID)

variable {cd} {myID : String} {evs evs' : List PeerEvent}

theorem changes_append :
    cd.changes myID (evs ++ evs') = cd.changes myID evs ++ cd.changes myID evs' :=
  List.filterMap_append

theorem changes_cons (ev : PeerEvent) :
    cd.changes myID (ev :: evs) = (cd.change myID ev).toList ++ cd.changes myID evs := by
  rw [changes, List.filterMap_cons]
  cases cd.change myID ev <;> rfl

end Codec

namespace Client

/-- The entry each peer has in the table. -/
def current (c : Client) : PeerID → Option Entry := fun k =>
  (c.table.byID.lookup k).map c.table.entry

/-- What `Upsert` says to a new entry. -/
def takes (cd : Codec) (c : Client) (e : Entry) : Bool :=
  ((c.table.alloc c.nextRef e).upsert cd.toLower c.nextRef).2

/-- The peers of the table. -/
def members (c : Client) : Roster PeerID Known := fun k =>
  (c.table.byID.lookup k).map fun r => ((c.table.entry r).vpnAddr, (c.table.entry r).x25519Pub)

/-- A client that knows no peers. -/
def new (entry : EntryRef → Entry) (session : SessionRef → Session) : Client where
  table := { entry, session }
  nextRef := 0
  allocated := { byID := nofun, byVPN := nofun, byEndpoint := nofun, byName := nofun }

variable {cd : Codec} {c : Client} {e : Entry} {k : PeerID} {v : Known}

theorem members_eq_some : c.members k = some v ↔ ∃ r, c.table.byID.lookup k = some r ∧
    (c.table.entry r).vpnAddr = v.1 ∧ (c.table.entry r).x25519Pub = v.2 := by
  simp [members, Prod.ext_iff]

theorem members_eq_map (k : PeerID) :
    c.members k = (c.current k).map fun e => (e.vpnAddr, e.x25519Pub) := by
  rw [members, current, Option.map_map]
  rfl

theorem takes_eq_not_refuses :
    c.takes cd e = !(c.table.alloc c.nextRef e).refuses c.nextRef := by
  rw [takes, Table.upsert]
  cases (c.table.alloc c.nextRef e).refuses c.nextRef <;> rfl

/-- A new entry becomes the one of its peer unless it is refused. -/
theorem current_join :
    (c.join cd e).current =
      if c.takes cd e then Function.update c.current e.id (some e) else c.current := by
  have hsame (k : PeerID) : (c.table.byID.lookup k).map (c.table.alloc c.nextRef e).entry =
      c.current k :=
    Option.map_congr fun r hr => entry_alloc (c.allocated.byID k r hr) e
  have htable : (c.join cd e).table =
      ((c.table.alloc c.nextRef e).upsert cd.toLower c.nextRef).1 := rfl
  funext k
  rw [takes_eq_not_refuses, current, htable, Table.upsert]
  cases (c.table.alloc c.nextRef e).refuses c.nextRef with
  | true => exact hsame k
  | false =>
    simp only [Bool.false_eq_true, ite_false, Bool.not_false, ite_true, Table.byID_place,
      Table.entry_place, entry_alloc_self]
    by_cases hk : k = e.id
    · rw [hk, AList.lookup_insert, Function.update_self, Option.map_some, entry_alloc_self]
    · rw [AList.lookup_insert_ne hk, Function.update_of_ne hk]
      exact hsame k

theorem current_leave (id : PeerID) :
    (c.leave cd id).current = Function.update c.current id none := by
  funext k
  rw [current, leave]
  cases hl : c.table.byID.lookup id with
  | none =>
    simp only [Table.remove, hl]
    by_cases hk : k = id
    · rw [hk, Function.update_self, hl]
      rfl
    · rw [Function.update_of_ne hk]
      rfl
  | some r =>
    simp only [Table.remove, hl, Table.unindex]
    by_cases hk : k = id
    · rw [hk, Function.update_self, AList.lookup_erase]
      rfl
    · rw [Function.update_of_ne hk, AList.lookup_erase_ne hk]
      rfl

/-- Whatever does not depend on the endpoint outlives an update of it. -/
theorem map_current_update {α : Type} {f : Entry → α} (hf : ∀ e ep, f (e.setEndpoint ep) = f e)
    (id : PeerID) (ep : AddrPort) (k : PeerID) :
    ((c.update id ep).current k).map f = (c.current k).map f := by
  have hid : (c.update id ep).table.byID = c.table.byID := Table.byID_setEndpoint id false
  rw [current, current, hid, Option.map_map, Option.map_map]
  refine Option.map_congr fun r _ => ?_
  obtain ⟨ep', hr⟩ := Table.entry_setEndpoint c.table ep id false r
  have hr : (c.update id ep).table.entry r = (c.table.entry r).setEndpoint ep' := hr
  rw [Function.comp_apply, hr, hf, Function.comp_apply]

/-- Another peer has an address exactly when the VPN index says so. -/
theorem occupied_iff (h : c.table.Consistent cd.toLower) (hv : v.1.isValid = true) :
    Roster.Occupied Prod.fst c.members k v ↔
      c.table.mayTake (c.table.lookupByVPN v.1) k = false := by
  constructor
  · rintro ⟨k', v', hne, hk', haddr⟩
    obtain ⟨r, hr, hr₁, -⟩ := members_eq_some.mp hk'
    have hfound := h.found k' r hr (by rw [hr₁, haddr, hv])
    rw [hr₁, haddr] at hfound
    rw [Table.lookupByVPN, hfound, Table.mayTake, Option.all_some, decide_eq_false_iff_not,
      h.id k' r hr]
    exact hne
  · intro hmay
    cases hl : c.table.lookupByVPN v.1 with
    | none =>
      rw [hl] at hmay
      cases hmay
    | some r =>
      rw [hl, Table.mayTake, Option.all_some, decide_eq_false_iff_not] at hmay
      obtain ⟨hkey, hcur⟩ := h.vpn v.1 r hl
      rw [Entry.vpnKey] at hkey
      split at hkey
      · exact ⟨(c.table.entry r).id, ((c.table.entry r).vpnAddr, (c.table.entry r).x25519Pub), hmay,
          members_eq_some.mpr ⟨r, hcur, rfl, rfl⟩, Option.some.inj hkey⟩
      · cases hkey

theorem members_join (h : c.table.Consistent cd.toLower) (hv : e.vpnAddr.isValid = true) :
    (c.join cd e).members =
      Roster.apply Prod.fst c.members (.join e.id (e.vpnAddr, e.x25519Pub)) := by
  have hocc := occupied_iff (k := e.id) (v := (e.vpnAddr, e.x25519Pub)) h hv
  have htakes : c.takes cd e = c.table.mayTake (c.table.lookupByVPN e.vpnAddr) e.id := by
    rw [takes_eq_not_refuses, refuses_alloc hv, Bool.not_not]
  funext k
  rw [members_eq_map, current_join, htakes]
  cases hmay : c.table.mayTake (c.table.lookupByVPN e.vpnAddr) e.id with
  | false =>
    rw [Roster.apply, if_pos (hocc.mpr hmay), members_eq_map]
    rfl
  | true =>
    have hfree : ¬Roster.Occupied Prod.fst c.members e.id (e.vpnAddr, e.x25519Pub) := by
      rw [hocc, hmay]
      exact Bool.noConfusion
    rw [Roster.apply_join_of_not hfree, if_pos rfl]
    by_cases hk : k = e.id
    · rw [hk, Function.update_self, Function.update_self, Option.map_some]
    · rw [Function.update_of_ne hk, Function.update_of_ne hk, members_eq_map]

theorem members_leave (id : PeerID) :
    (c.leave cd id).members = Roster.apply Prod.fst c.members (.leave id) := by
  funext k
  rw [Roster.apply, members_eq_map, current_leave]
  by_cases hk : k = id
  · rw [hk, Function.update_self, Function.update_self, Option.map_none]
  · rw [Function.update_of_ne hk, Function.update_of_ne hk, members_eq_map]

theorem members_update (id : PeerID) (ep : AddrPort) : (c.update id ep).members = c.members := by
  funext k
  rw [members_eq_map, members_eq_map, map_current_update fun _ _ => rfl]

/-- What an event does to a client, by what it asks for. -/
theorem handleEvent_cases (cd : Codec) (c : Client) (myID : String) (ev : PeerEvent) :
    (∃ e, e.vpnAddr.isValid = true ∧ c.handleEvent cd myID ev = c.join cd e ∧
        cd.change myID ev = some (.join e.id (e.vpnAddr, e.x25519Pub))) ∨
      (∃ id, c.handleEvent cd myID ev = c.leave cd id ∧ cd.change myID ev = some (.leave id)) ∨
      ((∃ id ep, c.handleEvent cd myID ev = c.update id ep) ∨ c.handleEvent cd myID ev = c) ∧
        cd.change myID ev = none := by
  obtain ⟨type, peer, signal⟩ := ev
  cases peer with
  | none => cases type <;> exact .inr (.inr ⟨.inr rfl, rfl⟩)
  | some p =>
    by_cases hself : p.id = myID
    · refine .inr (.inr ⟨.inr ?_, ?_⟩)
      · cases type <;> simp [handleEvent, hself]
      · cases type <;> simp [Codec.change, hself]
    · cases type with
      | join =>
        cases hp : cd.peerFromProto p with
        | none =>
          exact .inr (.inr ⟨.inr (by simp [handleEvent, hself, hp]),
            by simp [Codec.change, hself, hp]⟩)
        | some e =>
          obtain ⟨id, x, -, -, hv, he⟩ := Codec.peerFromProto_eq_some.mp hp
          refine .inl ⟨e, by rw [he, hv], ?_, ?_⟩
          · simp [handleEvent, hself, hp]
          · simp [Codec.change, hself, hp]
      | leave =>
        cases hid : cd.hexToID p.id with
        | none =>
          exact .inr (.inr ⟨.inr (by simp [handleEvent, hself, hid]),
            by simp [Codec.change, hself, hid]⟩)
        | some id =>
          refine .inr (.inl ⟨id, ?_, ?_⟩)
          · simp [handleEvent, hself, hid]
          · simp [Codec.change, hself, hid]
      | endpointUpdate =>
        refine .inr (.inr ⟨?_, rfl⟩)
        simp only [handleEvent, hself, ite_false]
        split
        · exact .inr rfl
        · split
          · exact .inl ⟨_, _, rfl⟩
          · exact .inr rfl
      | routeUpdate =>
        exact .inr (.inr ⟨.inr (by simp [handleEvent, hself]), rfl⟩)
      | signal => exact .inr (.inr ⟨.inr rfl, rfl⟩)

/-- An event changes the roster of a client as it asks for. -/
theorem members_handleEvent (h : c.table.Consistent cd.toLower) (myID : String) (ev : PeerEvent) :
    (c.handleEvent cd myID ev).members =
      Roster.replay Prod.fst c.members (cd.change myID ev).toList := by
  rcases handleEvent_cases cd c myID ev with
    ⟨e, hv, heq, hch⟩ | ⟨id, heq, hch⟩ | ⟨⟨id, ep, heq⟩ | heq, hch⟩
  · rw [heq, hch, members_join h hv]
    rfl
  · rw [heq, hch, members_leave]
    rfl
  · rw [heq, hch, members_update]
    rfl
  · rw [heq, hch]
    rfl

/-- The indexes stay consistent. -/
theorem consistent_handleEvent (h : c.table.Consistent cd.toLower) (myID : String)
    (ev : PeerEvent) : (c.handleEvent cd myID ev).table.Consistent cd.toLower := by
  rcases handleEvent_cases cd c myID ev with
    ⟨e, -, heq, -⟩ | ⟨id, heq, -⟩ | ⟨⟨id, ep, heq⟩ | heq, -⟩
  · rw [heq]
    exact (h.alloc c.allocated e).upsert
  · rw [heq]
    exact h.remove id
  · rw [heq]
    exact h.setEndpoint id false
  · rw [heq]
    exact h

theorem consistent_new (entry : EntryRef → Entry) (session : SessionRef → Session) :
    (new entry session).table.Consistent cd.toLower :=
  { id := nofun, vpn := nofun, endpoint := nofun, name := nofun, found := nofun }

end Client

end Veld.Coord
