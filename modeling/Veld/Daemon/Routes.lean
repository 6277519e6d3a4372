import Veld.Client.Members
import Veld.Core.Run
import Veld.Route.Mirror

/-!
# Routes to the subnets of the peers

The callbacks `OnPeerAdded` and `OnPeerRemoved` that `internal/daemon/daemon.go`
gives to the client, as far as they install and remove routes. A JOIN adds the
routes of the new entry and leaves those of the replaced one, a LEAVE removes
the routes of the entry whoever else has them. So the routes follow the table
only while a peer repeats its routes with every JOIN and leaves no route that
another peer announces as well.
-/

namespace Veld

open Netip Peer Coord Route

/-- What the library functions compute that the daemon uses. -/
structure DaemonCodec extends Codec where
  /-- The `String` method of a prefix. -/
  prefixString : Prefix → String
  parseAddr : String → Option Addr

/-- A TUN device, as far as its address goes. -/
structure TunDev where
  /-- `Addr().Addr()`. -/
  addr : Addr
  /-- `Addr()`; all invalid prefixes are one. -/
  net : Prefix
  deriving DecidableEq

/-- The parts of a daemon that decide about routes. -/
structure Daemon where
  client : Client
  tunDev : Option TunDev := none
  routeMgr : Manager := {}

namespace Daemon

variable (cd : DaemonCodec)

/-- The mesh as `addPeerRoutes` sees it, the zero prefix without a TUN. -/
def mesh (d : Daemon) : Prefix :=
  match d.tunDev with
  | some tun => tun.net
  | none => .zero

/-- `addPeerRoutes`. The netlink calls succeed for the prefixes that `up` says. -/
def addPeerRoutes (up : Prefix → Bool) (d : Daemon) (e : Entry) : Daemon :=
  { d with
    routeMgr := d.routeMgr.addAll (fun pfx => Accepts cd.prefixString d.mesh pfx ∧ up pfx = true)
      e.vpnAddr e.subnetRoutes }

/-- `OnPeerRemoved`. -/
def onPeerRemoved (up : Prefix → Bool) (d : Daemon) (id : PeerID) : Daemon :=
  match d.client.current id with
  | some e => { d with routeMgr := d.routeMgr.removeAll (e.subnetRoutes.filter up) }
  | none => d

/-- `handleEvent` of the client with the callbacks of the daemon. -/
def handleEvent (up : Prefix → Bool) (d : Daemon) (myID : String) (ev : PeerEvent) : Daemon :=
  match ev.type, ev.peer with
  | .join, some p =>
    if p.id = myID then d
    else match cd.peerFromProto p with
    | some e =>
      let joined := { d with client := d.client.join cd.toCodec e }
      if d.client.takes cd.toCodec e then joined.addPeerRoutes cd up e else joined
    | none => d
  | .leave, some p =>
    if p.id = myID then d
    else match cd.hexToID p.id with
    | some id =>
      -- the callback still needs the entry
      let d := d.onPeerRemoved up id
      { d with client := d.client.leave cd.toCodec id }
    | none => d
  | _, _ => { d with client := d.client.handleEvent cd.toCodec myID ev }

/-- What the peers of the table announce: their addresses and routes. -/
def adverts (d : Daemon) (k : PeerID) : Option (Addr × List Prefix) :=
  (d.client.current k).map fun e => (e.vpnAddr, e.subnetRoutes)

end Daemon

namespace Coord

/-- How an event changes who is in the table. -/
inductive Membership
  | join (e : Entry)
  | leave (id : PeerID)

/-- The roster's view of such a change. -/
def Membership.toChange : Membership → Change PeerID Known
  | join e => .join e.id (e.vpnAddr, e.x25519Pub)
  | leave id => .leave id

/-- The change an event asks for. -/
def Codec.membership (cd : Codec) (myID : String) (ev : PeerEvent) : Option Membership :=
  match ev.type, ev.peer with
  | .join, some p => if p.id = myID then none else (cd.peerFromProto p).map .join
  | .leave, some p => if p.id = myID then none else (cd.hexToID p.id).map .leave
  | _, _ => none

theorem Codec.change_eq_map (cd : Codec) (myID : String) (ev : PeerEvent) :
    cd.change myID ev = (cd.membership myID ev).map Membership.toChange := by
  obtain ⟨type, peer, signal⟩ := ev
  cases peer with
  | none => cases type <;> rfl
  | some p =>
    by_cases hself : p.id = myID
    · cases type <;> simp [change, membership, hself]
    · cases type with
      | join =>
        simp only [change, membership, hself, ite_false, Option.map_map]
        rfl
      | leave =>
        simp only [change, membership, hself, ite_false, Option.map_map]
        rfl
      | endpointUpdate => rfl
      | routeUpdate => rfl
      | signal => rfl

/-- An event that asks for no change moves at most an endpoint. -/
theorem Client.map_current_handleEvent {α : Type} {f : Entry → α}
    (hf : ∀ e ep, f (e.setEndpoint ep) = f e) {cd : Codec} {c : Client} {myID : String}
    {ev : PeerEvent} (h : cd.membership myID ev = none) (k : PeerID) :
    ((c.handleEvent cd myID ev).current k).map f = (c.current k).map f := by
  have hchange : cd.change myID ev = none := by rw [cd.change_eq_map, h, Option.map_none]
  rcases handleEvent_cases cd c myID ev with
    ⟨e, -, -, hch⟩ | ⟨id, -, hch⟩ | ⟨⟨id, ep, heq⟩ | heq, -⟩
  · rw [hchange] at hch
    cases hch
  · rw [hchange] at hch
    cases hch
  · rw [heq, map_current_update hf]
  · rw [heq]

end Coord

namespace Daemon

variable {cd : DaemonCodec} {up : Prefix → Bool} {d : Daemon} {myID : String} {ev : PeerEvent}

/-- What the daemon does with an event, by the change the event asks for. -/
theorem handleEvent_eq :
    d.handleEvent cd up myID ev =
      match cd.membership myID ev with
      | some (.join e) =>
        let joined := { d with client := d.client.join cd.toCodec e }
        if d.client.takes cd.toCodec e then joined.addPeerRoutes cd up e else joined
      | some (.leave id) =>
        { d.onPeerRemoved up id with client := (d.onPeerRemoved up id).client.leave cd.toCodec id }
      | none => { d with client := d.client.handleEvent cd.toCodec myID ev } := by
  obtain ⟨type, peer, signal⟩ := ev
  cases peer with
  | none => cases type <;> rfl
  | some p =>
    by_cases hself : p.id = myID
    · cases type <;> simp [handleEvent, Codec.membership, Client.handleEvent, hself]
    · cases type with
      | join =>
        simp only [handleEvent, Codec.membership, Client.handleEvent, hself, ite_false]
        cases cd.peerFromProto p <;> rfl
      | leave =>
        simp only [handleEvent, Codec.membership, Client.handleEvent, hself, ite_false]
        cases cd.hexToID p.id <;> rfl
      | endpointUpdate => rfl
      | routeUpdate => rfl
      | signal => rfl

theorem client_onPeerRemoved (id : PeerID) : (d.onPeerRemoved up id).client = d.client := by
  unfold onPeerRemoved
  split <;> rfl

/-- The client of the daemon handles events as it does without callbacks. -/
theorem client_handleEvent :
    (d.handleEvent cd up myID ev).client = d.client.handleEvent cd.toCodec myID ev := by
  obtain ⟨type, peer, signal⟩ := ev
  cases peer with
  | none => cases type <;> rfl
  | some p =>
    by_cases hself : p.id = myID
    · cases type <;> simp [handleEvent, Client.handleEvent, hself]
    · cases type with
      | join =>
        simp only [handleEvent, Client.handleEvent, hself, ite_false]
        cases cd.peerFromProto p with
        | none => rfl
        | some e =>
          simp only
          split <;> rfl
      | leave =>
        simp only [handleEvent, Client.handleEvent, hself, ite_false]
        cases cd.hexToID p.id with
        | none => rfl
        | some id => simp only [client_onPeerRemoved]
      | endpointUpdate => rfl
      | routeUpdate => rfl
      | signal => rfl

theorem tunDev_handleEvent : (d.handleEvent cd up myID ev).tunDev = d.tunDev := by
  rw [handleEvent_eq]
  split
  · simp only
    split <;> rfl
  · show (d.onPeerRemoved up _).tunDev = d.tunDev
    unfold onPeerRemoved
    split <;> rfl
  · rfl

/-- The prefixes that may be installed beside the mesh of the daemon. -/
def Acceptable (cd : DaemonCodec) (d : Daemon) (pfx : Prefix) : Prop :=
  Accepts cd.prefixString d.mesh pfx

instance (cd : DaemonCodec) (d : Daemon) : DecidablePred (d.Acceptable cd) :=
  fun _ => inferInstanceAs (Decidable (Accepts ..))

/-- A repeated JOIN announces at least the routes of the entry it replaces, and a peer that leaves
shares no route with another one. -/
def Steady (cd : DaemonCodec) (d : Daemon) (i : String × PeerEvent) : Prop :=
  match cd.membership i.1 i.2 with
  | some (.join e) => d.client.takes cd.toCodec e = true →
    ∀ pfx via, Announces (d.Acceptable cd) d.adverts e.id pfx via →
      ∃ q ∈ e.subnetRoutes, d.Acceptable cd q ∧ q.masked = pfx.masked
  | some (.leave id) =>
    ∀ pfx via, Announces (d.Acceptable cd) d.adverts id pfx via →
      ¬Shared (d.Acceptable cd) d.adverts id pfx
  | none => True

/-- One event with netlink calls that succeed. -/
def next (cd : DaemonCodec) (d : Daemon) (i : String × PeerEvent) : Daemon :=
  d.handleEvent cd (fun _ => true) i.1 i.2

theorem adverts_join (cd : DaemonCodec) (d : Daemon) (e : Entry) :
    ({ d with client := d.client.join cd.toCodec e } : Daemon).adverts =
      if d.client.takes cd.toCodec e then
        Function.update d.adverts e.id (some (e.vpnAddr, e.subnetRoutes))
      else d.adverts := by
  funext k
  rw [adverts, Client.current_join]
  split
  · by_cases hk : k = e.id
    · rw [hk, Function.update_self, Function.update_self, Option.map_some]
    · rw [Function.update_of_ne hk, Function.update_of_ne hk, adverts]
  · rfl

theorem adverts_leave (cd : DaemonCodec) (d : Daemon) (id : PeerID) :
    ({ d with client := d.client.leave cd.toCodec id } : Daemon).adverts =
      Function.update d.adverts id none := by
  funext k
  rw [adverts, Client.current_leave]
  by_cases hk : k = id
  · rw [hk, Function.update_self, Function.update_self, Option.map_none]
  · rw [Function.update_of_ne hk, Function.update_of_ne hk, adverts]

/-- One event keeps the routes in step with the table. -/
theorem tracks_next {i : String × PeerEvent}
    (h : Tracks (d.Acceptable cd) d.adverts d.routeMgr) (hs : d.Steady cd i) :
    Tracks (d.Acceptable cd) (d.next cd i).adverts (d.next cd i).routeMgr := by
  rw [Steady] at hs
  rw [next, handleEvent_eq]
  cases hm : cd.membership i.1 i.2 with
  | none =>
    have hsame : ({ d with client := d.client.handleEvent cd.toCodec i.1 i.2 } : Daemon).adverts =
        d.adverts := funext fun k => Client.map_current_handleEvent (fun _ _ => rfl) hm k
    rw [hsame]
    exact h
  | some c =>
    rw [hm] at hs
    cases c with
    | join e =>
      have hadv := adverts_join cd d e
      by_cases htakes : d.client.takes cd.toCodec e = true
      · rw [if_pos htakes] at hadv
        have hall (pfx : Prefix) : d.Acceptable cd pfx ↔
            Accepts cd.prefixString d.mesh pfx ∧ true = true := (and_iff_left rfl).symm
        have hroutes := Manager.addAll_congr hall e.vpnAddr d.routeMgr e.subnetRoutes
        have hjoin := h.join e.vpnAddr (hs htakes)
        rw [hroutes, ← hadv] at hjoin
        simp only [htakes, ite_true]
        exact hjoin
      · rw [if_neg htakes] at hadv
        simp only [htakes, Bool.false_eq_true, ite_false, hadv]
        exact h
    | leave id =>
      have hadv := adverts_leave cd (d.onPeerRemoved (fun _ => true) id) id
      have hold : (d.onPeerRemoved (fun _ => true) id).adverts = d.adverts := by
        funext k
        rw [adverts, client_onPeerRemoved, adverts]
      rw [hold] at hadv
      show Tracks (d.Acceptable cd) ({ d.onPeerRemoved (fun _ => true) id with
        client := (d.onPeerRemoved (fun _ => true) id).client.leave cd.toCodec id } :
          Daemon).adverts (d.onPeerRemoved (fun _ => true) id).routeMgr
      rw [hadv]
      cases hcur : d.client.current id with
      | none =>
        have hA : d.adverts id = none := by rw [adverts, hcur, Option.map_none]
        simp only [onPeerRemoved, hcur]
        exact h.leave_of_none hA
      | some e =>
        have hA : d.adverts id = some (e.vpnAddr, e.subnetRoutes) := by
          rw [adverts, hcur, Option.map_some]
        simp only [onPeerRemoved, hcur, List.filter_true]
        exact h.leave hA hs

/-- While no repeated JOIN drops a route and no peer leaves a shared one, the kernel has exactly
the acceptable routes that the peers of the table announce, each through a peer that announces
it. -/
theorem routes_mirror (cd : DaemonCodec) (d : Daemon) (is : List (String × PeerEvent))
    (hnone : ∀ k pfx via, ¬Announces (d.Acceptable cd) d.adverts k pfx via)
    (hstart : d.routeMgr = {}) (hs : Along (next cd) (Steady cd) d is) :
    Mirrors (d.Acceptable cd) (run (next cd) d is).adverts (run (next cd) d is).routeMgr := by
  have hinv : (run (next cd) d is).tunDev = d.tunDev ∧
      Tracks (d.Acceptable cd) (run (next cd) d is).adverts (run (next cd) d is).routeMgr := by
    refine hs.keeps (fun d' => d'.tunDev = d.tunDev ∧
      Tracks (d.Acceptable cd) d'.adverts d'.routeMgr) ⟨rfl, ?_⟩ ?_
    · rw [hstart]
      exact
        { installed := nofun, announced := fun k pfx via h => absurd h (hnone k pfx via)
          acceptable := nofun, own := fun k pfx via h => absurd h (hnone k pfx via) }
    · rintro d' i ⟨htun, h⟩ hi
      -- the mesh is fixed, so the same prefixes are acceptable
      have hok : d'.Acceptable cd = d.Acceptable cd := by
        unfold Acceptable mesh
        rw [htun]
      rw [← hok] at h ⊢
      exact ⟨tunDev_handleEvent.trans htun, tracks_next h hi⟩
  exact hinv.2.toMirrors

end Daemon

namespace Sample

/-- 192.168.1.0/24. -/
def lan : Prefix := ⟨.v4 0xc0a80100, 24, by decide, rfl⟩

/-- 10.0.0.1/24, the address of a node in its mesh. -/
def tunPrefix : Prefix := ⟨.v4 0x0a000001, 24, by decide, rfl⟩

/-- A codec for peers with keys of their own: the key of a peer is the length of its text. All
routes are one prefix. -/
def routeCodec : DaemonCodec where
  decodeString text := some (List.replicate 32 (UInt8.ofNat text.length))
  decodeHex text := some (List.replicate 32 (UInt8.ofNat text.length))
  parseAddrPort _ := none
  parsePrefix _ := some lan
  toLower := id
  prefixString _ := "192.168.1.0/24"
  parseAddr _ := none

/-- The ID of a peer with a text of some length. -/
def idOf (n : UInt8) : PeerID := BitVec.ofNat 256 (Bytes.beNat (List.replicate 32 n))

/-- A daemon with the mesh 10.0.0.0/24 and no peers. -/
def routeDaemon : Daemon where
  client := Coord.Sample.emptyClient
  tunDev := some ⟨.v4 0x0a000001, tunPrefix⟩

def joins (id : String) (addr : BitVec 32) (routes : List String) : String × PeerEvent :=
  ("me", { type := .join, peer := some ⟨id, id, .v4 addr, id, id, "", routes⟩ })

def leaves (id : String) : String × PeerEvent :=
  ("me", { type := .leave, peer := some ⟨id, id, .zero, id, id, "", []⟩ })

end Sample

namespace Daemon

/-- Two peers announce one route: when one of them leaves, the route is gone. A peer repeats its
JOIN without a route and leaves: the route stays. -/
theorem routes_out_of_step :
    (let d := run (next Sample.routeCodec) Sample.routeDaemon
      [Sample.joins "a" 0x0a000002 ["r"], Sample.joins "bb" 0x0a000003 ["r"], Sample.leaves "a"]
     ¬Mirrors (Sample.routeDaemon.Acceptable Sample.routeCodec) d.adverts d.routeMgr) ∧
    (let d := run (next Sample.routeCodec) Sample.routeDaemon
      [Sample.joins "a" 0x0a000002 ["r"], Sample.joins "a" 0x0a000002 [], Sample.leaves "a"]
     ¬Mirrors (Sample.routeDaemon.Acceptable Sample.routeCodec) d.adverts d.routeMgr) := by
  refine ⟨fun h => ?_, fun h => ?_⟩
  · have hsome := h.announced (Sample.idOf 2) Sample.lan (.v4 0x0a000003)
      ⟨[Sample.lan], by decide +kernel, by decide, by decide +kernel⟩
    revert hsome
    decide +kernel
  · obtain ⟨k, pfx, via, ⟨pfxs, hA, -⟩, -⟩ :=
      h.installed Sample.lan (.v4 0x0a000002) (by decide +kernel)
    have hempty : (run (next Sample.routeCodec) Sample.routeDaemon [Sample.joins "a" 0x0a000002 ["r"],
        Sample.joins "a" 0x0a000002 [], Sample.leaves "a"]).client.table.byID = ∅ :=
      AList.ext (by decide +kernel)
    rw [adverts, Client.current, hempty] at hA
    cases hA

/-- A peer repeats its route from another address and leaves afterwards. -/
theorem routes_mirror_moved :
    let d := run (next Sample.routeCodec) Sample.routeDaemon
      [Sample.joins "a" 0x0a000002 ["r"], Sample.joins "a" 0x0a000004 ["r"], Sample.leaves "a"]
    Mirrors (Sample.routeDaemon.Acceptable Sample.routeCodec) d.adverts d.routeMgr := by
  refine routes_mirror _ _ _ ?_ rfl ?_
  · rintro k pfx via ⟨pfxs, hA, -⟩
    cases hA
  · simp only [along_cons, along_nil, and_true]
    refine ⟨?_, ?_, ?_⟩
    · rintro - pfx via ⟨pfxs, hA, -⟩
      cases hA
    · intro _ pfx via hann
      have hA : (next Sample.routeCodec Sample.routeDaemon
          (Sample.joins "a" 0x0a000002 ["r"])).adverts (Sample.idOf 1) =
            some (.v4 0x0a000002, [Sample.lan]) := by decide +kernel
      obtain rfl : pfx = Sample.lan := by simpa using (hann.of_some hA).2.1
      exact ⟨Sample.lan, by decide, by decide +kernel, rfl⟩
    · rintro pfx via - ⟨k, pfx', via', hk, ⟨pfxs, hA, -⟩, -⟩
      have hbyID : (next Sample.routeCodec (next Sample.routeCodec Sample.routeDaemon
          (Sample.joins "a" 0x0a000002 ["r"])) (Sample.joins "a" 0x0a000004 ["r"])).client.table.byID =
            (∅ : AList fun _ : PeerID => EntryRef).insert (Sample.idOf 1) 1 :=
        AList.ext (by decide +kernel)
      have hk : k ≠ Sample.idOf 1 := hk
      rw [adverts, Client.current, hbyID, AList.lookup_insert_ne hk] at hA
      cases hA

end Daemon

end Veld
