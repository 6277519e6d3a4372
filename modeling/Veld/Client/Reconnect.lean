import Veld.Client.Directory

/-!
# A client over many streams

A client that watches a network of the coordinator. Its stream may break at any
time, on either side, and `registerAndWatch` opens another one: the peer table is
kept, and the new stream starts with a snapshot. What the client has not handled
yet, together with the events in progress on the server, leads from its table to
the registry, as long as nobody it knew left while it was away.
-/

namespace Veld.Coord

open Netip Peer

/-- A client and the coordinator it watches. -/
structure Link where
  coord : Coordinator
  client : Client
  /-- The number of the current stream on the server. -/
  stream : Option Nat := none
  /-- How many events of the stream were handled. -/
  handled : Nat := 0

inductive LinkStep
  /-- Any step of the coordinator. -/
  | coord (i : CoordStep)
  /-- A new stream is opened when there is none. -/
  | connect
  /-- The client receives and handles the next event of its stream. -/
  | handle
  /-- The stream breaks. -/
  | disconnect

namespace Link

/-- A new server and a client that knows no peers. -/
def new (entry : EntryRef → Entry) (session : SessionRef → Session) : Link where
  coord := .new
  client := .new entry session

/-- The client's stream on the server. -/
def watcher? (l : Link) : Option Watcher := l.stream.bind (l.coord.watchers[·]?)

variable (simpleFold : Char → Char) (cf : ClientConfig)

def next (l : Link) : LinkStep → Link
  | .coord i => { l with coord := l.coord.next simpleFold i }
  | .connect =>
    match l.stream with
    | some _ => l
    | none =>
      { l with
        coord := l.coord.next simpleFold (.subscribe cf.networkID cf.myID)
        stream := some l.coord.watchers.length
        handled := 0 }
  | .handle =>
    match l.watcher?.bind (·.received[l.handled]?) with
    | some ev =>
      { l with client := l.client.handleEvent cf.codec cf.myID ev, handled := l.handled + 1 }
    | none => l
  | .disconnect => { l with stream := none }

/-- All registering peers send well-formed records. -/
def WellCoded (_ : Link) : LinkStep → Prop
  | .coord (.commit op) => cf.WellCoded op
  | _ => True

/-- `ListPeers` returns another peer with this key, address and X25519 key. -/
def Lists (l : Link) (k : PeerID) (v : Known) : Prop :=
  ∃ rec ∈ l.coord.registry.listPeers cf.networkID, cf.Shows rec.identity k v

/-- The table has an entry with this key, address and X25519 key. -/
def Holds (l : Link) (k : PeerID) (v : Known) : Prop :=
  ∃ r, l.client.table.lookupByID k = some r ∧ (l.client.table.entry r).id = k ∧
    (l.client.table.entry r).vpnAddr = v.1 ∧ (l.client.table.entry r).x25519Pub = v.2

/-- The events of the network are published in the order of the transactions and to no full
channel, and a stream is opened only while all peers of the table are stored with the addresses and
keys they have there. -/
def Unmissed (l : Link) : LinkStep → Prop
  | .coord i => l.coord.NoneFull i ∧ match i with
    | .perform k => ∀ a ∈ l.coord.calls.next? k, a.publishesTo cf.networkID = true →
        l.coord.calls.IsOldest (Action.publishesTo cf.networkID) k
    | _ => True
  | .connect => ∀ r ∈ values l.client.table.byID,
      Lists cf l (l.client.table.entry r).id
        ((l.client.table.entry r).vpnAddr, (l.client.table.entry r).x25519Pub)
  | _ => True

/-- The client handled all events of its open stream, and no call is in progress. -/
structure Settled (l : Link) (w : Watcher) : Prop where
  idle : l.coord.Idle
  watcher : l.watcher? = some w
  isOpen : w.isOpen = true
  phase : w.phase = .sending []
  queue : w.queue = []
  handled : l.handled = w.received.length

/-- The changes the server has yet to publish to the network. -/
def pending (l : Link) : List (Change PeerID Known) :=
  cf.changes ((l.coord.calls.left (Action.publishesTo cf.networkID)).filterMap Action.event?)

/-- What a stream has in store leads from the client's table to the registry; before its snapshot
was taken, the client is only behind. -/
def Follows (l : Link) (w : Watcher) : Prop :=
  match w.phase with
  | .subscribed =>
    w.received = [] ∧ Roster.Behind Prod.fst l.client.members
      (cf.changes w.queue ++ l.pending cf) (cf.roster l.coord.registry)
  | _ =>
    Roster.replay Prod.fst l.client.members
      (cf.changes (w.received.drop l.handled ++ w.upcoming ++ w.queue) ++ l.pending cf) =
        cf.roster l.coord.registry

/-- The client's stream on the server. -/
structure Serves (l : Link) (w : Watcher) : Prop where
  networkID : w.networkID = cf.networkID
  peerID : w.peerID = cf.myID
  handled : l.handled ≤ w.received.length
  follows : w.isOpen = true → l.Follows cf w

/-- The invariant of all runs. -/
structure Tracks (l : Link) : Prop where
  orderly : cf.Orderly l.coord.registry
  consistent : l.client.table.Consistent cf.codec.toLower
  pending : Roster.Behind Prod.fst (fun _ => none) (l.pending cf) (cf.roster l.coord.registry)
  stream : ∀ i, l.stream = some i → ∃ w, l.coord.watchers[i]? = some w ∧ l.Serves cf w

variable {simpleFold} {cf} {l : Link} {w : Watcher} {k : PeerID} {v : Known}

theorem holds_iff (h : l.Tracks cf) : l.Holds k v ↔ l.client.members k = some v := by
  rw [Holds, Client.members_eq_some]
  refine exists_congr fun r => and_congr_right fun hr => and_iff_right ?_
  exact h.consistent.id k r hr

theorem lists_iff (h : l.Tracks cf) : l.Lists cf k v ↔ cf.roster l.coord.registry k = some v := by
  rw [h.orderly.roster_iff, Lists, Registry.listPeers, Registry.applyEndpoints]
  simp only [List.mem_map, exists_exists_and_eq_and]
  rfl

theorem tracks_new (entry : EntryRef → Entry) (session : SessionRef → Session) :
    (new entry session).Tracks cf where
  orderly := ClientConfig.orderly_empty
  consistent := Client.consistent_new entry session
  pending := Roster.behind_nil ClientConfig.orderly_empty.exclusive
  stream := nofun

/-- Once the snapshot was taken, all that is in store leads to the registry. -/
theorem follows_of_ne (hp : w.phase ≠ .subscribed) : l.Follows cf w ↔
    Roster.replay Prod.fst l.client.members
      (cf.changes (w.received.drop l.handled ++ w.upcoming ++ w.queue) ++ l.pending cf) =
        cf.roster l.coord.registry := by
  unfold Follows
  split
  · rename_i h
    exact absurd h hp
  · exact Iff.rfl

theorem follows_of_eq (hp : w.phase = .subscribed) : l.Follows cf w ↔
    w.received = [] ∧ Roster.Behind Prod.fst l.client.members
      (cf.changes w.queue ++ l.pending cf) (cf.roster l.coord.registry) := by
  rw [Follows, hp]

/-- More changes are made and are yet to be published. -/
theorem Follows.append {l' : Link} {new : List (Change PeerID Known)} (h : l.Follows cf w)
    (hclient : l'.client = l.client) (hhandled : l'.handled = l.handled)
    (hpending : l'.pending cf = l.pending cf ++ new)
    (hlawful : Roster.Lawful Prod.fst (cf.roster l.coord.registry) new)
    (hroster : cf.roster l'.coord.registry =
      Roster.replay Prod.fst (cf.roster l.coord.registry) new) : l'.Follows cf w := by
  by_cases hp : w.phase = .subscribed
  · rw [follows_of_eq hp] at h ⊢
    refine ⟨h.1, ?_⟩
    rw [hclient, hpending, hroster, ← List.append_assoc]
    exact h.2.append hlawful
  · rw [follows_of_ne hp] at h ⊢
    rw [hclient, hhandled, hpending, hroster, ← List.append_assoc, Roster.replay_append, h]

theorem Tracks.commit {op : Op} (h : l.Tracks cf) (hop : cf.WellCoded op) :
    (l.next simpleFold cf (.coord (.commit op))).Tracks cf := by
  have hout := Registry.outcome simpleFold h.orderly.keyed op
  obtain ⟨hlawful, hroster⟩ := h.orderly.changes_commit hop hout
  have hpending : (l.next simpleFold cf (.coord (.commit op))).pending cf =
      l.pending cf ++ cf.changes (cf.news (l.coord.registry.followUp simpleFold op)) := by
    rw [Link.pending, Link.pending, ClientConfig.news, ← ClientConfig.changes_append,
      ← List.filterMap_append, ← Backlog.left_append]
    rfl
  have hregistry : cf.roster (l.next simpleFold cf (.coord (.commit op))).coord.registry =
      Roster.replay Prod.fst (cf.roster l.coord.registry)
        (cf.changes (cf.news (l.coord.registry.followUp simpleFold op))) := hroster
  refine ⟨h.orderly.commit hop, h.consistent, ?_, fun i hi => ?_⟩
  · rw [hpending, hregistry]
    exact h.pending.append hlawful
  · obtain ⟨w, hw, hs⟩ := h.stream i hi
    exact ⟨w, hw, hs.networkID, hs.peerID, hs.handled,
      fun hopen => (hs.follows hopen).append rfl rfl hpending hlawful hregistry⟩

/-- The event that is published next is the first one pending in the network. -/
theorem pending_advance (simpleFold : Char → Char) {k : Nat} {a : Action} (ha : l.coord.calls.next? k = some a)
    (hin : a.publishesTo cf.networkID = true →
      l.coord.calls.IsOldest (Action.publishesTo cf.networkID) k) :
    l.pending cf = cf.changes (cf.news [a]) ++
      (l.next simpleFold cf (.coord (.perform k))).pending cf := by
  have hcalls : (l.next simpleFold cf (.coord (.perform k))).coord.calls =
      l.coord.calls.advance k := by
    simp only [next, Coordinator.next, ha]
  rw [pending, pending, hcalls, ClientConfig.news, ← ClientConfig.changes_append,
    ← List.filterMap_append, ← Backlog.left_advance ha hin]

/-- A step that moves an event from the pending ones to the queue, or does nothing. -/
theorem Follows.congr {l' : Link} {w' : Watcher} (h : l.Follows cf w)
    (hclient : l'.client = l.client) (hhandled : l'.handled = l.handled)
    (hroster : cf.roster l'.coord.registry = cf.roster l.coord.registry)
    (hphase : w'.phase = w.phase) (hreceived : w'.received = w.received)
    (hupcoming : w'.upcoming = w.upcoming)
    (hqueue : cf.changes w'.queue ++ l'.pending cf = cf.changes w.queue ++ l.pending cf) :
    l'.Follows cf w' := by
  by_cases hp : w.phase = .subscribed
  · rw [follows_of_eq hp] at h
    rw [follows_of_eq (hphase.trans hp), hreceived, hclient, hqueue, hroster]
    exact h
  · rw [follows_of_ne hp, ClientConfig.changes_append, List.append_assoc] at h
    rw [follows_of_ne (by rwa [hphase]), hreceived, hupcoming, hclient, hhandled,
      ClientConfig.changes_append, List.append_assoc, hqueue, hroster]
    exact h

theorem changes_offer {m : String} {ev : PeerEvent} {rest : List (Change PeerID Known)}
    (hopen : w.isOpen = true) (hnet : w.networkID = cf.networkID)
    (hfull : w.subscribes m = true → w.queue.length < channelCap) :
    cf.changes (w.offer m ev).queue ++ rest =
      cf.changes w.queue ++ (cf.changes (cf.news [.publish m ev]) ++ rest) := by
  by_cases hm : m = cf.networkID
  · have hsub : w.subscribes m = true := by simp [Watcher.subscribes, hopen, hnet, hm]
    have hnews : cf.news [.publish m ev] = [ev] := by
      simp [ClientConfig.news, Action.publishesTo, Action.network?, Action.event?, hm]
    have hoffer : (w.offer m ev).queue = w.queue ++ [ev] := by
      simp [Watcher.offer, hsub, hfull hsub]
    rw [hnews, hoffer, ClientConfig.changes_append, List.append_assoc]
  · have hnews : cf.news [.publish m ev] = [] := by
      simp [ClientConfig.news, Action.publishesTo, Action.network?, hm]
    have hoffer : (w.offer m ev).queue = w.queue := by
      simp [Watcher.offer, Watcher.subscribes, hnet, Ne.symm hm]
    rw [hnews, hoffer]
    rfl

theorem Tracks.perform {k : Nat} (h : l.Tracks cf)
    (hcond : l.Unmissed cf (.coord (.perform k))) :
    (l.next simpleFold cf (.coord (.perform k))).Tracks cf := by
  cases ha : l.coord.calls.next? k with
  | none =>
    have hsame : l.next simpleFold cf (.coord (.perform k)) = l := by
      simp only [next, Coordinator.next, ha]
    rw [hsame]
    exact h
  | some a =>
    have hpending := pending_advance simpleFold ha (hcond.2 a ha)
    have hcoord : (l.next simpleFold cf (.coord (.perform k))).coord =
        { l.coord.act a with calls := l.coord.calls.advance k } := by
      simp only [next, Coordinator.next, ha]
    have hidentity (id : String) :
        (l.next simpleFold cf (.coord (.perform k))).coord.registry.identityOf id =
          l.coord.registry.identityOf id := by
      rw [hcoord]
      exact Coordinator.identityOf_act a id
    have hroster : cf.roster (l.next simpleFold cf (.coord (.perform k))).coord.registry =
        cf.roster l.coord.registry := funext fun k => ClientConfig.roster_congr (hidentity _)
    refine ⟨h.orderly.congr hidentity, h.consistent, ?_, fun i hi => ?_⟩
    · have hbehind := h.pending
      rw [hpending] at hbehind
      rw [hroster]
      exact hbehind.of_append
    · obtain ⟨w, hw, hs⟩ := h.stream i hi
      cases a with
      | publish m ev =>
        obtain ⟨hnet, hpeer, hphase, hopen⟩ := w.offer_eq m ev
        refine ⟨w.offer m ev, ?_, ?_⟩
        · rw [hcoord]
          show (l.coord.watchers.map (·.offer m ev))[i]? = _
          rw [List.getElem?_map, hw]
          rfl
        · refine ⟨hnet.trans hs.networkID, hpeer.trans hs.peerID, ?_, fun ho => ?_⟩
          · unfold Watcher.offer
            split <;> exact hs.handled
          · rw [hopen] at ho
            refine (hs.follows ho).congr rfl rfl hroster hphase ?_ ?_ ?_
            · unfold Watcher.offer
              split <;> rfl
            · unfold Watcher.offer
              split <;> rfl
            · rw [hpending]
              exact changes_offer ho hs.networkID
                (hcond.1 _ ha m rfl w (List.mem_of_getElem? hw))
      | setEndpoint id ep =>
        exact ⟨w, by rw [hcoord]; exact hw, hs.networkID, hs.peerID, hs.handled,
          fun ho => (hs.follows ho).congr rfl rfl hroster rfl rfl rfl (by rw [hpending]; rfl)⟩
      | dropEndpoint id =>
        exact ⟨w, by rw [hcoord]; exact hw, hs.networkID, hs.peerID, hs.handled,
          fun ho => (hs.follows ho).congr rfl rfl hroster rfl rfl rfl (by rw [hpending]; rfl)⟩

/-- A step of an open stream, perhaps the client's. -/
theorem Tracks.modify (h : l.Tracks cf) (i : Nat) {f : Watcher → Watcher}
    (hf : ∀ w, w.isOpen = true → l.Serves cf w → l.Serves cf (f w)) :
    Tracks cf { l with coord := l.coord.modify i f } := by
  refine ⟨h.orderly, h.consistent, h.pending, fun j hj => ?_⟩
  obtain ⟨w, hw, hs⟩ := h.stream j hj
  have hget : (l.coord.modify i f).watchers[j]? =
      some (if i = j then if w.isOpen then f w else w else w) := by
    rw [Coordinator.modify, List.getElem?_modify, hw]
    split <;> rfl
  refine ⟨_, hget, ?_⟩
  have hserves : l.Serves cf (if i = j then if w.isOpen then f w else w else w) := by
    split
    · split
      · rename_i hopen
        exact hf w hopen hs
      · exact hs
    · exact hs
  exact ⟨hserves.networkID, hserves.peerID, hserves.handled, hserves.follows⟩

/-- The snapshot is taken while the client is behind by what is queued and pending. -/
theorem Serves.list (h : l.Serves cf w) (horderly : cf.Orderly l.coord.registry)
    (hopen : w.isOpen = true) : l.Serves cf (w.list l.coord.registry) := by
  cases hp : w.phase with
  | listed peers => simpa only [Watcher.list, hp] using h
  | sending rest => simpa only [Watcher.list, hp] using h
  | subscribed =>
    have hfollows := h.follows hopen
    rw [follows_of_eq hp] at hfollows
    obtain ⟨hreceived, hbehind⟩ := hfollows
    rw [Watcher.list, hp]
    refine ⟨h.networkID, h.peerID, h.handled, fun _ => ?_⟩
    rw [follows_of_ne Phase.noConfusion]
    simp only [Watcher.upcoming, hreceived, List.drop_nil, List.nil_append, h.peerID, h.networkID]
    rw [ClientConfig.changes_append, ClientConfig.changes_snapshotEvents, List.append_assoc]
    exact hbehind.replay_members fun k v => horderly.mem_listed

/-- A step of the stream that keeps what it has in store. -/
theorem Serves.of_store {w' : Watcher} (h : l.Serves cf w) (hnet : w'.networkID = w.networkID)
    (hpeer : w'.peerID = w.peerID) (hopen : w.isOpen = true)
    (hlen : w.received.length ≤ w'.received.length) (hp : w.phase ≠ .subscribed)
    (hp' : w'.phase ≠ .subscribed)
    (hstore : cf.changes (w'.received.drop l.handled ++ w'.upcoming ++ w'.queue) =
      cf.changes (w.received.drop l.handled ++ w.upcoming ++ w.queue)) : l.Serves cf w' := by
  refine ⟨hnet.trans h.networkID, hpeer.trans h.peerID, h.handled.trans hlen, fun _ => ?_⟩
  have hfollows := h.follows hopen
  rw [follows_of_ne hp] at hfollows
  rw [follows_of_ne hp', hstore]
  exact hfollows

theorem Serves.fill (h : l.Serves cf w) (hopen : w.isOpen = true) :
    l.Serves cf (w.fill l.coord.registry) := by
  cases hp : w.phase with
  | subscribed => simpa only [Watcher.fill, hp] using h
  | sending rest => simpa only [Watcher.fill, hp] using h
  | listed peers =>
    rw [Watcher.fill, hp]
    refine h.of_store rfl rfl hopen le_rfl (by rw [hp]; exact Phase.noConfusion)
      Phase.noConfusion ?_
    simp only [Watcher.upcoming, hp, ClientConfig.changes_append, h.peerID,
      ClientConfig.changes_snapshotEvents, ClientConfig.listed_applyEndpoints]

theorem Serves.deliver (h : l.Serves cf w) (hopen : w.isOpen = true) :
    l.Serves cf w.deliver := by
  unfold Watcher.deliver
  split
  · rename_i ev rest _ hp
    refine h.of_store rfl rfl hopen (by simp) (by rw [hp]; exact Phase.noConfusion)
      Phase.noConfusion ?_
    simp [Watcher.upcoming, hp, List.drop_append_of_le_length h.handled]
  · rename_i ev rest hp hq
    refine h.of_store rfl rfl hopen (by simp) (by rw [hp]; exact Phase.noConfusion)
      (by rw [hp]; exact Phase.noConfusion) ?_
    simp [Watcher.upcoming, hp, hq, List.drop_append_of_le_length h.handled]
  · exact h

theorem Serves.signal (h : l.Serves cf w) (hopen : w.isOpen = true) (sig : SignalEvent) :
    l.Serves cf (w.signal sig) := by
  unfold Watcher.signal
  split
  · rename_i hp
    refine h.of_store rfl rfl hopen (by simp) (by rw [hp]; exact Phase.noConfusion)
      (by rw [hp]; exact Phase.noConfusion) ?_
    have hnone : cf.changes [{ type := .signal, signal := some sig }] = [] := rfl
    simp only [Watcher.upcoming, hp, List.drop_append_of_le_length h.handled,
      ClientConfig.changes_append, hnone, List.append_nil]
  · exact h

/-- Every step of the coordinator keeps the invariant. -/
theorem Tracks.coord (h : l.Tracks cf) {i : CoordStep} (hcoded : l.WellCoded cf (.coord i))
    (hcond : l.Unmissed cf (.coord i)) : (l.next simpleFold cf (.coord i)).Tracks cf := by
  cases i with
  | commit op => exact h.commit hcoded
  | perform k => exact h.perform hcond
  | subscribe n own =>
    refine ⟨h.orderly, h.consistent, h.pending, fun j hj => ?_⟩
    obtain ⟨w, hw, hs⟩ := h.stream j hj
    refine ⟨w, ?_, hs.networkID, hs.peerID, hs.handled, hs.follows⟩
    show (l.coord.watchers ++ [_])[j]? = some w
    rw [List.getElem?_append_left (List.getElem?_eq_some_iff.mp hw).1, hw]
  | list k => exact h.modify k fun w hopen hs => hs.list h.orderly hopen
  | fill k => exact h.modify k fun w hopen hs => hs.fill hopen
  | deliver k => exact h.modify k fun w hopen hs => hs.deliver hopen
  | signal k sig => exact h.modify k fun w hopen hs => hs.signal hopen sig
  | close k =>
    exact h.modify k fun w _ hs => ⟨hs.networkID, hs.peerID, hs.handled, fun ho => nomatch ho⟩

theorem Tracks.connect (h : l.Tracks cf) (hcond : l.Unmissed cf .connect) :
    (l.next simpleFold cf .connect).Tracks cf := by
  cases hstream : l.stream with
  | some i => simpa only [next, hstream] using h
  | none =>
    have hknown (k : PeerID) (v : Known) (hk : l.client.members k = some v) :
        cf.roster l.coord.registry k = some v := by
      obtain ⟨r, hr, haddr, hkey⟩ := Client.members_eq_some.mp hk
      have hlists := hcond r (mem_values.mpr ⟨k, hr⟩)
      rw [h.consistent.id k r hr, haddr, hkey] at hlists
      exact (lists_iff h).mp hlists
    simp only [next, hstream]
    refine ⟨h.orderly, h.consistent, h.pending, fun j hj => ?_⟩
    obtain rfl := Option.some.inj hj
    refine ⟨{ networkID := cf.networkID, peerID := cf.myID }, ?_, rfl, rfl, le_rfl, fun _ => ?_⟩
    · show (l.coord.watchers ++ [_])[l.coord.watchers.length]? = _
      rw [List.getElem?_append_right le_rfl, Nat.sub_self]
      rfl
    · exact ⟨rfl, h.pending.start hknown⟩

theorem Tracks.handle (h : l.Tracks cf) : (l.next simpleFold cf .handle).Tracks cf := by
  cases hev : l.watcher?.bind (·.received[l.handled]?) with
  | none => simpa only [next, hev] using h
  | some ev =>
    simp only [next, hev]
    refine ⟨h.orderly, Client.consistent_handleEvent h.consistent _ _, h.pending, fun j hj => ?_⟩
    obtain ⟨w, hw, hs⟩ := h.stream j hj
    have hj : l.stream = some j := hj
    have hget : w.received[l.handled]? = some ev := by
      rw [watcher?, hj, Option.bind_some, hw] at hev
      exact hev
    obtain ⟨hlt, rfl⟩ := List.getElem?_eq_some_iff.mp hget
    refine ⟨w, hw, hs.networkID, hs.peerID, hlt, fun ho => ?_⟩
    have hfollows := hs.follows ho
    have hp : w.phase ≠ .subscribed := by
      intro hp
      rw [follows_of_eq hp] at hfollows
      rw [hfollows.1] at hlt
      exact absurd hlt (Nat.not_lt_zero _)
    rw [follows_of_ne hp, List.drop_eq_getElem_cons hlt, List.cons_append, List.cons_append] at hfollows
    rw [follows_of_ne hp]
    rw [ClientConfig.changes, Codec.changes_cons, List.append_assoc, Roster.replay_append,
      ← Client.members_handleEvent h.consistent] at hfollows
    exact hfollows

/-- Every step keeps the invariant. -/
theorem Tracks.next (h : l.Tracks cf) {i : LinkStep} (hcoded : l.WellCoded cf i)
    (hcond : l.Unmissed cf i) : (l.next simpleFold cf i).Tracks cf := by
  cases i with
  | coord i => exact h.coord hcoded hcond
  | connect => exact h.connect hcond
  | handle => exact h.handle
  | disconnect => exact ⟨h.orderly, h.consistent, h.pending, nofun⟩

/-- When the events of the network are published in the order of the transactions and to no full
channel, and whenever a stream is opened all peers of the table are still stored as they are there,
then a client that handled everything while the server is idle has exactly the other peers
`ListPeers` returns, with their addresses and keys. -/
theorem holds_iff_lists {entry : EntryRef → Entry} {session : SessionRef → Session}
    {steps : List LinkStep}
    (hcoded : Along (Link.next simpleFold cf) (WellCoded cf) (new entry session) steps)
    (hcond : Along (Link.next simpleFold cf) (Unmissed cf) (new entry session) steps)
    (hsettled : (run (Link.next simpleFold cf) (new entry session) steps).Settled w) :
    (run (Link.next simpleFold cf) (new entry session) steps).Holds k v ↔
      (run (Link.next simpleFold cf) (new entry session) steps).Lists cf k v := by
  have hboth : Along (Link.next simpleFold cf) (fun l i => WellCoded cf l i ∧ Unmissed cf l i)
      (new entry session) steps := fun x hx => ⟨hcoded x hx, hcond x hx⟩
  have htracks := hboth.keeps (Tracks cf) (tracks_new entry session) fun l i h hi => h.next hi.1 hi.2
  generalize run (Link.next simpleFold cf) (new entry session) steps = l at hsettled htracks ⊢
  rw [holds_iff htracks, lists_iff htracks]
  obtain ⟨i, hi, hw⟩ := Option.bind_eq_some_iff.mp hsettled.watcher
  obtain ⟨w', hw', hs⟩ := htracks.stream i hi
  obtain rfl := Option.mem_unique hw hw'
  have hfollows := hs.follows hsettled.isOpen
  have hpending : l.pending cf = [] := by
    rw [pending, ← Backlog.left_filter (p := fun _ : Action => true) (fun _ _ => rfl),
      hsettled.idle]
    rfl
  rw [follows_of_ne (by rw [hsettled.phase]; exact Phase.noConfusion), hpending, hsettled.queue,
    hsettled.handled, List.drop_length, Watcher.upcoming, hsettled.phase] at hfollows
  have hmembers : l.client.members = cf.roster l.coord.registry := hfollows
  rw [hmembers]

instance (i : Identity) : Decidable (cf.Coded i) :=
  decidable_of_iff (((cf.codec.decodeKey i.ed25519Public).any fun k => i.id = cf.idOf k ∧
      cf.codec.hexToID i.id = some k ∧ (cf.codec.decodeKey i.x25519Public).isSome = true) = true) (by
    simp only [Option.any_eq_true, decide_eq_true_eq]
    rfl)

instance (i : Identity) : Decidable (cf.Shows i k v) :=
  decidable_of_iff (i.networkID = cf.networkID ∧ i.id ≠ cf.myID ∧
      cf.codec.decodeKey i.ed25519Public = some k ∧ cf.codec.decodeKey i.x25519Public = some v.2 ∧
      i.vpnAddr = v.1)
    ⟨fun h => ⟨h.1, h.2.1, h.2.2.1, h.2.2.2.1, h.2.2.2.2⟩,
      fun h => ⟨h.network, h.other, h.id, h.key, h.addr⟩⟩

instance : (op : Op) → Decidable (cf.WellCoded op)
  | .registerPeer p _ _ => inferInstanceAs (Decidable (cf.Coded p.identity))
  | .createNetwork .. | .updateEndpoint .. | .touchPeer .. | .removePeer .. | .sweepStalePeers ..
  | .reopen => inferInstanceAs (Decidable True)

instance (l : Link) : (i : LinkStep) → Decidable (l.WellCoded cf i)
  | .coord (.commit op) => inferInstanceAs (Decidable (cf.WellCoded op))
  | .coord (.perform _) | .coord (.subscribe _ _) | .coord (.list _) | .coord (.fill _)
  | .coord (.deliver _) | .coord (.signal _ _) | .coord (.close _) | .connect | .handle
  | .disconnect => inferInstanceAs (Decidable True)

instance (l : Link) : Decidable (l.Lists cf k v) :=
  inferInstanceAs (Decidable (∃ rec ∈ l.coord.registry.listPeers cf.networkID,
    cf.Shows rec.identity k v))

instance (l : Link) : (i : LinkStep) → Decidable (l.Unmissed cf i)
  | .coord (.perform k) => inferInstanceAs (Decidable (l.coord.NoneFull (.perform k) ∧
      ∀ a ∈ l.coord.calls.next? k, a.publishesTo cf.networkID = true →
        l.coord.calls.IsOldest (Action.publishesTo cf.networkID) k))
  | .coord (.commit _) | .coord (.subscribe _ _) | .coord (.list _) | .coord (.fill _)
  | .coord (.deliver _) | .coord (.signal _ _) | .coord (.close _) =>
    inferInstanceAs (Decidable (True ∧ True))
  | .connect => inferInstanceAs (Decidable (∀ r ∈ values l.client.table.byID,
      Lists cf l (l.client.table.entry r).id
        ((l.client.table.entry r).vpnAddr, (l.client.table.entry r).x25519Pub)))
  | .handle | .disconnect => inferInstanceAs (Decidable True)

end Link

namespace Sample

/-- A client of the sample network; all keys are the one of peer a. -/
def config : ClientConfig := ⟨codec, fun _ => "a", "net", "me"⟩

/-- The key of peer a. -/
def keyA : PeerID := BitVec.ofNat 256 (Bytes.beNat (List.replicate 32 1))

/-- A client and a server after some steps. -/
def link (steps : List LinkStep) : Link :=
  run (Link.next id config) (.new emptyTable.entry emptyTable.session) steps

/-- Peer a registers, and a client hears of it. -/
def heardOf : List LinkStep :=
  [.coord (.commit create), .coord (.commit (register "a" "laptop")), .coord (.perform 1),
    .coord (.perform 1), .connect, .coord (.list 0), .coord (.fill 0), .coord (.deliver 0), .handle]

/-- The stream breaks and ends on the server. -/
def broken : List LinkStep := [.disconnect, .coord (.close 0)]

end Sample

namespace Link

/-- A peer leaves while the stream of a client is down. The client stays with its entry after the
snapshot of the next stream. -/
theorem departed_peer_held :
    let steps := Sample.heardOf ++ Sample.broken ++
      [.coord (.commit (.removePeer second "a")), .coord (.perform 2), .coord (.perform 2),
        .connect, .coord (.list 1), .coord (.fill 1)]
    Along (Link.next id Sample.config) (WellCoded Sample.config)
        (new Sample.emptyTable.entry Sample.emptyTable.session) steps ∧
      (Sample.link steps).Settled ⟨"net", "me", .sending [], [], [], true⟩ ∧
      (Sample.link steps).Holds Sample.keyA (Sample.addr 1, Sample.keyA) ∧
      ¬(Sample.link steps).Lists Sample.config Sample.keyA (Sample.addr 1, Sample.keyA) := by
  intro steps
  refine ⟨by decide +kernel, ⟨by decide +kernel, by decide +kernel, rfl, rfl, rfl, by decide +kernel⟩,
    ⟨0, by decide +kernel, by decide +kernel, by decide +kernel, by decide +kernel⟩,
    by decide +kernel⟩

/-- A client that reconnects while the peer is still there has it once. -/
theorem holds_iff_lists_again :
    let steps := Sample.heardOf ++ Sample.broken ++
      [.connect, .coord (.list 1), .coord (.fill 1), .coord (.deliver 1), .handle]
    (Sample.link steps).Holds Sample.keyA (Sample.addr 1, Sample.keyA) ↔
      (Sample.link steps).Lists Sample.config Sample.keyA (Sample.addr 1, Sample.keyA) := by
  intro steps
  have hsettled : (Sample.link steps).Settled ⟨"net", "me", .sending [], [],
      [{ type := .join, peer := some ⟨"a", "laptop", Sample.addr 1, "", "", "", []⟩ }], true⟩ :=
    ⟨by decide +kernel, by decide +kernel, rfl, rfl, rfl, by decide +kernel⟩
  exact holds_iff_lists (by decide +kernel) (by decide +kernel) hsettled

end Link

end Veld.Coord
