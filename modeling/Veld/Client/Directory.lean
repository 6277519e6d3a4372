import Veld.Client.Members
import Veld.Coord.Watchers

/-!
# The registry as a roster

A client sees of the registry the other peers of its network, with their IDs, VPN
addresses and keys. When all records are well formed, the events a transaction
leads to are the changes of this roster, and they are fair: a stored peer keeps its
address and its key, and no two peers of a network share an address.
-/

namespace Veld.Coord

open Netip Peer

/-- How a client sees the coordinator: the codecs, the text of an ID, its network and its own ID. -/
structure ClientConfig where
  codec : Codec
  /-- `hex.EncodeToString` of a public key. -/
  idOf : PeerID → String
  networkID : String
  myID : String

/-- The action publishes to a network. -/
def Action.publishesTo (n : String) (a : Action) : Bool := a.network? = some n

namespace ClientConfig

variable (cf : ClientConfig)

/-- The keys decode, and the ID is the one of the Ed25519 key. -/
def Coded (i : Identity) : Prop :=
  ∃ k, cf.codec.decodeKey i.ed25519Public = some k ∧ i.id = cf.idOf k ∧
    cf.codec.hexToID i.id = some k ∧ (cf.codec.decodeKey i.x25519Public).isSome = true

/-- A registering peer sends a well-formed record. -/
def WellCoded : Op → Prop
  | .registerPeer p _ _ => cf.Coded p.identity
  | _ => True

/-- A client sees a stored peer under a key. -/
structure Shows (i : Identity) (k : PeerID) (v : Known) : Prop where
  network : i.networkID = cf.networkID
  other : i.id ≠ cf.myID
  id : cf.codec.decodeKey i.ed25519Public = some k
  key : cf.codec.decodeKey i.x25519Public = some v.2
  addr : i.vpnAddr = v.1

/-- The other peers of the network. -/
def roster (r : Registry) : Roster PeerID Known := fun k =>
  (r.identityOf (cf.idOf k)).bind fun i =>
    if i.networkID = cf.networkID ∧ i.id ≠ cf.myID ∧
        cf.codec.decodeKey i.ed25519Public = some k then
      (cf.codec.decodeKey i.x25519Public).map fun x => (i.vpnAddr, x)
    else none

/-- The changes some events ask a client for. -/
def changes (evs : List PeerEvent) : List (Change PeerID Known) := cf.codec.changes cf.myID evs

/-- The events some actions publish to the network. -/
def news (acts : List Action) : List PeerEvent :=
  (acts.filter (Action.publishesTo cf.networkID)).filterMap Action.event?

/-- The stored peers are well formed and have addresses of their own. -/
structure Orderly (r : Registry) : Prop where
  keyed : r.Keyed
  coded : ∀ k i, r.identityOf k = some i → cf.Coded i
  valid : ∀ k i, r.identityOf k = some i → i.vpnAddr.isValid = true
  distinct : ∀ k k' i j, r.identityOf k = some i → r.identityOf k' = some j →
    i.networkID = j.networkID → i.vpnAddr = j.vpnAddr → k = k'

variable {cf} {r r' : Registry} {k k' : PeerID} {v : Known} {i : Identity}

theorem changes_append (evs evs' : List PeerEvent) :
    cf.changes (evs ++ evs') = cf.changes evs ++ cf.changes evs' := Codec.changes_append

theorem roster_eq_some : cf.roster r k = some v ↔
    ∃ i, r.identityOf (cf.idOf k) = some i ∧ cf.Shows i k v := by
  simp only [roster, Option.bind_eq_some_iff]
  refine exists_congr fun i => and_congr_right fun _ => ?_
  split
  · rename_i hc
    rw [Option.map_eq_some_iff]
    constructor
    · rintro ⟨x, hx, rfl⟩
      exact ⟨hc.1, hc.2.1, hc.2.2, hx, rfl⟩
    · intro h
      exact ⟨v.2, h.key, Prod.ext h.addr rfl⟩
  · rename_i hc
    exact ⟨nofun, fun h => absurd ⟨h.network, h.other, h.id⟩ hc⟩

theorem roster_congr (h : r'.identityOf (cf.idOf k) = r.identityOf (cf.idOf k)) :
    cf.roster r' k = cf.roster r k := by
  rw [roster, roster, h]

/-- A peer the client does not see under a key. -/
theorem roster_eq_none (h : ∀ i, r.identityOf (cf.idOf k) = some i → ∀ v, ¬cf.Shows i k v) :
    cf.roster r k = none := by
  cases hk : cf.roster r k with
  | none => rfl
  | some v =>
    obtain ⟨i, hi, hs⟩ := roster_eq_some.mp hk
    exact absurd hs (h i hi v)

theorem Orderly.exclusive (h : cf.Orderly r) : Roster.Exclusive Prod.fst (cf.roster r) := by
  intro k k' v v' hk hk' haddr
  obtain ⟨i, hi, hs⟩ := roster_eq_some.mp hk
  obtain ⟨j, hj, hs'⟩ := roster_eq_some.mp hk'
  have hid : cf.idOf k = cf.idOf k' := h.distinct _ _ i j hi hj
    (hs.network.trans hs'.network.symm) (by rw [hs.addr, hs'.addr, haddr])
  rw [hid, hj] at hi
  obtain rfl := Option.some.inj hi
  exact Option.mem_unique hs.id hs'.id

/-- A well-formed peer is seen under the key its ID decodes to, and its ID is the text of it. -/
theorem Coded.key_eq (h : cf.Coded i) (hk : cf.codec.hexToID i.id = some k) :
    cf.codec.decodeKey i.ed25519Public = some k ∧ i.id = cf.idOf k := by
  obtain ⟨k', hed, hid, hhex, -⟩ := h
  obtain rfl := Option.mem_unique hhex hk
  exact ⟨hed, hid⟩

section Commit

variable {simpleFold : Char → Char} {op : Op} {acts : List Action} {p : PeerRecord} {x : BitVec 256}

theorem orderly_empty : cf.Orderly Registry.empty where
  keyed := nofun
  coded := nofun
  valid := nofun
  distinct := nofun

theorem Orderly.congr (h : cf.Orderly r) (hsame : ∀ k, r'.identityOf k = r.identityOf k) :
    cf.Orderly r' where
  keyed := Registry.keyed_iff.mpr fun k i hi => Registry.keyed_iff.mp h.keyed k i (hsame k ▸ hi)
  coded k i hi := h.coded k i (hsame k ▸ hi)
  valid k i hi := h.valid k i (hsame k ▸ hi)
  distinct k k' i j hi hj := h.distinct k k' i j (hsame k ▸ hi) (hsame k' ▸ hj)

/-- The peer a registration stores is well formed. -/
theorem Orderly.coded_register (h : cf.Orderly r) (hop : cf.Coded p.identity)
    (hid : i.id = p.id) (hkey : i.x25519Public = p.x25519Public)
    (before : r.identityOf p.id = some i ∨
      r.identityOf p.id = none ∧ i.ed25519Public = p.ed25519Public ∧ i.vpnAddr.isValid = true ∧
        ∀ k j, r.identityOf k = some j → j.networkID = i.networkID → j.vpnAddr ≠ i.vpnAddr) :
    cf.Coded i := by
  rcases before with before | ⟨-, hed, -⟩
  · exact h.coded p.id i before
  · rw [Coded, hid, hkey, hed]
    exact hop

theorem Orderly.commit (h : cf.Orderly r) (hop : cf.WellCoded op) :
    cf.Orderly (r.commit simpleFold op) := by
  have hkeyed : (r.commit simpleFold op).Keyed := h.keyed.commit op
  have hout := Registry.outcome simpleFold h.keyed op
  generalize r.followUp simpleFold op = acts at hout
  cases hout with
  | keep _ same => exact h.congr same
  | endpoint _ _ same => exact h.congr same
  | @register p i call _ hid hkey before after others =>
    obtain ⟨n, maxMachines, rfl⟩ := call
    have hcoded := h.coded_register hop hid hkey before
    have hvalid : i.vpnAddr.isValid = true := by
      rcases before with before | ⟨-, -, hv, -⟩
      · exact h.valid p.id i before
      · exact hv
    -- the other peers of the network have other addresses
    have hfree (k : String) (j : Identity) (hk : k ≠ p.id) (hj : r.identityOf k = some j)
        (hn : j.networkID = i.networkID) : j.vpnAddr ≠ i.vpnAddr := by
      rcases before with before | ⟨-, -, -, hfree⟩
      · exact fun ha => hk (h.distinct k p.id j i hj before hn ha)
      · exact hfree k j hj hn
    refine ⟨hkeyed, fun k j hj => ?_, fun k j hj => ?_, fun k k' j j' hj hj' hn ha => ?_⟩
    · by_cases hk : k = p.id
      · rw [hk, after] at hj
        exact Option.some.inj hj ▸ hcoded
      · exact h.coded k j (others k hk ▸ hj)
    · by_cases hk : k = p.id
      · rw [hk, after] at hj
        exact Option.some.inj hj ▸ hvalid
      · exact h.valid k j (others k hk ▸ hj)
    · by_cases hk : k = p.id <;> by_cases hk' : k' = p.id
      · rw [hk, hk']
      · rw [hk, after] at hj
        rw [others k' hk'] at hj'
        obtain rfl := Option.some.inj hj
        exact absurd ha.symm (hfree k' j' hk' hj' hn.symm)
      · rw [hk', after] at hj'
        rw [others k hk] at hj
        obtain rfl := Option.some.inj hj'
        exact absurd ha (hfree k j hk hj hn)
      · rw [others k hk] at hj
        rw [others k' hk'] at hj'
        exact h.distinct k k' j j' hj hj' hn ha
  | @remove removed _ _ gone =>
    have hstill (k : String) (j : Identity)
        (hj : (r.commit simpleFold op).identityOf k = some j) : r.identityOf k = some j := by
      rw [gone] at hj
      split at hj
      · cases hj
      · exact hj
    exact ⟨hkeyed, fun k j hj => h.coded k j (hstill k j hj),
      fun k j hj => h.valid k j (hstill k j hj),
      fun k k' j j' hj hj' => h.distinct k k' j j' (hstill k j hj) (hstill k' j' hj')⟩

/-- The change a JOIN of a well-formed peer asks for. -/
theorem change_join {p : V1Peer} (hother : p.id ≠ cf.myID)
    (hed : cf.codec.decodeKey p.ed25519Public = some k)
    (hx : cf.codec.decodeKey p.x25519Public = some x) (hv : p.vpnAddr.isValid = true) :
    cf.codec.change cf.myID { type := .join, peer := some p } = some (.join k (p.vpnAddr, x)) := by
  have hp := Codec.peerFromProto_eq_some.mpr ⟨k, x, hed, hx, hv, rfl⟩
  simp [Codec.change, hother, hp]

theorem changes_own {type : EventType} {p : V1Peer} (hself : p.id = cf.myID) :
    cf.changes [{ type, peer := some p }] = [] := by
  cases type <;> simp [changes, Codec.changes, Codec.change, hself]

theorem news_register (p : PeerRecord) (i : Identity) :
    cf.news [.setEndpoint p.id p.endpoint, .publish i.networkID (joinEvent p i.vpnAddr)] =
      if i.networkID = cf.networkID then [joinEvent p i.vpnAddr] else [] := by
  by_cases hn : i.networkID = cf.networkID <;>
    simp [news, Action.publishesTo, Action.network?, Action.event?, hn]

/-- A registration that the client does not hear of. -/
theorem roster_of_unseen (hid : i.id = p.id) (hunseen : i.networkID ≠ cf.networkID ∨ p.id = cf.myID)
    (hbefore : ∀ j, r.identityOf p.id = some j → j = i) (after : r'.identityOf p.id = some i)
    (others : ∀ k ≠ p.id, r'.identityOf k = r.identityOf k) : cf.roster r' = cf.roster r := by
  have hnot (k : PeerID) (v : Known) : ¬cf.Shows i k v := by
    intro hs
    rcases hunseen with hn | hself
    · exact hn hs.network
    · exact hs.other (hid.trans hself)
  funext k
  by_cases hk : cf.idOf k = p.id
  · rw [roster_eq_none, roster_eq_none]
    · intro j hj v
      rw [hk] at hj
      exact hbefore j hj ▸ hnot k v
    · intro j hj v
      rw [hk, after] at hj
      exact Option.some.inj hj ▸ hnot k v
  · exact roster_congr (others _ hk)

/-- The roster before and after a registration the client hears of. -/
theorem roster_of_seen (hs : cf.Shows i k (i.vpnAddr, x))
    (hid : i.id = p.id) (hidOf : p.id = cf.idOf k)
    (hbefore : ∀ j, r.identityOf p.id = some j → j = i) (after : r'.identityOf p.id = some i)
    (others : ∀ k ≠ p.id, r'.identityOf k = r.identityOf k) :
    cf.roster r' = Function.update (cf.roster r) k (some (i.vpnAddr, x)) ∧
      ∀ v ∈ cf.roster r k, v = (i.vpnAddr, x) := by
  constructor
  · funext k'
    by_cases hk : k' = k
    · subst hk
      rw [Function.update_self]
      exact roster_eq_some.mpr ⟨i, hidOf ▸ after, hs⟩
    · rw [Function.update_of_ne hk]
      by_cases hk' : cf.idOf k' = p.id
      · -- the peer has one key only
        have hnot (v : Known) : ¬cf.Shows i k' v :=
          fun hs' => hk (Option.mem_unique hs'.id hs.id)
        rw [roster_eq_none, roster_eq_none]
        · intro j hj v
          rw [hk'] at hj
          exact hbefore j hj ▸ hnot v
        · intro j hj v
          rw [hk', after] at hj
          exact Option.some.inj hj ▸ hnot v
      · exact roster_congr (others _ hk')
  · intro v hv
    obtain ⟨j, hj, hs'⟩ := roster_eq_some.mp hv
    obtain rfl := hbefore j (hidOf ▸ hj)
    exact Prod.ext hs'.addr.symm (Option.mem_unique hs'.key hs.key)

/-- The departures the client hears of. -/
theorem changes_leave (removed : List PeerRecord) :
    cf.changes (cf.news (removed.map (.dropEndpoint ·.id) ++ removed.map publishLeave)) =
      (removed.filterMap fun rec => if rec.networkID = cf.networkID ∧ rec.id ≠ cf.myID then
        cf.codec.hexToID rec.id else none).map .leave := by
  have hdrop : (removed.map fun rec => Action.dropEndpoint rec.id).filter
      (Action.publishesTo cf.networkID) = [] := by
    refine List.filter_eq_nil_iff.mpr fun a ha => ?_
    obtain ⟨rec, -, rfl⟩ := List.mem_map.mp ha
    exact Bool.false_ne_true
  rw [news, List.filter_append, hdrop, List.nil_append]
  clear hdrop
  induction removed with
  | nil => rfl
  | cons rec rest ih =>
    rw [List.map_cons, List.filter_cons, List.filterMap_cons]
    by_cases hn : rec.networkID = cf.networkID
    · have hto : (publishLeave rec).publishesTo cf.networkID = true := decide_eq_true (by
        rw [← hn]
        rfl)
      rw [if_pos hto, List.filterMap_cons]
      by_cases hself : rec.id = cf.myID
      · have hnone : cf.codec.change cf.myID (leaveEvent rec) = none := by
          simp [Codec.change, leaveEvent, hself]
        simp only [publishLeave, Action.event?, changes, Codec.changes, List.filterMap_cons, hnone,
          hn, hself, ne_eq, not_true, and_false, ite_false]
        exact ih
      · have hchange : cf.codec.change cf.myID (leaveEvent rec) =
            (cf.codec.hexToID rec.id).map .leave := by
          simp [Codec.change, leaveEvent, hself]
        simp only [publishLeave, Action.event?, changes, Codec.changes, List.filterMap_cons,
          hchange, hn, hself, ne_eq, not_false_eq_true, and_self, ite_true]
        cases cf.codec.hexToID rec.id with
        | none => exact ih
        | some k => exact congrArg (Change.leave k :: ·) ih
    · have hto : ¬(publishLeave rec).publishesTo cf.networkID = true := fun hto =>
        hn (Option.some.inj (of_decide_eq_true hto))
      rw [if_neg hto, if_neg fun h => hn h.1]
      exact ih

/-- The roster after some peers were removed. -/
theorem roster_remove {removed : List PeerRecord} (h : cf.Orderly r)
    (stored : ∀ rec ∈ removed, r.peers.lookup rec.id = some rec)
    (gone : ∀ k, r'.identityOf k = if k ∈ removed.map (·.id) then none else r.identityOf k) :
    cf.roster r' = Roster.replay Prod.fst (cf.roster r)
      ((removed.filterMap fun rec => if rec.networkID = cf.networkID ∧ rec.id ≠ cf.myID then
        cf.codec.hexToID rec.id else none).map .leave) := by
  have hidentity (rec : PeerRecord) (hrec : rec ∈ removed) :
      r.identityOf rec.id = some rec.identity := by
    rw [Registry.identityOf, stored rec hrec]
    rfl
  funext k
  rw [Roster.replay_leaves]
  split
  · rename_i hk
    obtain ⟨rec, hrec, hhex⟩ := List.mem_filterMap.mp hk
    split at hhex
    · have hid := ((h.coded rec.id _ (hidentity rec hrec)).key_eq hhex).2
      refine roster_eq_none fun i hi => ?_
      rw [gone, if_pos (List.mem_map.mpr ⟨rec, hrec, hid⟩)] at hi
      cases hi
    · cases hhex
  · rename_i hk
    by_cases hmem : cf.idOf k ∈ removed.map (·.id)
    · -- the client did not see it before either
      obtain ⟨rec, hrec, hid⟩ := List.mem_map.mp hmem
      rw [roster_eq_none, roster_eq_none]
      · intro i hi v hs
        rw [← hid, hidentity rec hrec] at hi
        obtain rfl := Option.some.inj hi
        obtain ⟨k', hed, -, hhex, -⟩ := h.coded rec.id _ (hidentity rec hrec)
        obtain rfl := Option.mem_unique hed hs.id
        exact hk (List.mem_filterMap.mpr ⟨rec, hrec, by rwa [if_pos ⟨hs.network, hs.other⟩]⟩)
      · intro i hi
        rw [gone, if_pos hmem] at hi
        cases hi
    · exact roster_congr (by rw [gone, if_neg hmem])

/-- The events of a call are the changes its transaction made, and they are fair. -/
theorem Orderly.changes_commit (h : cf.Orderly r) (hop : cf.WellCoded op)
    (hout : Registry.Outcome simpleFold r op acts) :
    Roster.Lawful Prod.fst (cf.roster r) (cf.changes (cf.news acts)) ∧
      cf.roster (r.commit simpleFold op) =
        Roster.replay Prod.fst (cf.roster r) (cf.changes (cf.news acts)) := by
  have hnext : cf.Orderly (r.commit simpleFold op) := h.commit hop
  cases hout with
  | keep _ same => exact ⟨trivial, funext fun k => roster_congr (same _)⟩
  | endpoint _ _ same => exact ⟨trivial, funext fun k => roster_congr (same _)⟩
  | @remove removed _ stored gone =>
    rw [changes_leave]
    exact ⟨Roster.lawful_leaves _, roster_remove h stored gone⟩
  | @register p i call _ hid hkey before after others =>
    obtain ⟨n, maxMachines, rfl⟩ := call
    have hbefore (j : Identity) (hj : r.identityOf p.id = some j) : j = i := by
      rcases before with before | ⟨before, -⟩
      · exact Option.mem_unique hj before
      · rw [before] at hj
        cases hj
    have hunseen (hu : i.networkID ≠ cf.networkID ∨ p.id = cf.myID) :=
      roster_of_unseen hid hu hbefore after others
    rw [news_register]
    by_cases hn : i.networkID = cf.networkID
    · rw [if_pos hn]
      by_cases hself : p.id = cf.myID
      · have hnone : cf.changes [joinEvent p i.vpnAddr] = [] := changes_own hself
        rw [hnone]
        exact ⟨trivial, hunseen (.inr hself)⟩
      · obtain ⟨k, hed, hidOf, hhex, hx⟩ := hop
        obtain ⟨x, hx⟩ := Option.isSome_iff_exists.mp hx
        have hcoded := h.coded_register ⟨k, hed, hidOf, hhex, by rw [hx]; rfl⟩ hid hkey before
        have hs : cf.Shows i k (i.vpnAddr, x) :=
          ⟨hn, by rwa [hid], (hcoded.key_eq (by rwa [hid])).1, by rw [hkey]; exact hx, rfl⟩
        have hchange : cf.changes [joinEvent p i.vpnAddr] = [.join k (i.vpnAddr, x)] := by
          have hone : cf.codec.change cf.myID (joinEvent p i.vpnAddr) = some _ :=
            change_join hself hed hx (hnext.valid p.id i after)
          rw [changes, Codec.changes, List.filterMap_cons, hone]
          rfl
        obtain ⟨hupdate, hsame⟩ := roster_of_seen hs hid hidOf hbefore after others
        have hfree : ¬Roster.Occupied Prod.fst (cf.roster r) k (i.vpnAddr, x) := by
          rintro ⟨k', v', hne, hk', haddr⟩
          refine hne (hnext.exclusive k' k v' (i.vpnAddr, x) ?_ ?_ haddr)
          · rw [hupdate, Function.update_of_ne hne, hk']
          · rw [hupdate, Function.update_self]
        rw [hchange]
        refine ⟨⟨⟨hsame, hfree⟩, trivial⟩, ?_⟩
        rw [hupdate, Roster.replay_cons, Roster.apply_join_of_not hfree]
        rfl
    · rw [if_neg hn]
      exact ⟨trivial, hunseen (.inl hn)⟩

end Commit

section Snapshot

/-- The peers of a snapshot, as the client sees them. -/
def listed (peers : List PeerRecord) : List (PeerID × Known) :=
  (peers.filter (·.id ≠ cf.myID)).filterMap fun rec =>
    (cf.codec.peerFromProto rec.toV1).map fun e => (e.id, (e.vpnAddr, e.x25519Pub))

theorem changes_snapshotEvents (peers : List PeerRecord) :
    cf.changes (snapshotEvents cf.myID peers) =
      (cf.listed peers).map fun m => .join m.1 m.2 := by
  rw [changes, Codec.changes, snapshotEvents, listed, List.filterMap_map, List.map_filterMap]
  refine List.filterMap_congr fun rec hrec => ?_
  have hother : rec.toV1.id ≠ cf.myID := of_decide_eq_true (List.mem_filter.mp hrec).2
  simp only [Function.comp, Codec.change, hother, ite_false, Option.map_map]
  rfl

/-- The endpoints of the listed peers do not matter for the roster. -/
theorem listed_applyEndpoints (r : Registry) (peers : List PeerRecord) :
    cf.listed (r.applyEndpoints peers) = cf.listed peers := by
  rw [listed, listed, Registry.applyEndpoints, List.filter_map, List.filterMap_map]
  refine List.filterMap_congr fun rec _ => ?_
  simp only [Function.comp, Codec.peerFromProto, PeerRecord.toV1]
  cases cf.codec.decodeKey rec.ed25519Public with
  | none => rfl
  | some k =>
    cases cf.codec.decodeKey rec.x25519Public with
    | none => rfl
    | some x => by_cases hv : rec.vpnAddr.isValid = true <;> simp [hv]

/-- The members of the roster are the other peers `ListPeers` returns. -/
theorem Orderly.roster_iff (h : cf.Orderly r) : cf.roster r k = some v ↔
    ∃ rec ∈ r.networkPeers cf.networkID, cf.Shows rec.identity k v := by
  rw [roster_eq_some]
  constructor
  · rintro ⟨i, hi, hs⟩
    obtain ⟨rec, hrec, rfl⟩ := Option.map_eq_some_iff.mp hi
    exact ⟨rec, List.mem_filter.mpr ⟨mem_values.mpr ⟨_, hrec⟩, decide_eq_true hs.network⟩, hs⟩
  · rintro ⟨rec, hrec, hs⟩
    obtain ⟨id, hid⟩ := mem_values.mp (List.mem_filter.mp hrec).1
    have hi : r.identityOf id = some rec.identity := by
      rw [Registry.identityOf, hid]
      rfl
    obtain ⟨k', hed, hidOf, -⟩ := h.coded id _ hi
    obtain rfl := Option.mem_unique hed hs.id
    have hrid : rec.id = id := h.keyed id rec hid
    refine ⟨rec.identity, ?_, hs⟩
    rw [← hidOf]
    show r.identityOf rec.id = _
    rw [hrid, hi]

/-- A snapshot lists the members of the roster. -/
theorem Orderly.mem_listed (h : cf.Orderly r) :
    (k, v) ∈ cf.listed (r.networkPeers cf.networkID) ↔ cf.roster r k = some v := by
  rw [h.roster_iff, listed, List.mem_filterMap]
  constructor
  · rintro ⟨rec, hrec, he⟩
    obtain ⟨hmem, hother⟩ := List.mem_filter.mp hrec
    obtain ⟨e, he, hkv⟩ := Option.map_eq_some_iff.mp he
    obtain ⟨id, x, hed, hx, -, rfl⟩ := Codec.peerFromProto_eq_some.mp he
    obtain ⟨rfl, rfl⟩ := Prod.mk.inj hkv
    exact ⟨rec, hmem, of_decide_eq_true (List.mem_filter.mp hmem).2, of_decide_eq_true hother,
      hed, hx, rfl⟩
  · rintro ⟨rec, hrec, hs⟩
    obtain ⟨id, hid⟩ := mem_values.mp (List.mem_filter.mp hrec).1
    have hv : rec.vpnAddr.isValid = true := h.valid id rec.identity (by
      rw [Registry.identityOf, hid]
      rfl)
    refine ⟨rec, List.mem_filter.mpr ⟨hrec, decide_eq_true hs.other⟩, ?_⟩
    rw [Codec.peerFromProto_eq_some.mpr ⟨k, v.2, hs.id, hs.key, hv, rfl⟩]
    exact congrArg some (Prod.ext rfl (Prod.ext hs.addr rfl))

end Snapshot

end ClientConfig

end Veld.Coord
