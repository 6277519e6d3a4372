import Veld.Coord.Registry

/-!
# What the calls of the registry do

Every call has one of six effects on the two buckets. The invariants of the
registry and the history of its addresses are derived from these effects, without
looking at the transactions again.
-/

namespace Veld.Coord

open Netip

namespace Registry

variable {now maxMachines : Int} {p : PeerRecord} {networkID peerID k : String} {a : Addr}
  {removed : List PeerRecord}

/-- The peers of a registry are stored under their own ids, without endpoints, and belong to
networks that exist. -/
structure Filed (r : Registry) : Prop where
  keyed : ∀ k rec, r.peers.lookup k = some rec → rec.id = k
  storable : ∀ k rec, r.peers.lookup k = some rec → checkKey k = .ok ()
  blank : ∀ k rec, r.peers.lookup k = some rec → rec.endpoint = ""
  homed : ∀ k rec, r.peers.lookup k = some rec → (r.networks.lookup rec.networkID).isSome

/-- The name a call stores for a peer is free. -/
def NameFree (simpleFold : Char → Char) (r : Registry) (networkID peerID name : String) : Prop :=
  name = "" ∨ nameTaken simpleFold r.peers networkID peerID name = false

/-- What a call does to the buckets. -/
inductive Effect (simpleFold : Char → Char) (r : Registry) : Op → Registry → Prop
  /-- The buckets stay as they are. -/
  | keep {op r'} (peers : r'.peers = r.peers) (networks : r'.networks = r.networks) :
    Effect simpleFold r op r'
  /-- A network is added. -/
  | create {now id cidr name accountID r'} (fresh : r.networks.lookup id = none)
    (peers : r'.peers = r.peers)
    (networks : r'.networks = r.networks.insert id (newNetwork now id cidr name accountID)) :
    Effect simpleFold r (.createNetwork now id cidr name accountID) r'
  /-- A stored peer gets another name, other routes or another time. -/
  | renew {op r' id rec p} (stored : r.peers.lookup id = some rec)
    (name : p.name = rec.name ∨ NameFree simpleFold r rec.networkID id p.name)
    (peers : r'.peers = r.peers.insert id (renewed rec p)) (networks : r'.networks = r.networks) :
    Effect simpleFold r op r'
  /-- A new peer is added to a network. -/
  | join {p networkID maxMachines r' net assigned} (fresh : r.peers.lookup p.id = none)
    (key : checkKey p.id = .ok ())
    (stored : r.networks.lookup networkID = some net)
    (limit : ¬(maxMachines > 0 ∧ net.machineCount ≥ maxMachines))
    (alloc : allocate net.cidr (usedAddrs r.peers networkID)
      (migrateAssignedAddrs net (usedAddrs r.peers networkID)) = some assigned)
    (name : NameFree simpleFold r networkID p.id (settled simpleFold r p networkID).name)
    (peers : r'.peers = r.peers.insert p.id
      (joined (settled simpleFold r p networkID) networkID assigned))
    (networks : r'.networks = r.networks.insert networkID
      (occupy net (usedAddrs r.peers networkID) assigned)) :
    Effect simpleFold r (.registerPeer p networkID maxMachines) r'
  /-- A peer is removed and its address freed. -/
  | leave {now id r' rec net} (stored : r.peers.lookup id = some rec)
    (home : r.networks.lookup rec.networkID = some net)
    (peers : r'.peers = r.peers.erase id)
    (networks : r'.networks = r.networks.insert rec.networkID
      (release net (usedAddrs (r.peers.erase id) rec.networkID) rec.vpnAddr now)) :
    Effect simpleFold r (.removePeer now id) r'
  /-- Some of the stored peers are expelled. -/
  | sweep {now ttl skip} (removed : List PeerRecord) (sub : removed.Sublist (values r.peers)) :
    Effect simpleFold r (.sweepStalePeers now ttl skip) (removed.foldl expel r)

variable {simpleFold : Char → Char} {r r' : Registry}

private theorem bind_ok {α β ε : Type} {x : Except ε α} {f : α → Except ε β} {b : β}
    (h : (x >>= f) = .ok b) : ∃ a, x = .ok a ∧ f a = .ok b := by
  cases x with
  | error err => cases h
  | ok a => exact ⟨a, rfl, h⟩

theorem createNetwork_ok {id : String} {cidr : Prefix} {name accountID : String}
    (h : r.createNetwork now id cidr name accountID = .ok r') :
    r.networks.lookup id = none ∧
      r' = { r with networks := r.networks.insert id (newNetwork now id cidr name accountID) } := by
  cases hl : r.networks.lookup id with
  | some net =>
    simp only [createNetwork, hl, Option.isSome_some, ite_true] at h
    cases h
  | none =>
    simp only [createNetwork, hl, Option.isSome_none, Bool.false_eq_true, ite_false] at h
    obtain ⟨-, -, h⟩ := bind_ok h
    exact ⟨rfl, (Except.ok.inj h).symm⟩

/-- A registration renews a stored peer of the network with the same key, or it admits a new one. -/
theorem register_ok (h : r.register p networkID maxMachines = .ok (r', a)) :
    (∃ rec, r.peers.lookup p.id = some rec ∧ rec.networkID = networkID ∧
      rec.x25519Public = p.x25519Public ∧ a = rec.vpnAddr ∧
      r' = { r with peers := r.peers.insert p.id (renewed rec p) }) ∨
    (∃ net, r.peers.lookup p.id = none ∧ checkKey p.id = .ok () ∧
      r.networks.lookup networkID = some net ∧ ¬(maxMachines > 0 ∧ net.machineCount ≥ maxMachines) ∧
      allocate net.cidr (usedAddrs r.peers networkID)
        (migrateAssignedAddrs net (usedAddrs r.peers networkID)) = some a ∧
      r' = { r with
        networks := r.networks.insert networkID (occupy net (usedAddrs r.peers networkID) a)
        peers := r.peers.insert p.id (joined p networkID a) }) := by
  unfold register at h
  split at h
  · rename_i rec hrec
    by_cases hnet : rec.networkID = networkID
    · by_cases hkey : rec.x25519Public = p.x25519Public
      · cases hv : rec.vpnAddr.isValid with
        | false => simp [hnet, hkey, hv] at h; cases h
        | true =>
          simp only [hnet, hkey, hv, ne_eq, not_true_eq_false, ite_false, Bool.not_true,
            Bool.false_eq_true] at h
          obtain ⟨-, -, h⟩ := bind_ok h
          obtain ⟨rfl, rfl⟩ := Prod.mk.inj (Except.ok.inj h)
          exact .inl ⟨rec, hrec, hnet, hkey, rfl, rfl⟩
      · simp [hnet, hkey] at h; cases h
    · simp [hnet] at h; cases h
  · rename_i hfresh
    split at h
    · cases h
    · rename_i net hnet
      split at h
      · cases h
      · rename_i hlimit
        dsimp only at h
        split at h
        · cases h
        · rename_i assigned halloc
          obtain ⟨-, -, h⟩ := bind_ok h
          obtain ⟨_, hkey, h⟩ := bind_ok h
          obtain ⟨rfl, rfl⟩ := Prod.mk.inj (Except.ok.inj h)
          exact .inr ⟨net, hfresh, hkey, hnet, hlimit, halloc, rfl⟩

theorem touchPeer_ok (h : r.touchPeer now peerID = .ok r') :
    ∃ rec, r.peers.lookup peerID = some rec ∧ r' = { r with
      peers := r.peers.insert peerID { rec with lastSeen := roundToHour (unix now) } } := by
  unfold touchPeer at h
  split at h
  · cases h
  · rename_i rec hrec
    obtain ⟨-, -, h⟩ := bind_ok h
    exact ⟨rec, hrec, (Except.ok.inj h).symm⟩

theorem updateEndpoint_ok {peerID endpoint : String}
    (h : r.updateEndpoint now peerID endpoint = .ok r') :
    ∃ r₁, r.touchPeer now peerID = .ok r₁ ∧
      r' = { r₁ with endpoints := r₁.endpoints.insert peerID endpoint } := by
  obtain ⟨r₁, ht, h⟩ := bind_ok h
  exact ⟨r₁, ht, (Except.ok.inj h).symm⟩

theorem registerPeer_ok (h : r.registerPeer simpleFold p networkID maxMachines = .ok (r', a)) :
    ∃ r₁, r.register (settled simpleFold r p networkID) networkID maxMachines = .ok (r₁, a) ∧
      r' = { r₁ with endpoints := r₁.endpoints.insert p.id p.endpoint } := by
  obtain ⟨⟨r₁, a₁⟩, hreg, h⟩ := bind_ok h
  obtain ⟨rfl, rfl⟩ := Prod.mk.inj (Except.ok.inj h)
  exact ⟨r₁, hreg, rfl⟩

/-- Nothing is left to blank when no record has an endpoint. -/
theorem reopen_peers (h : ∀ k rec, r.peers.lookup k = some rec → rec.endpoint = "") :
    r.reopen.peers = r.peers := by
  have hnone : (values r.peers).filter (·.endpoint ≠ "") = [] := by
    refine List.filter_eq_nil_iff.mpr fun rec hrec => ?_
    obtain ⟨k, hk⟩ := mem_values.mp hrec
    simp [h k rec hk]
  simp only [reopen, hnone, List.foldl_nil]

/-- A sweep erases the peers it removes. -/
theorem peers_foldl_expel (removed : List PeerRecord) (r : Registry) :
    (removed.foldl expel r).peers = eraseAll r.peers (removed.map PeerRecord.id) := by
  induction removed generalizing r with
  | nil => rfl
  | cons rec removed ih => exact ih (r.expel rec)

/-- A sweep only takes peers away. -/
theorem lookup_of_foldl_expel {rec : PeerRecord}
    (h : (removed.foldl expel r).peers.lookup k = some rec) : r.peers.lookup k = some rec := by
  rw [peers_foldl_expel] at h
  exact (lookup_eraseAll_eq_some.mp h).2

/-- A sweep leaves the peers it does not remove. -/
theorem lookup_foldl_expel (h : ∀ rec ∈ removed, rec.id ≠ k) :
    (removed.foldl expel r).peers.lookup k = r.peers.lookup k := by
  rw [peers_foldl_expel]
  apply lookup_eraseAll
  intro hmem
  obtain ⟨rec, hrec, hid⟩ := List.mem_map.mp hmem
  exact h rec hrec hid

theorem nameFree_settled (p : PeerRecord) (networkID : String) :
    NameFree simpleFold r networkID p.id (settled simpleFold r p networkID).name := by
  unfold NameFree
  by_cases hn : p.name ≠ "" ∧ nameTaken simpleFold r.peers networkID p.id p.name
  · exact .inl (by simp only [settled, if_pos hn])
  · have hname : (settled simpleFold r p networkID).name = p.name := by
      simp only [settled, if_neg hn]
    rw [hname]
    by_cases he : p.name = ""
    · exact .inl he
    · exact .inr (by simpa [he] using hn)

theorem effect_registerPeer (p : PeerRecord) (networkID : String) (maxMachines : Int) :
    Effect simpleFold r (.registerPeer p networkID maxMachines)
      (r.next simpleFold (.registerPeer p networkID maxMachines)) := by
  cases hres : r.registerPeer simpleFold p networkID maxMachines with
  | error err =>
    simp only [next, hres]
    exact .keep rfl rfl
  | ok res =>
    obtain ⟨r', a⟩ := res
    simp only [next, hres]
    obtain ⟨r₁, hreg, rfl⟩ := registerPeer_ok hres
    rcases register_ok hreg with
      ⟨rec, hrec, hnet, -, -, rfl⟩ | ⟨net, hfresh, hkey, hnet, hlimit, halloc, rfl⟩
    · refine .renew hrec (.inr ?_) rfl rfl
      rw [hnet]
      exact nameFree_settled p networkID
    · exact .join hfresh hkey hnet hlimit halloc (nameFree_settled p networkID) rfl rfl

theorem effect_touchPeer {op : Op} {r₁ : Registry}
    (h : r.touchPeer now peerID = .ok r₁) (hp : r'.peers = r₁.peers)
    (hn : r'.networks = r₁.networks) : Effect simpleFold r op r' := by
  obtain ⟨rec, hrec, rfl⟩ := touchPeer_ok h
  exact .renew (p := { rec with lastSeen := unix now }) hrec (.inl rfl) hp hn

/-- Every call has one of the effects. -/
theorem effect_next (h : r.Filed) (op : Op) : Effect simpleFold r op (r.next simpleFold op) := by
  cases op with
  | createNetwork now id cidr name accountID =>
    cases hres : r.createNetwork now id cidr name accountID with
    | error err =>
      simp only [next, hres]
      exact .keep rfl rfl
    | ok r' =>
      simp only [next, hres]
      obtain ⟨hfresh, rfl⟩ := createNetwork_ok hres
      exact .create hfresh rfl rfl
  | registerPeer p networkID maxMachines => exact effect_registerPeer p networkID maxMachines
  | updateEndpoint now peerID endpoint =>
    cases hres : r.updateEndpoint now peerID endpoint with
    | error err =>
      simp only [next, hres]
      exact .keep rfl rfl
    | ok r' =>
      simp only [next, hres]
      obtain ⟨r₁, ht, rfl⟩ := updateEndpoint_ok hres
      exact effect_touchPeer ht rfl rfl
  | touchPeer now peerID =>
    cases hres : r.touchPeer now peerID with
    | error err =>
      simp only [next, hres]
      exact .keep rfl rfl
    | ok r' =>
      simp only [next, hres]
      exact effect_touchPeer hres rfl rfl
  | removePeer now peerID =>
    cases hl : r.peers.lookup peerID with
    | none =>
      simp only [next, removePeer, hl]
      exact .keep rfl rfl
    | some rec =>
      obtain ⟨net, hnet⟩ := Option.isSome_iff_exists.mp (h.homed peerID rec hl)
      refine .leave hl hnet ?_ ?_
      · simp only [next, removePeer, hl]
        rfl
      · simp only [next, removePeer, hl, hnet]
        rfl
  | sweepStalePeers now ttl skip =>
    simp only [next, sweepStalePeers]
    split
    · exact .keep rfl rfl
    · exact .sweep _ (List.filter_sublist.trans List.filter_sublist)
  | reopen => exact .keep (reopen_peers h.blank) rfl

end Registry

end Veld.Coord
