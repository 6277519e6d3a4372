import Veld.Coord.Calls

/-!
# What a transaction changes and what its call does next

For the endpoints and the watchers only the identity of the stored peers matters:
their network, address and keys. A transaction leaves all identities as they are,
adds or confirms the one of a registering peer, or removes some. The outcome of a
call ties this to the actions the call takes afterwards, and everything about
concurrent calls is derived from it.
-/

namespace Veld.Coord

open Netip

/-- What stays the same about a peer while it is stored. -/
structure Identity where
  id : String
  networkID : String
  vpnAddr : Addr
  ed25519Public : String
  x25519Public : String
  deriving DecidableEq

def PeerRecord.identity (rec : PeerRecord) : Identity :=
  ⟨rec.id, rec.networkID, rec.vpnAddr, rec.ed25519Public, rec.x25519Public⟩

namespace Registry

variable {r' : Registry} {id k : String} {rec : PeerRecord} {a : Addr}

def identityOf (r : Registry) (k : String) : Option Identity :=
  (r.peers.lookup k).map PeerRecord.identity

variable (simpleFold : Char → Char) (r : Registry)

/-- The peer and the endpoint a successful `RegisterPeer` or `UpdateEndpoint` gives. -/
def gives : Op → Option (String × String)
  | .registerPeer p networkID maxMachines =>
    if (r.registerPeer simpleFold p networkID maxMachines).isOk then some (p.id, p.endpoint)
    else none
  | .updateEndpoint now peerID endpoint =>
    if (r.updateEndpoint now peerID endpoint).isOk then some (peerID, endpoint) else none
  | _ => none

/-- The changes of the identities by a transaction, with what its call does next. -/
inductive Outcome (op : Op) : List Action → Prop
  /-- No identity changes and no endpoint is given. -/
  | keep (gives : r.gives simpleFold op = none)
    (same : ∀ k, (r.commit simpleFold op).identityOf k = r.identityOf k) : Outcome op []
  /-- A stored peer has a new endpoint. -/
  | endpoint {id ep} (gives : r.gives simpleFold op = some (id, ep))
    (stored : (r.identityOf id).isSome)
    (same : ∀ k, (r.commit simpleFold op).identityOf k = r.identityOf k) :
    Outcome op [.setEndpoint id ep]
  /-- A peer is stored with an address no other peer of its network has. -/
  | register {p : PeerRecord} {i : Identity}
    (call : ∃ n maxMachines, op = .registerPeer p n maxMachines)
    (gives : r.gives simpleFold op = some (p.id, p.endpoint))
    (id : i.id = p.id) (key : i.x25519Public = p.x25519Public)
    (before : r.identityOf p.id = some i ∨
      r.identityOf p.id = none ∧ i.ed25519Public = p.ed25519Public ∧ i.vpnAddr.isValid = true ∧
        ∀ k j, r.identityOf k = some j → j.networkID = i.networkID → j.vpnAddr ≠ i.vpnAddr)
    (after : (r.commit simpleFold op).identityOf p.id = some i)
    (others : ∀ k ≠ p.id, (r.commit simpleFold op).identityOf k = r.identityOf k) :
    Outcome op [.setEndpoint p.id p.endpoint, .publish i.networkID (joinEvent p i.vpnAddr)]
  /-- Some stored peers are removed. -/
  | remove {removed : List PeerRecord} (gives : r.gives simpleFold op = none)
    (stored : ∀ rec ∈ removed, r.peers.lookup rec.id = some rec)
    (gone : ∀ k, (r.commit simpleFold op).identityOf k =
      if k ∈ removed.map (·.id) then none else r.identityOf k) :
    Outcome op (removed.map (.dropEndpoint ·.id) ++ removed.map publishLeave)

variable {simpleFold r} {op : Op}

theorem identityOf_congr {r r' : Registry} (h : r'.peers = r.peers) (k : String) :
    r'.identityOf k = r.identityOf k := by
  rw [identityOf, identityOf, h]

theorem identityOf_insert (h : r'.peers = r.peers.insert id rec) (k : String) :
    r'.identityOf k = if k = id then some rec.identity else r.identityOf k := by
  by_cases hk : k = id
  · subst hk
    rw [identityOf, h, AList.lookup_insert, if_pos rfl]
    rfl
  · rw [identityOf, h, AList.lookup_insert_ne hk, if_neg hk]
    rfl

/-- A stored peer gets a record with its old identity. -/
theorem identityOf_insert_same {rec rec' : PeerRecord}
    (h : r'.peers = r.peers.insert id rec') (hl : r.peers.lookup id = some rec)
    (hi : rec'.identity = rec.identity) (k : String) : r'.identityOf k = r.identityOf k := by
  rw [identityOf_insert h]
  split
  · rename_i hk
    rw [hk, identityOf, hl, hi]
    rfl
  · rfl

theorem identityOf_erase (h : r'.peers = r.peers.erase id)
    (k : String) : r'.identityOf k = if k = id then none else r.identityOf k := by
  by_cases hk : k = id
  · subst hk
    rw [identityOf, h, AList.lookup_erase, if_pos rfl]
    rfl
  · rw [identityOf, h, AList.lookup_erase_ne hk, if_neg hk]
    rfl

/-- A sweep removes the identities of the swept peers. -/
theorem identityOf_foldl_expel (removed : List PeerRecord) (r : Registry) (k : String) :
    (removed.foldl expel r).identityOf k =
      if k ∈ removed.map (·.id) then none else r.identityOf k := by
  induction removed generalizing r with
  | nil => rfl
  | cons rec rest ih =>
    have herase : (r.expel rec).peers = r.peers.erase rec.id := rfl
    rw [List.foldl_cons, ih, identityOf_erase herase, List.map_cons]
    by_cases hk : k = rec.id <;> by_cases hrest : k ∈ rest.map (·.id) <;> simp [hk, hrest]

theorem scanHosts_free (used : List Addr) (assigned : AList fun _ : Addr => Int) (l : List Addr)
    {c : Candidates} (hn : c.neverUsed ∈ used → c.neverUsed = .zero)
    (ho : c.oldestFreed ∈ used → c.oldestFreed = .zero) :
    ((scanHosts used assigned l c).neverUsed ∈ used →
        (scanHosts used assigned l c).neverUsed = .zero) ∧
      ((scanHosts used assigned l c).oldestFreed ∈ used →
        (scanHosts used assigned l c).oldestFreed = .zero) := by
  induction l generalizing c with
  | nil => exact ⟨hn, ho⟩
  | cons a rest ih =>
    unfold scanHosts
    split
    · exact ih hn ho
    · rename_i ha
      split
      · split
        · exact ih hn fun h => absurd h ha
        · exact ih hn ho
      · exact ⟨fun h => absurd h ha, ho⟩

/-- Whatever the network, an address is allocated only if no peer holds it. -/
theorem allocate_free {cidr : Prefix} {used : List Addr} {assigned : AList fun _ : Addr => Int} (h : allocate cidr used assigned = some a) : a ≠ .zero ∧ a ∉ used := by
  obtain ⟨hn, ho⟩ := scanHosts_free used assigned cidr.hosts (c := {}) (fun _ => rfl) (fun _ => rfl)
  unfold allocate at h
  dsimp only at h
  split at h
  · rename_i hne
    obtain rfl := Option.some.inj h
    exact ⟨hne, fun hmem => hne (hn hmem)⟩
  · split at h
    · rename_i hne
      obtain rfl := Option.some.inj h
      exact ⟨hne, fun hmem => hne (ho hmem)⟩
    · cases h

theorem isValid_of_ne_zero (h : a ≠ .zero) : a.isValid = true := by
  cases a with
  | zero => exact absurd rfl h
  | v4 b => rfl
  | v6 b z => rfl

/-- No peer of a network has an address that is not used. -/
theorem vpnAddr_ne_of_free {n : String} (hz : a ≠ .zero)
    (hfree : a ∉ usedAddrs r.peers n) {j : Identity} (hj : r.identityOf k = some j)
    (hn : j.networkID = n) : j.vpnAddr ≠ a := by
  rintro rfl
  obtain ⟨rec, hrec, rfl⟩ := Option.map_eq_some_iff.mp hj
  exact hfree (mem_usedAddrs.mpr ⟨k, rec, hrec, hn, rfl, isValid_of_ne_zero hz⟩)

theorem outcome_registerPeer (h : r.Keyed) (p : PeerRecord) (n : String) (maxMachines : Int) :
    Outcome simpleFold r (.registerPeer p n maxMachines)
      (r.followUp simpleFold (.registerPeer p n maxMachines)) := by
  cases hres : r.registerPeer simpleFold p n maxMachines with
  | error err =>
    have hpeers : (r.commit simpleFold (.registerPeer p n maxMachines)).peers = r.peers := by
      simp only [commit, next, hres]
      rfl
    simp only [followUp, hres]
    exact .keep (by simp [gives, hres, Except.isOk, Except.toBool]) (identityOf_congr hpeers)
  | ok res =>
    obtain ⟨r', a⟩ := res
    have hpeers : (r.commit simpleFold (.registerPeer p n maxMachines)).peers = r'.peers := by
      simp only [commit, next, hres]
      rfl
    have hgives : r.gives simpleFold (.registerPeer p n maxMachines) = some (p.id, p.endpoint) := by
      simp [gives, hres, Except.isOk, Except.toBool]
    simp only [followUp, hres]
    obtain ⟨r₁, hreg, rfl⟩ := registerPeer_ok hres
    rcases register_ok hreg with
      ⟨rec, hrec, hnet, hkey, rfl, rfl⟩ | ⟨net, hfresh, -, -, -, halloc, rfl⟩
    · have hrec : r.peers.lookup p.id = some rec := hrec
      have hbefore : r.identityOf p.id = some rec.identity := by
        rw [identityOf, hrec]
        rfl
      have hafter := identityOf_insert_same hpeers hrec rfl
      have hout := Outcome.register (i := rec.identity) ⟨n, maxMachines, rfl⟩ hgives (h p.id rec hrec) hkey
        (.inl hbefore) ((hafter p.id).trans hbefore) (fun k _ => hafter k)
      have hn : rec.identity.networkID = n := hnet
      rw [hn] at hout
      exact hout
    · have hfresh : r.peers.lookup p.id = none := hfresh
      obtain ⟨hz, hfree⟩ := allocate_free halloc
      have hafter (k : String) : (r.commit simpleFold (.registerPeer p n maxMachines)).identityOf k =
          if k = p.id then some (joined (settled simpleFold r p n) n a).identity
          else r.identityOf k := identityOf_insert hpeers k
      refine Outcome.register (i := (joined (settled simpleFold r p n) n a).identity)
        ⟨n, maxMachines, rfl⟩ hgives rfl rfl (.inr ⟨?_, rfl, isValid_of_ne_zero hz,
          fun k j hj hn => vpnAddr_ne_of_free hz hfree hj hn⟩) ?_ ?_
      · rw [identityOf, hfresh]
        rfl
      · rw [hafter, if_pos rfl]
      · intro k hk
        rw [hafter, if_neg hk]

/-- `TouchPeer` and the transaction of `UpdateEndpoint` change no identity. -/
theorem identityOf_touchPeer {now : Int} {r₁ r' : Registry}
    (h : r.touchPeer now id = .ok r₁) (hp : r'.peers = r₁.peers) :
    (r.identityOf id).isSome ∧ ∀ k, r'.identityOf k = r.identityOf k := by
  obtain ⟨rec, hrec, rfl⟩ := touchPeer_ok h
  constructor
  · rw [identityOf, hrec]
    rfl
  · exact identityOf_insert_same hp hrec rfl

theorem outcome_updateEndpoint (now : Int) (id ep : String) :
    Outcome simpleFold r (.updateEndpoint now id ep)
      (r.followUp simpleFold (.updateEndpoint now id ep)) := by
  cases hres : r.updateEndpoint now id ep with
  | error err =>
    have hpeers : (r.commit simpleFold (.updateEndpoint now id ep)).peers = r.peers := by
      simp only [commit, next, hres]
      rfl
    simp only [followUp, hres]
    exact .keep (by simp [gives, hres, Except.isOk, Except.toBool]) (identityOf_congr hpeers)
  | ok r' =>
    have hpeers : (r.commit simpleFold (.updateEndpoint now id ep)).peers = r'.peers := by
      simp only [commit, next, hres]
      rfl
    simp only [followUp, hres]
    obtain ⟨r₁, ht, rfl⟩ := updateEndpoint_ok hres
    obtain ⟨hstored, hsame⟩ := identityOf_touchPeer ht hpeers
    exact .endpoint (by simp [gives, hres, Except.isOk, Except.toBool]) hstored hsame

theorem outcome_removePeer (h : r.Keyed) (now : Int) (id : String) :
    Outcome simpleFold r (.removePeer now id) (r.followUp simpleFold (.removePeer now id)) := by
  cases hl : r.peers.lookup id with
  | none =>
    have hpeers : (r.commit simpleFold (.removePeer now id)).peers = r.peers := by
      simp only [commit, next, removePeer, hl]
      rfl
    simp only [followUp, removePeer, hl]
    exact .keep rfl (identityOf_congr hpeers)
  | some rec =>
    have hpeers : (r.commit simpleFold (.removePeer now id)).peers = r.peers.erase id := by
      simp only [commit, next, removePeer, hl]
      rfl
    have hid : rec.id = id := h id rec hl
    subst hid
    simp only [followUp, removePeer, hl]
    have hstored : ∀ rec' ∈ [rec], r.peers.lookup rec'.id = some rec' := by
      intro rec' hrec'
      rw [List.mem_singleton.mp hrec', hl]
    refine .remove rfl hstored fun k => ?_
    rw [identityOf_erase hpeers]
    simp

theorem outcome_sweepStalePeers (h : r.Keyed) (now ttl : Int) (skip : Option (String → Bool)) :
    Outcome simpleFold r (.sweepStalePeers now ttl skip)
      (r.followUp simpleFold (.sweepStalePeers now ttl skip)) := by
  have hpeers : (r.commit simpleFold (.sweepStalePeers now ttl skip)).peers =
      (r.sweepStalePeers now ttl skip).1.peers := rfl
  have hidentity (k : String) : (r.commit simpleFold (.sweepStalePeers now ttl skip)).identityOf k =
      (r.sweepStalePeers now ttl skip).1.identityOf k := identityOf_congr hpeers k
  refine .remove rfl ?_ ?_
  · intro rec hrec
    simp only [sweepStalePeers] at hrec
    split at hrec
    · cases hrec
    · have hmem : rec ∈ values r.peers := (List.mem_filter.mp (List.mem_filter.mp hrec).1).1
      obtain ⟨k, hk⟩ := mem_values.mp hmem
      rw [h k rec hk, hk]
  · intro k
    rw [hidentity]
    simp only [sweepStalePeers]
    split
    · rfl
    · exact identityOf_foldl_expel _ r k

/-- Every call has an outcome. -/
theorem outcome (simpleFold : Char → Char) (h : r.Keyed) (op : Op) :
    Outcome simpleFold r op (r.followUp simpleFold op) := by
  cases op with
  | createNetwork now id cidr name accountID =>
    refine .keep rfl (identityOf_congr ?_)
    cases hres : r.createNetwork now id cidr name accountID with
    | error err =>
      simp only [commit, next, hres]
      rfl
    | ok r' =>
      simp only [commit, next, hres]
      obtain ⟨-, rfl⟩ := createNetwork_ok hres
      rfl
  | registerPeer p n maxMachines => exact outcome_registerPeer h p n maxMachines
  | updateEndpoint now id ep => exact outcome_updateEndpoint now id ep
  | touchPeer now id =>
    refine .keep rfl ?_
    cases hres : r.touchPeer now id with
    | error err =>
      refine identityOf_congr ?_
      simp only [commit, next, hres]
      rfl
    | ok r' =>
      refine (identityOf_touchPeer hres ?_).2
      simp only [commit, next, hres]
      rfl
  | removePeer now id => exact outcome_removePeer h now id
  | sweepStalePeers now ttl skip => exact outcome_sweepStalePeers h now ttl skip
  | reopen => exact .keep rfl fun _ => rfl

theorem keyed_iff : r.Keyed ↔ ∀ k i, r.identityOf k = some i → i.id = k := by
  constructor
  · intro h k i hi
    obtain ⟨rec, hrec, rfl⟩ := Option.map_eq_some_iff.mp hi
    exact h k rec hrec
  · intro h k rec hrec
    exact h k rec.identity (by rw [identityOf, hrec]; rfl)

theorem isSome_identityOf : (r.identityOf k).isSome = (r.peers.lookup k).isSome := Option.isSome_map

/-- A transaction keeps the peers under their own IDs. -/
theorem Keyed.commit (h : r.Keyed) (op : Op) : (r.commit simpleFold op).Keyed := by
  have hold := keyed_iff.mp h
  refine keyed_iff.mpr fun k i hi => ?_
  have hout := outcome simpleFold h op
  generalize r.followUp simpleFold op = acts at hout
  cases hout with
  | keep _ same => exact hold k i (same k ▸ hi)
  | endpoint _ _ same => exact hold k i (same k ▸ hi)
  | @register p j _ _ hid _ _ after others =>
    by_cases hk : k = p.id
    · rw [hk, after] at hi
      rw [← Option.some.inj hi, hid, hk]
    · exact hold k i (others k hk ▸ hi)
  | remove _ _ gone =>
    rw [gone] at hi
    split at hi
    · cases hi
    · exact hold k i hi

end Registry

namespace Coordinator

variable {c : Coordinator}

/-- The actions after the transactions change no stored peer. -/
theorem identityOf_act (a : Action) (id : String) :
    (c.act a).registry.identityOf id = c.registry.identityOf id := by
  cases a <;> rfl

theorem keyed_act (h : c.registry.Keyed) (a : Action) : (c.act a).registry.Keyed := by
  cases a <;> exact h

end Coordinator

end Veld.Coord
