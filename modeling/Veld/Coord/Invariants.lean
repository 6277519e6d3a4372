import Veld.Coord.Allocation
import Veld.Coord.Effects

/-!
# The invariant of the registry

What holds of the two buckets after any calls: addresses and names of a network
are unique, addresses are host addresses, the machine count is the number of
peers, no record has an endpoint and the times of the last heartbeat are full
hours. A stored peer keeps its network, key and address until it is removed.
-/

namespace Veld.Coord

open Netip

/-- Any two stored peers of one network are related. -/
def Apart (related : PeerRecord → PeerRecord → Prop) (peers : AList fun _ : String => PeerRecord) :
    Prop :=
  ∀ k k' rec rec', peers.lookup k = some rec → peers.lookup k' = some rec' → k ≠ k' →
    rec.networkID = rec'.networkID → related rec rec'

/-- The number of stored peers of a network. -/
def peerCount (peers : AList fun _ : String => PeerRecord) (networkID : String) : Nat :=
  countValues (fun rec => rec.networkID = networkID) peers

section Peers

variable {peers : AList fun _ : String => PeerRecord} {related : PeerRecord → PeerRecord → Prop}
  {k : String} {rec rec' : PeerRecord} {a : Addr} {n : String}

theorem Apart.insert (h : Apart related peers)
    (hk : ∀ k' rec', k' ≠ k → peers.lookup k' = some rec' → rec'.networkID = rec.networkID →
      related rec rec' ∧ related rec' rec) : Apart related (peers.insert k rec) := by
  intro k₁ k₂ rec₁ rec₂ h₁ h₂ hne hnet
  rcases lookup_insert_eq_some.mp h₁ with ⟨rfl, rfl⟩ | ⟨hk₁, hl₁⟩
  · rcases lookup_insert_eq_some.mp h₂ with ⟨rfl, -⟩ | ⟨hk₂, hl₂⟩
    · exact absurd rfl hne
    · exact (hk k₂ rec₂ hk₂ hl₂ hnet.symm).1
  · rcases lookup_insert_eq_some.mp h₂ with ⟨rfl, rfl⟩ | ⟨-, hl₂⟩
    · exact (hk k₁ rec₁ hk₁ hl₁ hnet).2
    · exact h k₁ k₂ rec₁ rec₂ hl₁ hl₂ hne hnet

theorem Apart.erase (h : Apart related peers) : Apart related (peers.erase k) := by
  intro k₁ k₂ rec₁ rec₂ h₁ h₂
  exact h k₁ k₂ rec₁ rec₂ (lookup_erase_eq_some.mp h₁).2 (lookup_erase_eq_some.mp h₂).2

theorem mem_usedAddrs : a ∈ usedAddrs peers n ↔ ∃ k rec, peers.lookup k = some rec ∧
    rec.networkID = n ∧ rec.vpnAddr = a ∧ a.isValid = true := by
  simp only [usedAddrs, List.mem_filterMap, mem_values]
  constructor
  · rintro ⟨rec, ⟨k, hk⟩, h⟩
    split at h
    · rename_i hc
      obtain rfl := Option.some.inj h
      exact ⟨k, rec, hk, hc.1, rfl, hc.2⟩
    · cases h
  · rintro ⟨k, rec, hk, hn, rfl, hv⟩
    exact ⟨rec, ⟨k, hk⟩, by simp [hn, hv]⟩

theorem peerCount_insert_fresh (h : peers.lookup k = none) :
    peerCount (peers.insert k rec) n = peerCount peers n + if rec.networkID = n then 1 else 0 := by
  simp [peerCount, countValues_insert, erase_of_lookup_none h]

theorem peerCount_insert_stored (h : peers.lookup k = some rec)
    (hn : rec'.networkID = rec.networkID) :
    peerCount (peers.insert k rec') n = peerCount peers n := by
  simp only [peerCount, countValues_insert, countValues_of_lookup h, hn]

theorem peerCount_erase (h : peers.lookup k = some rec) :
    peerCount peers n = peerCount (peers.erase k) n + if rec.networkID = n then 1 else 0 := by
  simp [peerCount, countValues_of_lookup h]

theorem peerCount_eq_zero (h : ∀ k rec, peers.lookup k = some rec → rec.networkID ≠ n) :
    peerCount peers n = 0 := by
  refine List.countP_eq_zero.mpr fun rec hrec => ?_
  obtain ⟨k, hk⟩ := mem_values.mp hrec
  simpa using h k rec hk

end Peers

theorem roundToHour_dvd {secs : Int} (h : 0 ≤ roundToHour secs) :
    lastSeenGranularity ∣ roundToHour secs := by
  unfold roundToHour at h ⊢
  split at h
  · rename_i hs
    have hzero : secs = 0 := by omega
    simp [hzero]
  · rename_i hs
    rw [if_neg hs]
    exact Int.dvd_self_sub_emod

/-- A clock before the epoch is the only source of a negative time. -/
theorem roundToHour_nonneg_iff {secs : Int} : 0 ≤ roundToHour secs ↔ 0 ≤ secs := by
  unfold roundToHour lastSeenGranularity
  split <;> omega

namespace Registry

variable {id : String} {rec : PeerRecord} {net : NetworkRecord} {removed : List PeerRecord}

/-- The invariant of the registry. -/
structure WellFormed (r : Registry) : Prop extends Filed r where
  /-- Addresses are host addresses of the network. -/
  hosted : ∀ k rec net, r.peers.lookup k = some rec →
    r.networks.lookup rec.networkID = some net → net.cidr.IsHost rec.vpnAddr
  /-- No two peers of a network have one address. -/
  addresses : Apart (fun rec rec' => rec.vpnAddr ≠ rec'.vpnAddr) r.peers
  /-- The machine count is the number of peers. -/
  counted : ∀ n net, r.networks.lookup n = some net → net.machineCount = peerCount r.peers n
  /-- No two peers of a network have one name. -/
  names : Apart (fun rec rec' => rec.name ≠ "" → ¬SameName rec.name rec'.name) r.peers
  /-- The last heartbeat is a full hour, unless the clock was before the epoch. -/
  rounded : ∀ k rec, r.peers.lookup k = some rec → 0 ≤ rec.lastSeen →
    lastSeenGranularity ∣ rec.lastSeen
  subnets : ∀ n net, r.networks.lookup n = some net → net.cidr.IsSubnet

theorem wellFormed_empty : WellFormed empty := by
  have hp {k : String} {rec : PeerRecord} (h : empty.peers.lookup k = some rec) : False := by
    rw [empty, AList.lookup_empty] at h
    cases h
  have hn {n : String} {net : NetworkRecord} (h : empty.networks.lookup n = some net) : False := by
    rw [empty, AList.lookup_empty] at h
    cases h
  exact
    { keyed := fun _ _ h => (hp h).elim
      storable := fun _ _ h => (hp h).elim
      blank := fun _ _ h => (hp h).elim
      homed := fun _ _ h => (hp h).elim
      hosted := fun _ _ _ h => (hp h).elim
      addresses := fun _ _ _ _ h => (hp h).elim
      counted := fun _ _ h => (hn h).elim
      names := fun _ _ _ _ h => (hp h).elim
      rounded := fun _ _ h => (hp h).elim
      subnets := fun _ _ h => (hn h).elim }

variable {r r' : Registry} {simpleFold : Char → Char}

/-- The invariant is about the buckets only. -/
theorem WellFormed.congr (h : r.WellFormed) (hp : r'.peers = r.peers)
    (hn : r'.networks = r.networks) : r'.WellFormed := by
  obtain ⟨networks, peers, endpoints⟩ := r
  obtain ⟨networks', peers', endpoints'⟩ := r'
  obtain rfl : peers' = peers := hp
  obtain rfl : networks' = networks := hn
  exact ⟨⟨h.keyed, h.storable, h.blank, h.homed⟩, h.hosted, h.addresses, h.counted, h.names,
    h.rounded, h.subnets⟩

/-- A network is added. -/
theorem WellFormed.create (h : r.WellFormed) {id : String} (net : NetworkRecord)
    (hfresh : r.networks.lookup id = none) (hsubnet : net.cidr.IsSubnet)
    (hcount : net.machineCount = 0) :
    WellFormed { r with networks := r.networks.insert id net } := by
  have hother {k : String} {rec : PeerRecord} (hk : r.peers.lookup k = some rec) :
      rec.networkID ≠ id := by
    rintro rfl
    have hhome := h.homed k rec hk
    rw [hfresh] at hhome
    cases hhome
  refine ⟨⟨h.keyed, h.storable, h.blank, fun k rec hk => ?_⟩, fun k rec net' hk hnet => ?_, h.addresses,
    fun n net' hnet => ?_, h.names, h.rounded, fun n net' hnet => ?_⟩
  · rw [AList.lookup_insert_ne (hother hk)]
    exact h.homed k rec hk
  · rw [AList.lookup_insert_ne (hother hk)] at hnet
    exact h.hosted k rec net' hk hnet
  · rcases lookup_insert_eq_some.mp hnet with ⟨rfl, rfl⟩ | ⟨-, hold⟩
    · rw [hcount, peerCount_eq_zero fun k rec hk => hother hk]
      rfl
    · exact h.counted n net' hold
  · rcases lookup_insert_eq_some.mp hnet with ⟨rfl, rfl⟩ | ⟨-, hold⟩
    · exact hsubnet
    · exact h.subnets n net' hold

/-- A name that is free clashes with no other peer's. -/
theorem NameFree.apart {networkID peerID name : String} (h : r.WellFormed)
    (hfree : NameFree simpleFold r networkID peerID name) {k : String} {rec : PeerRecord}
    (hk : r.peers.lookup k = some rec) (hne : k ≠ peerID) (hnet : rec.networkID = networkID) :
    (name ≠ "" → ¬SameName name rec.name) ∧ (rec.name ≠ "" → ¬SameName rec.name name) := by
  have hclash (hname : name ≠ "") (hsame : SameName rec.name name) : False := by
    have hfold : equalFold simpleFold rec.name.toList name.toList = true :=
      equalFold_of_map_toLower simpleFold hsame
    have htaken : nameTaken simpleFold r.peers networkID peerID name = true := by
      refine List.any_eq_true.mpr ⟨rec, mem_values.mpr ⟨k, hk⟩, ?_⟩
      simp [hnet, h.keyed k rec hk, hne, hfold]
    rcases hfree with hempty | hnot
    · exact hname hempty
    · rw [htaken] at hnot
      cases hnot
  constructor
  · exact fun hname hsame => hclash hname hsame.symm
  · intro hname hsame
    refine hclash ?_ hsame
    rintro rfl
    apply hname
    have hnil : rec.name.toList.map Char.toLower = [] := hsame
    exact String.toList_eq_nil_iff.mp (List.map_eq_nil_iff.mp hnil)

/-- A stored peer gets another name, other routes or another time. -/
theorem WellFormed.renew (h : r.WellFormed) {rec p : PeerRecord} (hl : r.peers.lookup id = some rec)
    (hname : p.name = rec.name ∨ NameFree simpleFold r rec.networkID id p.name) :
    WellFormed { r with peers := r.peers.insert id (renewed rec p) } := by
  refine ⟨⟨fun k rec' hk => ?_, fun k rec' hk => ?_, fun k rec' hk => ?_, fun k rec' hk => ?_⟩,
    fun k rec' net hk hnet => ?_, ?_, fun n net hnet => ?_, ?_, fun k rec' hk => ?_, h.subnets⟩
  · rcases lookup_insert_eq_some.mp hk with ⟨rfl, rfl⟩ | ⟨-, hold⟩
    · exact h.keyed k rec hl
    · exact h.keyed k rec' hold
  · rcases lookup_insert_eq_some.mp hk with ⟨rfl, rfl⟩ | ⟨-, hold⟩
    · exact h.storable k rec hl
    · exact h.storable k rec' hold
  · rcases lookup_insert_eq_some.mp hk with ⟨rfl, rfl⟩ | ⟨-, hold⟩
    · exact h.blank k rec hl
    · exact h.blank k rec' hold
  · rcases lookup_insert_eq_some.mp hk with ⟨rfl, rfl⟩ | ⟨-, hold⟩
    · exact h.homed k rec hl
    · exact h.homed k rec' hold
  · rcases lookup_insert_eq_some.mp hk with ⟨rfl, rfl⟩ | ⟨-, hold⟩
    · exact h.hosted k rec net hl hnet
    · exact h.hosted k rec' net hold hnet
  · refine h.addresses.insert fun k' rec' hne hk' hnet => ?_
    exact ⟨h.addresses id k' rec rec' hl hk' hne.symm hnet.symm,
      h.addresses k' id rec' rec hk' hl hne hnet⟩
  · have hsame : (renewed rec p).networkID = rec.networkID := rfl
    rw [h.counted n net hnet, peerCount_insert_stored hl hsame]
  · refine h.names.insert fun k' rec' hne hk' hnet => ?_
    rcases hname with heq | hfree
    · have hrenewed : (renewed rec p).name = rec.name := heq
      rw [hrenewed]
      exact ⟨h.names id k' rec rec' hl hk' hne.symm hnet.symm,
        h.names k' id rec' rec hk' hl hne hnet⟩
    · exact hfree.apart h hk' hne hnet
  · rcases lookup_insert_eq_some.mp hk with ⟨rfl, rfl⟩ | ⟨-, hold⟩
    · exact roundToHour_dvd
    · exact h.rounded k rec' hold

/-- A network record is replaced by one of the same network. -/
theorem isSome_lookup_insert {n n' : String}
    (h : (r.networks.lookup n).isSome) : ((r.networks.insert n' net).lookup n).isSome := by
  by_cases hn : n = n'
  · subst hn
    rw [AList.lookup_insert]
    rfl
  · rw [AList.lookup_insert_ne hn]
    exact h

/-- A new peer gets an address that no peer of its network has. -/
theorem WellFormed.join (h : r.WellFormed) (p : PeerRecord) {n : String} {net : NetworkRecord}
    (net' : NetworkRecord) {a : Addr} (hfresh : r.peers.lookup p.id = none)
    (hkey : checkKey p.id = .ok ()) (hnet : r.networks.lookup n = some net)
    (hcidr : net'.cidr = net.cidr) (hcount : net'.machineCount = net.machineCount + 1)
    (hhost : net.cidr.IsHost a) (hfree : a ∉ usedAddrs r.peers n) (hblank : p.endpoint = "")
    (hname : NameFree simpleFold r n p.id p.name) :
    WellFormed { r with
      networks := r.networks.insert n net'
      peers := r.peers.insert p.id (joined p n a) } := by
  have hapart {k : String} {rec : PeerRecord} (hk : r.peers.lookup k = some rec)
      (hrec : rec.networkID = n) : rec.vpnAddr ≠ a := by
    rintro rfl
    apply hfree
    exact mem_usedAddrs.mpr ⟨k, rec, hk, hrec, rfl, isValid_of_isHost hhost⟩
  refine ⟨⟨fun k rec hk => ?_, fun k rec hk => ?_, fun k rec hk => ?_, fun k rec hk => ?_⟩,
    fun k rec net₁ hk hnet₁ => ?_, ?_, fun m net₁ hnet₁ => ?_, ?_, fun k rec hk => ?_,
    fun m net₁ hnet₁ => ?_⟩
  · rcases lookup_insert_eq_some.mp hk with ⟨rfl, rfl⟩ | ⟨-, hold⟩
    · rfl
    · exact h.keyed k rec hold
  · rcases lookup_insert_eq_some.mp hk with ⟨rfl, rfl⟩ | ⟨-, hold⟩
    · exact hkey
    · exact h.storable k rec hold
  · rcases lookup_insert_eq_some.mp hk with ⟨rfl, rfl⟩ | ⟨-, hold⟩
    · exact hblank
    · exact h.blank k rec hold
  · rcases lookup_insert_eq_some.mp hk with ⟨rfl, rfl⟩ | ⟨-, hold⟩
    · exact isSome_lookup_insert (by rw [joined, hnet]; rfl)
    · exact isSome_lookup_insert (h.homed k rec hold)
  · rcases lookup_insert_eq_some.mp hk with ⟨rfl, rfl⟩ | ⟨-, hold⟩
    · rcases lookup_insert_eq_some.mp hnet₁ with ⟨-, rfl⟩ | ⟨hne, -⟩
      · rw [hcidr]
        exact hhost
      · exact absurd rfl hne
    · rcases lookup_insert_eq_some.mp hnet₁ with ⟨hn, rfl⟩ | ⟨-, hnet₁⟩
      · rw [hcidr]
        exact h.hosted k rec net hold (by rw [hn, hnet])
      · exact h.hosted k rec net₁ hold hnet₁
  · exact h.addresses.insert fun k rec _ hk hrec =>
      ⟨(hapart hk hrec).symm, hapart hk hrec⟩
  · simp only [peerCount_insert_fresh hfresh]
    rcases lookup_insert_eq_some.mp hnet₁ with ⟨rfl, rfl⟩ | ⟨hne, hnet₁⟩
    · rw [hcount, h.counted m net hnet]
      simp [joined]
    · rw [h.counted m net₁ hnet₁]
      simp [joined, hne.symm]
  · exact h.names.insert fun k rec hne hk hrec => hname.apart h hk hne hrec
  · rcases lookup_insert_eq_some.mp hk with ⟨rfl, rfl⟩ | ⟨-, hold⟩
    · exact roundToHour_dvd
    · exact h.rounded k rec hold
  · rcases lookup_insert_eq_some.mp hnet₁ with ⟨rfl, rfl⟩ | ⟨-, hnet₁⟩
    · rw [hcidr]
      exact h.subnets m net hnet
    · exact h.subnets m net₁ hnet₁

/-- The network of a stored peer has a positive machine count. -/
theorem WellFormed.machineCount_pos (h : r.WellFormed) (hl : r.peers.lookup id = some rec)
    (hnet : r.networks.lookup rec.networkID = some net) : 0 < net.machineCount := by
  rw [h.counted _ net hnet, peerCount_erase hl, if_pos rfl]
  omega

/-- A peer leaves and the machine count of its network goes down. -/
theorem WellFormed.drop (h : r.WellFormed) {id : String} {rec : PeerRecord}
    {net : NetworkRecord} (net' : NetworkRecord) (endpoints : AList fun _ : String => String)
    (hl : r.peers.lookup id = some rec)
    (hnet : r.networks.lookup rec.networkID = some net) (hcidr : net'.cidr = net.cidr)
    (hcount : net'.machineCount = net.machineCount - 1) :
    WellFormed ⟨r.networks.insert rec.networkID net', r.peers.erase id, endpoints⟩ := by
  refine ⟨⟨fun k rec₁ hk => ?_, fun k rec₁ hk => ?_, fun k rec₁ hk => ?_, fun k rec₁ hk => ?_⟩,
    fun k rec₁ net₁ hk hnet₁ => ?_, h.addresses.erase, fun m net₁ hnet₁ => ?_, h.names.erase,
    fun k rec₁ hk => ?_, fun m net₁ hnet₁ => ?_⟩
  · exact h.keyed k rec₁ (lookup_erase_eq_some.mp hk).2
  · exact h.storable k rec₁ (lookup_erase_eq_some.mp hk).2
  · exact h.blank k rec₁ (lookup_erase_eq_some.mp hk).2
  · exact isSome_lookup_insert (h.homed k rec₁ (lookup_erase_eq_some.mp hk).2)
  · have hold := (lookup_erase_eq_some.mp hk).2
    rcases lookup_insert_eq_some.mp hnet₁ with ⟨hn, rfl⟩ | ⟨-, hnet₁⟩
    · rw [hcidr]
      exact h.hosted k rec₁ net hold (by rw [hn, hnet])
    · exact h.hosted k rec₁ net₁ hold hnet₁
  · rcases lookup_insert_eq_some.mp hnet₁ with ⟨rfl, rfl⟩ | ⟨hne, hnet₁⟩
    · rw [hcount, h.counted _ net hnet, peerCount_erase hl, if_pos rfl]
      simp
    · rw [h.counted m net₁ hnet₁, peerCount_erase hl, if_neg hne.symm, Nat.add_zero]
  · exact h.rounded k rec₁ (lookup_erase_eq_some.mp hk).2
  · rcases lookup_insert_eq_some.mp hnet₁ with ⟨rfl, rfl⟩ | ⟨-, hnet₁⟩
    · rw [hcidr]
      exact h.subnets _ net hnet
    · exact h.subnets m net₁ hnet₁

theorem machineCount_dismiss (h : 0 < net.machineCount) :
    (dismiss net).machineCount = net.machineCount - 1 := by
  simp [dismiss, h]

/-- What is left after a stored peer was expelled. -/
theorem WellFormed.expel_eq (h : r.WellFormed) (hl : r.peers.lookup rec.id = some rec) :
    ∃ net, r.networks.lookup rec.networkID = some net ∧ r.expel rec =
      ⟨r.networks.insert rec.networkID (dismiss net), r.peers.erase rec.id,
        r.endpoints.erase rec.id⟩ := by
  obtain ⟨net, hnet⟩ := Option.isSome_iff_exists.mp (h.homed rec.id rec hl)
  refine ⟨net, hnet, ?_⟩
  have hpos := h.machineCount_pos hl hnet
  simp [expel, hnet, hpos]

theorem WellFormed.expel (h : r.WellFormed)
    (hl : r.peers.lookup rec.id = some rec) : (r.expel rec).WellFormed := by
  obtain ⟨net, hnet, heq⟩ := h.expel_eq hl
  rw [heq]
  exact h.drop (dismiss net) _ hl hnet rfl (machineCount_dismiss (h.machineCount_pos hl hnet))

/-- The records of a sweep are stored under different ids. -/
theorem WellFormed.stored_of_sublist (h : r.WellFormed) (hsub : removed.Sublist (values r.peers)) :
    (∀ rec ∈ removed, r.peers.lookup rec.id = some rec) ∧
      removed.Pairwise fun rec rec' => rec.id ≠ rec'.id := by
  constructor
  · intro rec hrec
    obtain ⟨k, hk⟩ := mem_values.mp (hsub.subset hrec)
    rw [h.keyed k rec hk]
    exact hk
  · refine List.Pairwise.sublist hsub ?_
    rw [values, List.pairwise_map]
    refine List.Pairwise.imp_of_mem ?_ (List.nodupKeys_iff_pairwise.mp r.peers.nodupKeys)
    intro e e' he he' hne
    rw [h.keyed e.1 e.2 (AList.mem_lookup_iff.mpr he),
      h.keyed e'.1 e'.2 (AList.mem_lookup_iff.mpr he')]
    exact hne

/-- What every expulsion of a stored peer preserves, a sweep preserves. -/
theorem foldl_expel (keeps : Registry → Prop)
    (step : ∀ r rec, r.WellFormed → r.peers.lookup rec.id = some rec → keeps r →
      keeps (r.expel rec))
    (hw : r.WellFormed) (hk : keeps r) (hs : ∀ rec ∈ removed, r.peers.lookup rec.id = some rec)
    (hd : removed.Pairwise fun rec rec' => rec.id ≠ rec'.id) :
    (removed.foldl Registry.expel r).WellFormed ∧ keeps (removed.foldl Registry.expel r) := by
  induction removed generalizing r with
  | nil => exact ⟨hw, hk⟩
  | cons rec rest ih =>
    obtain ⟨hrec, hrest⟩ := List.forall_mem_cons.mp hs
    obtain ⟨hne, hdrest⟩ := List.pairwise_cons.mp hd
    refine ih (hw.expel hrec) (step r rec hw hrec hk) (fun rec' hrec' => ?_) hdrest
    exact lookup_erase_eq_some.mpr ⟨(hne rec' hrec').symm, hrest rec' hrec'⟩

end Registry

/-- Networks have an IPv4 prefix with room for hosts. -/
def Op.Valid : Op → Prop
  | .createNetwork _ _ cidr _ _ => cidr.IsSubnet
  | _ => True

namespace Registry

variable {r r' : Registry} {simpleFold : Char → Char} {op : Op}

/-- Every effect keeps the invariant. -/
theorem WellFormed.effect (h : r.WellFormed) (hop : op.Valid) (he : Effect simpleFold r op r') :
    r'.WellFormed := by
  cases he with
  | keep hp hn => exact h.congr hp hn
  | @create now id cidr name accountID _ hfresh hp hn =>
    exact (h.create (newNetwork now id cidr name accountID) hfresh hop rfl).congr hp hn
  | renew hl hname hp hn => exact (h.renew hl hname).congr hp hn
  | @join p n _ _ net a hfresh hkey hnet _ halloc hname hp hn =>
    have hs := h.subnets _ _ hnet
    have hjoin := h.join (settled simpleFold r p n) (occupy net (usedAddrs r.peers n) a) hfresh hkey
      hnet rfl rfl (allocate_cases hs halloc).1 (not_mem_used_of_allocate hs halloc) rfl hname
    exact hjoin.congr hp hn
  | @leave now id _ rec net hl hnet hp hn =>
    have hcount := machineCount_dismiss (h.machineCount_pos hl hnet)
    have hdrop := h.drop (release net (usedAddrs (r.peers.erase id) rec.networkID) rec.vpnAddr now)
      r.endpoints hl hnet rfl hcount
    exact hdrop.congr hp hn
  | sweep removed hsub =>
    obtain ⟨hs, hd⟩ := h.stored_of_sublist hsub
    exact (foldl_expel (fun _ => True) (fun _ _ _ _ _ => trivial) h trivial hs hd).1

theorem WellFormed.next (h : r.WellFormed) (hop : op.Valid) :
    (r.next simpleFold op).WellFormed :=
  h.effect hop (effect_next h.toFiled op)

theorem wellFormed_run {ops : List Op} (hops : ∀ op ∈ ops, op.Valid) :
    (run (Registry.next simpleFold) empty ops).WellFormed := by
  induction ops using List.reverseRecOn with
  | nil => exact wellFormed_empty
  | append_singleton ops op ih =>
    rw [run_snoc]
    obtain ⟨hprev, hop⟩ := List.forall_mem_append.mp hops
    exact (ih hprev).next (hop op (List.mem_singleton_self op))

/-- A peer that stays stored keeps its network, its key and its address. -/
theorem Effect.identity (he : Effect simpleFold r op r') {k : String}
    {rec rec' : PeerRecord} (hl : r.peers.lookup k = some rec)
    (hl' : r'.peers.lookup k = some rec') : rec'.networkID = rec.networkID ∧
      rec'.x25519Public = rec.x25519Public ∧ rec'.vpnAddr = rec.vpnAddr := by
  have hsame (hold : r.peers.lookup k = some rec') : rec'.networkID = rec.networkID ∧
      rec'.x25519Public = rec.x25519Public ∧ rec'.vpnAddr = rec.vpnAddr := by
    obtain rfl := Option.mem_unique hl hold
    exact ⟨rfl, rfl, rfl⟩
  cases he with
  | keep hp hn => exact hsame (hp ▸ hl')
  | create hfresh hp hn => exact hsame (hp ▸ hl')
  | renew hstored hname hp hn =>
    rw [hp] at hl'
    rcases lookup_insert_eq_some.mp hl' with ⟨rfl, rfl⟩ | ⟨-, hold⟩
    · obtain rfl := Option.mem_unique hl hstored
      exact ⟨rfl, rfl, rfl⟩
    · exact hsame hold
  | join hfresh hkey hnet hlimit halloc hname hp hn =>
    rw [hp] at hl'
    rcases lookup_insert_eq_some.mp hl' with ⟨rfl, -⟩ | ⟨-, hold⟩
    · rw [hfresh] at hl
      cases hl
    · exact hsame hold
  | leave hstored hnet hp hn =>
    rw [hp] at hl'
    exact hsame (lookup_erase_eq_some.mp hl').2
  | sweep removed hsub => exact hsame (lookup_of_foldl_expel hl')

/-- A registration into a full network adds no peer. -/
theorem Effect.limit (h : r.WellFormed) {p : PeerRecord} {n : String} {maxMachines : Int}
    (he : Effect simpleFold r (.registerPeer p n maxMachines) r') (hpos : 0 < maxMachines)
    (hfull : maxMachines ≤ peerCount r.peers n) {k : String} (hk : r.peers.lookup k = none) :
    r'.peers.lookup k = none := by
  cases he with
  | keep hp hn => rw [hp, hk]
  | renew hstored hname hp hn =>
    rw [hp, AList.lookup_insert_ne, hk]
    rintro rfl
    rw [hstored] at hk
    cases hk
  | join hfresh hkey hnet hlimit halloc hname hp hn =>
    rw [← h.counted n _ hnet] at hfull
    exact absurd ⟨hpos, hfull⟩ hlimit

/-- After any calls the invariant holds, and whatever the next call is, a peer that stays stored
keeps its network, key and address, and a full network gets no new peer. -/
theorem registry_invariant {ops : List Op} (hops : ∀ op ∈ ops, op.Valid) :
    (run (Registry.next simpleFold) empty ops).WellFormed ∧
    (∀ op k rec rec', (run (Registry.next simpleFold) empty ops).peers.lookup k = some rec →
      ((run (Registry.next simpleFold) empty ops).next simpleFold op).peers.lookup k = some rec' →
      rec'.networkID = rec.networkID ∧ rec'.x25519Public = rec.x25519Public ∧
        rec'.vpnAddr = rec.vpnAddr) ∧
    ∀ p n (maxMachines : Int), 0 < maxMachines →
      maxMachines ≤ peerCount (run (Registry.next simpleFold) empty ops).peers n →
      ∀ k, (run (Registry.next simpleFold) empty ops).peers.lookup k = none →
        ((run (Registry.next simpleFold) empty ops).next simpleFold
          (.registerPeer p n maxMachines)).peers.lookup k = none := by
  have h : (run (Registry.next simpleFold) empty ops).WellFormed := wellFormed_run hops
  refine ⟨h, fun op k rec rec' => ?_, fun p n maxMachines hpos hfull k => ?_⟩
  · exact Effect.identity (effect_next h.toFiled op)
  · exact Effect.limit h (effect_next h.toFiled _) hpos hfull

end Registry

namespace Sample

/-- 10.0.0.0/30, with two host addresses. -/
def cidr : Prefix := ⟨.v4 0x0a000000, 30, by decide, rfl⟩

theorem isSubnet_cidr : cidr.IsSubnet := ⟨rfl, by decide⟩

/-- 10.0.0.n -/
def addr (n : Nat) : Addr := .v4 (BitVec.ofNat 32 (0x0a000000 + n))

def create : Op := .createNetwork second "net" cidr "home" "account"

/-- A peer registers with a name. -/
def register (id name : String) : Op := .registerPeer { id, name, lastSeen := 7300 } "net" 0

end Sample

namespace Registry

/-- Two peers register under one name; the second one is stored without it. -/
theorem registry_invariant_names :
    let r := run (Registry.next id) empty
      [Sample.create, Sample.register "a" "laptop", Sample.register "b" "LAPTOP"]
    r.WellFormed ∧ (values r.peers).map PeerRecord.name = ["", "laptop"] := by
  refine ⟨(registry_invariant ?_).1, by decide +kernel⟩
  simp [Sample.create, Sample.register, Op.Valid, Sample.isSubnet_cidr]

end Registry

end Veld.Coord
