import Mathlib.Data.List.TakeWhile
import Veld.Coord.Assignment

/-!
# Databases of older builds

A network record of an older build has no marks. The first call that writes the
record makes them up from the stored peers and from `NextIP`: the addresses below
`NextIP` that no peer holds count as freed long ago, or all free addresses if
`NextIP` tells nothing. From then on the marks are kept as in any other network.
-/

namespace Veld.Coord

open Netip

/-- `NextIP` is an address of the network. -/
def NetworkRecord.NextInside (net : NetworkRecord) : Prop :=
  net.nextIP.isValid = true ∧ net.cidr.contains net.nextIP = true

section Marks

variable {used addrs : List Addr} {m : AList fun _ : Addr => Int} {net : NetworkRecord} {a : Addr}

theorem lookup_markFreed : (markFreed used m addrs).lookup a =
    if a ∈ addrs ∧ a ∉ used then some 1 else m.lookup a := by
  induction addrs generalizing m with
  | nil => simp [markFreed]
  | cons b addrs ih =>
    rw [markFreed, List.foldl_cons, ← markFreed, ih]
    by_cases hb : b ∈ used
    · rw [if_pos hb]
      by_cases hab : a = b
      · subst hab
        simp [hb]
      · simp [hab]
    · rw [if_neg hb]
      by_cases hab : a = b
      · subst hab
        simp [hb, AList.lookup_insert]
      · simp [hab, AList.lookup_insert_ne hab]

theorem lookup_foldl_insert_zero : (used.foldl (fun m a => m.insert a 0) m).lookup a =
    if a ∈ used then some 0 else m.lookup a := by
  induction used generalizing m with
  | nil => simp
  | cons b used ih =>
    rw [List.foldl_cons, ih]
    by_cases hab : a = b
    · subst hab
      simp [AList.lookup_insert]
    · simp [hab, AList.lookup_insert_ne hab]

/-- The loop of the migration visits the host addresses below `NextIP`. -/
theorem mem_upFrom_below (hs : net.cidr.IsSubnet) (hin : net.NextInside) :
    a ∈ Prefix.upFrom (fun a => net.cidr.contains a && a.compare net.nextIP = .lt)
        (2 ^ net.cidr.ip.bitLen) (nextIPAfterNetwork net.cidr.masked) ↔
      net.cidr.IsHost a ∧ a.compare net.nextIP = .lt := by
  obtain ⟨q, hq⟩ := hs.ip_eq
  have hmax := hs.base_add_size_le
  have hsize := hs.four_le_size
  obtain ⟨y, hy⟩ : ∃ y, net.nextIP = .v4 y := by
    have hc := hin.2
    cases hn : net.nextIP with
    | v4 y => exact ⟨y, rfl⟩
    | zero => simp [hn, Prefix.contains, hq] at hc
    | v6 b z => simp [hn, Prefix.contains, hq] at hc
  have hmem := hin.2
  rw [hy, hs.contains_v4] at hmem
  have hval {z : Nat} (hz : z < net.cidr.base + net.cidr.size) : (BitVec.ofNat 32 z).toNat = z := by
    rw [BitVec.toNat_ofNat, Nat.mod_eq_of_lt (by omega)]
  rw [nextIPAfterNetwork, hs.next_masked_ip, hs.isV4, Prefix.upFrom_range (y := y.toNat) y.isLt
    (fun z hz hzy => ?_) (by omega), ← hs.mem_hosts, hs.hosts_eq, hy]
  · simp only [List.mem_map, List.mem_range'_1]
    constructor
    · rintro ⟨z, hz, rfl⟩
      refine ⟨⟨z, by omega, rfl⟩, ?_⟩
      rw [Addr.compare, hval (by omega), compare_lt_iff_lt]
      omega
    · rintro ⟨⟨z, hz, rfl⟩, hlt⟩
      rw [Addr.compare, hval (by omega), compare_lt_iff_lt] at hlt
      exact ⟨z, by omega, rfl⟩
  · have hz' : z < net.cidr.base + net.cidr.size := by omega
    rw [Bool.and_eq_true, hs.contains_v4, decide_eq_true_eq, hy, Addr.compare, hval hz',
      compare_lt_iff_lt]
    omega

/-- With a usable `NextIP` the free host addresses below it are marked as freed. -/
theorem lookup_migrate_inside (hs : net.cidr.IsSubnet) (hnil : net.assignedAddrs = none)
    (hin : net.NextInside) : (migrateAssignedAddrs net used).lookup a =
      if (net.cidr.IsHost a ∧ a.compare net.nextIP = .lt) ∧ a ∉ used then some 1
      else if a ∈ used then some 0 else none := by
  have hcond : ¬(!net.nextIP.isValid || !net.cidr.contains net.nextIP) = true := by
    simp [hin.1, hin.2]
  simp only [migrateAssignedAddrs, hnil, hcond, ite_false, Bool.false_eq_true]
  rw [lookup_markFreed, lookup_foldl_insert_zero]
  simp only [mem_upFrom_below hs hin]
  rfl

/-- Without one all free host addresses are, unless there are too many of them. -/
theorem lookup_migrate_outside (hs : net.cidr.IsSubnet) (hnil : net.assignedAddrs = none)
    (hout : ¬net.NextInside) (ha : net.cidr.IsHost a) : (migrateAssignedAddrs net used).lookup a =
      if a ∈ used then some 0
      else if net.cidr.hosts.length ≤ maxFallbackHosts then some 1 else none := by
  have hcond : (!net.nextIP.isValid || !net.cidr.contains net.nextIP) = true := by
    rw [NetworkRecord.NextInside, not_and_or, Bool.not_eq_true, Bool.not_eq_true] at hout
    rcases hout with h | h <;> simp [h]
  simp only [migrateAssignedAddrs, hnil, hcond, ite_true]
  by_cases hmany : net.cidr.hosts.length > maxFallbackHosts
  · rw [if_pos hmany, lookup_foldl_insert_zero, if_neg (show ¬_ ≤ _ by omega)]
    rfl
  · rw [if_neg hmany, lookup_markFreed, lookup_foldl_insert_zero, if_pos (show _ ≤ _ by omega)]
    have hmem := hs.mem_hosts.mpr ha
    by_cases hu : a ∈ used
    · simp [hu]
    · simp [hu, hmem]

end Marks

namespace Registry

variable (simpleFold : Char → Char) {rec p : PeerRecord} {c : Addr} {m : AList fun _ : Addr => Int}
  {maxMachines : Int}

/-- The address a peer holds in a network. -/
def holder (r : Registry) (n k : String) : Option Addr :=
  ((r.peers.lookup k).filter (·.networkID = n)).map (·.vpnAddr)

/-- The call adds a peer to a network or removes one from it, and so writes its record. -/
def writes (n : String) (r : Registry) : Op → Bool
  | .registerPeer p networkID maxMachines => networkID = n && (r.peers.lookup p.id).isNone &&
      (r.registerPeer simpleFold p networkID maxMachines).isOk
  | .removePeer _ peerID => (r.holder n peerID).isSome
  | _ => false

/-- What a registration or a removal does to one network. -/
inductive LocalEffect (n : String) (r r' : Registry) : Op → Prop
  /-- Nothing. -/
  | pass {op} (quiet : r.writes simpleFold n op = false)
    (networks : r'.networks.lookup n = r.networks.lookup n)
    (holders : r'.holder n = r.holder n) : LocalEffect n r r' op
  /-- A new peer gets an address. -/
  | join {p maxMachines net a}
    (write : r.writes simpleFold n (.registerPeer p n maxMachines) = true)
    (fresh : r.holder n p.id = none) (stored : r.networks.lookup n = some net)
    (alloc : allocate net.cidr (usedAddrs r.peers n)
      (migrateAssignedAddrs net (usedAddrs r.peers n)) = some a)
    (networks : r'.networks.lookup n = some (occupy net (usedAddrs r.peers n) a))
    (holders : r'.holder n = Function.update (r.holder n) p.id (some a)) :
    LocalEffect n r r' (.registerPeer p n maxMachines)
  /-- A peer gives its address back. -/
  | leave {now id net a} (write : r.writes simpleFold n (.removePeer now id) = true)
    (holds : r.holder n id = some a) (stored : r.networks.lookup n = some net)
    (networks : r'.networks.lookup n = some (release net (usedAddrs r'.peers n) a now))
    (holders : r'.holder n = Function.update (r.holder n) id none) :
    LocalEffect n r r' (.removePeer now id)

variable {simpleFold} {r r' : Registry} {n k : String} {a : Addr} {op : Op}

theorem mem_usedAddrs_iff : a ∈ usedAddrs r.peers n ↔
    a.isValid = true ∧ ∃ k, r.holder n k = some a := by
  simp only [mem_usedAddrs, holder, Option.map_eq_some_iff, Option.filter_eq_some_iff,
    decide_eq_true_eq]
  constructor
  · rintro ⟨k, rec, hk, hn, rfl, hv⟩
    exact ⟨hv, k, rec, ⟨hk, hn⟩, rfl⟩
  · rintro ⟨hv, k, rec, ⟨hk, hn⟩, rfl⟩
    exact ⟨k, rec, hk, hn, rfl, hv⟩

theorem holder_insert (hp : r'.peers = r.peers.insert k rec) : r'.holder n =
      Function.update (r.holder n) k (if rec.networkID = n then some rec.vpnAddr else none) := by
  funext k'
  by_cases hk : k' = k
  · subst hk
    rw [holder, hp, AList.lookup_insert, Function.update_self]
    by_cases hn : rec.networkID = n <;> simp [hn]
  · rw [holder, hp, AList.lookup_insert_ne hk, Function.update_of_ne hk, holder]

theorem holder_erase (hp : r'.peers = r.peers.erase k) :
    r'.holder n = Function.update (r.holder n) k none := by
  funext k'
  by_cases hk : k' = k
  · subst hk
    rw [holder, hp, AList.lookup_erase, Function.update_self]
    rfl
  · rw [holder, hp, AList.lookup_erase_ne hk, Function.update_of_ne hk, holder]

theorem holder_of_lookup (h : r.peers.lookup k = some rec) :
    r.holder n k = if rec.networkID = n then some rec.vpnAddr else none := by
  rw [holder, h]
  by_cases hn : rec.networkID = n <;> simp [hn]

/-- Who holds an address after a new peer got one. -/
theorem mem_usedAddrs_give (hholders : r'.holder n = Function.update (r.holder n) k (some c))
    (hfresh : r.holder n k = none) (hc : c.isValid = true) :
    a ∈ usedAddrs r'.peers n ↔ a ∈ usedAddrs r.peers n ∨ a = c := by
  rw [mem_usedAddrs_iff, mem_usedAddrs_iff, hholders]
  constructor
  · rintro ⟨hv, k', hk'⟩
    by_cases hk : k' = k
    · rw [hk, Function.update_self] at hk'
      exact .inr (Option.some.inj hk').symm
    · rw [Function.update_of_ne hk] at hk'
      exact .inl ⟨hv, k', hk'⟩
  · rintro (⟨hv, k', hk'⟩ | rfl)
    · refine ⟨hv, k', ?_⟩
      rw [Function.update_of_ne, hk']
      rintro rfl
      rw [hfresh] at hk'
      cases hk'
    · exact ⟨hc, k, Function.update_self ..⟩

/-- Who holds an address after a peer gave its own one back. -/
theorem mem_usedAddrs_give_back
    (hholders : r'.holder n = Function.update (r.holder n) k none) (hholds : r.holder n k = some c)
    (hdistinct : ∀ k' a, r.holder n k = some a → r.holder n k' = some a → k = k') :
    a ∈ usedAddrs r'.peers n ↔ a ∈ usedAddrs r.peers n ∧ a ≠ c := by
  rw [mem_usedAddrs_iff, mem_usedAddrs_iff, hholders]
  constructor
  · rintro ⟨hv, k', hk'⟩
    by_cases hk : k' = k
    · rw [hk, Function.update_self] at hk'
      cases hk'
    · rw [Function.update_of_ne hk] at hk'
      refine ⟨⟨hv, k', hk'⟩, ?_⟩
      rintro rfl
      exact hk (hdistinct k' a hholds hk').symm
  · rintro ⟨⟨hv, k', hk'⟩, hne⟩
    refine ⟨hv, k', ?_⟩
    rw [Function.update_of_ne, hk']
    rintro rfl
    exact hne (Option.mem_unique hk' hholds)

theorem localEffect_registerPeer (p : PeerRecord) (networkID : String) (maxMachines : Int) :
    LocalEffect simpleFold n r (r.next simpleFold (.registerPeer p networkID maxMachines))
      (.registerPeer p networkID maxMachines) := by
  cases hres : r.registerPeer simpleFold p networkID maxMachines with
  | error err =>
    have hquiet : r.writes simpleFold n (.registerPeer p networkID maxMachines) = false := by
      simp [writes, hres, Except.isOk, Except.toBool]
    simp only [next, hres]
    exact .pass hquiet rfl rfl
  | ok res =>
    obtain ⟨r', a⟩ := res
    obtain ⟨r₁, hreg, rfl⟩ := registerPeer_ok hres
    rcases register_ok hreg with
      ⟨rec, hrec, hnet, -, -, rfl⟩ | ⟨net, hfresh, hkey, hnet, hlimit, halloc, rfl⟩
    · have hrec : r.peers.lookup p.id = some rec := hrec
      have hquiet : r.writes simpleFold n (.registerPeer p networkID maxMachines) = false := by
        simp [writes, hrec]
      simp only [next, hres]
      refine .pass hquiet rfl ?_
      rw [holder_insert rfl]
      have hsame := holder_of_lookup (n := n) hrec
      exact (congrArg (Function.update (r.holder n) p.id) hsame.symm).trans
        (Function.update_eq_self p.id (r.holder n))
    · have hfresh : r.peers.lookup p.id = none := hfresh
      have hholder : r.holder n p.id = none := by
        rw [holder, hfresh]
        rfl
      simp only [next, hres]
      by_cases hn : networkID = n
      · subst hn
        refine .join ?_ hholder hnet halloc (AList.lookup_insert _) ?_
        · simp [writes, hfresh, hres, Except.isOk, Except.toBool]
        · rw [holder_insert rfl]
          congr 1
          exact if_pos rfl
      · refine .pass ?_ (AList.lookup_insert_ne (Ne.symm hn)) ?_
        · simp [writes, hn]
        · rw [holder_insert rfl]
          refine (congrArg (Function.update (r.holder n) p.id) ?_).trans
            (Function.update_eq_self p.id (r.holder n))
          rw [hholder]
          exact if_neg hn

theorem localEffect_removePeer (hstored : (r.networks.lookup n).isSome) (now : Int)
    (id : String) : LocalEffect simpleFold n r (r.next simpleFold (.removePeer now id))
      (.removePeer now id) := by
  cases hl : r.peers.lookup id with
  | none =>
    have hholder : r.holder n id = none := by
      rw [holder, hl]
      rfl
    simp only [next, removePeer, hl]
    exact .pass (by simp [writes, hholder]) rfl rfl
  | some rec =>
    have hholder := holder_of_lookup (n := n) hl
    by_cases hn : rec.networkID = n
    · obtain ⟨net, hnet⟩ := Option.isSome_iff_exists.mp hstored
      subst hn
      rw [if_pos rfl] at hholder
      simp only [next, removePeer, hl, hnet]
      refine .leave (by simp [writes, hholder]) hholder hnet (AList.lookup_insert _) ?_
      exact holder_erase rfl
    · rw [if_neg hn] at hholder
      have hsame : Function.update (r.holder n) id none = r.holder n := by
        rw [← hholder]
        exact Function.update_eq_self id (r.holder n)
      simp only [next, removePeer, hl]
      refine .pass (by simp [writes, hholder]) ?_ ((holder_erase rfl).trans hsame)
      cases hm : r.networks.lookup rec.networkID with
      | none => rfl
      | some net => exact AList.lookup_insert_ne (Ne.symm hn)

theorem localEffect_next (simpleFold : Char → Char) (hstored : (r.networks.lookup n).isSome)
    (hop : op.isJoinOrLeave = true) :
    LocalEffect simpleFold n r (r.next simpleFold op) op := by
  cases op with
  | registerPeer p networkID maxMachines => exact localEffect_registerPeer p networkID maxMachines
  | removePeer now id => exact localEffect_removePeer hstored now id
  | _ => cases hop

/-- The record of a network has no marks. -/
def Unmarked (n : String) (r : Registry) : Prop :=
  ∃ net, r.networks.lookup n = some net ∧ net.assignedAddrs = none

/-- A network of an older build, with stored peers at distinct host addresses. -/
structure Legacy (n : String) (net : NetworkRecord) (r : Registry) : Prop where
  stored : r.networks.lookup n = some net
  unmarked : net.assignedAddrs = none
  subnet : net.cidr.IsSubnet
  hosts : ∀ k a, r.holder n k = some a → net.cidr.IsHost a
  distinct : ∀ k k' a, r.holder n k = some a → r.holder n k' = some a → k = k'

variable (simpleFold) in
/-- The steps from the first one on that wrote the record. -/
def sinceMigration (n : String) (past : List (Registry × Op)) : List (Registry × Op) :=
  past.dropWhile fun x => !x.1.writes simpleFold n x.2

variable (simpleFold) in
/-- Some peer held the address just before the migration or later on. -/
def HeldSince (n : String) (past : List (Registry × Op)) (r : Registry) (a : Addr) : Prop :=
  (∃ x ∈ sinceMigration simpleFold n past, a ∈ usedAddrs x.1.peers n) ∨ a ∈ usedAddrs r.peers n

/-- A host address below `NextIP` has a mark, and any other one only if it was held. -/
def MarksAbove (net : NetworkRecord) (held : Addr → Prop) (m : AList fun _ : Addr => Int) : Prop :=
  ∀ b, net.cidr.IsHost b → (b.compare net.nextIP = .lt → m.lookup b ≠ none) ∧
    (m.lookup b ≠ none → b.compare net.nextIP = .lt ∨ held b)

variable (simpleFold) in
/-- What holds of an older network after some registrations and removals. -/
structure Upgrading (n : String) (net : NetworkRecord) (past : List (Registry × Op))
    (r : Registry) : Prop where
  cidr : ∃ net', r.networks.lookup n = some net' ∧ net'.cidr = net.cidr
  hosts : ∀ k a, r.holder n k = some a → net.cidr.IsHost a
  distinct : ∀ k k' a, r.holder n k = some a → r.holder n k' = some a → k = k'
  before : (∀ x ∈ past, x.1.writes simpleFold n x.2 = false) → r.networks.lookup n = some net
  after : (∃ x ∈ past, x.1.writes simpleFold n x.2 = true) →
    ∃ net' m, r.networks.lookup n = some net' ∧ net'.assignedAddrs = some m ∧
      (net.NextInside → MarksAbove net (HeldSince simpleFold n past r) m)

variable {net : NetworkRecord} {past : List (Registry × Op)}

/-- Later steps change nothing about what happened since the migration. -/
theorem HeldSince.step (h : HeldSince simpleFold n past r a)
    (hw : ∃ x ∈ past ++ [(r, op)], x.1.writes simpleFold n x.2 = true) :
    HeldSince simpleFold n (past ++ [(r, op)]) r' a := by
  refine .inl ?_
  rw [sinceMigration, List.dropWhile_append]
  split
  · rename_i hnone
    rw [List.isEmpty_iff, List.dropWhile_eq_nil_iff] at hnone
    -- the migration is the last step
    have hlast : r.writes simpleFold n op = true := by
      obtain ⟨x, hx, hwx⟩ := hw
      rcases List.mem_append.mp hx with hx | hx
      · have hquiet := hnone x hx
        rw [hwx] at hquiet
        cases hquiet
      · rw [List.mem_singleton.mp hx] at hwx
        exact hwx
    have hheld : a ∈ usedAddrs r.peers n := by
      refine h.resolve_left ?_
      rintro ⟨x, hx, -⟩
      rw [sinceMigration, List.dropWhile_eq_nil_iff.mpr hnone] at hx
      cases hx
    exact ⟨(r, op), by simp [hlast], hheld⟩
  · rcases h with ⟨x, hx, hheld⟩ | hheld
    · exact ⟨x, List.mem_append_left _ hx, hheld⟩
    · exact ⟨(r, op), List.mem_concat_self, hheld⟩

theorem MarksAbove.insert {held held' : Addr → Prop}
    (h : MarksAbove net held m) (hmono : ∀ b, held b → held' b) (hc : held' c) (t : Int) :
    MarksAbove net held' (m.insert c t) := by
  intro b hb
  by_cases hbc : b = c
  · subst hbc
    refine ⟨fun _ => ?_, fun _ => .inr hc⟩
    rw [AList.lookup_insert]
    exact Option.some_ne_none t
  · rw [AList.lookup_insert_ne hbc]
    exact ⟨(h b hb).1, fun hm => ((h b hb).2 hm).imp_right (hmono b)⟩

/-- The marks a call starts from, made up or kept. -/
theorem Upgrading.marks (h : Upgrading simpleFold n net past r) (hleg : net.assignedAddrs = none)
    (hs : net.cidr.IsSubnet) (hin : net.NextInside) {net' : NetworkRecord}
    (hnet : r.networks.lookup n = some net') {used : List Addr}
    (hused : ∀ a ∈ used, a ∈ usedAddrs r.peers n) :
    MarksAbove net (HeldSince simpleFold n past r) (migrateAssignedAddrs net' used) := by
  by_cases hw : ∃ x ∈ past, x.1.writes simpleFold n x.2 = true
  · obtain ⟨net₁, m, hnet₁, hm, hmarks⟩ := h.after hw
    obtain rfl := Option.mem_unique hnet hnet₁
    simp only [migrateAssignedAddrs, hm]
    exact hmarks hin
  · have hbefore := h.before fun x hx => Bool.eq_false_iff.mpr fun hwx => hw ⟨x, hx, hwx⟩
    obtain rfl := Option.mem_unique hnet hbefore
    intro b hb
    rw [lookup_migrate_inside hs hleg hin]
    by_cases hu : b ∈ used
    · simp only [hu, not_true_eq_false, and_false, ite_false, ite_true, ne_eq, reduceCtorEq,
        not_false_eq_true, implies_true, true_and]
      exact fun _ => .inr (.inr (hused b hu))
    · by_cases hlt : b.compare net'.nextIP = .lt
      · simp [hb, hlt, hu]
      · simp [hlt, hu]

theorem Legacy.upgrading (h : Legacy n net r) : Upgrading simpleFold n net [] r where
  cidr := ⟨net, h.stored, rfl⟩
  hosts := h.hosts
  distinct := h.distinct
  before := fun _ => h.stored
  after := by
    rintro ⟨x, hx, -⟩
    cases hx

/-- A step that leaves the network and its holders alone. -/
theorem Upgrading.quiet (h : Upgrading simpleFold n net past r)
    (hquiet : r.writes simpleFold n op = false)
    (hnetworks : r'.networks.lookup n = r.networks.lookup n) (hholders : r'.holder n = r.holder n) :
    Upgrading simpleFold n net (past ++ [(r, op)]) r' := by
  constructor
  · rw [hnetworks]
    exact h.cidr
  · rw [hholders]
    exact h.hosts
  · rw [hholders]
    exact h.distinct
  · intro hnone
    rw [hnetworks]
    exact h.before (List.forall_mem_append.mp hnone).1
  · rintro ⟨x, hx, hwx⟩
    have hpast : ∃ x ∈ past, x.1.writes simpleFold n x.2 = true := by
      rcases List.mem_append.mp hx with hx | hx
      · exact ⟨x, hx, hwx⟩
      · rw [List.mem_singleton.mp hx, hquiet] at hwx
        cases hwx
    obtain ⟨net₁, m, hnet₁, hm, hmarks⟩ := h.after hpast
    refine ⟨net₁, m, hnetworks.trans hnet₁, hm, fun hin b hb => ?_⟩
    refine ⟨(hmarks hin b hb).1, fun hmb => ((hmarks hin b hb).2 hmb).imp_right fun hheld => ?_⟩
    exact hheld.step ⟨x, hx, hwx⟩

/-- A step that writes the record, with a mark for the address it gives or takes. -/
theorem Upgrading.write (h : Upgrading simpleFold n net past r) (hleg : net.assignedAddrs = none)
    (hs : net.cidr.IsSubnet) (hwrite : r.writes simpleFold n op = true)
    {net₁ net' : NetworkRecord} {used : List Addr} {t : Int} (hnet : r.networks.lookup n = some net₁)
    (hused : ∀ a ∈ used, a ∈ usedAddrs r.peers n) (hnetworks : r'.networks.lookup n = some net')
    (hcidr : net'.cidr = net.cidr)
    (hm : net'.assignedAddrs = some ((migrateAssignedAddrs net₁ used).insert a t))
    (hheld : HeldSince simpleFold n (past ++ [(r, op)]) r' a)
    (hhosts : ∀ k a, r'.holder n k = some a → net.cidr.IsHost a)
    (hdistinct : ∀ k k' a, r'.holder n k = some a → r'.holder n k' = some a → k = k') :
    Upgrading simpleFold n net (past ++ [(r, op)]) r' where
  cidr := ⟨net', hnetworks, hcidr⟩
  hosts := hhosts
  distinct := hdistinct
  before hnone := by
    have hquiet := hnone _ List.mem_concat_self
    rw [hwrite] at hquiet
    cases hquiet
  after _ := by
    refine ⟨net', _, hnetworks, hm, fun hin => ?_⟩
    exact (h.marks hleg hs hin hnet hused).insert
      (fun b hb => hb.step ⟨_, List.mem_concat_self, hwrite⟩) hheld t

/-- A holder of a new address keeps the addresses apart. -/
theorem distinct_update {f : String → Option Addr} (p : String)
    (h : ∀ k k' b, f k = some b → f k' = some b → k = k') (hnew : ∀ k, f k ≠ some a)
    (k k' : String) (b : Addr) (hk : Function.update f p (some a) k = some b)
    (hk' : Function.update f p (some a) k' = some b) : k = k' := by
  by_cases hkp : k = p <;> by_cases hkp' : k' = p
  · rw [hkp, hkp']
  · rw [hkp, Function.update_self] at hk
    rw [Function.update_of_ne hkp', ← Option.some.inj hk] at hk'
    exact absurd hk' (hnew k')
  · rw [hkp', Function.update_self] at hk'
    rw [Function.update_of_ne hkp, ← Option.some.inj hk'] at hk
    exact absurd hk (hnew k)
  · rw [Function.update_of_ne hkp] at hk
    rw [Function.update_of_ne hkp'] at hk'
    exact h k k' b hk hk'

/-- Every registration and every removal keeps it so. -/
theorem Upgrading.step (h : Upgrading simpleFold n net past r) (hleg : net.assignedAddrs = none)
    (hs : net.cidr.IsSubnet) (hop : op.isJoinOrLeave = true) :
    Upgrading simpleFold n net (past ++ [(r, op)]) (r.next simpleFold op) := by
  obtain ⟨net', hnet', hcidr⟩ := h.cidr
  have heffect := localEffect_next simpleFold (Option.isSome_iff_exists.mpr ⟨net', hnet'⟩) hop
  generalize r.next simpleFold op = r' at heffect ⊢
  cases heffect with
  | pass hquiet hnetworks hholders => exact h.quiet hquiet hnetworks hholders
  | @join p maxMachines net₁ a hwrite hfresh hnet halloc hnetworks hholders =>
    obtain rfl := Option.mem_unique hnet' hnet
    have hs' : net'.cidr.IsSubnet := hcidr ▸ hs
    have hhost : net.cidr.IsHost a := hcidr ▸ (allocate_cases hs' halloc).1
    have hother (k : String) : r.holder n k ≠ some a := fun hk =>
      not_mem_used_of_allocate hs' halloc (mem_usedAddrs_iff.mpr ⟨isValid_of_isHost hhost, k, hk⟩)
    have hheld : a ∈ usedAddrs r'.peers n :=
      (mem_usedAddrs_give hholders hfresh (isValid_of_isHost hhost)).mpr (.inr rfl)
    refine h.write hleg hs hwrite hnet (fun _ => id) hnetworks hcidr rfl (.inr hheld) ?_ ?_
    · intro k b hk
      rw [hholders] at hk
      by_cases hkp : k = p.id
      · rw [hkp, Function.update_self] at hk
        rw [← Option.some.inj hk]
        exact hhost
      · rw [Function.update_of_ne hkp] at hk
        exact h.hosts k b hk
    · rw [hholders]
      exact distinct_update p.id h.distinct hother
  | @leave now id net₁ a hwrite hholds hnet hnetworks hholders =>
    obtain rfl := Option.mem_unique hnet' hnet
    have hkept {k : String} {b : Addr} (hk : r'.holder n k = some b) : r.holder n k = some b := by
      rw [hholders] at hk
      by_cases hkid : k = id
      · rw [hkid, Function.update_self] at hk
        cases hk
      · rwa [Function.update_of_ne hkid] at hk
    have hused (b : Addr) (hb : b ∈ usedAddrs r'.peers n) : b ∈ usedAddrs r.peers n :=
      ((mem_usedAddrs_give_back hholders hholds (h.distinct id)).mp hb).1
    have hheld : HeldSince simpleFold n past r a :=
      .inr (mem_usedAddrs_iff.mpr ⟨isValid_of_isHost (h.hosts id a hholds), id, hholds⟩)
    refine h.write hleg hs hwrite hnet hused hnetworks hcidr rfl
      (hheld.step ⟨_, List.mem_concat_self, hwrite⟩) ?_ ?_
    · exact fun k b hk => h.hosts k b (hkept hk)
    · exact fun k k' b hk hk' => h.distinct k k' b (hkept hk) (hkept hk')

variable (simpleFold) in
/-- The call makes up the marks of a network. -/
def Migrates (n : String) (r : Registry) (op : Op) : Prop :=
  r.Unmarked n ∧ ¬(r.next simpleFold op).Unmarked n

variable (simpleFold) in
/-- How one call treats the addresses of an older network. -/
structure Protects (n : String) (net : NetworkRecord) (past : List (Registry × Op)) (r : Registry)
    (op : Op) : Prop where
  /-- The first call that writes the record migrates it, and no other one does. -/
  once : Migrates simpleFold n r op ↔
    r.writes simpleFold n op = true ∧ ∀ x ∈ past, x.1.writes simpleFold n x.2 = false
  /-- Nobody is given the address of another peer. -/
  unshared : ∀ p maxMachines r' a, op = .registerPeer p n maxMachines →
    r.registerPeer simpleFold p n maxMachines = .ok (r', a) → ∀ k, k ≠ p.id → r.holder n k ≠ some a
  /-- With a usable `NextIP`, a new peer is given an address below it only after all those above
  were held. -/
  belowLast : net.NextInside → ∀ p maxMachines r' a, op = .registerPeer p n maxMachines →
    r.peers.lookup p.id = none → r.registerPeer simpleFold p n maxMachines = .ok (r', a) →
    a.compare net.nextIP = .lt →
    ∀ b, net.cidr.IsHost b → b.compare net.nextIP ≠ .lt → HeldSince simpleFold n past r b
  /-- Otherwise all host addresses without a holder are marked as freed, if they are not too many;
  the address the call itself assigns or frees has its own mark. -/
  fallback : ¬net.NextInside → Migrates simpleFold n r op →
    ∃ (net' : NetworkRecord) (m : AList fun _ : Addr => Int) (c : Addr) (t : Int),
      (r.next simpleFold op).networks.lookup n = some net' ∧
      net'.assignedAddrs = some (m.insert c t) ∧
      ((t = 0 ∧ c ∉ usedAddrs r.peers n ∧ c ∈ usedAddrs (r.next simpleFold op).peers n) ∨
        (∃ now id, op = .removePeer now id ∧ t = unix now) ∧
          c ∈ usedAddrs r.peers n ∧ c ∉ usedAddrs (r.next simpleFold op).peers n) ∧
      ∀ a, net.cidr.IsHost a → m.lookup a =
        if a ∈ usedAddrs r.peers n ∧ a ∈ usedAddrs (r.next simpleFold op).peers n then some 0
        else if net.cidr.hosts.length ≤ maxFallbackHosts then some 1 else none

theorem not_unmarked {net' : NetworkRecord}
    (hnet : r.networks.lookup n = some net') (hm : net'.assignedAddrs = some m) :
    ¬r.Unmarked n := by
  rintro ⟨net₁, hnet₁, hnone⟩
  obtain rfl := Option.mem_unique hnet hnet₁
  rw [hm] at hnone
  cases hnone

theorem Upgrading.unmarked_iff (h : Upgrading simpleFold n net past r)
    (hleg : net.assignedAddrs = none) :
    r.Unmarked n ↔ ∀ x ∈ past, x.1.writes simpleFold n x.2 = false := by
  constructor
  · intro hun x hx
    by_contra hwx
    obtain ⟨net', m, hnet, hm, -⟩ := h.after ⟨x, hx, Bool.not_eq_false _ ▸ hwx⟩
    exact not_unmarked hnet hm hun
  · intro hnone
    exact ⟨net, h.before hnone, hleg⟩

theorem Upgrading.once (h : Upgrading simpleFold n net past r) (hleg : net.assignedAddrs = none)
    (hs : net.cidr.IsSubnet) (hop : op.isJoinOrLeave = true) : Migrates simpleFold n r op ↔
      r.writes simpleFold n op = true ∧ ∀ x ∈ past, x.1.writes simpleFold n x.2 = false := by
  have hnext := (h.step hleg hs hop).unmarked_iff hleg
  rw [Migrates, h.unmarked_iff hleg, hnext, List.forall_mem_append, List.forall_mem_singleton]
  constructor
  · rintro ⟨hnone, hnot⟩
    exact ⟨by_contra fun hw => hnot ⟨hnone, Bool.eq_false_iff.mpr hw⟩, hnone⟩
  · rintro ⟨hw, hnone⟩
    refine ⟨hnone, fun hall => ?_⟩
    rw [hw] at hall
    cases hall.2

/-- An address is given to a stored peer that holds it, or to a new one. -/
theorem registerPeer_cases (hres : r.registerPeer simpleFold p n maxMachines = .ok (r', a)) :
    r.holder n p.id = some a ∨ ∃ net, r.networks.lookup n = some net ∧
      allocate net.cidr (usedAddrs r.peers n) (migrateAssignedAddrs net (usedAddrs r.peers n)) =
        some a := by
  obtain ⟨r₁, hreg, rfl⟩ := registerPeer_ok hres
  rcases register_ok hreg with
    ⟨rec, hrec, hnet, -, rfl, -⟩ | ⟨net, -, -, hnet, -, halloc, -⟩
  · refine .inl ((holder_of_lookup hrec).trans ?_)
    exact if_pos hnet
  · exact .inr ⟨net, hnet, halloc⟩

theorem Upgrading.unshared (h : Upgrading simpleFold n net past r) (hs : net.cidr.IsSubnet)
    (hres : r.registerPeer simpleFold p n maxMachines = .ok (r', a)) (hk : k ≠ p.id) :
    r.holder n k ≠ some a := by
  intro hka
  rcases registerPeer_cases hres with hown | ⟨net', hnet', halloc⟩
  · exact hk (h.distinct k p.id a hka hown)
  · obtain ⟨net₁, hnet₁, hcidr⟩ := h.cidr
    obtain rfl := Option.mem_unique hnet' hnet₁
    rw [← hcidr] at hs
    refine not_mem_used_of_allocate hs halloc (mem_usedAddrs_iff.mpr ⟨?_, k, hka⟩)
    exact isValid_of_isHost (h.hosts k a hka)

theorem Upgrading.belowLast (h : Upgrading simpleFold n net past r)
    (hleg : net.assignedAddrs = none) (hs : net.cidr.IsSubnet) (hin : net.NextInside) (hfresh : r.peers.lookup p.id = none)
    (hres : r.registerPeer simpleFold p n maxMachines = .ok (r', a))
    (ha : a.compare net.nextIP = .lt) {b : Addr} (hb : net.cidr.IsHost b)
    (hbn : b.compare net.nextIP ≠ .lt) : HeldSince simpleFold n past r b := by
  have hnone : r.holder n p.id = none := by
    rw [holder, hfresh]
    rfl
  obtain ⟨net', hnet', halloc⟩ := (registerPeer_cases hres).resolve_left (by simp [hnone])
  obtain ⟨net₁, hnet₁, hcidr⟩ := h.cidr
  obtain rfl := Option.mem_unique hnet' hnet₁
  have hmarks := h.marks hleg hs hin hnet' fun _ => id
  rw [← hcidr] at hs hb
  obtain ⟨hhost, hchoice⟩ := allocate_cases hs halloc
  rw [hcidr] at hhost hb
  rcases hchoice with ⟨hunused, -⟩ | ⟨hall, -⟩
  · -- an address below is marked, so it does not count as never assigned
    exact absurd hunused.2 ((hmarks a hhost).1 ha)
  · by_cases hu : b ∈ usedAddrs r.peers n
    · exact .inr hu
    · have hmb : (migrateAssignedAddrs net' (usedAddrs r.peers n)).lookup b ≠ none := by
        intro hlookup
        exact hall b (by rw [hcidr]; exact hb) ⟨hu, hlookup⟩
      exact ((hmarks b hb).2 hmb).resolve_left hbn

theorem Upgrading.fallback (h : Upgrading simpleFold n net past r)
    (hleg : net.assignedAddrs = none) (hs : net.cidr.IsSubnet) (hop : op.isJoinOrLeave = true)
    (hout : ¬net.NextInside) (hmig : Migrates simpleFold n r op) :
    ∃ (net' : NetworkRecord) (m : AList fun _ : Addr => Int) (c : Addr) (t : Int),
      (r.next simpleFold op).networks.lookup n = some net' ∧
      net'.assignedAddrs = some (m.insert c t) ∧
      ((t = 0 ∧ c ∉ usedAddrs r.peers n ∧ c ∈ usedAddrs (r.next simpleFold op).peers n) ∨
        (∃ now id, op = .removePeer now id ∧ t = unix now) ∧
          c ∈ usedAddrs r.peers n ∧ c ∉ usedAddrs (r.next simpleFold op).peers n) ∧
      ∀ a, net.cidr.IsHost a → m.lookup a =
        if a ∈ usedAddrs r.peers n ∧ a ∈ usedAddrs (r.next simpleFold op).peers n then some 0
        else if net.cidr.hosts.length ≤ maxFallbackHosts then some 1 else none := by
  obtain ⟨hwrite, hpast⟩ := (h.once hleg hs hop).mp hmig
  have hstored := h.before hpast
  have heffect := localEffect_next simpleFold (Option.isSome_iff_exists.mpr ⟨net, hstored⟩) hop
  generalize r.next simpleFold op = r' at heffect ⊢
  cases heffect with
  | pass hquiet hnetworks hholders =>
    rw [hwrite] at hquiet
    cases hquiet
  | @join p maxMachines net₁ c _ hfresh hnet halloc hnetworks hholders =>
    obtain rfl := Option.mem_unique hstored hnet
    have hvalid := isValid_of_isHost (allocate_cases hs halloc).1
    have hused (a : Addr) := mem_usedAddrs_give (a := a) hholders hfresh hvalid
    refine ⟨_, _, c, 0, hnetworks, rfl, .inl ⟨rfl, ?_, (hused c).mpr (.inr rfl)⟩, ?_⟩
    · exact not_mem_used_of_allocate hs halloc
    · intro a ha
      have hboth : (a ∈ usedAddrs r.peers n ∧ a ∈ usedAddrs r'.peers n) ↔
          a ∈ usedAddrs r.peers n := and_iff_left_of_imp fun hu => (hused a).mpr (.inl hu)
      simp only [lookup_migrate_outside hs hleg hout ha, hboth]
  | @leave now id net₁ c _ hholds hnet hnetworks hholders =>
    obtain rfl := Option.mem_unique hstored hnet
    have hvalid := isValid_of_isHost (h.hosts id c hholds)
    have hheld : c ∈ usedAddrs r.peers n := mem_usedAddrs_iff.mpr ⟨hvalid, id, hholds⟩
    have hused (a : Addr) := mem_usedAddrs_give_back (a := a) hholders hholds (h.distinct id)
    refine ⟨_, migrateAssignedAddrs net (usedAddrs r'.peers n), c, unix now, hnetworks, rfl,
      .inr ⟨⟨now, id, rfl, rfl⟩, hheld, fun hc => ((hused c).mp hc).2 rfl⟩, ?_⟩
    intro a ha
    have hboth : (a ∈ usedAddrs r.peers n ∧ a ∈ usedAddrs r'.peers n) ↔
        a ∈ usedAddrs r'.peers n := and_iff_right_of_imp fun hu => ((hused a).mp hu).1
    simp only [lookup_migrate_outside hs hleg hout ha, hboth]

/-- Through all registrations and removals after an upgrade, the addresses of an older network
are protected. -/
theorem upgrade_protects (simpleFold : Char → Char) (n : String) (net : NetworkRecord)
    (r : Registry) (ops : List Op) (hleg : Legacy n net r)
    (hops : ∀ op ∈ ops, op.isJoinOrLeave = true) :
    Throughout (Registry.next simpleFold) (Protects simpleFold n net) r ops := by
  rintro past op rest rfl
  obtain ⟨hpast, hrest⟩ := List.forall_mem_append.mp hops
  have hop := (List.forall_mem_cons.mp hrest).1
  have halong : Along (Registry.next simpleFold) (fun _ op => op.isJoinOrLeave = true) r past :=
    fun x hx => hpast x.2 (snd_mem_of_mem_trail hx)
  have h : Upgrading simpleFold n net (trail (Registry.next simpleFold) r past)
      (run (Registry.next simpleFold) r past) :=
    halong.invariant (Upgrading simpleFold n net) hleg.upgrading fun _ _ _ h hop =>
      h.step hleg.unmarked hleg.subnet hop
  constructor
  · exact h.once hleg.unmarked hleg.subnet hop
  · intro p maxMachines r' a _ hres k hk
    exact h.unshared hleg.subnet hres hk
  · intro hin p maxMachines r' a _ hfresh hres ha b hb hbn
    exact h.belowLast hleg.unmarked hleg.subnet hin hfresh hres ha hb hbn
  · intro hout hmig
    exact h.fallback hleg.unmarked hleg.subnet hop hout hmig

end Registry

namespace Sample

/-- The record of an older build: the first of two host addresses is below `NextIP`. -/
def oldNetwork : NetworkRecord where
  id := "net"
  cidr := cidr
  name := "home"
  accountID := "account"
  nextIP := addr 2
  machineCount := 1
  createdAt := 1
  assignedAddrs := none

/-- A database of an older build with one peer. -/
def oldRegistry : Registry where
  networks := (∅ : AList fun _ : String => NetworkRecord).insert "net" oldNetwork
  peers := (∅ : AList fun _ : String => PeerRecord).insert "a"
    { id := "a", networkID := "net", vpnAddr := addr 1 }
  endpoints := ∅

end Sample

namespace Registry

/-- The peer of an older build leaves and two others come. -/
theorem upgrade_protects_leave :
    Throughout (Registry.next id) (Protects id "net" Sample.oldNetwork) Sample.oldRegistry
      [.removePeer second "a", Sample.register "b" "b", Sample.register "c" "c"] := by
  have hholder (k : String) (a : Addr) (h : Sample.oldRegistry.holder "net" k = some a) :
      k = "a" ∧ a = Sample.addr 1 := by
    by_cases hk : k = "a"
    · subst hk
      exact ⟨rfl, (Option.some.inj h).symm⟩
    · have hnone : Sample.oldRegistry.peers.lookup k = none := by
        rw [Sample.oldRegistry, AList.lookup_insert_ne hk]
        rfl
      rw [holder, hnone] at h
      cases h
  refine upgrade_protects id "net" _ _ _ ⟨rfl, rfl, Sample.isSubnet_cidr, ?_, ?_⟩ (by decide)
  · intro k a h
    rw [(hholder k a h).2]
    decide
  · intro k k' a h h'
    rw [(hholder k a h).1, (hholder k' a h').1]

end Registry

end Veld.Coord
