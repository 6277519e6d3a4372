import Veld.Coord.Ledger

/-!
# Which addresses new peers get

The choice of `RegisterPeer` in terms of the history of the addresses: the lowest
one that was never handed out, else the one whose holder was removed first. An
address whose holder was swept is not chosen, so a network can be exhausted while
some of its addresses are free.
-/

namespace Veld.Coord

open Netip

/-- The clock of a removal is after the first second of the epoch. -/
def Op.Positive : Op → Prop
  | .removePeer now _ => 0 < unix now
  | _ => True

/-- The call registers or removes a peer. -/
def Op.isJoinOrLeave : Op → Bool
  | .registerPeer _ _ _ | .removePeer _ _ => true
  | _ => false

namespace Registry

variable {simpleFold : Char → Char} {r r' : Registry} {op : Op} {past : List (Registry × Op)}
  {n : String} {a : Addr} {net : NetworkRecord} {p : PeerRecord} {maxMachines : Int}

/-- An address is freed at a positive time. -/
theorem removed_pos (h : ∀ x ∈ past, x.2.Positive) {t : Int}
    (ht : trace simpleFold n a past = .removed t) : 0 < t := by
  induction past using List.reverseRecOn with
  | nil => cases ht
  | append_singleton past x ih =>
    obtain ⟨hpast, hx⟩ := List.forall_mem_append.mp h
    obtain ⟨r, op⟩ := x
    rw [trace_snoc, traceStep] at ht
    split at ht
    · cases ht
    · split at ht
      · split at ht
        · rename_i now id hop
          obtain rfl := Trace.removed.inj ht
          have hpos := hx (r, op) (List.mem_singleton_self _)
          simp only at hop
          rwa [hop] at hpos
        · cases ht
        · exact ih hpast ht
      · exact ih hpast ht

section Marks

variable {m : AList fun _ : Addr => Int} (hm : ∀ a, m.lookup a = (trace simpleFold n a past).mark)

include hm

theorem unused_iff : Unused (usedAddrs r.peers n) m a ↔
    a ∉ usedAddrs r.peers n ∧ trace simpleFold n a past = .never := by
  rw [Unused, hm a]
  refine and_congr_right fun _ => ?_
  cases trace simpleFold n a past <;> simp [Trace.mark]

theorem freed_iff {t : Int} : Freed (usedAddrs r.peers n) m a t ↔
    a ∉ usedAddrs r.peers n ∧ trace simpleFold n a past = .removed t ∧ 0 < t := by
  rw [Freed, hm a]
  refine and_congr_right fun _ => ?_
  constructor
  · rintro ⟨ht, hpos⟩
    refine ⟨?_, hpos⟩
    cases htr : trace simpleFold n a past with
    | never => simp [htr, Trace.mark] at ht
    | held =>
      simp only [htr, Trace.mark, Option.some.injEq] at ht
      omega
    | swept =>
      simp only [htr, Trace.mark, Option.some.injEq] at ht
      omega
    | removed s =>
      simp only [htr, Trace.mark, Option.some.injEq] at ht
      rw [ht]
  · rintro ⟨ht, hpos⟩
    rw [ht]
    exact ⟨rfl, hpos⟩

end Marks

/-- The marks the registration of a peer reads. -/
theorem Ledger.migrated (h : Ledger simpleFold past r) (hnet : r.networks.lookup n = some net)
    (used : List Addr) (a : Addr) :
    (migrateAssignedAddrs net used).lookup a = (trace simpleFold n a past).mark := by
  obtain ⟨m, hm, hmarks⟩ := h.marks n net hnet
  rw [migrateAssignedAddrs, hm]
  exact hmarks a

private theorem bind_error {α β ε : Type} {x : Except ε α} {f : α → Except ε β} {e : ε}
    (h : (x >>= f) = .error e) : x = .error e ∨ ∃ a, x = .ok a ∧ f a = .error e := by
  cases x with
  | error err => exact .inl (congrArg Except.error (Except.error.inj h))
  | ok a => exact .inr ⟨a, rfl, h⟩

theorem checkKey_ne_exhausted (k : String) :
    checkKey k ≠ .error (.addressSpaceExhausted n) := by
  unfold checkKey
  split
  · nofun
  · split <;> nofun

/-- A new peer of a network below its limit is refused for want of addresses exactly when the
allocation finds none. -/
theorem registerPeer_exhausted_iff
    (hnew : r.peers.lookup p.id = none) (hnet : r.networks.lookup n = some net)
    (hlimit : ¬(maxMachines > 0 ∧ net.machineCount ≥ maxMachines)) :
    r.registerPeer simpleFold p n maxMachines = .error (.addressSpaceExhausted n) ↔
      allocate net.cidr (usedAddrs r.peers n)
        (migrateAssignedAddrs net (usedAddrs r.peers n)) = none := by
  have hnew' : r.peers.lookup (settled simpleFold r p n).id = none := hnew
  cases ha : allocate net.cidr (usedAddrs r.peers n)
      (migrateAssignedAddrs net (usedAddrs r.peers n)) with
  | none =>
    simp only [registerPeer, register, hnew', hnet, hlimit, ite_false, ha]
    exact iff_of_true rfl trivial
  | some b =>
    refine iff_of_false (fun h => ?_) nofun
    rcases bind_error h with h | ⟨_, -, h⟩
    · simp only [register, hnew', hnet, hlimit, ite_false, ha] at h
      rcases bind_error h with h | ⟨_, -, h⟩
      · exact checkKey_ne_exhausted _ h
      · rcases bind_error h with h | ⟨_, -, h⟩
        · exact checkKey_ne_exhausted _ h
        · cases h
    · cases h

/-- The address a new peer got was allocated. -/
theorem allocate_of_registerPeer (hnew : r.peers.lookup p.id = none)
    (h : r.registerPeer simpleFold p n maxMachines = .ok (r', a)) :
    ∃ net, r.networks.lookup n = some net ∧ allocate net.cidr (usedAddrs r.peers n)
      (migrateAssignedAddrs net (usedAddrs r.peers n)) = some a := by
  obtain ⟨r₁, hreg, -⟩ := registerPeer_ok h
  rcases register_ok hreg with ⟨rec, hrec, -⟩ | ⟨net, -, -, hnet, -, halloc, -⟩
  · have hold : r.peers.lookup p.id = some rec := hrec
    rw [hnew] at hold
    cases hold
  · exact ⟨net, hnet, halloc⟩

/-- The allocation finds nothing exactly when every host address is held or was swept. -/
theorem allocate_eq_none_iff_trace (hledger : Ledger simpleFold past r)
    (hpos : ∀ x ∈ past, x.2.Positive) (hs : net.cidr.IsSubnet)
    (hnet : r.networks.lookup n = some net) :
    allocate net.cidr (usedAddrs r.peers n) (migrateAssignedAddrs net (usedAddrs r.peers n)) =
        none ↔
      ∀ a, net.cidr.IsHost a → a ∈ usedAddrs r.peers n ∨ trace simpleFold n a past = .swept := by
  rw [allocate_eq_none_iff hs]
  refine forall_congr' fun a => imp_congr_right fun _ => ?_
  rw [unused_iff (hledger.migrated hnet _)]
  simp only [freed_iff (hledger.migrated hnet _)]
  by_cases ha : a ∈ usedAddrs r.peers n
  · simp [ha]
  · have hfree := hledger.free n a ha
    cases htr : trace simpleFold n a past with
    | held => exact absurd htr hfree
    | never => simp [ha]
    | swept => simp
    | removed t => simp [ha, removed_pos hpos htr]

/-- After any calls, a new peer is refused for want of addresses exactly when every host address is
held, if and only if every host address is held or some free one's last holder was not swept. -/
theorem exhausted_iff_full_iff {ops : List Op} (hvalid : ∀ op ∈ ops, op.Valid)
    (hpos : ∀ op ∈ ops, op.Positive) (hr : run (Registry.next simpleFold) empty ops = r)
    {p : PeerRecord} {maxMachines : Int} (hnew : r.peers.lookup p.id = none)
    (hnet : r.networks.lookup n = some net)
    (hlimit : 0 < maxMachines → peerCount r.peers n < maxMachines) :
    (r.registerPeer simpleFold p n maxMachines = .error (.addressSpaceExhausted n) ↔
        ∀ a, net.cidr.IsHost a → a ∈ usedAddrs r.peers n) ↔
      (∀ a, net.cidr.IsHost a → a ∈ usedAddrs r.peers n) ∨
        ∃ a, net.cidr.IsHost a ∧ a ∉ usedAddrs r.peers n ∧
          trace simpleFold n a (trail (Registry.next simpleFold) empty ops) ≠ .swept := by
  have hw : r.WellFormed := hr ▸ wellFormed_run hvalid
  have hledger : Ledger simpleFold (trail (Registry.next simpleFold) empty ops) r :=
    hr ▸ ledger_run hvalid
  have hpast : ∀ x ∈ trail (Registry.next simpleFold) empty ops, x.2.Positive :=
    fun x hx => hpos x.2 (snd_mem_of_mem_trail hx)
  have hcount : ¬(maxMachines > 0 ∧ net.machineCount ≥ maxMachines) := by
    rw [hw.counted n net hnet]
    omega
  rw [registerPeer_exhausted_iff hnew hnet hcount,
    allocate_eq_none_iff_trace hledger hpast (hw.subnets n net hnet) hnet]
  constructor
  · intro h
    by_cases hfull : ∀ a, net.cidr.IsHost a → a ∈ usedAddrs r.peers n
    · exact .inl hfull
    · obtain ⟨a, ha⟩ := not_forall.mp (mt h.mp hfull)
      obtain ⟨hhost, hnot⟩ := Classical.not_imp.mp ha
      exact .inr ⟨a, hhost, fun hu => hnot (.inl hu), fun hs => hnot (.inr hs)⟩
  · rintro (hfull | ⟨a, hhost, hfree, hkept⟩)
    · exact iff_of_true (fun a ha => .inl (hfull a ha)) hfull
    · refine iff_of_false (fun h => ?_) fun h => hfree (h a hhost)
      rcases h a hhost with hu | hs
      · exact hfree hu
      · exact hkept hs

/-- One of two addresses is free after its holder was removed. -/
theorem exhausted_iff_full_iff_removed :
    let r := run (Registry.next id) empty [Sample.create, Sample.register "a" "",
      Sample.register "b" "", .removePeer (9 * second) "a"]
    r.registerPeer id { id := "c" } "net" 0 = .error (.addressSpaceExhausted "net") ↔
      ∀ a, Sample.cidr.IsHost a → a ∈ usedAddrs r.peers "net" := by
  intro r
  have hvalid : ∀ op ∈ [Sample.create, Sample.register "a" "", Sample.register "b" "",
      .removePeer (9 * second) "a"], op.Valid := by
    simp [Sample.create, Sample.register, Op.Valid, Sample.isSubnet_cidr]
  have hpos : ∀ op ∈ [Sample.create, Sample.register "a" "", Sample.register "b" "",
      .removePeer (9 * second) "a"], op.Positive := by
    simp [Sample.create, Sample.register, Op.Positive]
    decide
  have hrecord : (r.networks.lookup "net").map (·.cidr) = some Sample.cidr := by decide +kernel
  have hnew : r.peers.lookup "c" = none := by decide +kernel
  obtain ⟨net, hnet, hcidr⟩ := Option.map_eq_some_iff.mp hrecord
  rw [← hcidr]
  refine (exhausted_iff_full_iff hvalid hpos rfl hnew hnet (absurd · (by decide))).mpr (.inr ?_)
  rw [hcidr]
  exact ⟨Sample.addr 1, by decide +kernel⟩

/-- Both peers of a network with two host addresses are swept. No peer is stored, and still the next
one is refused for want of addresses. -/
theorem swept_addresses_lost :
    let r := run (Registry.next id) empty [Sample.create, Sample.register "a" "",
      Sample.register "b" "", .sweepStalePeers (100000 * second) second none]
    values r.peers = [] ∧ Sample.cidr.IsHost (Sample.addr 1) ∧
      (r.networks.lookup "net").map (·.cidr) = some Sample.cidr ∧
      r.registerPeer id { id := "c" } "net" 0 = .error (.addressSpaceExhausted "net") := by
  decide +kernel

theorem valid_of_isJoinOrLeave (h : op.isJoinOrLeave = true) : op.Valid := by
  cases op with
  | registerPeer p networkID maxMachines => trivial
  | removePeer now peerID => trivial
  | _ => cases h

/-- Registrations and removals leave the prefix of a network as it is and add none. -/
theorem Effect.cidr_eq (he : Effect simpleFold r op r') (hop : op.isJoinOrLeave = true)
    {net' : NetworkRecord} (h : r'.networks.lookup n = some net') :
    ∃ net, r.networks.lookup n = some net ∧ net'.cidr = net.cidr := by
  cases he with
  | keep hp hn => exact ⟨net', hn ▸ h, rfl⟩
  | create hfresh hp hn => cases hop
  | renew hstored hname hp hn => exact ⟨net', hn ▸ h, rfl⟩
  | join hfresh hkey hnet hlimit halloc hname hp hn =>
    rw [hn] at h
    rcases lookup_insert_eq_some.mp h with ⟨rfl, rfl⟩ | ⟨-, hold⟩
    · exact ⟨_, hnet, rfl⟩
    · exact ⟨net', hold, rfl⟩
  | leave hstored hnet hp hn =>
    rw [hn] at h
    rcases lookup_insert_eq_some.mp h with ⟨rfl, rfl⟩ | ⟨-, hold⟩
    · exact ⟨_, hnet, rfl⟩
    · exact ⟨net', hold, rfl⟩
  | sweep removed hsub => cases hop

/-- A stored peer that registers again in its network, with its key, keeps its address. -/
theorem registerPeer_stored {p rec : PeerRecord} (hrec : r.peers.lookup p.id = some rec)
    (hn : rec.networkID = n) (hkey : rec.x25519Public = p.x25519Public)
    (hv : rec.vpnAddr.isValid = true) (hid : checkKey p.id = .ok ()) (maxMachines : Int) :
    ∃ r', r.registerPeer simpleFold p n maxMachines = .ok (r', rec.vpnAddr) := by
  have hrec' : r.peers.lookup (settled simpleFold r p n).id = some rec := hrec
  have hkey' : rec.x25519Public = (settled simpleFold r p n).x25519Public := hkey
  have hid' : checkKey (settled simpleFold r p n).id = .ok () := hid
  simp only [registerPeer, register, hrec', hn, hkey', hv, hid', ne_eq, not_true_eq_false,
    ite_false, Bool.not_true, Bool.false_eq_true]
  exact ⟨_, rfl⟩

section Created

variable {pre is : List Op} {now : Int} {cidr : Prefix} {name accountID : String}
  (hpre : ∀ op ∈ pre, op.Valid)
  (hfresh : (run (Registry.next simpleFold) empty pre).networks.lookup n = none)
  (his : ∀ op ∈ is, op.isJoinOrLeave = true ∧ op.Positive)

theorem peers_createNetwork :
    (r.next simpleFold (.createNetwork now n cidr name accountID)).peers = r.peers := by
  cases hres : r.createNetwork now n cidr name accountID with
  | error err =>
    simp only [Registry.next, hres]
    rfl
  | ok r' =>
    simp only [Registry.next, hres]
    obtain ⟨-, rfl⟩ := createNetwork_ok hres
    rfl

include hpre his

theorem valid_created (hcidr : cidr.IsSubnet) :
    ∀ op ∈ pre ++ .createNetwork now n cidr name accountID :: is, op.Valid := by
  refine List.forall_mem_append.mpr ⟨hpre, List.forall_mem_cons.mpr ⟨hcidr, fun op hop => ?_⟩⟩
  exact valid_of_isJoinOrLeave (his op hop).1

include hfresh

/-- The network has the prefix it was created with. -/
theorem cidr_created (hcidr : cidr.IsSubnet) (h : (run (Registry.next simpleFold) empty
    (pre ++ .createNetwork now n cidr name accountID :: is)).networks.lookup n = some net) :
    net.cidr = cidr := by
  induction is using List.reverseRecOn generalizing net with
  | nil =>
    rw [run_snoc] at h
    generalize hr : run (Registry.next simpleFold) empty pre = r at h hfresh
    cases hres : r.createNetwork now n cidr name accountID with
    | error err =>
      simp only [Registry.next, hres] at h
      have hold : r.networks.lookup n = some net := h
      rw [hfresh] at hold
      cases hold
    | ok r' =>
      simp only [Registry.next, hres] at h
      obtain ⟨-, rfl⟩ := createNetwork_ok hres
      rcases lookup_insert_eq_some.mp h with ⟨-, rfl⟩ | ⟨hne, -⟩
      · rfl
      · exact absurd rfl hne
  | append_singleton is op ih =>
    obtain ⟨hprev, hop⟩ := List.forall_mem_append.mp his
    rw [← List.cons_append, ← List.append_assoc, run_snoc] at h
    have hw : (run (Registry.next simpleFold) empty
        (pre ++ .createNetwork now n cidr name accountID :: is)).WellFormed :=
      wellFormed_run (valid_created hpre hprev hcidr)
    obtain ⟨net₀, hnet₀, heq⟩ :=
      (effect_next hw.toFiled op).cidr_eq (hop op (List.mem_singleton_self op)).1 h
    rw [heq]
    exact ih hprev hnet₀

/-- An address of the network was never handed out, is held, or was freed at a positive time. -/
theorem trace_created (T : Trace) (hT : trace simpleFold n a (trail (Registry.next simpleFold) empty
    (pre ++ .createNetwork now n cidr name accountID :: is)) = T) :
    T = .never ∨ T = .held ∨ ∃ t, T = .removed t ∧ 0 < t := by
  subst hT
  induction is using List.reverseRecOn with
  | nil =>
    have hledger : Ledger simpleFold (trail (Registry.next simpleFold) empty pre)
      (run (Registry.next simpleFold) empty pre) := ledger_run hpre
    left
    rw [trail_snoc, hledger.trace_same (by rw [peers_createNetwork]), hledger.fresh n hfresh a]
  | append_singleton is op ih =>
    obtain ⟨hprev, hop⟩ := List.forall_mem_append.mp his
    obtain ⟨hkind, hpos⟩ := hop op (List.mem_singleton_self op)
    rw [← List.cons_append, ← List.append_assoc, trail_snoc, trace_snoc, traceStep]
    split
    · exact .inr (.inl rfl)
    · split
      · cases op with
        | removePeer now id => exact .inr (.inr ⟨unix now, rfl, hpos⟩)
        | registerPeer p m maxMachines => exact ih hprev
        | _ => cases hkind
      · exact ih hprev

end Created

/-- After registrations and removals on a new network, a new peer gets the lowest address that was
never handed out or else, of the free ones, the one that was freed first, the lowest on ties, and a
stored peer keeps its address. -/
theorem allocation_order {pre is : List Op} {now : Int} {cidr : Prefix} {name accountID : String}
    (hpre : ∀ op ∈ pre, op.Valid) (hcidr : cidr.IsSubnet)
    (hfresh : (run (Registry.next simpleFold) empty pre).networks.lookup n = none)
    (his : ∀ op ∈ is, op.isJoinOrLeave = true ∧ op.Positive)
    (hr : run (Registry.next simpleFold) empty
      (pre ++ .createNetwork now n cidr name accountID :: is) = r)
    {T : Addr → Trace} (hT : ∀ a, trace simpleFold n a (trail (Registry.next simpleFold) empty
      (pre ++ .createNetwork now n cidr name accountID :: is)) = T a)
    (p : PeerRecord) (maxMachines : Int) :
    (r.peers.lookup p.id = none → ∀ r' a, r.registerPeer simpleFold p n maxMachines = .ok (r', a) →
      cidr.IsHost a ∧
      ((∃ b, cidr.IsHost b ∧ T b = .never) →
        T a = .never ∧ ∀ b, cidr.IsHost b → T b = .never → (a.compare b).isLE = true) ∧
      ((∀ b, cidr.IsHost b → T b ≠ .never) →
        a ∉ usedAddrs r.peers n ∧ ∃ t, T a = .removed t ∧
          ∀ b, cidr.IsHost b → b ∉ usedAddrs r.peers n → ∃ s, T b = .removed s ∧
            (t < s ∨ (t = s ∧ (a.compare b).isLE = true)))) ∧
    (∀ rec, r.peers.lookup p.id = some rec → rec.networkID = n →
      rec.x25519Public = p.x25519Public →
      ∃ r', r.registerPeer simpleFold p n maxMachines = .ok (r', rec.vpnAddr)) := by
  have hvalid : ∀ op ∈ pre ++ .createNetwork now n cidr name accountID :: is, op.Valid :=
    valid_created hpre his hcidr
  have hw : r.WellFormed := hr ▸ wellFormed_run hvalid
  have hledger : Ledger simpleFold (trail (Registry.next simpleFold) empty
      (pre ++ .createNetwork now n cidr name accountID :: is)) r := hr ▸ ledger_run hvalid
  have hkind (b : Addr) := trace_created hpre hfresh his (T b) (hT b)
  have hheld (b : Addr) (hb : T b = .never) : b ∉ usedAddrs r.peers n := by
    intro hu
    rw [← hT b, hledger.held n b hu] at hb
    cases hb
  constructor
  · intro hnew r' a hok
    obtain ⟨net, hnet, halloc⟩ := allocate_of_registerPeer hnew hok
    obtain rfl : net.cidr = cidr := cidr_created hpre hfresh his hcidr (hr ▸ hnet)
    have hm := hledger.migrated hnet (usedAddrs r.peers n)
    obtain ⟨hhost, hcase⟩ := allocate_cases hcidr halloc
    simp only [unused_iff hm, freed_iff hm, hT] at hcase
    refine ⟨hhost, fun ⟨b, hb, hbn⟩ => ?_, fun hnone => ?_⟩
    · rcases hcase with ⟨⟨-, hnever⟩, hlow⟩ | ⟨hno, -⟩
      · exact ⟨hnever, fun c hc hcn => hlow c hc ⟨hheld c hcn, hcn⟩⟩
      · exact absurd ⟨hheld b hbn, hbn⟩ (hno b hb)
    · rcases hcase with ⟨⟨-, hnever⟩, -⟩ | ⟨-, t, ⟨hfree, ht, -⟩, hlow⟩
      · exact absurd hnever (hnone a hhost)
      · refine ⟨hfree, t, ht, fun b hb hbfree => ?_⟩
        rcases hkind b with h | h | ⟨s, hs, hpos⟩
        · exact absurd h (hnone b hb)
        · exact absurd ((hT b).trans h) (hledger.free n b hbfree)
        · exact ⟨s, hs, hlow b s hb ⟨hbfree, hs, hpos⟩⟩
  · intro rec hrec hn hkey
    obtain ⟨net, hnet⟩ := Option.isSome_iff_exists.mp (hw.homed _ rec hrec)
    exact registerPeer_stored hrec hn hkey (isValid_of_isHost (hw.hosted _ rec net hrec hnet))
      (hw.storable _ rec hrec) maxMachines

/-- Both addresses of a network were freed, the second one first; it is the next one handed out. -/
theorem allocation_order_freed :
    let ops := [Sample.create, Sample.register "a" "", Sample.register "b" "",
      .removePeer (5 * second) "b", .removePeer (9 * second) "a"]
    let r := run (Registry.next id) empty ops
    ∃ r', r.registerPeer id { id := "c" } "net" 0 = .ok (r', Sample.addr 2) ∧
      ∃ t, trace id "net" (Sample.addr 2) (trail (Registry.next id) empty ops) = .removed t ∧
        ∀ b, Sample.cidr.IsHost b → b ∉ usedAddrs r.peers "net" →
          ∃ s, trace id "net" b (trail (Registry.next id) empty ops) = .removed s ∧
            (t < s ∨ (t = s ∧ ((Sample.addr 2).compare b).isLE = true)) := by
  intro ops r
  have his : ∀ op ∈ ops.tail, op.isJoinOrLeave = true ∧ op.Positive := by
    simp [ops, Sample.register, Op.isJoinOrLeave, Op.Positive]
    decide
  have hfresh : (run (Registry.next id) empty []).networks.lookup "net" = none :=
    AList.lookup_empty _
  have hrun : run (Registry.next id) empty
      ([] ++ .createNetwork second "net" Sample.cidr "home" "account" :: ops.tail) = r := rfl
  have hnew : r.peers.lookup "c" = none := by decide +kernel
  have hused : ∀ b, Sample.cidr.IsHost b →
      trace id "net" b (trail (Registry.next id) empty ops) ≠ .never := by
    have hosts : ∀ b ∈ Sample.cidr.hosts,
      trace id "net" b (trail (Registry.next id) empty ops) ≠ .never := by decide +kernel
    exact fun b hb => hosts b (Sample.isSubnet_cidr.mem_hosts.mpr hb)
  have haddr : (r.registerPeer id { id := "c" } "net" 0).toOption.map Prod.snd =
      some (Sample.addr 2) := by decide +kernel
  cases hok : r.registerPeer id { id := "c" } "net" 0 with
  | error err =>
    rw [hok] at haddr
    cases haddr
  | ok x =>
    obtain ⟨r', a⟩ := x
    rw [hok] at haddr
    obtain rfl : a = Sample.addr 2 := Option.some.inj haddr
    have horder := allocation_order (List.forall_mem_nil _) Sample.isSubnet_cidr hfresh his hrun
      (fun _ => rfl) { id := "c" } 0
    exact ⟨r', rfl, ((horder.1 hnew r' _ hok).2.2 hused).2⟩

end Registry

end Veld.Coord
