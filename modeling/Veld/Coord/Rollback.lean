import Veld.Coord.Database

/-!
# Registrations that fail

`Register` of `coord/server/server.go` over the database, the endpoints in memory, the
signatures seen and the events published. It fails before its transaction, in it, or not at
all: what follows the commit cannot fail. A call that fails therefore leaves the records, the
endpoints and the bus, however far its transaction had come.
-/

namespace Veld.Coord

open Netip

/-- What a registration can change: the records, the signatures seen, and the events published, with
the networks they went to. -/
structure Node (δ β : Type) where
  records : Records β
  seen : SeenSignatures δ
  published : List (String × PeerEvent)

namespace Node

variable {δ β : Type}

/-- A call of the registry. -/
def onRecords {ε α : Type} (m : EStateM ε (Records β) α) : EStateM ε (Node δ β) α :=
  within Node.records (fun s r => { s with records := r }) m

def publish (networkID : String) (ev : PeerEvent) : EStateM Status (Node δ β) Unit :=
  modifyGet fun s => ((), { s with published := s.published ++ [(networkID, ev)] })

/-- What a registration that fails leaves. -/
def lasting (s : Node δ β) : Records β × List (String × PeerEvent) := (s.records, s.published)

variable [DecidableEq δ]

def firstUse (key : δ) (now : Int) : EStateM Status (Node δ β) Bool :=
  modifyGet fun s => ((s.seen.firstUse key now).2, { s with seen := (s.seen.firstUse key now).1 })

/-- The registration of an authenticated peer. The audit log and the lifecycle hooks do not change
the node. -/
def admitPeer (d : Bolt β) (sv : Services δ) (t : RegisterTimes) (req : RegisterRequest)
    (peerID : String) : EStateM Status (Node δ β) RegisterResponse := do
  let p := Services.recordOf req peerID t
  let vpnAddr ← (onRecords (d.registerPeer sv.simpleFold p req.networkId
    (sv.machineLimitFor req.networkId))).adaptExcept (DatabaseError.registerStatus sv.quote)
  let s ← get
  publish req.networkId (joinEvent p vpnAddr)
  pure {
    vpnAddr, peerId := peerID, networkId := req.networkId
    networkCidr := (((d.decoded s.records).getNetwork req.networkId).map (·.cidr)).getD .zero }

/-- `Register`. -/
def register (d : Bolt β) (sv : Services δ) (t : RegisterTimes) (req : RegisterRequest) :
    EStateM Status (Node δ β) RegisterResponse := do
  let s ← get
  let peerID ← ofExcept (sv.authenticate (d.decoded s.records) t.checkedAt req)
  let first ← firstUse (sv.sha256 req.signature) t.usedAt
  ofExcept (if first then .ok () else .error errRegisterAuth)
  ofExcept (sv.validate req)
  admitPeer d sv t req peerID

end Node

namespace Bolt

variable {α β : Type} (d : Bolt β)

theorem failsClean_update (body : Tx β α) : FailsClean id (d.update body) :=
  (failsClean_transact _ _).within fun _ => rfl

theorem failsClean_registerPeer (simpleFold : Char → Char) (p : PeerRecord) (networkID : String)
    (maxMachines : Int) : FailsClean id (d.registerPeer simpleFold p networkID maxMachines) :=
  (d.failsClean_update _).bind fun _ => (infallible_modifyGet _).bind fun _ => infallible_pure _

theorem failsClean_touchPeer (now : Int) (peerID : String) :
    FailsClean id (d.touchPeer now peerID) :=
  d.failsClean_update _

theorem failsClean_updateEndpoint (now : Int) (peerID endpoint : String) :
    FailsClean id (d.updateEndpoint now peerID endpoint) :=
  (d.failsClean_update _).bind fun _ => infallible_modifyGet _

theorem failsClean_removePeer (now : Int) (peerID : String) :
    FailsClean id (d.removePeer now peerID) :=
  (d.failsClean_update _).bind fun _ => (infallible_modifyGet _).bind fun _ => infallible_pure _

end Bolt

namespace Node

section Failures

variable {δ β : Type} (d : Bolt β) (sv : Services δ)

/-- After the transaction nothing fails. -/
theorem failsClean_admitPeer (t : RegisterTimes) (req : RegisterRequest) (peerID : String) :
    FailsClean lasting
      (admitPeer d sv t req peerID : EStateM Status (Node δ β) RegisterResponse) := by
  refine FailsClean.bind (((d.failsClean_registerPeer _ _ _ _).within fun _ => rfl).adaptExcept _)
    fun vpnAddr => ?_
  exact infallible_get.bind fun s => (infallible_modifyGet _).bind fun _ => infallible_pure _

/-- Before it only the signatures seen change. -/
theorem failsClean_register [DecidableEq δ] (t : RegisterTimes) (req : RegisterRequest) :
    FailsClean lasting (register d sv t req : EStateM Status (Node δ β) RegisterResponse) := by
  refine reads_get.bind fun s => (reads_ofExcept _).bind fun peerID => ?_
  refine (reads_modifyGet fun _ => rfl).bind fun first => (reads_ofExcept _).bind fun _ => ?_
  exact (reads_ofExcept _).bind fun _ => failsClean_admitPeer d sv t req peerID

end Failures

section Agreement

variable {δ β : Type} {d : Bolt β} {sv : Services δ} {s : Node δ β} {t : RegisterTimes} {req : RegisterRequest}

/-- The server as far as its records can be decoded. -/
def server (d : Bolt β) (s : Node δ β) : Server δ := ⟨d.decoded s.records, s.seen⟩

/-- A registration over the database ends as one over the records does, and one that succeeds
publishes its event. -/
def Answers (d : Bolt β) (s : Node δ β) (networkID : String)
    (x : EStateM.Result Status (Node δ β) RegisterResponse) :
    Server δ × Except Status Registered → Prop
  | (r, .error err) => ∃ s', x = .error err s' ∧ s'.server d = r
  | (r, .ok out) => ∃ s', x = .ok out.response s' ∧ s'.server d = r ∧
      s'.published = s.published ++ [(networkID, out.event)]

theorem run_admitPeer_error (hd : d.Reliable) (hs : d.Readable s.records.buckets)
    {peerID : String} {err : RegistryError}
    (h : (d.decoded s.records).registerPeer sv.simpleFold (Services.recordOf req peerID t)
      req.networkId (sv.machineLimitFor req.networkId) = .error err) :
    (admitPeer d sv t req peerID).run s = .error (registerStatus sv.quote err) s := by
  have hagrees := hd.agrees_registerPeer hs sv.simpleFold (Services.recordOf req peerID t)
    req.networkId (sv.machineLimitFor req.networkId)
  rw [h] at hagrees
  exact run_bind_of_error (run_adaptExcept_error (within_of_error hagrees) _)

theorem run_admitPeer (hd : d.Reliable) (hs : d.Readable s.records.buckets)
    {peerID : String} {r : Registry} {a : Addr}
    (h : (d.decoded s.records).registerPeer sv.simpleFold (Services.recordOf req peerID t)
      req.networkId (sv.machineLimitFor req.networkId) = .ok (r, a)) :
    ∃ s' : Node δ β, (admitPeer d sv t req peerID).run s = .ok {
        vpnAddr := a, peerId := peerID, networkId := req.networkId
        networkCidr := ((r.getNetwork req.networkId).map (·.cidr)).getD .zero } s' ∧
      s'.server d = ⟨r, s.seen⟩ ∧ s'.published = s.published ++
        [(req.networkId, joinEvent (Services.recordOf req peerID t) a)] := by
  have hagrees := hd.agrees_registerPeer hs sv.simpleFold (Services.recordOf req peerID t)
    req.networkId (sv.machineLimitFor req.networkId)
  rw [h] at hagrees
  obtain ⟨records, hrun, rfl, -⟩ := hagrees
  refine ⟨⟨records, s.seen, _⟩, ?_, rfl, rfl⟩
  exact run_bind_of_ok (run_adaptExcept (within_of_ok hrun) _)

theorem register_answers [DecidableEq δ] (hd : d.Reliable) (hs : d.Readable s.records.buckets) :
    Answers d s req.networkId ((register d sv t req).run s) (sv.register (s.server d) t req) := by
  simp only [register, run_bind_of_ok (EStateM.run_get s), Services.register, server]
  cases hauth : sv.authenticate (d.decoded s.records) t.checkedAt req with
  | error err => exact ⟨s, rfl, rfl⟩
  | ok peerID =>
    have huse : (firstUse (sv.sha256 req.signature) t.usedAt).run s =
        .ok (s.seen.firstUse (sv.sha256 req.signature) t.usedAt).2
          { s with seen := (s.seen.firstUse (sv.sha256 req.signature) t.usedAt).1 } := rfl
    rw [run_bind_of_ok (run_ofExcept rfl), run_bind_of_ok huse]
    rcases Bool.eq_false_or_eq_true (s.seen.firstUse (sv.sha256 req.signature) t.usedAt).2
      with hfirst | hfirst
    · simp only [hfirst, Bool.not_true, Bool.false_eq_true, if_true, if_false]
      generalize (s.seen.firstUse (sv.sha256 req.signature) t.usedAt).1 = seen
      rw [run_bind_of_ok (run_ofExcept rfl)]
      cases hvalid : sv.validate req with
      | error err => exact ⟨_, rfl, rfl⟩
      | ok u =>
        rw [run_bind_of_ok (run_ofExcept rfl)]
        cases hreg : (d.decoded s.records).registerPeer sv.simpleFold
            (Services.recordOf req peerID t) req.networkId (sv.machineLimitFor req.networkId) with
        | error err =>
          exact ⟨_, run_admitPeer_error (s := ⟨s.records, seen, s.published⟩) hd hs hreg, rfl⟩
        | ok out => exact run_admitPeer (s := ⟨s.records, seen, s.published⟩) hd hs hreg
    · simp only [hfirst, Bool.not_false, Bool.false_eq_true, if_true, if_false]
      exact ⟨_, rfl, rfl⟩

end Agreement

section Unchanged

variable {δ β : Type} {s s' : Node δ β}

/-- Nothing of the records, the endpoints and the bus changed. -/
structure Unchanged (s s' : Node δ β) : Prop where
  networks : s'.records.buckets.networks = s.records.buckets.networks
  peers : s'.records.buckets.peers = s.records.buckets.peers
  endpoints : s'.records.endpoints = s.records.endpoints
  published : s'.published = s.published

theorem unchanged_of_lasting (h : s'.lasting = s.lasting) : s.Unchanged s' := by
  obtain ⟨hrecords, hpublished⟩ := Prod.mk.inj h
  refine ⟨?_, ?_, ?_, hpublished⟩ <;> rw [hrecords]

theorem unchanged_onRecords {ε α : Type} {m : EStateM ε (Records β) α} (hm : FailsClean id m)
    {err : ε} (h : (onRecords m).run s = .error err s') : s.Unchanged s' :=
  unchanged_of_lasting (hm.within (fun _ => rfl) s err s' h)

/-- A call that returns an error leaves every peer and network record, with the machine counts and
the history of the addresses, and the endpoints, and publishes nothing. -/
theorem failed_call_changes_nothing [DecidableEq δ] (d : Bolt β) (sv : Services δ)
    (s : Node δ β) :
    (∀ t req err s', (register d sv t req).run s = .error err s' → s.Unchanged s') ∧
    (∀ now peerID err s', (onRecords (d.removePeer now peerID)).run s = .error err s' →
      s.Unchanged s') ∧
    (∀ now peerID endpoint err s',
      (onRecords (d.updateEndpoint now peerID endpoint)).run s = .error err s' →
        s.Unchanged s') ∧
    ∀ now peerID err s', (onRecords (d.touchPeer now peerID)).run s = .error err s' →
      s.Unchanged s' := by
  refine ⟨fun t req err s' h => ?_, fun now peerID err s' h => ?_,
    fun now peerID endpoint err s' h => ?_, fun now peerID err s' h => ?_⟩
  · exact unchanged_of_lasting (failsClean_register d sv t req s err s' h)
  · exact unchanged_onRecords (d.failsClean_removePeer now peerID) h
  · exact unchanged_onRecords (d.failsClean_updateEndpoint now peerID endpoint) h
  · exact unchanged_onRecords (d.failsClean_touchPeer now peerID) h

end Unchanged

end Node

namespace Sample

/-- The records are their own texts, and nothing fails. -/
def plainDisk : Bolt (PeerRecord ⊕ NetworkRecord) where
  marshalPeer rec := .ok (.inl rec)
  unmarshalPeer text := text.elim .ok fun _ => .error "not a peer"
  marshalNetwork net := .ok (.inr net)
  unmarshalNetwork text := text.elim (fun _ => .error "not a network") .ok
  startError _ := none
  putError _ := none
  deleteError _ := none
  commitError _ := none

theorem reliable_plainDisk : plainDisk.Reliable where
  peer rec := ⟨.inl rec, rfl, rfl⟩
  network net := ⟨.inr net, rfl, rfl⟩
  start _ := rfl
  put _ := rfl
  delete _ := rfl
  commit _ := rfl

/-- No room for a peer. -/
def fullDisk : Bolt (PeerRecord ⊕ NetworkRecord) :=
  { plainDisk with putError := fun b => if b.peers.entries.isEmpty then none else some "disk full" }

def node : Node Bytes (PeerRecord ⊕ NetworkRecord) where
  records := {
    buckets := ⟨filterMapValues (fun net => some (.inr net)) server.registry.networks, ∅⟩
    endpoints := ∅ }
  seen := server.seen
  published := []

theorem readable_node : plainDisk.Readable node.records.buckets where
  peer _ _ h := by cases h
  network k text h := by
    rw [node, lookup_filterMapValues, Option.bind_eq_some_iff] at h
    obtain ⟨net, -, htext⟩ := h
    cases htext
    exact ⟨net, rfl⟩
  storable k text h := by
    have hkeys : node.records.buckets.networks.keys = ["net"] := by decide +kernel
    have hk : k ∈ node.records.buckets.networks.keys := AList.lookup_isSome.mp (h ▸ rfl)
    rw [hkeys, List.mem_singleton] at hk
    rw [hk]
    decide +kernel

end Sample

theorem Node.register_answers_laptop :
    let req := Sample.request "key1" "laptop"
    Node.Answers Sample.plainDisk Sample.node req.networkId
      ((Node.register Sample.plainDisk Sample.services Sample.times req).run Sample.node)
      (Sample.services.register (Sample.node.server Sample.plainDisk) Sample.times req) :=
  Node.register_answers Sample.reliable_plainDisk Sample.readable_node

/-- The network record was written before the peer's did not fit. -/
theorem Node.failed_call_changes_nothing_full :
    ∃ s', (Node.register Sample.fullDisk Sample.services Sample.times
        (Sample.request "key1" "laptop")).run Sample.node =
          .error ⟨.internal, "register peer: disk full"⟩ s' ∧ Sample.node.Unchanged s' := by
  obtain ⟨s', hrun⟩ := exists_of_errorOf (m := Node.register Sample.fullDisk Sample.services
    Sample.times (Sample.request "key1" "laptop")) (s := Sample.node)
    (e := ⟨.internal, "register peer: disk full"⟩) (by decide +kernel)
  exact ⟨s', hrun, (Node.failed_call_changes_nothing Sample.fullDisk Sample.services
    Sample.node).1 _ _ _ s' hrun⟩

end Veld.Coord
