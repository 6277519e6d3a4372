import Veld.Core.Checked
import Veld.Core.Transaction
import Veld.Coord.Server

/-!
# The database of the registry

The transactions of `coord/server/registry.go` on the texts of the records. Decoding a
record, encoding it, every write and the commit may fail, and bbolt then drops the copy of
the buckets the transaction worked on. Where nothing but the registry's own checks fails, the
calls do what they do on the records themselves.
-/

namespace Veld.Coord

open Netip

/-- The two buckets, with the texts of the records. -/
structure Buckets (β : Type) where
  networks : AList fun _ : String => β
  peers : AList fun _ : String => β

/-- The encoding of the records, and the errors of bbolt: of the start of a transaction, of a write
that would leave some buckets, and of their commit. -/
structure Bolt (β : Type) where
  marshalPeer : PeerRecord → Except String β
  unmarshalPeer : β → Except String PeerRecord
  marshalNetwork : NetworkRecord → Except String β
  unmarshalNetwork : β → Except String NetworkRecord
  startError : Buckets β → Option String
  putError : Buckets β → Option String
  deleteError : Buckets β → Option String
  commitError : Buckets β → Option String

inductive DatabaseError
  /-- By a check of the registry or of the key of a write. -/
  | refused (err : RegistryError)
  | unreadableRecord (peerID cause : String)
  | failed (cause : String)
  deriving DecidableEq, Repr

def DatabaseError.message (quote : String → String) : DatabaseError → String
  | refused err => err.message quote
  | unreadableRecord peerID cause =>
    "peer " ++ quote peerID ++ " exists but its record is unreadable: " ++ cause
  | failed cause => cause

/-- The error of a registration, for the causes the registry does not name. -/
def DatabaseError.registerStatus (quote : String → String) : DatabaseError → Status
  | refused err => Coord.registerStatus quote err
  | err => ⟨.internal, "register peer: " ++ err.message quote⟩

/-- A program on the copy of the buckets. -/
abbrev Tx (β α : Type) := EStateM DatabaseError (Buckets β) α

section Steps

variable {α β : Type}

def refuse (err : RegistryError) : Tx β α := throw (.refused err)

def require (ok : Bool) (err : RegistryError) : Tx β Unit := if ok then pure () else refuse err

def orFail (x : Except String α) : Tx β α := ofExcept (x.mapError .failed)

/-- No result is no error. -/
def fault : Option String → Except DatabaseError Unit
  | none => .ok ()
  | some cause => .error (.failed cause)

def survive (error : Buckets β → Option String) : Tx β Unit := do
  ofExcept (fault (error (← get)))

end Steps

/-- The database and the endpoints in memory. -/
structure Records (β : Type) where
  buckets : Buckets β
  endpoints : AList fun _ : String => String

namespace Bolt

variable {α β : Type} (d : Bolt β)

def putPeer (key : String) (text : β) : Tx β Unit := do
  ofExcept ((checkKey key).mapError .refused)
  modify fun b => { b with peers := b.peers.insert key text }
  survive d.putError

def putNetwork (key : String) (text : β) : Tx β Unit := do
  ofExcept ((checkKey key).mapError .refused)
  modify fun b => { b with networks := b.networks.insert key text }
  survive d.putError

def deletePeer (key : String) : Tx β Unit := do
  modify fun b => { b with peers := b.peers.erase key }
  survive d.deleteError

/-- The records of the peers that can be decoded, which are those `ForEach` looks at. -/
def readPeers (peers : AList fun _ : String => β) : AList fun _ : String => PeerRecord :=
  filterMapValues (fun text => (d.unmarshalPeer text).toOption) peers

def readNetworks (networks : AList fun _ : String => β) : AList fun _ : String => NetworkRecord :=
  filterMapValues (fun text => (d.unmarshalNetwork text).toOption) networks

/-- The registration of a peer that is stored. -/
def renewTx (p : PeerRecord) (networkID : String) (existing : β) : Tx β Addr :=
  match d.unmarshalPeer existing with
  | .error cause => throw (.unreadableRecord p.id cause)
  | .ok rec => do
    require (rec.networkID = networkID) .peerIDTaken
    require (rec.x25519Public = p.x25519Public) .peerKeyMismatch
    require rec.vpnAddr.isValid (.unreadableAddr p.id)
    let updated ← orFail (d.marshalPeer (Registry.renewed rec p))
    d.putPeer p.id updated
    pure rec.vpnAddr

/-- The registration of a new peer: the network record is written before the peer's. -/
def joinTx (p : PeerRecord) (networkID : String) (maxMachines : Int) (netData : β) :
    Tx β Addr := do
  let net ← orFail (d.unmarshalNetwork netData)
  require (¬(maxMachines > 0 ∧ net.machineCount ≥ maxMachines)) .machineLimit
  let used := usedAddrs (d.readPeers (← get).peers) networkID
  match allocate net.cidr used (migrateAssignedAddrs net used) with
  | none => refuse (.addressSpaceExhausted networkID)
  | some assigned => do
    let updatedNet ← orFail (d.marshalNetwork (Registry.occupy net used assigned))
    d.putNetwork networkID updatedNet
    let data ← orFail (d.marshalPeer (Registry.joined p networkID assigned))
    d.putPeer p.id data
    pure assigned

/-- The transaction of `RegisterPeer` for a peer whose name is settled. -/
def storeTx (p : PeerRecord) (networkID : String) (maxMachines : Int) : Tx β Addr := do
  let b ← get
  match b.peers.lookup p.id with
  | some existing => d.renewTx p networkID existing
  | none =>
    match b.networks.lookup networkID with
    | none => refuse (.networkNotFound networkID)
    | some netData => d.joinTx p networkID maxMachines netData

/-- The transaction of `RegisterPeer`. -/
def registerTx (simpleFold : Char → Char) (p : PeerRecord) (networkID : String)
    (maxMachines : Int) : Tx β Addr := do
  let b ← get
  let taken := nameTaken simpleFold (d.readPeers b.peers) networkID p.id p.name
  let name := if p.name ≠ "" ∧ taken then "" else p.name
  d.storeTx { p with endpoint := "", name } networkID maxMachines

/-- The transaction of `TouchPeer` and of `UpdateEndpoint`. -/
def touchTx (now : Int) (peerID : String) : Tx β Unit := do
  match (← get).peers.lookup peerID with
  | none => refuse (.peerNotFound peerID)
  | some data => do
    let peer ← orFail (d.unmarshalPeer data)
    let updated ← orFail (d.marshalPeer { peer with lastSeen := roundToHour (unix now) })
    d.putPeer peerID updated

/-- The network of a removed peer frees its address. A network record that cannot be decoded or
encoded stays as it is. -/
def releaseTx (now : Int) (removed : PeerRecord) : Tx β Unit := do
  let b ← get
  match b.networks.lookup removed.networkID with
  | none => pure ()
  | some netData =>
    match d.unmarshalNetwork netData with
    | .error _ => pure ()
    | .ok net =>
      let used := usedAddrs (d.readPeers b.peers) removed.networkID
      match d.marshalNetwork (Registry.release net used removed.vpnAddr now) with
      | .error _ => pure ()
      | .ok updated => d.putNetwork removed.networkID updated

/-- The transaction of `RemovePeer`. -/
def removeTx (now : Int) (peerID : String) : Tx β PeerRecord := do
  match (← get).peers.lookup peerID with
  | none => refuse (.peerNotFound peerID)
  | some data => do
    let removed ← orFail (d.unmarshalPeer data)
    d.deletePeer peerID
    d.releaseTx now removed
    pure removed

/-- `db.Update`. -/
def update (body : Tx β α) : EStateM DatabaseError (Records β) α :=
  within Records.buckets (fun r b => { r with buckets := b })
    (transact (fun b => fault (d.commitError b)) (do survive d.startError; body))

def setEndpoint (peerID endpoint : String) : EStateM DatabaseError (Records β) Unit :=
  modify fun r => { r with endpoints := r.endpoints.insert peerID endpoint }

def dropEndpoint (peerID : String) : EStateM DatabaseError (Records β) Unit :=
  modify fun r => { r with endpoints := r.endpoints.erase peerID }

/-- `RegisterPeer`. -/
def registerPeer (simpleFold : Char → Char) (p : PeerRecord) (networkID : String)
    (maxMachines : Int) : EStateM DatabaseError (Records β) Addr := do
  let assigned ← d.update (d.registerTx simpleFold p networkID maxMachines)
  setEndpoint p.id p.endpoint
  pure assigned

/-- `TouchPeer`. -/
def touchPeer (now : Int) (peerID : String) : EStateM DatabaseError (Records β) Unit :=
  d.update (d.touchTx now peerID)

/-- `UpdateEndpoint`. -/
def updateEndpoint (now : Int) (peerID endpoint : String) :
    EStateM DatabaseError (Records β) Unit := do
  d.update (d.touchTx now peerID)
  setEndpoint peerID endpoint

/-- `RemovePeer`. -/
def removePeer (now : Int) (peerID : String) :
    EStateM DatabaseError (Records β) PeerRecord := do
  let removed ← d.update (d.removeTx now peerID)
  dropEndpoint peerID
  pure removed

/-- The records that can be decoded. -/
def decoded (r : Records β) : Registry where
  networks := d.readNetworks r.buckets.networks
  peers := d.readPeers r.buckets.peers
  endpoints := r.endpoints

end Bolt

namespace Bolt

variable {α β : Type} (d : Bolt β)

/-- Nothing fails but what the registry checks. -/
structure Reliable : Prop where
  peer : ∀ rec, ∃ text, d.marshalPeer rec = .ok text ∧ d.unmarshalPeer text = .ok rec
  network : ∀ net, ∃ text, d.marshalNetwork net = .ok text ∧ d.unmarshalNetwork text = .ok net
  start : ∀ b, d.startError b = none
  put : ∀ b, d.putError b = none
  delete : ∀ b, d.deleteError b = none
  commit : ∀ b, d.commitError b = none

/-- Every record can be decoded, and the keys of the networks are such as bbolt stores. -/
structure Readable (b : Buckets β) : Prop where
  peer : ∀ k text, b.peers.lookup k = some text → ∃ rec, d.unmarshalPeer text = .ok rec
  network : ∀ k text, b.networks.lookup k = some text → ∃ net, d.unmarshalNetwork text = .ok net
  storable : ∀ k text, b.networks.lookup k = some text → checkKey k = .ok ()

/-- A run on the buckets ends as a call on the records does. -/
def Follows (e : AList fun _ : String => String) (x : EStateM.Result DatabaseError (Buckets β) α) :
    Except RegistryError (Registry × α) → Prop
  | .error err => ∃ b, x = .error (.refused err) b
  | .ok (r, a) => ∃ b, x = .ok a b ∧ d.decoded ⟨b, e⟩ = r ∧ d.Readable b

variable {d} {b : Buckets β} {e : AList fun _ : String => String} {k : String} {text : β}
  {rec : PeerRecord} {net : NetworkRecord}

theorem lookup_peers (h : b.peers.lookup k = some text) (hrec : d.unmarshalPeer text = .ok rec) :
    (d.decoded ⟨b, e⟩).peers.lookup k = some rec := by
  refine (lookup_filterMapValues k).trans ?_
  rw [h, Option.bind_some, hrec]
  rfl

theorem lookup_peers_none (h : b.peers.lookup k = none) :
    (d.decoded ⟨b, e⟩).peers.lookup k = none := by
  refine (lookup_filterMapValues k).trans ?_
  rw [h, Option.bind_none]

theorem lookup_networks (h : b.networks.lookup k = some text)
    (hnet : d.unmarshalNetwork text = .ok net) :
    (d.decoded ⟨b, e⟩).networks.lookup k = some net := by
  refine (lookup_filterMapValues k).trans ?_
  rw [h, Option.bind_some, hnet]
  rfl

theorem lookup_networks_none (h : b.networks.lookup k = none) :
    (d.decoded ⟨b, e⟩).networks.lookup k = none := by
  refine (lookup_filterMapValues k).trans ?_
  rw [h, Option.bind_none]

theorem decoded_putPeer (hrec : d.unmarshalPeer text = .ok rec) :
    d.decoded ⟨{ b with peers := b.peers.insert k text }, e⟩ =
      { d.decoded ⟨b, e⟩ with peers := (d.decoded ⟨b, e⟩).peers.insert k rec } := by
  have hpeers : d.readPeers (b.peers.insert k text) = (d.readPeers b.peers).insert k rec := by
    refine filterMapValues_insert ?_ k
    rw [hrec]
    rfl
  rw [decoded, hpeers]
  rfl

theorem decoded_putNetwork (hnet : d.unmarshalNetwork text = .ok net) :
    d.decoded ⟨{ b with networks := b.networks.insert k text }, e⟩ =
      { d.decoded ⟨b, e⟩ with networks := (d.decoded ⟨b, e⟩).networks.insert k net } := by
  have hnets : d.readNetworks (b.networks.insert k text) =
      (d.readNetworks b.networks).insert k net := by
    refine filterMapValues_insert ?_ k
    rw [hnet]
    rfl
  rw [decoded, hnets]
  rfl

theorem Readable.putPeer (h : d.Readable b) (hrec : d.unmarshalPeer text = .ok rec) (k : String) :
    d.Readable { b with peers := b.peers.insert k text } where
  peer k' text' hl := by
    rcases lookup_insert_eq_some.mp hl with ⟨-, rfl⟩ | ⟨-, hl⟩
    · exact ⟨rec, hrec⟩
    · exact h.peer k' text' hl
  network := h.network
  storable := h.storable

theorem Readable.putNetwork (h : d.Readable b) (hnet : d.unmarshalNetwork text = .ok net)
    (hk : checkKey k = .ok ()) : d.Readable { b with networks := b.networks.insert k text } where
  peer := h.peer
  network k' text' hl := by
    rcases lookup_insert_eq_some.mp hl with ⟨-, rfl⟩ | ⟨-, hl⟩
    · exact ⟨net, hnet⟩
    · exact h.network k' text' hl
  storable k' text' hl := by
    rcases lookup_insert_eq_some.mp hl with ⟨rfl, -⟩ | ⟨-, hl⟩
    · exact hk
    · exact h.storable k' text' hl

theorem Reliable.run_putPeer (hd : d.Reliable) (hk : checkKey k = .ok ()) :
    (d.putPeer k text).run b = .ok () { b with peers := b.peers.insert k text } := by
  simp only [putPeer, hk, survive, hd.put]
  rfl

theorem run_putPeer_refused {err : RegistryError} (hk : checkKey k = .error err) :
    (d.putPeer k text).run b = .error (.refused err) b := by
  simp only [putPeer, hk]
  rfl

theorem Reliable.run_putNetwork (hd : d.Reliable) (hk : checkKey k = .ok ()) :
    (d.putNetwork k text).run b = .ok () { b with networks := b.networks.insert k text } := by
  simp only [putNetwork, hk, survive, hd.put]
  rfl

theorem run_putNetwork_refused {err : RegistryError} (hk : checkKey k = .error err) :
    (d.putNetwork k text).run b = .error (.refused err) b := by
  simp only [putNetwork, hk]
  rfl

section Rules

variable {γ : Type} {f : α → Tx β γ} {g : Unit → Tx β γ} {x y : Except RegistryError (Registry × γ)}
  {err : RegistryError} {z : Unit → Except RegistryError (Registry × γ)}

/-- A check of the texts is the check of the records. -/
theorem follows_require {c : Prop} [Decidable c] {ok : Bool} (hc : ok = !decide c)
    (hx : x = .error err) (hy : ¬c → d.Follows e ((g ()).run b) y) :
    d.Follows e ((require ok err >>= g).run b) (if c then x else y) := by
  by_cases h : c
  · have hrun : (require ok err : Tx β Unit).run b = .error (.refused err) b := by
      rw [hc, decide_eq_true h]
      rfl
    rw [run_bind_of_error hrun, if_pos h, hx]
    exact ⟨b, rfl⟩
  · have hrun : (require ok err : Tx β Unit).run b = .ok () b := by
      rw [hc, decide_eq_false h]
      rfl
    rw [run_bind_of_ok hrun, if_neg h]
    exact hy h

theorem follows_orFail {z : Except String α} {a : α} (hz : z = .ok a)
    (h : d.Follows e ((f a).run b) x) : d.Follows e ((orFail z >>= f).run b) x := by
  have hok : z.mapError DatabaseError.failed = .ok a := mapError_eq_ok.mpr hz
  rw [orFail, run_bind_of_ok (run_ofExcept hok)]
  exact h

theorem Reliable.follows_putPeer (hd : d.Reliable) (h : checkKey k = .ok () →
      d.Follows e ((g ()).run { b with peers := b.peers.insert k text }) (z ())) :
    d.Follows e ((d.putPeer k text >>= g).run b) (checkKey k >>= z) := by
  cases hk : checkKey k with
  | error err =>
    rw [run_bind_of_error (run_putPeer_refused hk)]
    exact ⟨b, rfl⟩
  | ok u =>
    rw [run_bind_of_ok (hd.run_putPeer hk)]
    exact h hk

theorem Reliable.follows_putNetwork (hd : d.Reliable) (h : checkKey k = .ok () →
      d.Follows e ((g ()).run { b with networks := b.networks.insert k text }) (z ())) :
    d.Follows e ((d.putNetwork k text >>= g).run b) (checkKey k >>= z) := by
  cases hk : checkKey k with
  | error err =>
    rw [run_bind_of_error (run_putNetwork_refused hk)]
    exact ⟨b, rfl⟩
  | ok u =>
    rw [run_bind_of_ok (hd.run_putNetwork hk)]
    exact h hk

end Rules

section Transactions

variable {p : PeerRecord} {n : String} {maxMachines : Int}

/-- A stored peer is renewed in the texts as it is in the records. -/
theorem Reliable.follows_renewTx (hd : d.Reliable) (hb : d.Readable b)
    (hl : b.peers.lookup p.id = some text) (hrec : d.unmarshalPeer text = .ok rec) :
    d.Follows e ((d.renewTx p n text).run b) ((d.decoded ⟨b, e⟩).register p n maxMachines) := by
  have hstored := lookup_peers (e := e) hl hrec
  obtain ⟨updated, hmarshal, hunmarshal⟩ := hd.peer (Registry.renewed rec p)
  simp only [renewTx, hrec, Registry.register, hstored]
  refine follows_require (by simp) rfl fun _ => ?_
  refine follows_require (by simp) rfl fun _ => ?_
  refine follows_require (by simp) rfl fun _ => ?_
  refine follows_orFail hmarshal (hd.follows_putPeer fun _ => ?_)
  exact ⟨_, rfl, decoded_putPeer hunmarshal, hb.putPeer hunmarshal p.id⟩

/-- A new peer is admitted in the texts as it is in the records. -/
theorem Reliable.follows_joinTx (hd : d.Reliable) (hb : d.Readable b)
    (hl : b.peers.lookup p.id = none) (hnetwork : b.networks.lookup n = some text)
    (hnet : d.unmarshalNetwork text = .ok net) :
    d.Follows e ((d.joinTx p n maxMachines text).run b)
      ((d.decoded ⟨b, e⟩).register p n maxMachines) := by
  have hnew := lookup_peers_none (d := d) (e := e) hl
  have hstored := lookup_networks (e := e) hnetwork hnet
  simp only [Registry.register, hnew, hstored]
  refine follows_orFail hnet (follows_require decide_not rfl fun _ => ?_)
  have hused : usedAddrs (d.readPeers b.peers) n = usedAddrs (d.decoded ⟨b, e⟩).peers n := rfl
  rw [run_bind_of_ok (EStateM.run_get b), hused]
  dsimp only
  cases allocate net.cidr (usedAddrs (d.decoded ⟨b, e⟩).peers n)
      (migrateAssignedAddrs net (usedAddrs (d.decoded ⟨b, e⟩).peers n)) with
  | none => exact ⟨b, rfl⟩
  | some assigned =>
    obtain ⟨updatedNet, hmarshal, hunmarshal⟩ :=
      hd.network (Registry.occupy net (usedAddrs (d.decoded ⟨b, e⟩).peers n) assigned)
    obtain ⟨data, hmarshal', hunmarshal'⟩ := hd.peer (Registry.joined p n assigned)
    refine follows_orFail hmarshal (hd.follows_putNetwork fun hk => ?_)
    refine follows_orFail hmarshal' (hd.follows_putPeer fun _ => ?_)
    refine ⟨_, rfl, ?_, (hb.putNetwork hunmarshal hk).putPeer hunmarshal' p.id⟩
    rw [decoded_putPeer hunmarshal', decoded_putNetwork hunmarshal]

theorem Reliable.follows_storeTx (hd : d.Reliable) (hb : d.Readable b) :
    d.Follows e ((d.storeTx p n maxMachines).run b)
      ((d.decoded ⟨b, e⟩).register p n maxMachines) := by
  rw [storeTx, run_bind_of_ok (EStateM.run_get b)]
  cases hl : b.peers.lookup p.id with
  | some text =>
    obtain ⟨rec, hrec⟩ := hb.peer p.id text hl
    exact hd.follows_renewTx hb hl hrec
  | none =>
    cases hnetwork : b.networks.lookup n with
    | some text =>
      obtain ⟨net, hnet⟩ := hb.network n text hnetwork
      exact hd.follows_joinTx hb hl hnetwork hnet
    | none =>
      have hnew := lookup_peers_none (d := d) (e := e) hl
      have hgone := lookup_networks_none (d := d) (e := e) hnetwork
      simp only [Registry.register, hnew, hgone]
      exact ⟨b, rfl⟩

theorem Reliable.follows_registerTx (hd : d.Reliable) (hb : d.Readable b)
    (simpleFold : Char → Char) :
    d.Follows e ((d.registerTx simpleFold p n maxMachines).run b)
      ((d.decoded ⟨b, e⟩).register (Registry.settled simpleFold (d.decoded ⟨b, e⟩) p n) n
        maxMachines) := by
  rw [registerTx, run_bind_of_ok (EStateM.run_get b)]
  exact hd.follows_storeTx hb

theorem Reliable.follows_touchTx (hd : d.Reliable) (hb : d.Readable b) (now : Int) (k : String) :
    d.Follows e ((d.touchTx now k).run b)
      ((d.decoded ⟨b, e⟩).touchPeer now k >>= fun r => pure (r, ())) := by
  rw [touchTx, run_bind_of_ok (EStateM.run_get b)]
  cases hl : b.peers.lookup k with
  | none =>
    have hnew := lookup_peers_none (d := d) (e := e) hl
    simp only [Registry.touchPeer, hnew]
    exact ⟨b, rfl⟩
  | some text =>
    obtain ⟨rec, hrec⟩ := hb.peer k text hl
    have hstored := lookup_peers (e := e) hl hrec
    obtain ⟨updated, hmarshal, hunmarshal⟩ :=
      hd.peer { rec with lastSeen := roundToHour (unix now) }
    simp only [Registry.touchPeer, hstored, bind_assoc]
    refine follows_orFail hrec (follows_orFail hmarshal ?_)
    rw [← bind_pure (d.putPeer k updated)]
    refine hd.follows_putPeer fun _ => ?_
    exact ⟨_, rfl, decoded_putPeer hunmarshal, hb.putPeer hunmarshal k⟩

theorem decoded_deletePeer (k : String) :
    d.decoded ⟨{ b with peers := b.peers.erase k }, e⟩ =
      { d.decoded ⟨b, e⟩ with peers := (d.decoded ⟨b, e⟩).peers.erase k } := by
  have hpeers : d.readPeers (b.peers.erase k) = (d.readPeers b.peers).erase k :=
    filterMapValues_erase k
  rw [decoded, hpeers]
  rfl

theorem Readable.deletePeer (h : d.Readable b) (k : String) :
    d.Readable { b with peers := b.peers.erase k } where
  peer k' text' hl := h.peer k' text' (lookup_erase_eq_some.mp hl).2
  network := h.network
  storable := h.storable

theorem Reliable.run_deletePeer (hd : d.Reliable) (k : String) :
    (d.deletePeer k).run b = .ok () { b with peers := b.peers.erase k } := by
  simp only [deletePeer, survive, hd.delete]
  rfl

/-- The networks after a peer was removed. -/
theorem Reliable.run_releaseTx (hd : d.Reliable) (hb : d.Readable b) (now : Int)
    (rec : PeerRecord) : ∃ b', (d.releaseTx now rec).run b = .ok () b' ∧ d.Readable b' ∧
      ∀ e, d.decoded ⟨b', e⟩ = { d.decoded ⟨b, e⟩ with
        networks := match (d.decoded ⟨b, e⟩).networks.lookup rec.networkID with
          | none => (d.decoded ⟨b, e⟩).networks
          | some net => (d.decoded ⟨b, e⟩).networks.insert rec.networkID (Registry.release net
              (usedAddrs (d.decoded ⟨b, e⟩).peers rec.networkID) rec.vpnAddr now) } := by
  rw [releaseTx, run_bind_of_ok (EStateM.run_get b)]
  cases hl : b.networks.lookup rec.networkID with
  | none =>
    refine ⟨b, rfl, hb, fun e => ?_⟩
    simp only [lookup_networks_none (d := d) (e := e) hl]
  | some text =>
    obtain ⟨net, hnet⟩ := hb.network _ text hl
    obtain ⟨updated, hmarshal, hunmarshal⟩ := hd.network
      (Registry.release net (usedAddrs (d.readPeers b.peers) rec.networkID) rec.vpnAddr now)
    have hk := hb.storable _ text hl
    refine ⟨_, ?_, hb.putNetwork hunmarshal hk, fun e => ?_⟩
    · simp only [hnet, hmarshal]
      exact hd.run_putNetwork hk
    · simp only [lookup_networks (e := e) hl hnet]
      exact decoded_putNetwork hunmarshal

/-- A peer is removed from the texts as it is from the records, which lose its endpoint too. -/
theorem Reliable.follows_removeTx (hd : d.Reliable) (hb : d.Readable b) (now : Int) (k : String) :
    d.Follows (e.erase k) ((d.removeTx now k).run b) ((d.decoded ⟨b, e⟩).removePeer now k) := by
  rw [removeTx, run_bind_of_ok (EStateM.run_get b)]
  cases hl : b.peers.lookup k with
  | none =>
    have hnew := lookup_peers_none (d := d) (e := e) hl
    simp only [Registry.removePeer, hnew]
    exact ⟨b, rfl⟩
  | some text =>
    obtain ⟨rec, hrec⟩ := hb.peer k text hl
    have hstored := lookup_peers (e := e) hl hrec
    obtain ⟨b', hrun, hread, hdecoded⟩ := hd.run_releaseTx (hb.deletePeer k) now rec
    simp only [Registry.removePeer, hstored]
    refine follows_orFail hrec ?_
    rw [run_bind_of_ok (hd.run_deletePeer k), run_bind_of_ok hrun]
    refine ⟨b', rfl, ?_, hread⟩
    rw [hdecoded, decoded_deletePeer]
    rfl

end Transactions

section Calls

variable {s : Records β} {body : Tx β α} {a : α}

theorem Reliable.run_start (hd : d.Reliable) : (survive d.startError).run b = .ok () b := by
  simp only [survive, hd.start]
  rfl

theorem Reliable.run_update (hd : d.Reliable) (h : body.run s.buckets = .ok a b) :
    (d.update body).run s = .ok a { s with buckets := b } := by
  refine within_of_ok (transact_of_ok ?_ ?_)
  · rw [run_bind_of_ok hd.run_start]
    exact h
  · rw [hd.commit]
    rfl

theorem Reliable.run_update_error (hd : d.Reliable) {err : DatabaseError}
    (h : body.run s.buckets = .error err b) : (d.update body).run s = .error err s := by
  have hbody : (survive d.startError >>= fun _ => body).run s.buckets = .error err b := by
    rw [run_bind_of_ok hd.run_start]
    exact h
  exact within_of_error (transact_of_error hbody)

variable (d) in
/-- A call on the database ends as one on the records does, and one that fails leaves it. -/
def Agrees (s : Records β) (x : EStateM.Result DatabaseError (Records β) α) :
    Except RegistryError (Registry × α) → Prop
  | .error err => x = .error (.refused err) s
  | .ok (r, a) => ∃ s', x = .ok a s' ∧ d.decoded s' = r ∧ d.Readable s'.buckets

theorem Reliable.agrees_registerPeer (hd : d.Reliable) (hs : d.Readable s.buckets)
    (simpleFold : Char → Char) (p : PeerRecord) (n : String) (maxMachines : Int) :
    d.Agrees s ((d.registerPeer simpleFold p n maxMachines).run s)
      ((d.decoded s).registerPeer simpleFold p n maxMachines) := by
  have h : d.Follows s.endpoints ((d.registerTx simpleFold p n maxMachines).run s.buckets)
      ((d.decoded s).register (Registry.settled simpleFold (d.decoded s) p n) n maxMachines) :=
    hd.follows_registerTx hs simpleFold
  rw [Registry.registerPeer]
  cases hreg : (d.decoded s).register (Registry.settled simpleFold (d.decoded s) p n) n
      maxMachines with
  | error err =>
    rw [hreg] at h
    obtain ⟨b, hrun⟩ := h
    exact run_bind_of_error (hd.run_update_error hrun)
  | ok out =>
    rw [hreg] at h
    obtain ⟨b, hrun, hdecoded, hread⟩ := h
    refine ⟨⟨b, s.endpoints.insert p.id p.endpoint⟩, ?_, ?_, hread⟩
    · rw [registerPeer, run_bind_of_ok (hd.run_update hrun)]
      rfl
    · rw [← hdecoded]
      rfl

theorem Reliable.agrees_touchPeer (hd : d.Reliable) (hs : d.Readable s.buckets) (now : Int)
    (k : String) : d.Agrees s ((d.touchPeer now k).run s)
      ((d.decoded s).touchPeer now k >>= fun r => pure (r, ())) := by
  have h : d.Follows s.endpoints ((d.touchTx now k).run s.buckets)
      ((d.decoded s).touchPeer now k >>= fun r => pure (r, ())) := hd.follows_touchTx hs now k
  cases htouch : (d.decoded s).touchPeer now k with
  | error err =>
    rw [htouch] at h
    obtain ⟨b, hrun⟩ := h
    exact hd.run_update_error hrun
  | ok r =>
    rw [htouch] at h
    obtain ⟨b, hrun, hdecoded, hread⟩ := h
    exact ⟨⟨b, s.endpoints⟩, hd.run_update hrun, hdecoded, hread⟩

theorem Reliable.agrees_updateEndpoint (hd : d.Reliable) (hs : d.Readable s.buckets) (now : Int)
    (k endpoint : String) : d.Agrees s ((d.updateEndpoint now k endpoint).run s)
      ((d.decoded s).updateEndpoint now k endpoint >>= fun r => pure (r, ())) := by
  have h := hd.agrees_touchPeer hs now k
  rw [Registry.updateEndpoint]
  cases htouch : (d.decoded s).touchPeer now k with
  | error err =>
    rw [htouch] at h
    exact run_bind_of_error h
  | ok r =>
    rw [htouch] at h
    obtain ⟨s', hrun, hdecoded, hread⟩ := h
    refine ⟨⟨s'.buckets, s'.endpoints.insert k endpoint⟩, ?_, ?_, hread⟩
    · exact run_bind_of_ok hrun
    · rw [← hdecoded]
      rfl

end Calls

end Bolt

end Veld.Coord
