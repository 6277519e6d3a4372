import Veld.Coord.Requests

/-!
# Isolation of the accounts

A request is authorized by the network it names, or by the network of the peer it
names, and an account owns a network by its record. Whatever a request changes
therefore lies in the networks of its account, and what it reads of other networks
is only that they are not its own. Peers are stored in one namespace, in the order
of their keys, and the peers of one network come in an order of their own.
-/

namespace Veld.Coord

open Netip Crypto

/-- A call of the server, with its clock readings. -/
inductive Request
  | register (t : RegisterTimes) (req : RegisterRequest)
  | listPeers (token networkID : String)
  /-- With the times at which the open stream refreshes its peer. -/
  | watch (now : Int) (req : WatchRequest) (touches : List Int)
  | sendSignal (now : Int) (req : SendSignalRequest)
  | leave (now removedAt : Int) (req : LeaveRequest)
  deriving DecidableEq

def Request.token : Request → String
  | .register _ req => req.token
  | .listPeers token _ => token
  | .watch _ req _ => req.token
  | .sendSignal _ req => req.token
  | .leave _ _ req => req.token

inductive Response
  | registered (out : Registered)
  | peers (peers : List V1Peer)
  /-- The events a `Watch` starts with. -/
  | snapshot (events : List PeerEvent)
  | done
  deriving DecidableEq

/-- A request is served by itself. -/
def Services.serve {δ : Type} [DecidableEq δ] (sv : Services δ) (hexSum : Bytes → String)
    (s : Server δ) : Request → Server δ × Except Status Response
  | .register t req =>
    let (s', result) := sv.register s t req
    (s', result.map .registered)
  | .listPeers token networkID =>
    (s, (sv.listPeersInKeyOrder s.registry token networkID).map .peers)
  | .watch now req touches =>
    let (s', result) := sv.watch s now req
    (if result.isOk && req.peerId ≠ "" then
        { s' with registry := s'.registry.keepLastSeenFresh req.peerId touches }
      else s', result.map .snapshot)
  | .sendSignal now req =>
    let (s', result) := sv.sendSignal hexSum s now req
    (s', result.map fun () => .done)
  | .leave now removedAt req =>
    let (s', result) := sv.leave s now removedAt req
    (s', result.map fun () => .done)

namespace Registry

variable {peerID : String}

/-- The account owns the network. -/
def owns (r : Registry) (accountID networkID : String) : Bool :=
  (r.networks.lookup networkID).any (·.accountID = accountID)

/-- The record under a key, if it is of a network of the account. -/
def ownPeer (r : Registry) (accountID k : String) : Option PeerRecord :=
  (r.peers.lookup k).filter fun rec => r.owns accountID rec.networkID

/-- The record under a key, if it is of another network. -/
def foreignPeer (r : Registry) (accountID k : String) : Option PeerRecord :=
  (r.peers.lookup k).filter fun rec => !r.owns accountID rec.networkID

/-- Two registries differ only in the networks of the account. -/
structure SameElsewhere (accountID : String) (r r' : Registry) : Prop where
  owns : ∀ n, r'.owns accountID n = r.owns accountID n
  networks : ∀ n, r.owns accountID n = false → r'.networks.lookup n = r.networks.lookup n
  peers : ∀ k, r'.foreignPeer accountID k = r.foreignPeer accountID k
  endpoints : ∀ k, (r.foreignPeer accountID k).isSome = true →
    r'.endpoints.lookup k = r.endpoints.lookup k

/-- Two registries agree on the networks of the account, on their peers and on the endpoints of
these. -/
structure AgreeOn (accountID : String) (r r' : Registry) : Prop where
  networks : ∀ n, (r.networks.lookup n).filter (·.accountID = accountID) =
    (r'.networks.lookup n).filter (·.accountID = accountID)
  peers : ∀ k, r.ownPeer accountID k = r'.ownPeer accountID k
  endpoints : ∀ k rec, r.ownPeer accountID k = some rec →
    r.endpoints.lookup rec.id = r'.endpoints.lookup rec.id

variable {r r' r'' : Registry} {A k n : String} {rec : PeerRecord} {net net' : NetworkRecord}

theorem ownPeer_eq_some : r.ownPeer A k = some rec ↔
    r.peers.lookup k = some rec ∧ r.owns A rec.networkID = true := by
  rw [ownPeer, Option.filter_eq_some_iff]

theorem foreignPeer_eq_none (h : r.peers.lookup k = some rec)
    (ho : r.owns A rec.networkID = true) : r.foreignPeer A k = none := by
  rw [foreignPeer, h, Option.filter_some_neg]
  simpa using ho

theorem foreignPeer_of_lookup_none (h : r.peers.lookup k = none) : r.foreignPeer A k = none := by
  rw [foreignPeer, h]
  rfl

theorem owns_of_authorizeNetwork (h : Services.authorizeNetwork r n A = .ok ()) :
    r.owns A n = true := by
  obtain ⟨net, hl, -, ha⟩ := authorizeNetwork_ok_iff.mp h
  rw [owns, hl]
  simpa using ha

/-- An own network gets another record of the account. -/
theorem owns_insert (hn : r.owns A n = true) (ha : net'.accountID = A)
    (h : r'.networks = r.networks.insert n net') (m : String) : r'.owns A m = r.owns A m := by
  by_cases hm : m = n
  · subst hm
    rw [owns, h, AList.lookup_insert, hn]
    simpa using ha
  · rw [owns, h, AList.lookup_insert_ne hm, owns]

namespace SameElsewhere

theorem refl (A : String) (r : Registry) : SameElsewhere A r r :=
  ⟨fun _ => rfl, fun _ _ => rfl, fun _ => rfl, fun _ _ => rfl⟩

theorem trans (h : SameElsewhere A r r') (h' : SameElsewhere A r' r'') :
    SameElsewhere A r r'' where
  owns n := (h'.owns n).trans (h.owns n)
  networks n hn := (h'.networks n ((h.owns n).trans hn)).trans (h.networks n hn)
  peers k := (h'.peers k).trans (h.peers k)
  endpoints k hk := (h'.endpoints k (by rwa [h.peers k])).trans (h.endpoints k hk)

/-- The records under one key and of one own network change. -/
theorem of_change (hn : r.owns A n = true)
    (hnet : r'.networks = r.networks ∨
      ∃ net', net'.accountID = A ∧ r'.networks = r.networks.insert n net')
    (hpeers : ∀ j ≠ k, r'.peers.lookup j = r.peers.lookup j)
    (hbefore : r.foreignPeer A k = none)
    (hafter : ∀ rec, r'.peers.lookup k = some rec → rec.networkID = n)
    (hends : ∀ j ≠ k, r'.endpoints.lookup j = r.endpoints.lookup j) :
    SameElsewhere A r r' := by
  have howns (m : String) : r'.owns A m = r.owns A m := by
    rcases hnet with hnet | ⟨net', ha, hnet⟩
    · rw [Registry.owns, Registry.owns, hnet]
    · exact owns_insert hn ha hnet m
  refine ⟨howns, fun m hm => ?_, fun j => ?_, fun j hj => hends j ?_⟩
  · rcases hnet with hnet | ⟨net', -, hnet⟩
    · rw [hnet]
    · have hne : m ≠ n := by
        rintro rfl
        rw [hn] at hm
        cases hm
      rw [hnet, AList.lookup_insert_ne hne]
  · by_cases hj : j = k
    · subst hj
      rw [hbefore]
      cases hl : r'.peers.lookup j with
      | none => exact foreignPeer_of_lookup_none hl
      | some rec => exact foreignPeer_eq_none hl (by rw [hafter rec hl, howns, hn])
    · rw [foreignPeer, foreignPeer, hpeers j hj]
      simp only [howns]
  · rintro rfl
    rw [hbefore] at hj
    cases hj

end SameElsewhere

/-- A registration in an own network. -/
theorem sameElsewhere_registerPeer {simpleFold : Char → Char} {p : PeerRecord}
    {maxMachines : Int} {a : Addr} (hn : r.owns A n = true)
    (h : r.registerPeer simpleFold p n maxMachines = .ok (r', a)) : SameElsewhere A r r' := by
  obtain ⟨r₁, hr₁, rfl⟩ := registerPeer_ok h
  have hends : ∀ j ≠ p.id, (r.endpoints.insert p.id p.endpoint).lookup j = r.endpoints.lookup j :=
    fun j hj => AList.lookup_insert_ne hj
  rcases register_ok hr₁ with
    ⟨rec, hrec, hnet, -, -, rfl⟩ | ⟨net, hfresh, -, hnet, -, -, rfl⟩
  · have hrec : r.peers.lookup p.id = some rec := hrec
    refine SameElsewhere.of_change hn (.inl rfl) (fun j hj => AList.lookup_insert_ne hj)
      (foreignPeer_eq_none hrec (hnet ▸ hn)) (fun rec' hrec' => ?_) hends
    obtain rfl := Option.mem_unique (AList.lookup_insert _) hrec'
    exact hnet
  · have ha : net.accountID = A := by
      rw [owns, hnet] at hn
      simpa using hn
    refine SameElsewhere.of_change hn (.inr ⟨occupy net (usedAddrs r.peers n) a, ha, rfl⟩)
      (fun j hj => AList.lookup_insert_ne hj) (foreignPeer_of_lookup_none hfresh)
      (fun rec' hrec' => ?_) hends
    obtain rfl := Option.mem_unique (AList.lookup_insert _) hrec'
    rfl

/-- A touch of a peer of an own network. -/
theorem sameElsewhere_touchPeer (now : Int)
    (hl : r.peers.lookup peerID = some rec) (ho : r.owns A rec.networkID = true) :
    SameElsewhere A r ((r.touchPeer now peerID).toOption.getD r) ∧
      ∃ rec', ((r.touchPeer now peerID).toOption.getD r).peers.lookup peerID = some rec' ∧
        rec'.networkID = rec.networkID := by
  cases h : r.touchPeer now peerID with
  | error err => exact ⟨.refl A r, rec, hl, rfl⟩
  | ok r' =>
    obtain ⟨rec', hrec', rfl⟩ := touchPeer_ok h
    obtain rfl := Option.mem_unique hl hrec'
    refine ⟨SameElsewhere.of_change ho (.inl rfl) (fun j hj => AList.lookup_insert_ne hj)
      (foreignPeer_eq_none hl ho) (fun rec' hrec' => ?_) fun _ _ => rfl,
      _, AList.lookup_insert _, rfl⟩
    obtain rfl := Option.mem_unique (AList.lookup_insert _) hrec'
    rfl

/-- The peer stays in its network from touch to touch. -/
theorem sameElsewhere_keepLastSeenFresh (times : List Int)
    (hl : r.peers.lookup peerID = some rec) (ho : r.owns A rec.networkID = true) :
    SameElsewhere A r (r.keepLastSeenFresh peerID times) := by
  induction times generalizing r rec with
  | nil => exact .refl A r
  | cons now times ih =>
    obtain ⟨hsame, rec', hl', hn⟩ := sameElsewhere_touchPeer now hl ho
    exact hsame.trans (ih hl' (by rw [hn, hsame.owns, ho]))

/-- The departure of a peer of an own network. -/
theorem sameElsewhere_removePeer {now : Int} {removed : PeerRecord}
    (hl : r.peers.lookup peerID = some rec) (ho : r.owns A rec.networkID = true)
    (h : r.removePeer now peerID = .ok (r', removed)) : SameElsewhere A r r' := by
  simp only [removePeer, hl] at h
  obtain ⟨rfl, -⟩ := Prod.mk.inj (Except.ok.inj h)
  refine SameElsewhere.of_change ho ?_ (fun j hj => AList.lookup_erase_ne hj)
    (foreignPeer_eq_none hl ho) (fun rec' hrec' => ?_) fun j hj => AList.lookup_erase_ne hj
  · dsimp only
    split
    · exact .inl rfl
    · rename_i net hnet
      have ha : net.accountID = A := by
        rw [owns, hnet] at ho
        simpa using ho
      exact .inr ⟨release net _ _ _, ha, rfl⟩
  · have hnone : (r.peers.erase peerID).lookup peerID = none := AList.lookup_erase _ _
    cases hnone.symm.trans hrec'

namespace AgreeOn

theorem symm (h : AgreeOn A r r') : AgreeOn A r' r where
  networks n := (h.networks n).symm
  peers k := (h.peers k).symm
  endpoints k rec hk := (h.endpoints k rec ((h.peers k).trans hk)).symm

theorem lookup_network (h : AgreeOn A r r') (hl : r.networks.lookup n = some net)
    (ha : net.accountID = A) : r'.networks.lookup n = some net := by
  have hfilter := h.networks n
  rw [hl, Option.filter_some_pos (by simpa using ha)] at hfilter
  exact (Option.filter_eq_some_iff.mp hfilter.symm).1

theorem owns (h : AgreeOn A r r') (ho : r.owns A n = true) : r'.owns A n = true := by
  obtain ⟨net, hl, ha⟩ := (Option.any_eq_true _ _).mp ho
  rw [Registry.owns, h.lookup_network hl (by simpa using ha)]
  exact ha

theorem lookup_peer (h : AgreeOn A r r') (hl : r.peers.lookup k = some rec)
    (ho : r.owns A rec.networkID = true) : r'.peers.lookup k = some rec := by
  have hown : r'.ownPeer A k = some rec := (h.peers k).symm.trans (ownPeer_eq_some.mpr ⟨hl, ho⟩)
  exact (ownPeer_eq_some.mp hown).1

theorem authorizeNetwork_ok (h : AgreeOn A r r')
    (hok : Services.authorizeNetwork r n A = .ok ()) :
    Services.authorizeNetwork r' n A = .ok () := by
  obtain ⟨net, hl, hv, ha⟩ := authorizeNetwork_ok_iff.mp hok
  exact authorizeNetwork_ok_iff.mpr ⟨net, h.lookup_network hl ha, hv, ha⟩

/-- A network of another account looks like one that does not exist. -/
theorem authorizeNetwork_eq (h : AgreeOn A r r') (n : String) :
    Services.authorizeNetwork r n A = Services.authorizeNetwork r' n A := by
  cases hr : Services.authorizeNetwork r n A with
  | ok u => exact (h.authorizeNetwork_ok hr).symm
  | error err =>
    cases hr' : Services.authorizeNetwork r' n A with
    | ok u =>
      rw [h.symm.authorizeNetwork_ok hr'] at hr
      cases hr
    | error err' => rw [authorizeNetwork_error hr, authorizeNetwork_error hr']

theorem authorizePeer_ok {peerID : String} (h : AgreeOn A r r')
    (hok : Services.authorizePeer r peerID n A = .ok rec) :
    Services.authorizePeer r' peerID n A = .ok rec := by
  obtain ⟨hl, hn, hauth⟩ := authorizePeer_ok_iff.mp hok
  exact authorizePeer_ok_iff.mpr
    ⟨h.lookup_peer hl (owns_of_authorizeNetwork hauth), hn, h.authorizeNetwork_ok hauth⟩

/-- A peer of another account looks like one that does not exist. -/
theorem authorizePeer_eq (h : AgreeOn A r r') (peerID n : String) :
    Services.authorizePeer r peerID n A = Services.authorizePeer r' peerID n A := by
  cases hr : Services.authorizePeer r peerID n A with
  | ok rec => exact (h.authorizePeer_ok hr).symm
  | error err =>
    cases hr' : Services.authorizePeer r' peerID n A with
    | ok rec =>
      rw [h.symm.authorizePeer_ok hr'] at hr
      cases hr
    | error err' => rw [authorizePeer_error hr, authorizePeer_error hr']

/-- An own network is listed without regard to the other peers in the bucket. -/
theorem listInKeyOrder_eq (h : AgreeOn A r r') (ho : r.owns A n = true) :
    r.listInKeyOrder n = r'.listInKeyOrder n := by
  have hmem {r r' : Registry} (h : AgreeOn A r r') (ho : r.owns A n = true)
      (e : Σ _ : String, PeerRecord) (hn : e.2.networkID = n) (he : e ∈ r.peers.entries) :
      e ∈ r'.peers.entries :=
    AList.mem_lookup_iff.mp (h.lookup_peer (AList.mem_lookup_iff.mpr he) (hn ▸ ho))
  have hsame : (sortedEntries r.peers).filter (fun e => e.2.networkID = n) =
      (sortedEntries r'.peers).filter (fun e => e.2.networkID = n) := by
    refine filter_sortedEntries_congr fun e hn => ?_
    have hn : e.2.networkID = n := by simpa using hn
    exact ⟨hmem h ho e hn, hmem h.symm (h.owns ho) e hn⟩
  have hrecords : r.inKeyOrder.filter (·.networkID = n) =
      r'.inKeyOrder.filter (·.networkID = n) := by
    simp only [inKeyOrder, List.filter_map]
    exact congrArg _ hsame
  rw [listInKeyOrder, listInKeyOrder, ← hrecords]
  refine List.map_congr_left fun rec hrec => ?_
  obtain ⟨hin, hn⟩ := List.mem_filter.mp hrec
  obtain ⟨e, he, rfl⟩ := List.mem_map.mp hin
  have hlookup : r.peers.lookup e.1 = some e.2 :=
    AList.mem_lookup_iff.mpr (List.mem_insertionSort _ |>.mp he)
  have hown : r.owns A e.2.networkID = true := by
    rw [of_decide_eq_true hn, ho]
  rw [h.endpoints e.1 e.2 (ownPeer_eq_some.mpr ⟨hlookup, hown⟩)]

end AgreeOn

end Registry

namespace Services

open Registry

variable {δ : Type} [DecidableEq δ] {sv : Services δ} {s s' : Server δ} {A : String}

omit [DecidableEq δ] in
theorem authenticate_ok {r : Registry} {checkedAt : Int} {req : RegisterRequest} {peerID : String}
    (h : sv.authenticate r checkedAt req = .ok peerID) (hA : sv.resolve req.token = some A) :
    authorizeNetwork r req.networkId A = .ok () := by
  simp only [authenticate, hA] at h
  cases hauth : authorizeNetwork r req.networkId A with
  | ok u => rfl
  | error err =>
    rw [hauth] at h
    cases h

/-- A registration leaves the registry, or it registers a peer in a network of the account. -/
theorem registry_register (s : Server δ) (t : RegisterTimes) (req : RegisterRequest)
    (hA : sv.resolve req.token = some A) :
    (sv.register s t req).1.registry = s.registry ∨
      ∃ p a, authorizeNetwork s.registry req.networkId A = .ok () ∧
        s.registry.registerPeer sv.simpleFold p req.networkId (sv.machineLimitFor req.networkId) =
          .ok ((sv.register s t req).1.registry, a) := by
  unfold register
  split
  · exact .inl rfl
  · rename_i peerID hauth
    dsimp only
    split
    · exact .inl rfl
    · split
      · exact .inl rfl
      · split
        · exact .inl rfl
        · rename_i hreg
          exact .inr ⟨_, _, authenticate_ok hauth hA, hreg⟩

theorem registry_watch (s : Server δ) (now : Int) (req : WatchRequest) :
    (sv.watch s now req).1.registry = s.registry := by
  unfold watch
  dsimp only
  split
  · rfl
  · split
    · rfl
    · split <;> rfl

/-- A stream that opens for a peer was authorized. -/
theorem authorizePeer_of_watch {now : Int} {req : WatchRequest}
    (hA : sv.resolve req.token = some A) (hname : req.peerId ≠ "")
    (hok : (sv.watch s now req).2.isOk = true) :
    ∃ rec, authorizePeer s.registry req.peerId req.networkId A = .ok rec := by
  have henter : sv.enterWatch s.registry req =
      (authorizeNetwork s.registry req.networkId A).map fun () => A := by
    simp only [enterWatch, hA]
    cases authorizeNetwork s.registry req.networkId A <;> rfl
  unfold watch at hok
  rw [henter] at hok
  cases hnet : authorizeNetwork s.registry req.networkId A with
  | error err =>
    rw [hnet] at hok
    cases hok
  | ok u =>
    simp only [hnet, Except.map, if_neg hname] at hok
    cases hpeer : authorizePeer s.registry req.peerId req.networkId A with
    | error err =>
      rw [hpeer] at hok
      cases hok
    | ok rec => exact ⟨rec, rfl⟩

theorem registry_sendSignal (hexSum : Bytes → String) (s : Server δ) (now : Int)
    (req : SendSignalRequest) : (sv.sendSignal hexSum s now req).1.registry = s.registry := by
  unfold sendSignal
  split
  · rfl
  · split
    · rfl
    · split <;> rfl

/-- A departure leaves the registry, or it removes a peer of the account. -/
theorem registry_leave (s : Server δ) (now removedAt : Int) (req : LeaveRequest)
    (hA : sv.resolve req.token = some A) :
    (sv.leave s now removedAt req).1.registry = s.registry ∨
      ∃ rec removed, authorizePeer s.registry req.peerId "" A = .ok rec ∧
        s.registry.removePeer removedAt req.peerId =
          .ok ((sv.leave s now removedAt req).1.registry, removed) := by
  unfold leave
  rw [hA]
  dsimp only
  split
  · exact .inl rfl
  · rename_i rec hauth
    split
    · exact .inl rfl
    · split
      · exact .inl rfl
      · rename_i hremove
        exact .inr ⟨rec, _, hauth, hremove⟩

/-- A request changes only networks of its account. -/
theorem sameElsewhere_serve (hexSum : Bytes → String) (s : Server δ) (req : Request)
    (hA : sv.resolve req.token = some A) :
    SameElsewhere A s.registry (sv.serve hexSum s req).1.registry := by
  cases req with
  | register t req =>
    show SameElsewhere A s.registry (sv.register s t req).1.registry
    rcases registry_register s t req hA with heq | ⟨p, a, hauth, hreg⟩
    · rw [heq]
      exact .refl A _
    · exact sameElsewhere_registerPeer (owns_of_authorizeNetwork hauth) hreg
  | listPeers token networkID => exact .refl A _
  | watch now req touches =>
    simp only [serve]
    split
    · rename_i hopen
      obtain ⟨hok, hname⟩ := Bool.and_eq_true_iff.mp hopen
      obtain ⟨rec, hrec⟩ := authorizePeer_of_watch hA (of_decide_eq_true hname) hok
      obtain ⟨hl, -, hauth⟩ := authorizePeer_ok_iff.mp hrec
      dsimp only
      rw [registry_watch]
      exact sameElsewhere_keepLastSeenFresh touches hl (owns_of_authorizeNetwork hauth)
    · rw [registry_watch]
      exact .refl A _
  | sendSignal now req =>
    show SameElsewhere A s.registry (sv.sendSignal hexSum s now req).1.registry
    rw [registry_sendSignal]
    exact .refl A _
  | leave now removedAt req =>
    show SameElsewhere A s.registry (sv.leave s now removedAt req).1.registry
    rcases registry_leave s now removedAt req hA with heq | ⟨rec, removed, hrec, hremove⟩
    · rw [heq]
      exact .refl A _
    · obtain ⟨hl, -, hauth⟩ := authorizePeer_ok_iff.mp hrec
      exact sameElsewhere_removePeer hl (owns_of_authorizeNetwork hauth) hremove

section Agreement

variable (h : AgreeOn A s.registry s'.registry) (hseen : s.seen = s'.seen)

omit [DecidableEq δ] in
include h in
theorem listPeersInKeyOrder_eq {token : String} (hA : sv.resolve token = some A) (n : String) :
    sv.listPeersInKeyOrder s.registry token n = sv.listPeersInKeyOrder s'.registry token n := by
  simp only [listPeersInKeyOrder, hA]
  rw [← h.authorizeNetwork_eq n]
  cases hauth : authorizeNetwork s.registry n A with
  | error err => rfl
  | ok u => rw [h.listInKeyOrder_eq (owns_of_authorizeNetwork hauth)]

include h hseen in
theorem watch_eq {req : WatchRequest} (hA : sv.resolve req.token = some A) (now : Int) :
    (sv.watch s now req).2 = (sv.watch s' now req).2 := by
  simp only [watch, enterWatch, hA]
  rw [← h.authorizeNetwork_eq req.networkId]
  cases hauth : authorizeNetwork s.registry req.networkId A with
  | error err => rfl
  | ok u =>
    rw [← h.listInKeyOrder_eq (owns_of_authorizeNetwork hauth), ← hseen]
    simp only [pure, bind, Except.pure, Except.bind, ← h.authorizePeer_eq]
    split
    · rfl
    · cases authorizePeer s.registry req.peerId req.networkId A <;> rfl

include h hseen in
theorem sendSignal_eq {req : SendSignalRequest} (hA : sv.resolve req.token = some A)
    (hexSum : Bytes → String) (now : Int) :
    (sv.sendSignal hexSum s now req).2 = (sv.sendSignal hexSum s' now req).2 := by
  simp only [sendSignal, hA, ← h.authorizePeer_eq, ← hseen]
  split
  · rfl
  · cases authorizePeer s.registry req.fromPeerId "" A <;> rfl

include h hseen in
/-- The peer was found, so its removal does not fail. -/
theorem leave_eq {req : LeaveRequest} (hA : sv.resolve req.token = some A) (now removedAt : Int) :
    (sv.leave s now removedAt req).2 = (sv.leave s' now removedAt req).2 := by
  simp only [leave, hA, ← h.authorizePeer_eq, ← hseen]
  cases hauth : authorizePeer s.registry req.peerId "" A with
  | error err => rfl
  | ok rec =>
    obtain ⟨hl, -, -⟩ := authorizePeer_ok_iff.mp hauth
    obtain ⟨hl', -, -⟩ := authorizePeer_ok_iff.mp (h.authorizePeer_ok hauth)
    dsimp only
    split
    · rfl
    · simp only [removePeer, hl, hl']

end Agreement

/-- A request changes only records and endpoints of the networks of its account, and one that is
not a registration answers the same in any two states that agree on these and on the used
signatures. -/
theorem accounts_isolated (hexSum : Bytes → String) {req : Request}
    (hA : sv.resolve req.token = some A) :
    (∀ s : Server δ, SameElsewhere A s.registry (sv.serve hexSum s req).1.registry) ∧
    ((∀ t r, req ≠ .register t r) → ∀ s s' : Server δ, AgreeOn A s.registry s'.registry →
      s.seen = s'.seen → (sv.serve hexSum s req).2 = (sv.serve hexSum s' req).2) := by
  refine ⟨fun s => sameElsewhere_serve hexSum s req hA, fun hreg s s' h hseen => ?_⟩
  cases req with
  | register t r => exact absurd rfl (hreg t r)
  | listPeers token n => exact congrArg (Except.map Response.peers) (listPeersInKeyOrder_eq h hA n)
  | watch now req touches => exact congrArg (Except.map Response.snapshot) (watch_eq h hseen hA now)
  | sendSignal now req => exact congrArg (Except.map _) (sendSignal_eq h hseen hA hexSum now)
  | leave now removedAt req =>
    exact congrArg (Except.map _) (leave_eq h hseen hA now removedAt)

end Services

namespace Sample

/-- The network and the peer of another account. -/
def neighbour : Server Bytes :=
  let net := Registry.newNetwork second "other" cidr "office" "neighbour"
  let rec' : PeerRecord := { id := "peer3", networkID := "other", ed25519Public := "key3" }
  { joined with
    registry.networks := joined.registry.networks.insert "other" net
    registry.peers := joined.registry.peers.insert "peer3" rec' }

theorem agreeOn_neighbour : Registry.AgreeOn "account" joined.registry neighbour.registry := by
  have hnets : joined.registry.networks.lookup "other" = none := by decide +kernel
  have hpeers : joined.registry.peers.lookup "peer3" = none := by decide +kernel
  have howns : ∀ n, neighbour.registry.owns "account" n = joined.registry.owns "account" n := by
    intro n
    by_cases hn : n = "other"
    · subst hn
      decide +kernel
    · rw [Registry.owns, Registry.owns]
      exact congrArg _ (AList.lookup_insert_ne hn)
  refine ⟨fun n => ?_, fun k => ?_, fun _ _ _ => rfl⟩
  · by_cases hn : n = "other"
    · subst hn
      rw [hnets]
      decide +kernel
    · exact congrArg _ (AList.lookup_insert_ne hn).symm
  · by_cases hk : k = "peer3"
    · subst hk
      rw [Registry.ownPeer, hpeers]
      decide +kernel
    · have hlookup : neighbour.registry.peers.lookup k = joined.registry.peers.lookup k :=
        AList.lookup_insert_ne hk
      simp only [Registry.ownPeer, howns, hlookup]

end Sample

/-- A signal to the peer of another account is answered like one to a peer that does not exist. -/
theorem Services.accounts_isolated_neighbour :
    let req : Request := .sendSignal 0 ⟨"token", "peer1", "peer3", [], 0, [1]⟩
    let hexSum : Bytes → String := fun _ => ""
    (Sample.services.serve hexSum Sample.joined req).2 = .error errPeerNotFound ∧
      (Sample.services.serve hexSum Sample.neighbour req).2 = .error errPeerNotFound := by
  intro req hexSum
  have hjoined : (Sample.services.serve hexSum Sample.joined req).2 = .error errPeerNotFound := by
    decide +kernel
  have hA : Sample.services.resolve req.token = some "account" := rfl
  refine ⟨hjoined, Eq.trans ?_ hjoined⟩
  exact ((accounts_isolated hexSum hA).2 nofun
    Sample.joined Sample.neighbour Sample.agreeOn_neighbour rfl).symm

end Veld.Coord
