import Mathlib.Data.String.Basic
import Veld.Coord.Server

/-!
# The requests of an account

`authorizePeer` and `verifyCall` of `coord/server/server.go` with the calls that go
through them: the opening of `Watch`, `SendSignal` and `Leave`. A request runs
here by itself. The bus, the audit log and the lifecycle hooks do not decide what a
request answers and are left out.
-/

namespace Veld.Coord

open Netip Crypto

structure WatchRequest where
  networkId : String
  token : String
  peerId : String
  timestampUnix : Int
  signature : Bytes
  deriving DecidableEq

structure SendSignalRequest where
  token : String
  fromPeerId : String
  toPeerId : String
  payload : Bytes
  timestampUnix : Int
  signature : Bytes
  deriving DecidableEq

structure LeaveRequest where
  token : String
  peerId : String
  timestampUnix : Int
  signature : Bytes
  deriving DecidableEq

def maxSignalPayload : Nat := 65536

def errInvalidToken : Status := ⟨.unauthenticated, "invalid token"⟩

def errCallAuth : Status := ⟨.unauthenticated, "call signature verification failed"⟩

def errPeerNotFound : Status := ⟨.notFound, "peer not found"⟩

namespace Registry

variable (r : Registry)

/-- The stored records in the order of their keys, in which a bucket is iterated. -/
def inKeyOrder : List PeerRecord :=
  (sortedEntries r.peers).map Sigma.snd

/-- `ListPeers`, in the order of the keys. -/
def listInKeyOrder (networkID : String) : List PeerRecord :=
  r.applyEndpoints (r.inKeyOrder.filter (·.networkID = networkID))

/-- The touches of `keepLastSeenFresh`, at these times. -/
def keepLastSeenFresh (peerID : String) (times : List Int) : Registry :=
  times.foldl (fun r now => (r.touchPeer now peerID).toOption.getD r) r

end Registry

namespace Services

variable {δ : Type} [DecidableEq δ] (sv : Services δ)

/-- The peer is stored, in the named network if there is one, and the account owns its network. -/
def authorizePeer (r : Registry) (peerID networkID accountID : String) :
    Except Status PeerRecord :=
  match r.peers.lookup peerID with
  | none => .error errPeerNotFound
  | some rec =>
    if networkID ≠ "" ∧ rec.networkID ≠ networkID then .error errPeerNotFound
    else match authorizeNetwork r rec.networkID accountID with
    | .error _ => .error errPeerNotFound
    | .ok () => .ok rec

/-- The signature is over the claims by the key of the record, fresh and not used before. -/
def verifyCall (seen : SeenSignatures δ) (now : Int) (rec : PeerRecord) (sig : Bytes)
    (claims : CallClaims) : SeenSignatures δ × Except Status Unit :=
  match sv.decodeString rec.ed25519Public with
  | none => (seen, .error errCallAuth)
  | some pub =>
    if pub.length ≠ 32 then (seen, .error errCallAuth)
    else match verifyCallSignature sv.verify pub sig claims (unix now) with
    | .error _ => (seen, .error errCallAuth)
    | .ok () =>
      let (seen, first) := seen.firstUse (sv.sha256 sig) now
      (seen, if first then .ok () else .error errCallAuth)

/-- `ListPeers`, with the peers in the order of their keys. -/
def listPeersInKeyOrder (r : Registry) (token networkID : String) :
    Except Status (List V1Peer) := do
  let some accountID := sv.resolve token | throw errInvalidToken
  authorizeNetwork r networkID accountID
  pure ((r.listInKeyOrder networkID).map PeerRecord.toV1)

/-- The token and the network of a `Watch` are checked; the result is the account. -/
def enterWatch (r : Registry) (req : WatchRequest) : Except Status String := do
  let some accountID := sv.resolve req.token | throw errInvalidToken
  authorizeNetwork r req.networkId accountID
  pure accountID

/-- `Watch` up to its snapshot. -/
def watch (s : Server δ) (now : Int) (req : WatchRequest) :
    Server δ × Except Status (List PeerEvent) :=
  let snapshot := snapshotEvents req.peerId (s.registry.listInKeyOrder req.networkId)
  match sv.enterWatch s.registry req with
  | .error err => (s, .error err)
  | .ok accountID =>
    if req.peerId = "" then (s, .ok snapshot)
    else match authorizePeer s.registry req.peerId req.networkId accountID with
    | .error err => (s, .error err)
    | .ok rec =>
      let (seen, verified) := sv.verifyCall s.seen now rec req.signature
        (watchClaims req.peerId req.networkId req.timestampUnix)
      ({ s with seen }, verified.map fun () => snapshot)

/-- `SendSignal` up to the bus. -/
def sendSignal (hexSum : Bytes → String) (s : Server δ) (now : Int) (req : SendSignalRequest) :
    Server δ × Except Status Unit :=
  match sv.resolve req.token with
  | none => (s, .error errInvalidToken)
  | some accountID =>
    if req.payload.length > maxSignalPayload then
      (s, .error ⟨.invalidArgument, "signal payload exceeds 65536 bytes"⟩)
    else match authorizePeer s.registry req.fromPeerId "" accountID with
    | .error err => (s, .error err)
    | .ok sender =>
      let (seen, verified) := sv.verifyCall s.seen now sender req.signature
        (sendSignalClaims hexSum req.fromPeerId req.toPeerId req.payload req.timestampUnix)
      ({ s with seen }, do
        verified
        let recipient ← authorizePeer s.registry req.toPeerId "" accountID
        if sender.networkID ≠ recipient.networkID then throw errPeerNotFound)

/-- `Leave`; the registry reads the clock again. -/
def leave (s : Server δ) (now removedAt : Int) (req : LeaveRequest) :
    Server δ × Except Status Unit :=
  match sv.resolve req.token with
  | none => (s, .error errInvalidToken)
  | some accountID =>
    match authorizePeer s.registry req.peerId "" accountID with
    | .error err => (s, .error err)
    | .ok rec =>
      match sv.verifyCall s.seen now rec req.signature
        (leaveClaims req.peerId req.timestampUnix) with
      | (seen, .error err) => ({ s with seen }, .error err)
      | (seen, .ok ()) =>
        match s.registry.removePeer removedAt req.peerId with
        | .error _ => ({ s with seen }, .error errPeerNotFound)
        | .ok (registry, _) => (⟨registry, seen⟩, .ok ())

end Services

section Authorization

variable {δ : Type} {r : Registry} {peerID networkID accountID : String} {rec : PeerRecord}

open Services

theorem authorizeNetwork_ok_iff : authorizeNetwork r networkID accountID = .ok () ↔
    ∃ net, r.networks.lookup networkID = some net ∧ net.cidr.isValid = true ∧
      net.accountID = accountID := by
  unfold authorizeNetwork Registry.getNetwork
  cases r.networks.lookup networkID with
  | none => simp
  | some net => by_cases hv : net.cidr.isValid = true <;> simp [Option.filter, hv]

/-- The only error is that there is no such network. -/
theorem authorizeNetwork_error {err : Status}
    (h : authorizeNetwork r networkID accountID = .error err) : err = errNetworkNotFound := by
  unfold authorizeNetwork at h
  split at h
  · exact (Except.error.inj h).symm
  · split at h
    · exact (Except.error.inj h).symm
    · cases h

theorem authorizePeer_ok_iff : authorizePeer r peerID networkID accountID = .ok rec ↔
    r.peers.lookup peerID = some rec ∧ (networkID = "" ∨ rec.networkID = networkID) ∧
      authorizeNetwork r rec.networkID accountID = .ok () := by
  unfold authorizePeer
  cases r.peers.lookup peerID with
  | none => simp
  | some rec' =>
    by_cases hn : networkID ≠ "" ∧ rec'.networkID ≠ networkID
    · simp only [if_pos hn, Option.some.injEq]
      refine iff_of_false nofun ?_
      rintro ⟨rfl, hor, -⟩
      exact hor.elim hn.1 hn.2
    · have hor : networkID = "" ∨ rec'.networkID = networkID := by
        by_contra hcon
        exact hn (not_or.mp hcon)
      simp only [if_neg hn, Option.some.injEq]
      cases hauth : authorizeNetwork r rec'.networkID accountID with
      | error err =>
        refine iff_of_false nofun ?_
        rintro ⟨rfl, -, hok⟩
        rw [hauth] at hok
        cases hok
      | ok u =>
        constructor
        · intro hrec
          obtain rfl := Except.ok.inj hrec
          exact ⟨rfl, hor, hauth⟩
        · rintro ⟨rfl, -, -⟩
          rfl

/-- The only error is that there is no such peer. -/
theorem authorizePeer_error {err : Status}
    (h : authorizePeer r peerID networkID accountID = .error err) : err = errPeerNotFound := by
  unfold authorizePeer at h
  split at h
  · exact (Except.error.inj h).symm
  · split at h
    · exact (Except.error.inj h).symm
    · split at h
      · exact (Except.error.inj h).symm
      · cases h

end Authorization

end Veld.Coord
