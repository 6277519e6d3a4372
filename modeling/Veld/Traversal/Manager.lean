import Mathlib.Data.List.AList
import Veld.Core.Assoc
import Veld.Core.Hex
import Veld.Core.Run
import Veld.Traversal.Signal

/-!
# Hole punching

The manager of `internal/nat/manager.go`. `Start` and `DeliverSignal` release the lock
before they authenticate an envelope, and a `negotiate` goroutine runs beside them, so
the parts between two accesses to what they share are steps of their own, which
interleave in any order. A session is a place in memory that outlives its entry in the
map of sessions; the places are numbered in the order `Start` creates them. Contexts
may be done at any time. The local candidates, the random nonces, the readings of the
clock, the answers of the peer table and the order of the map of sessions come with the
steps. Cryptography and the encodings of texts are parameters.
-/

namespace Veld.Traversal

open Netip Peer

/-- `probeTimeout`. -/
def probeTimeout : Int := 10 * second

/-- `signalResendWindow`. -/
def signalResendWindow : Int := probeTimeout

/-- `answerTTL`. -/
def answerTTL : Int := probeTimeout + signalResendWindow

/-- `probeFlag`. -/
def probeFlag : Nat := 0

/-- `replyFlag`. -/
def replyFlag : Nat := 1

/-- `maxCandidates`. -/
def maxCandidates : Nat := 16

/-- `pendingMax`. -/
def pendingMax : Nat := 256

/-- The capacity of the channel `signalIn`. -/
def signalInCap : Nat := 4

/-- `natSignalMsg`. -/
structure NatSignalMsg where
  probeNonce : String
  candidates : List String
  deriving DecidableEq, Repr

/-- A node: its identity, what it computes with, and whether the callbacks are set. -/
structure Node where
  localPeerID : PeerID
  /-- `ed25519.Verify`. -/
  verify : Bytes → Bytes → Bytes → Bool
  /-- `ed25519.Sign` with the node's private key. -/
  sign : Bytes → Bytes
  /-- `encryptSignal`, with its random bytes. -/
  encryptSignal : Bytes → BitVec 256 → Bytes → Option Bytes
  /-- `decryptSignal` with the node's private key. -/
  decryptSignal : Bytes → Option Bytes
  /-- `json.Marshal`. -/
  marshal : NatSignalMsg → Option Bytes
  /-- `json.Unmarshal`. -/
  unmarshal : Bytes → Option NatSignalMsg
  /-- `netip.AddrPort.String`. -/
  addrPortString : AddrPort → String
  /-- `netip.ParseAddrPort`. -/
  parseAddrPort : String → Option AddrPort
  sha256 : Bytes → Bytes
  /-- `OnEndpointDiscovered` is set. -/
  onEndpointDiscovered : Bool
  /-- `OnPunchTimeout` is set. -/
  onPunchTimeout : Bool

/-- The number a `[8]byte` array spells. -/
def nonceOf (b : Bytes) : BitVec 64 := BitVec.ofNat 64 b.beNat

/-- `buildProbe`. -/
def buildProbe (flags : Nat) (nonce : BitVec 64) : Bytes :=
  Bytes.ofNatBE 4 0x05 ++ Bytes.ofNatBE 4 flags ++ Bytes.ofNatBE 8 nonce.toNat

/-- The flags of a probe packet. -/
def flagsOf (pkt : Bytes) : Nat := Bytes.beNat ((pkt.drop 4).take 4)

/-- The nonce or tag of a probe packet. -/
def tagOf (pkt : Bytes) : BitVec 64 := nonceOf ((pkt.drop 8).take 8)

/-- An endpoint with its address unmapped. -/
def unmapped (ep : AddrPort) : AddrPort := ⟨ep.addr.unmap, ep.port⟩

/-- `addrToAddrPort` of a UDP address. -/
def addrToAddrPort (a : AddrPort) : Option AddrPort :=
  if (unmapped a).isValid then some (unmapped a) else none

/-- `hexToNatID`. -/
def hexToNatID (s : String) : Option PeerID :=
  (Hex.decodeString s).bind fun b =>
    if b.length = 32 then some (BitVec.ofNat 256 b.beNat) else none

/-- An endpoint that may be probed: it has a port, and its address is not unspecified, multicast or
the broadcast address. -/
def Usable (ep : AddrPort) : Prop :=
  ep.port ≠ 0 ∧ ep.addr.isUnspecified = false ∧ ep.addr.isMulticast = false ∧
    ep.addr ≠ .v4 0xffffffff

instance (ep : AddrPort) : Decidable (Usable ep) := inferInstanceAs (Decidable (_ ∧ _))

/-- The loop of `usableCandidates`, with the candidates it has kept. -/
def keepUsable (parse : String → Option AddrPort) (out : List AddrPort) :
    List String → List AddrPort
  | [] => out
  | s :: list =>
    match parse s with
    | none => keepUsable parse out list
    | some ep =>
      if ¬Usable (unmapped ep) ∨ unmapped ep ∈ out then keepUsable parse out list
      else if (out ++ [unmapped ep]).length = maxCandidates then out ++ [unmapped ep]
      else keepUsable parse (out ++ [unmapped ep]) list

/-- `usableCandidates`. -/
def usableCandidates (parse : String → Option AddrPort) (list : List String) : List AddrPort :=
  keepUsable parse [] list

namespace Node

variable (nd : Node)

/-- `replyTag`. -/
def replyTag (probed responder : BitVec 64) : BitVec 64 :=
  nonceOf ((nd.sha256 ("veld-nat-reply-v1\x00".toUTF8.data.toList ++
    Bytes.ofNatBE 8 probed.toNat ++ Bytes.ofNatBE 8 responder.toNat)).take 8)

/-- `authenticateSignal`, with the ID of the entry `LookupByID` finds. -/
def authenticateSignal (entry : Option PeerID) (senderID : PeerID) (envelope : Bytes)
    (nowSec : BitVec 64) : Option Bytes :=
  match entry with
  | none => none
  | some id =>
    match openSignal nd.verify envelope senderID nd.localPeerID (keyBytes id) nowSec with
    | .error _ => none
    | .ok enc => nd.decryptSignal enc

/-- The probe nonce of a signal, if it is the text of eight bytes. -/
def peerNonceOf (msg : NatSignalMsg) : Option (BitVec 64) :=
  (Hex.decodeString msg.probeNonce).bind fun b => if b.length = 8 then some (nonceOf b) else none

/-- What `negotiate` reads from a signal: the peer's nonce and the candidates it will probe. -/
def readSignal (plain : Bytes) : Option (BitVec 64 × List AddrPort) := do
  let msg ← nd.unmarshal plain
  let peerNonce ← peerNonceOf msg
  let remotes := usableCandidates nd.parseAddrPort msg.candidates
  if remotes = [] then none else some (peerNonce, remotes)

/-- The sealed signal of a node for a peer. -/
def ownSignal (peerID : PeerID) (peerX25519 : BitVec 256) (probeNonce : BitVec 64)
    (candidates : List AddrPort) (random : Bytes) (nowSec : BitVec 64) : Option Bytes := do
  let jsonPayload ← nd.marshal
    ⟨Hex.encodeToString (Bytes.ofNatBE 8 probeNonce.toNat), candidates.map nd.addrPortString⟩
  let enc ← nd.encryptSignal jsonPayload peerX25519 random
  some (sealSignal nd.sign enc nd.localPeerID peerID nowSec)

end Node

/-- A `*natSession`. -/
abbrev SessionRef := Nat

/-- Where `Start` and then `negotiate` stand with a session. -/
inductive Phase
  /-- `Start` has released the lock, with the envelope that was held for the peer. -/
  | starting (buffered : Option Bytes)
  | gathering
  /-- Waits for the peer's signal. -/
  | waiting
  /-- Has read the peer's signal. -/
  | received (peerNonce : BitVec 64) (remotes : List AddrPort)
  | probing
  /-- Has returned, before the deferred function. -/
  | returned
  | ended
  deriving DecidableEq, Repr

/-- `natSession`, with the contents of its channels. -/
structure NatSession where
  peerID : PeerID
  peerX25519 : BitVec 256
  probeNonce : BitVec 64
  signalIn : List Bytes := []
  result : Option AddrPort := none
  havePeer : Bool := false
  peerNonce : BitVec 64 := 0
  remotes : List AddrPort := []
  phase : Phase
  /-- The envelope that is retransmitted. -/
  sealed : Option Bytes := none
  deriving DecidableEq, Repr

/-- What the manager does to the world. -/
inductive Output
  /-- `sendFn` of the session of a peer. -/
  | signal (peerID : PeerID) (envelope : Bytes)
  /-- `conn.WriteTo`. -/
  | wrote (pkt : Bytes) (addr : AddrPort)
  | endpointDiscovered (k : SessionRef) (peerID : PeerID) (ep : AddrPort)
  | punchTimeout (k : SessionRef) (peerID : PeerID)
  deriving DecidableEq, Repr

/-- The next step of a `negotiate` goroutine or of one it has started. -/
inductive Move
  /-- The local candidates are gathered, and the own signal is sealed and sent. -/
  | gather (candidates : List AddrPort) (random : Bytes) (nowSec : BitVec 64)
  /-- `sessCtx` is done. -/
  | sessionDone
  /-- A signal is taken from the channel and read. -/
  | receive
  /-- The session learns the nonce and the candidates of the peer. -/
  | adopt (now : Int)
  /-- `probeCtx` is done. -/
  | probeDone
  /-- An endpoint is taken from the channel. -/
  | discover
  /-- The deferred function. -/
  | cleanUp
  | sendProbe (target : AddrPort)
  | retransmit
  deriving DecidableEq, Repr

namespace NatSession

variable (nd : Node) (s : NatSession)

/-- A send to `signalIn` that does not block. -/
def push (plain : Bytes) : NatSession :=
  if s.signalIn.length < signalInCap then { s with signalIn := s.signalIn ++ [plain] } else s

/-- The payload of an authenticated envelope is sent. -/
def deliver (plain : Option Bytes) : NatSession := plain.elim s s.push

/-- A send to `result` that does not block. -/
def offer (ep : AddrPort) : NatSession := { s with result := s.result.or (some ep) }

/-- A packet from an endpoint with a tag is a reply to a probe of the session. -/
def Answered (ep : AddrPort) (tag : BitVec 64) : Prop :=
  s.havePeer = true ∧ ep ∈ s.remotes ∧ nd.replyTag s.probeNonce s.peerNonce = tag

instance (ep : AddrPort) (tag : BitVec 64) : Decidable (s.Answered nd ep tag) :=
  inferInstanceAs (Decidable (_ ∧ _))

/-- The rest of `Start`: a held envelope is authenticated, and `negotiate` starts. -/
def launch (entry : Option PeerID) (nowSec : BitVec 64) : NatSession :=
  match s.phase with
  | .starting buffered =>
    { s.deliver (buffered.bind fun envelope => nd.authenticateSignal entry s.peerID envelope nowSec)
      with phase := .gathering }
  | _ => s

variable {nd s}

@[simp] theorem peerID_deliver (plain : Option Bytes) : (s.deliver plain).peerID = s.peerID := by
  cases plain with
  | none => rfl
  | some plain =>
    simp only [deliver, Option.elim_some, push]
    split <;> rfl

@[simp] theorem phase_deliver (plain : Option Bytes) : (s.deliver plain).phase = s.phase := by
  cases plain with
  | none => rfl
  | some plain =>
    simp only [deliver, Option.elim_some, push]
    split <;> rfl

theorem peerID_launch (entry : Option PeerID) (nowSec : BitVec 64) :
    (s.launch nd entry nowSec).peerID = s.peerID := by
  unfold launch
  split
  · exact peerID_deliver _
  · rfl

theorem launch_of_ne {entry : Option PeerID} {nowSec : BitVec 64}
    (h : ∀ buffered, s.phase ≠ .starting buffered) : s.launch nd entry nowSec = s := by
  unfold launch
  split
  next buffered hphase => exact absurd hphase (h buffered)
  · rfl

variable (nd s)

/-- A step of the goroutine of a session, with what it does to the world. A step that does not come
next changes nothing. -/
def move (k : SessionRef) : Move → NatSession × List Output
  | .gather candidates random nowSec =>
    if s.phase ≠ .gathering then (s, [])
    else if candidates = [] then ({ s with phase := .returned }, [])
    else
      match nd.ownSignal s.peerID s.peerX25519 s.probeNonce candidates random nowSec with
      | none => ({ s with phase := .returned }, [])
      | some envelope =>
        ({ s with phase := .waiting, sealed := some envelope }, [.signal s.peerID envelope])
  | .sessionDone => if s.phase ≠ .waiting then (s, []) else ({ s with phase := .returned }, [])
  | .receive =>
    match s.phase, s.signalIn with
    | .waiting, plain :: rest =>
      match nd.readSignal plain with
      | none => ({ s with signalIn := rest, phase := .returned }, [])
      | some (peerNonce, remotes) =>
        ({ s with signalIn := rest, phase := .received peerNonce remotes }, [])
    | _, _ => (s, [])
  | .adopt _ =>
    match s.phase with
    | .received peerNonce remotes =>
      ({ s with peerNonce, remotes, havePeer := true, phase := .probing }, [])
    | _ => (s, [])
  | .probeDone =>
    if s.phase ≠ .probing then (s, [])
    else ({ s with phase := .returned },
      if nd.onPunchTimeout then [.punchTimeout k s.peerID] else [])
  | .discover =>
    match s.phase, s.result with
    | .probing, some ep => ({ s with result := none, phase := .returned },
      if nd.onEndpointDiscovered then [.endpointDiscovered k s.peerID ep] else [])
    | _, _ => (s, [])
  | .cleanUp => if s.phase ≠ .returned then (s, []) else ({ s with phase := .ended }, [])
  | .sendProbe target =>
    if s.havePeer = true ∧ target ∈ s.remotes then
      (s, [.wrote (buildProbe probeFlag s.probeNonce) target])
    else (s, [])
  | .retransmit => (s, s.sealed.toList.map (.signal s.peerID))

end NatSession

/-- A call of `DeliverSignal` that has found a session and released the lock. -/
structure Delivery where
  session : SessionRef
  id : PeerID
  envelope : Bytes
  deriving DecidableEq, Repr

/-- `probeAnswer`. -/
structure ProbeAnswer where
  tag : BitVec 64
  expires : Int
  deriving DecidableEq, Repr

/-- `Manager`, with the sessions that were created and the calls that are under way. -/
structure Manager where
  memory : List NatSession := []
  sessions : AList fun _ : PeerID => SessionRef := ∅
  answers : AList fun _ : BitVec 64 => ProbeAnswer := ∅
  pending : AList fun _ : PeerID => Bytes := ∅
  deliveries : List Delivery := []

/-- What happens at a node, and the signing of messages anywhere. -/
inductive Step
  /-- `Start` for a peer, with a random nonce. -/
  | start (id : PeerID) (x25519Pub : BitVec 256) (nonce : BitVec 64)
  /-- The rest of `Start`, with the entry of the peer table and the clock. -/
  | launch (k : SessionRef) (entry : Option PeerID) (nowSec : BitVec 64)
  | deliverSignal (fromPeerID : String) (envelope : Bytes) (nowSec : BitVec 64)
  /-- The rest of a call of `DeliverSignal`. -/
  | handOver (i : Nat) (entry : Option PeerID) (nowSec : BitVec 64)
  /-- `HandleProbe`; the sessions of the given order come first in the map. -/
  | handleProbe (pkt : Bytes) (addr : AddrPort) (now : Int) (order : List SessionRef)
  | negotiate (k : SessionRef) (mv : Move)
  /-- A peer signs a message with its private key. -/
  | sign (id : PeerID) (msg : Bytes)
  deriving DecidableEq, Repr

namespace Manager

variable (nd : Node) (m : Manager)

def start (id : PeerID) (x25519Pub : BitVec 256) (nonce : BitVec 64) : Manager :=
  match m.sessions.lookup id with
  | some _ => m
  | none => { m with
      memory := m.memory ++ [{ peerID := id, peerX25519 := x25519Pub, probeNonce := nonce
                               phase := .starting (m.pending.lookup id) }]
      sessions := m.sessions.insert id m.memory.length
      pending := m.pending.erase id }

def deliverSignal (fromPeerID : String) (envelope : Bytes) (nowSec : BitVec 64) : Manager :=
  match hexToNatID fromPeerID with
  | none => m
  | some id =>
    match m.sessions.lookup id with
    | none =>
      if !holdableSignal envelope nowSec ∨
          ((m.pending.lookup id).isNone ∧ pendingMax ≤ m.pending.entries.length) then m
      else { m with pending := m.pending.insert id envelope }
    | some k => { m with deliveries := m.deliveries ++ [⟨k, id, envelope⟩] }

theorem memory_deliverSignal (fromPeerID : String) (envelope : Bytes) (nowSec : BitVec 64) :
    (m.deliverSignal fromPeerID envelope nowSec).memory = m.memory := by
  unfold deliverSignal
  split
  · rfl
  · split
    · split
      · rfl
      · rfl
    · rfl

/-- The rest of a call of `DeliverSignal`: the envelope is authenticated for the session that was
found. -/
def handOver (i : Nat) (entry : Option PeerID) (nowSec : BitVec 64) : Manager :=
  match m.deliveries[i]? with
  | none => m
  | some d => { m with
      memory := m.memory.modify d.session
        (·.deliver (nd.authenticateSignal entry d.id d.envelope nowSec))
      deliveries := m.deliveries.eraseIdx i }

/-- The session in the map that a reply belongs to, the first one in the order of the map. -/
def answered (ep : AddrPort) (tag : BitVec 64) (order : List SessionRef) : Option SessionRef :=
  (order ++ values m.sessions).find? fun k =>
    k ∈ values m.sessions ∧ ∃ s ∈ m.memory[k]?, s.Answered nd ep tag

theorem of_answered {ep : AddrPort} {tag : BitVec 64} {order : List SessionRef} {k : SessionRef}
    (h : m.answered nd ep tag order = some k) :
    ∃ s, m.memory[k]? = some s ∧ s.Answered nd ep tag := by
  have hk := List.find?_some h
  rw [decide_eq_true_eq] at hk
  exact hk.2

def handleProbe (pkt : Bytes) (addr : AddrPort) (now : Int) (order : List SessionRef) :
    Manager × List Output :=
  if pkt.length < 16 then (m, [])
  else if flagsOf pkt = probeFlag then
    match m.answers.lookup (tagOf pkt) with
    | none => (m, [])
    | some a =>
      if now < a.expires then (m, [.wrote (buildProbe replyFlag a.tag) addr])
      else ({ m with answers := m.answers.erase (tagOf pkt) }, [])
  else
    match addrToAddrPort addr with
    | none => (m, [])
    | some ep =>
      match m.answered nd ep (tagOf pkt) order with
      | none => (m, [])
      | some k => ({ m with memory := m.memory.modify k (·.offer ep) }, [])

/-- A probe packet changes one session at most, and it is answered with a packet at most. -/
theorem handleProbe_effect (pkt : Bytes) (addr : AddrPort) (now : Int) (order : List SessionRef) :
    ((m.handleProbe nd pkt addr now order).1.memory = m.memory ∨
      ∃ k ep, (m.handleProbe nd pkt addr now order).1.memory = m.memory.modify k (·.offer ep)) ∧
    ∀ o ∈ (m.handleProbe nd pkt addr now order).2, ∃ reply, o = .wrote reply addr := by
  unfold handleProbe
  split
  · exact ⟨.inl rfl, nofun⟩
  · split
    · split
      · exact ⟨.inl rfl, nofun⟩
      · split
        · exact ⟨.inl rfl, fun o ho => ⟨_, List.mem_singleton.mp ho⟩⟩
        · exact ⟨.inl rfl, nofun⟩
    · split
      · exact ⟨.inl rfl, nofun⟩
      next ep _ =>
        split
        · exact ⟨.inl rfl, nofun⟩
        next k _ => exact ⟨.inr ⟨k, ep, rfl⟩, nofun⟩

/-- The answers after a step of `negotiate`: expired ones are removed, and the peer's nonce gets
one. -/
def answersAfter (s : NatSession) : Move → AList fun _ : BitVec 64 => ProbeAnswer
  | .adopt now =>
    match s.phase with
    | .received peerNonce _ => (keepValues (now < ·.expires) m.answers).insert peerNonce
        ⟨nd.replyTag peerNonce s.probeNonce, now + answerTTL⟩
    | _ => m.answers
  | _ => m.answers

/-- The deferred function removes the session from the map. -/
def sessionsAfter (s : NatSession) : Move → AList fun _ : PeerID => SessionRef
  | .cleanUp => if s.phase = .returned then m.sessions.erase s.peerID else m.sessions
  | _ => m.sessions

def negotiate (k : SessionRef) (mv : Move) : Manager × List Output :=
  match m.memory[k]? with
  | none => (m, [])
  | some s =>
    ({ m with
        memory := m.memory.set k (s.move nd k mv).1
        sessions := m.sessionsAfter s mv
        answers := m.answersAfter nd s mv }, (s.move nd k mv).2)

def step : Step → Manager × List Output
  | .start id x25519Pub nonce => (m.start id x25519Pub nonce, [])
  | .launch k entry nowSec =>
    ({ m with memory := m.memory.modify k (·.launch nd entry nowSec) }, [])
  | .deliverSignal fromPeerID envelope nowSec => (m.deliverSignal fromPeerID envelope nowSec, [])
  | .handOver i entry nowSec => (m.handOver nd i entry nowSec, [])
  | .handleProbe pkt addr now order => m.handleProbe nd pkt addr now order
  | .negotiate k mv => m.negotiate nd k mv
  | .sign _ _ => (m, [])

def next (i : Step) : Manager := (m.step nd i).1

end Manager

end Veld.Traversal
