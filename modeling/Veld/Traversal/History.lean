import Veld.Traversal.Manager

/-!
# The history of a session

What the goroutine of a session does, and where what it holds comes from. An envelope
can arrive from anyone and a probe packet from any address; Ed25519 is unforgeable in
that a signature which arrives and is verified with a peer's key was made by this peer
before. `Sound` follows a signal from its arrival through the channel of a session to
the candidates that are probed, and a reply to the channel of results.
-/

namespace Veld.Traversal

open Netip Peer

section Reading

variable {nd : Node} {parse : String → Option AddrPort} {ep : AddrPort}

/-- A list of candidates contains an endpoint, up to unmapping, and it is a usable one. -/
def Lists (parse : String → Option AddrPort) (list : List String) (ep : AddrPort) : Prop :=
  Usable ep ∧ ∃ text ∈ list, ∃ candidate, parse text = some candidate ∧ unmapped candidate = ep

theorem Lists.cons {text : String} {list : List String} (h : Lists parse list ep) :
    Lists parse (text :: list) ep := by
  obtain ⟨husable, t, ht, hcand⟩ := h
  exact ⟨husable, t, List.mem_cons_of_mem _ ht, hcand⟩

theorem mem_keepUsable {out : List AddrPort} {list : List String}
    (h : ep ∈ keepUsable parse out list) : ep ∈ out ∨ Lists parse list ep := by
  induction list generalizing out with
  | nil => exact .inl h
  | cons text list ih =>
    -- the loop goes on with what it has kept
    have hskip {out : List AddrPort} (h : ep ∈ keepUsable parse out list) :
        ep ∈ out ∨ Lists parse (text :: list) ep := (ih h).imp_right Lists.cons
    cases hparse : parse text with
    | none =>
      simp only [keepUsable, hparse] at h
      exact hskip h
    | some candidate =>
      simp only [keepUsable, hparse] at h
      by_cases hbad : ¬Usable (unmapped candidate) ∨ unmapped candidate ∈ out
      · rw [if_pos hbad] at h
        exact hskip h
      · rw [if_neg hbad] at h
        obtain ⟨husable, -⟩ := not_or.mp hbad
        have hnew (h : ep ∈ out ++ [unmapped candidate]) :
            ep ∈ out ∨ Lists parse (text :: list) ep := by
          rw [List.mem_append, List.mem_singleton] at h
          rcases h with h | rfl
          · exact .inl h
          · exact .inr ⟨not_not.mp husable, text, List.mem_cons_self, candidate, hparse, rfl⟩
        split at h
        · exact hnew h
        · exact (hskip h).elim hnew .inr

theorem mem_usableCandidates {list : List String} (h : ep ∈ usableCandidates parse list) :
    Lists parse list ep :=
  (mem_keepUsable h).resolve_left List.not_mem_nil

/-- A payload is a signal with a nonce and a usable endpoint among its candidates. -/
def Offers (nd : Node) (plain : Bytes) (peerNonce : BitVec 64) (ep : AddrPort) : Prop :=
  ∃ msg, nd.unmarshal plain = some msg ∧ Node.peerNonceOf msg = some peerNonce ∧
    Lists nd.parseAddrPort msg.candidates ep

theorem offers_of_readSignal {plain : Bytes} {peerNonce : BitVec 64} {remotes : List AddrPort}
    (h : nd.readSignal plain = some (peerNonce, remotes)) (hep : ep ∈ remotes) :
    Offers nd plain peerNonce ep := by
  simp only [Node.readSignal, Option.bind_eq_bind, Option.bind_eq_some_iff] at h
  obtain ⟨msg, hmsg, nonce, hnonce, h⟩ := h
  split at h
  · cases h
  · cases h
    exact ⟨msg, hmsg, hnonce, mem_usableCandidates hep⟩

theorem verify_of_authenticateSignal {entry : Option PeerID} {senderID : PeerID}
    {envelope plain : Bytes} {nowSec : BitVec 64}
    (h : nd.authenticateSignal entry senderID envelope nowSec = some plain) :
    nd.verify (keyBytes senderID) (signalSignedMessage senderID nd.localPeerID
        (timestampOf envelope) (encryptedOf envelope)) (signatureOf envelope) = true ∧
      nd.decryptSignal (encryptedOf envelope) = some plain := by
  simp only [Node.authenticateSignal] at h
  split at h
  · cases h
  · split at h
    · cases h
    next enc hopen =>
      obtain ⟨rfl, hverify⟩ := verify_of_openSignal hopen
      exact ⟨hverify, h⟩

end Reading

/-! ## What has happened -/

section History

variable (nd : Node) (past : List (Manager × Step))

/-- A peer has signed a message. -/
def Signed (id : PeerID) (msg : Bytes) : Prop := ∃ x ∈ past, x.2 = .sign id msg

/-- A signature that arrives was made by every peer whose key verifies it. -/
def Unforgeable (_ : Manager) : Step → Prop
  | .deliverSignal _ envelope _ =>
    ∀ id msg, nd.verify (keyBytes id) msg (signatureOf envelope) = true → Signed past id msg
  | _ => True

/-- An envelope has arrived in the name of a peer. -/
structure Arrived (id : PeerID) (envelope : Bytes) : Prop where
  call : ∃ x ∈ past, ∃ fromPeerID nowSec,
    x.2 = .deliverSignal fromPeerID envelope nowSec ∧ hexToNatID fromPeerID = some id
  signed : ∀ id msg, nd.verify (keyBytes id) msg (signatureOf envelope) = true → Signed past id msg

/-- A step authenticates an envelope in the name of a peer and sends its payload to a session. -/
inductive Delivers (k : SessionRef) (id : PeerID) (envelope plain : Bytes) (m : Manager) :
    Step → Prop
  /-- `Start` takes the envelope that was held for the peer. -/
  | held {s : NatSession} {entry : Option PeerID} {nowSec : BitVec 64} (hs : m.memory[k]? = some s)
      (hid : s.peerID = id) (hphase : s.phase = .starting (some envelope))
      (hauth : nd.authenticateSignal entry id envelope nowSec = some plain) :
      Delivers k id envelope plain m (.launch k entry nowSec)
  /-- `DeliverSignal` has found the session. -/
  | found {i : Nat} {entry : Option PeerID} {nowSec : BitVec 64}
      (hi : m.deliveries[i]? = some ⟨k, id, envelope⟩)
      (hauth : nd.authenticateSignal entry id envelope nowSec = some plain) :
      Delivers k id envelope plain m (.handOver i entry nowSec)

/-- A peer has signed a signal to this node with the given payload, and while a session was the
peer's current one the signal arrived there. -/
def Received (k : SessionRef) (id : PeerID) (plain : Bytes) : Prop :=
  ∃ envelope,
    Signed past id (signalSignedMessage id nd.localPeerID (timestampOf envelope)
      (encryptedOf envelope)) ∧
    nd.decryptSignal (encryptedOf envelope) = some plain ∧
    (∃ x ∈ past, ∃ fromPeerID nowSec,
      x.2 = .deliverSignal fromPeerID envelope nowSec ∧ hexToNatID fromPeerID = some id) ∧
    ∃ x ∈ past, x.1.sessions.lookup id = some k ∧ Delivers nd k id envelope plain x.1 x.2

/-- While a session was the current one of a peer, a packet from an endpoint arrived that carried
the reply tag of two nonces. -/
def Replied (k : SessionRef) (id : PeerID) (probeNonce peerNonce : BitVec 64) (ep : AddrPort) :
    Prop :=
  ∃ x ∈ past, x.1.sessions.lookup id = some k ∧ ∃ pkt addr now order,
    x.2 = .handleProbe pkt addr now order ∧ 16 ≤ pkt.length ∧ flagsOf pkt ≠ probeFlag ∧
    addrToAddrPort addr = some ep ∧ tagOf pkt = nd.replyTag probeNonce peerNonce

/-- What has happened before an endpoint is reported for the peer of a session: the session is the
peer's current one, the peer's signal to it offers the endpoint, and a reply came from there. -/
def Vouched (m : Manager) (k : SessionRef) (id : PeerID) (ep : AddrPort) : Prop :=
  ∃ s plain peerNonce, m.memory[k]? = some s ∧ s.peerID = id ∧ m.sessions.lookup id = some k ∧
    Received nd past k id plain ∧ Offers nd plain peerNonce ep ∧
    Replied nd past k id s.probeNonce peerNonce ep

variable {nd past} {x : Manager × Step} {m : Manager} {k : SessionRef} {id : PeerID}
  {envelope plain : Bytes}

theorem Signed.later {msg : Bytes} (h : Signed past id msg) : Signed (past ++ [x]) id msg := by
  obtain ⟨y, hy, he⟩ := h
  exact ⟨y, List.mem_append_left _ hy, he⟩

theorem Arrived.later (h : Arrived nd past id envelope) : Arrived nd (past ++ [x]) id envelope := by
  obtain ⟨y, hy, hcall⟩ := h.call
  exact ⟨⟨y, List.mem_append_left _ hy, hcall⟩, fun id msg hv => (h.signed id msg hv).later⟩

theorem Received.later (h : Received nd past k id plain) :
    Received nd (past ++ [x]) k id plain := by
  obtain ⟨envelope, hsigned, hplain, ⟨y, hy, hcall⟩, z, hz, hdelivers⟩ := h
  exact ⟨envelope, hsigned.later, hplain, ⟨y, List.mem_append_left _ hy, hcall⟩,
    z, List.mem_append_left _ hz, hdelivers⟩

theorem Replied.later {probeNonce peerNonce : BitVec 64} {ep : AddrPort}
    (h : Replied nd past k id probeNonce peerNonce ep) :
    Replied nd (past ++ [x]) k id probeNonce peerNonce ep := by
  obtain ⟨y, hy, hreply⟩ := h
  exact ⟨y, List.mem_append_left _ hy, hreply⟩

/-- A delivered envelope that had arrived is a signal of the peer. -/
theorem Arrived.received (h : Arrived nd past id envelope)
    (hcurrent : m.sessions.lookup id = some k) {i : Step}
    (hdelivers : Delivers nd k id envelope plain m i) :
    Received nd (past ++ [(m, i)]) k id plain := by
  have hauth : ∃ entry nowSec, nd.authenticateSignal entry id envelope nowSec = some plain := by
    cases hdelivers with
    | held _ _ _ hauth => exact ⟨_, _, hauth⟩
    | found _ hauth => exact ⟨_, _, hauth⟩
  obtain ⟨entry, nowSec, hauth⟩ := hauth
  obtain ⟨hverify, hplain⟩ := verify_of_authenticateSignal hauth
  have hlater : Arrived nd (past ++ [(m, i)]) id envelope := h.later
  exact ⟨envelope, hlater.signed id _ hverify, hplain, hlater.call, (m, i),
    List.mem_concat_self, hcurrent, hdelivers⟩

end History

/-! ## What the goroutine of a session does -/

/-- The session whose callback an output is. -/
def Output.caller : Output → Option SessionRef
  | .endpointDiscovered k _ _ | .punchTimeout k _ => some k
  | .signal _ _ | .wrote _ _ => none

/-- The steps of the goroutine of a session, each with its condition, its effect on the session and
its callback. -/
inductive Moved (nd : Node) (k : SessionRef) (s : NatSession) :
    Move → NatSession → List Output → Prop
  | stay {mv : Move} {out : List Output} (hout : ∀ o ∈ out, o.caller = none) : Moved nd k s mv s out
  | sent {mv : Move} {envelope : Bytes} (hphase : s.phase = .gathering) :
      Moved nd k s mv { s with phase := .waiting, sealed := some envelope }
        [.signal s.peerID envelope]
  | gaveUp {mv : Move} (hphase : s.phase = .gathering ∨ s.phase = .waiting) :
      Moved nd k s mv { s with phase := .returned } []
  | refused {mv : Move} {plain : Bytes} {rest : List Bytes} (hphase : s.phase = .waiting)
      (hin : s.signalIn = plain :: rest) :
      Moved nd k s mv { s with signalIn := rest, phase := .returned } []
  | read {mv : Move} {plain : Bytes} {rest : List Bytes} {peerNonce : BitVec 64}
      {remotes : List AddrPort} (hphase : s.phase = .waiting) (hin : s.signalIn = plain :: rest)
      (hread : nd.readSignal plain = some (peerNonce, remotes)) :
      Moved nd k s mv { s with signalIn := rest, phase := .received peerNonce remotes } []
  | adopted {mv : Move} {peerNonce : BitVec 64} {remotes : List AddrPort}
      (hphase : s.phase = .received peerNonce remotes) :
      Moved nd k s mv { s with peerNonce, remotes, havePeer := true, phase := .probing } []
  | timedOut {mv : Move} {out : List Output} (hphase : s.phase = .probing)
      (hout : out = [.punchTimeout k s.peerID] ∨ out = []) :
      Moved nd k s mv { s with phase := .returned } out
  | discovered {mv : Move} {out : List Output} {ep : AddrPort} (hphase : s.phase = .probing)
      (hres : s.result = some ep) (hout : out = [.endpointDiscovered k s.peerID ep] ∨ out = []) :
      Moved nd k s mv { s with result := none, phase := .returned } out
  | ended (hphase : s.phase = .returned) : Moved nd k s .cleanUp { s with phase := .ended } []

/-- The steps are these. -/
theorem NatSession.moved (nd : Node) (s : NatSession) (k : SessionRef) (mv : Move) :
    Moved nd k s mv (s.move nd k mv).1 (s.move nd k mv).2 := by
  have hstay {mv : Move} : Moved nd k s mv s [] := .stay nofun
  cases mv with
  | gather candidates random nowSec =>
    simp only [move]
    split
    · exact hstay
    next hphase =>
      rw [not_not] at hphase
      split
      · exact .gaveUp (.inl hphase)
      · split
        · exact .gaveUp (.inl hphase)
        · exact .sent hphase
  | sessionDone =>
    simp only [move]
    split
    · exact hstay
    next hphase => exact .gaveUp (.inr (not_not.mp hphase))
  | receive =>
    simp only [move]
    split
    next plain rest hphase hin =>
      split
      · exact .refused hphase hin
      next peerNonce remotes hread => exact .read hphase hin hread
    · exact hstay
  | adopt now =>
    simp only [move]
    split
    next peerNonce remotes hphase => exact .adopted hphase
    · exact hstay
  | probeDone =>
    simp only [move]
    split
    · exact hstay
    next hphase => exact .timedOut (not_not.mp hphase) (ite_eq_or_eq ..)
  | discover =>
    simp only [move]
    split
    next ep hphase hres => exact .discovered hphase hres (ite_eq_or_eq ..)
    · exact hstay
  | cleanUp =>
    simp only [move]
    split
    · exact hstay
    next hphase => exact .ended (not_not.mp hphase)
  | sendProbe target =>
    simp only [move]
    split
    · exact .stay (by simp [Output.caller])
    · exact hstay
  | retransmit => exact .stay (by simp [move, Output.caller])

section Moved

variable {nd : Node} {k : SessionRef} {s s' : NatSession} {mv : Move} {out : List Output}

theorem Moved.peerID (h : Moved nd k s mv s' out) : s'.peerID = s.peerID := by
  cases h <;> rfl

/-- Only the deferred function ends a session. -/
theorem Moved.ended_iff (h : Moved nd k s mv s' out)
    (hrunning : ¬(mv = .cleanUp ∧ s.phase = .returned)) :
    s'.phase = .ended ↔ s.phase = .ended := by
  cases h with
  | stay => rfl
  | gaveUp hphase => rcases hphase with hphase | hphase <;> simp [hphase]
  | ended hphase => exact absurd ⟨rfl, hphase⟩ hrunning
  | sent hphase | refused hphase | read hphase | adopted hphase | timedOut hphase
  | discovered hphase => simp [hphase]

/-- A callback is made for the own session, by a goroutine that probes and then returns. -/
theorem Moved.calls (h : Moved nd k s mv s' out) {o : Output} (ho : o ∈ out) {j : SessionRef}
    (hj : o.caller = some j) :
    j = k ∧ out = [o] ∧ s.phase = .probing ∧ s'.phase = .returned := by
  cases h with
  | stay hout =>
    rw [hout o ho] at hj
    cases hj
  | sent =>
    rw [List.mem_singleton.mp ho] at hj
    cases hj
  | gaveUp | refused | read | adopted | ended => cases ho
  | timedOut hphase hout | discovered hphase _ hout =>
    rcases hout with rfl | rfl
    · obtain rfl := List.mem_singleton.mp ho
      exact ⟨(Option.some.inj hj).symm, rfl, hphase, rfl⟩
    · cases ho

/-- The endpoint that is reported is the one in the channel. -/
theorem Moved.discovers (h : Moved nd k s mv s' out) {id : PeerID} {ep : AddrPort}
    (ho : .endpointDiscovered k id ep ∈ out) : s.peerID = id ∧ s.result = some ep := by
  cases h with
  | stay hout => cases hout _ ho
  | sent => cases List.mem_singleton.mp ho
  | gaveUp | refused | read | adopted | ended => cases ho
  | timedOut _ hout =>
    rcases hout with rfl | rfl
    · cases List.mem_singleton.mp ho
    · cases ho
  | discovered _ hres hout =>
    rcases hout with rfl | rfl
    · cases List.mem_singleton.mp ho
      exact ⟨rfl, hres⟩
    · cases ho

end Moved

/-! ## Where the contents of a session come from -/

/-- `Start` or `negotiate` has not yet read the peer's signal into the session. -/
def Phase.early : Phase → Bool
  | .starting _ | .gathering | .waiting | .received _ _ => true
  | .probing | .returned | .ended => false

/-- What a session holds has come about as it should. -/
structure Sound (nd : Node) (past : List (Manager × Step)) (k : SessionRef) (s : NatSession) :
    Prop where
  buffered : ∀ envelope, s.phase = .starting (some envelope) → Arrived nd past s.peerID envelope
  queued : ∀ plain ∈ s.signalIn, Received nd past k s.peerID plain
  read : ∀ peerNonce remotes, s.phase = .received peerNonce remotes → ∃ plain,
    Received nd past k s.peerID plain ∧ nd.readSignal plain = some (peerNonce, remotes)
  early : s.phase.early = true → s.havePeer = false
  adopted : s.havePeer = true → ∃ plain,
    Received nd past k s.peerID plain ∧ nd.readSignal plain = some (s.peerNonce, s.remotes)
  replied : ∀ ep, s.result = some ep → s.havePeer = true ∧ ep ∈ s.remotes ∧
    Replied nd past k s.peerID s.probeNonce s.peerNonce ep

namespace Sound

variable {nd : Node} {past : List (Manager × Step)} {k : SessionRef} {s : NatSession}

theorem later {x : Manager × Step} (h : Sound nd past k s) : Sound nd (past ++ [x]) k s where
  buffered envelope hphase := (h.buffered envelope hphase).later
  queued plain hplain := (h.queued plain hplain).later
  read peerNonce remotes hphase := by
    obtain ⟨plain, hreceived, hread⟩ := h.read peerNonce remotes hphase
    exact ⟨plain, hreceived.later, hread⟩
  early := h.early
  adopted hpeer := by
    obtain ⟨plain, hreceived, hread⟩ := h.adopted hpeer
    exact ⟨plain, hreceived.later, hread⟩
  replied ep hep := by
    obtain ⟨hpeer, hmem, hreplied⟩ := h.replied ep hep
    exact ⟨hpeer, hmem, hreplied.later⟩

/-- A session that goes on to a phase without data of its own. -/
theorem rephase (h : Sound nd past k s) (phase : Phase)
    (hstarting : ∀ envelope, phase ≠ .starting (some envelope))
    (hreceived : ∀ peerNonce remotes, phase ≠ .received peerNonce remotes)
    (hearly : phase.early = true → s.phase.early = true) :
    Sound nd past k { s with phase } where
  buffered envelope hphase := absurd hphase (hstarting envelope)
  queued := h.queued
  read peerNonce remotes hphase := absurd hphase (hreceived peerNonce remotes)
  early hphase := h.early (hearly hphase)
  adopted := h.adopted
  replied := h.replied

theorem returned (h : Sound nd past k s) : Sound nd past k { s with phase := .returned } :=
  h.rephase .returned nofun nofun nofun

/-- A shorter queue. -/
theorem dequeue (h : Sound nd past k s) (rest : List Bytes) (hrest : ∀ p ∈ rest, p ∈ s.signalIn) :
    Sound nd past k { s with signalIn := rest } where
  buffered := h.buffered
  queued plain hplain := h.queued plain (hrest plain hplain)
  read := h.read
  early := h.early
  adopted := h.adopted
  replied := h.replied

theorem deliver (h : Sound nd past k s) {plain : Option Bytes}
    (hplain : ∀ p, plain = some p → Received nd past k s.peerID p) :
    Sound nd past k (s.deliver plain) := by
  cases plain with
  | none => exact h
  | some p =>
    simp only [NatSession.deliver, Option.elim_some, NatSession.push]
    split
    · refine ⟨h.buffered, ?_, h.read, h.early, h.adopted, h.replied⟩
      intro q hq
      rw [List.mem_append, List.mem_singleton] at hq
      rcases hq with hq | rfl
      · exact h.queued q hq
      · exact hplain q rfl
    · exact h

theorem offer (h : Sound nd past k s) {ep : AddrPort} (hpeer : s.havePeer = true)
    (hmem : ep ∈ s.remotes) (hreplied : Replied nd past k s.peerID s.probeNonce s.peerNonce ep) :
    Sound nd past k (s.offer ep) := by
  refine ⟨h.buffered, h.queued, h.read, h.early, h.adopted, ?_⟩
  intro ep' hep'
  cases hres : s.result with
  | none =>
    simp only [NatSession.offer, hres, Option.none_or, Option.some.injEq] at hep'
    obtain rfl := hep'
    exact ⟨hpeer, hmem, hreplied⟩
  | some ep₀ =>
    simp only [NatSession.offer, hres, Option.some_or, Option.some.injEq] at hep'
    obtain rfl := hep'
    exact h.replied ep₀ hres

/-- The goroutine of a session only passes on what it has got. -/
theorem move (h : Sound nd past k s) {s' : NatSession} {mv : Move} {out : List Output}
    (hmoved : Moved nd k s mv s' out) : Sound nd past k s' := by
  cases hmoved with
  | stay => exact h
  | sent hphase =>
    have hwaiting := h.rephase .waiting nofun nofun fun _ => by rw [hphase, Phase.early]
    exact ⟨hwaiting.buffered, hwaiting.queued, hwaiting.read, hwaiting.early, hwaiting.adopted,
      hwaiting.replied⟩
  | gaveUp | timedOut => exact h.returned
  | refused hphase hin =>
    exact (h.dequeue _ fun p hp => hin ▸ List.mem_cons_of_mem _ hp).returned
  | @read _ plain _ peerNonce remotes hphase hin hread =>
    have hreceived := h.queued plain (hin ▸ List.mem_cons_self)
    have hshort := h.dequeue _ fun p hp => hin ▸ List.mem_cons_of_mem _ hp
    refine ⟨nofun, hshort.queued, ?_, fun _ => h.early (by rw [hphase, Phase.early]), h.adopted,
      h.replied⟩
    intro n r he
    cases he
    exact ⟨plain, hreceived, hread⟩
  | @adopted _ peerNonce remotes hphase =>
    refine ⟨nofun, h.queued, nofun, nofun, fun _ => h.read peerNonce remotes hphase, ?_⟩
    -- before the signal is read no reply is taken
    intro ep hep
    have hpeer := (h.replied ep hep).1
    rw [h.early (by rw [hphase, Phase.early])] at hpeer
    cases hpeer
  | discovered =>
    have hreturned := h.returned
    exact ⟨hreturned.buffered, hreturned.queued, hreturned.read, hreturned.early,
      hreturned.adopted, nofun⟩
  | ended => exact h.rephase .ended nofun nofun nofun

end Sound

end Veld.Traversal
