import Veld.Dataplane.Tracking

/-!
# Connections through the dispatcher

A connection start this node sends is recorded as new, one a peer was allowed to
send as established, and anything but a start passes inwards only for established
flows. So replies to a connection this node opened pass only when the peer could
have opened it as well, and a connection a peer opened works as long as no closed
connection is left under its key and outbound packets get past the policy.
-/

namespace Veld.Dataplane

open Acl Netip Peer

namespace Dispatcher

variable {d : Dispatcher} {r : EntryRef} {pd : Decider} {pkt plain wire : Bytes} {addr : AddrPort}
  {now : Int} {f : Flow} {k : FlowKey} {t₀ : Int}

/-- With a policy, a delivered packet is an allowed start or belongs to an established flow. -/
theorem letsIn_iff (hpd : d.policyDecider = some pd) (he : (parsePacket plain).err = none) :
    d.letsIn r plain now = true ↔
      ((parsePacket plain).kind = .kindStart ∧ (pd (d.idOf r) d.selfPeerID
        (parsePacket plain).flow.proto (parsePacket plain).flow.dstPort).action = .allow) ∨
      ((parsePacket plain).kind ≠ .kindStart ∧
        d.flowTable.isEstablished (flowKey (parsePacket plain).flow) now = true) := by
  by_cases hk : (parsePacket plain).kind = .kindStart
  · cases ha : (pd (d.idOf r) d.selfPeerID (parsePacket plain).flow.proto
      (parsePacket plain).flow.dstPort).action <;> simp [letsIn, hpd, he, hk, ha]
  · simp [letsIn, hpd, he, hk]

/-- An authenticated packet with an allowed source is delivered exactly when it is let in. -/
theorem delivered_iff (hauth : d.authenticated wire addr = some (r, plain))
    (hsrc : d.sourceAllowed r plain = true) (htun : d.tun.isSome = true) :
    Output.delivered (d.idOf r) plain ∈ (d.step ⟨now, .udp wire addr⟩).2 ↔
      d.letsIn r plain now = true := by
  have h := (handleUDPPacket_spec d wire addr now).delivered (d.idOf r) plain
  refine h.trans ⟨?_, fun hl => ⟨r, hauth, hsrc, hl, htun, rfl⟩⟩
  rintro ⟨q, hq, -, hl, -, -⟩
  obtain ⟨rfl, -⟩ := Prod.mk.inj (Option.mem_unique hauth hq)
  exact hl

/-- A packet that is no start and passes the source check looks up its flow. -/
theorem key_act_udp (hauth : d.authenticated wire addr = some (r, plain))
    (hsrc : d.sourceAllowed r plain = true) (hpd : d.policyDecider = some pd)
    (he : (parsePacket plain).err = none) (hk : (parsePacket plain).kind ≠ .kindStart) :
    (d.act ⟨now, .udp wire addr⟩).key = some (flowKey (parsePacket plain).flow) := by
  simp only [act, udpAct, hauth, hsrc, ite_true, inboundAct, hpd, he, Option.isSome_none,
    Bool.false_eq_true, ite_false]
  cases hkind : (parsePacket plain).kind with
  | kindStart => exact absurd hkind hk
  | kindOther => rfl
  | kindFragment => rfl
  | kindError => rfl
  | kindEnd => rfl

/-- A connection start that was sent is recorded. -/
theorem act_of_sent {p : PeerID} {ep : AddrPort}
    (hsent : Output.sent p pkt wire ep ∈ (d.step ⟨now, .tun pkt⟩).2)
    (hk : (parsePacket pkt).kind = .kindStart) :
    d.act ⟨now, .tun pkt⟩ = .outStart (parsePacket pkt).flow := by
  obtain ⟨q, hfate, -, -⟩ := (handleTunPacket_spec d pkt now).sent _ _ _ _ hsent
  simp [act, outboundAct, hfate, hk]

/-- A start is never an ICMP error, so both directions of its flow share a key. -/
theorem flowKey_reverse_of_start (hk : (parsePacket pkt).kind = .kindStart) :
    flowKey (parsePacket pkt).flow.reverse = flowKey (parsePacket pkt).flow :=
  (parsePacket_tidy ((parsePacket_reads pkt).start hk).1 (by simp [hk])).flowKey_reverse

/-- After a recorded start, a packet of the connection that is no start is let in exactly when
the connection was established then, or was new and a peer was allowed to start it since. -/
theorem isEstablished_of_start {d₁ : Dispatcher} {a : FlowAct} {is : List Input} {final : Input}
    (hft : d₁.flowTable = d.flowTable.act a t₀) (hclosed : NoClosed d.flowTable)
    (hkey : a.key = some k) (ha : a = .outStart f ∨ a = .inStart f)
    (hquiet : Undisturbed k d₁ t₀ (is ++ [final]))
    (hopen : ∀ a ∈ actsOf k d₁ is, closes a = false)
    (hu : uses k (run next d₁ is, final) = true) :
    (run next d₁ is).flowTable.isEstablished k final.now = true ↔
      a.advance (d.flowTable.stateOf k t₀) = .established ∨
      (a.advance (d.flowTable.stateOf k t₀) = .new ∧ ∃ b ∈ actsOf k d₁ is, opens b = true) := by
  have hstart : ∃ e, (d.flowTable.act a t₀).find k = some e ∧
      e.state = a.advance (d.flowTable.stateOf k t₀) ∧ e.lastSeen = t₀ :=
    FlowTable.find_act_start hkey ha
  obtain ⟨e, hf, hst, hlast⟩ := hstart
  rw [← hft] at hf
  have hc : e.state ≠ .closed := noClosed_act hclosed a t₀ k e (hft ▸ hf)
  obtain ⟨e', hlive, hstate⟩ := hquiet.follow hf hlast hc hu
  rw [FlowTable.isEstablished_iff, FlowTable.stateOf_of_live hlive, hstate,
    foldl_advance_eq_established hopen, hst]

/-- An allowed start of a peer establishes its connection unless a closed one is left. -/
theorem advance_inStart (hclosed : NoClosed d.flowTable)
    (hfree : d.flowTable.stateOf k t₀ ≠ .closing) :
    (FlowAct.inStart f).advance (d.flowTable.stateOf k t₀) = .established := by
  have hne : d.flowTable.stateOf k t₀ ≠ .closed := by
    cases hl : d.flowTable.live k t₀ with
    | none => simp [FlowTable.stateOf, hl]
    | some e =>
      rw [FlowTable.stateOf_of_live hl]
      exact hclosed k e (FlowTable.live_eq_some_iff.mp hl).1
  cases hs : d.flowTable.stateOf k t₀ with
  | new => rfl
  | established => rfl
  | closing => exact absurd hs hfree
  | closed => exact absurd hs hne

/-- The sources of two packets of one flow are the same, unless one is an ICMP error. -/
theorem sourceAllowed_of_flow {plain' : Bytes} (he : (parsePacket plain).err = none)
    (hk : (parsePacket plain).kind ≠ .kindError) (he' : (parsePacket plain').err = none)
    (hk' : (parsePacket plain').kind ≠ .kindError)
    (hflow : (parsePacket plain').flow = (parsePacket plain).flow) :
    d.sourceAllowed r plain' = d.sourceAllowed r plain := by
  simp only [sourceAllowed, (extract_of_parsePacket he hk).1, (extract_of_parsePacket he' hk').1,
    hflow]

/-- A packet for a peer that the policy lets out is forwarded unless the session is usable and the
endpoint unknown, or the packet has to wait and the queue is full. -/
theorem forwards_of_letsOut (hr : d.outboundPeer pkt = some r) (he : (parsePacket pkt).err = none)
    (hlet : d.letsOut r (parsePacket pkt).flow = true)
    (hep : d.usable r now = true → (d.peers.entry r).endpoint.isValid = true) :
    Forwards (d.step ⟨now, .tun pkt⟩).2 (d.idOf r) pkt ∨
      (d.peers.entry r).holdQueue.hasRoom = false := by
  have hfate := fate_eq_forwardFate now hr he hlet
  cases hu : d.usable r now with
  | true =>
    have hsent : d.fate pkt now = .sent r := by simp [hfate, forwardFate, hu, hep hu]
    exact .inl ((forwards_iff d pkt now _).mpr ⟨r, .inl hsent, rfl⟩)
  | false =>
    have hheld : d.fate pkt now = .held r := by simp [hfate, forwardFate, hu]
    cases hroom : (d.peers.entry r).holdQueue.hasRoom with
    | true => exact .inl ((forwards_iff d pkt now _).mpr ⟨r, .inr ⟨hheld, hroom⟩, rfl⟩)
    | false => exact .inr rfl

/-- A delivered start came from its sender's own address and was allowed by the policy, and the flow
table has recorded it. -/
theorem start_of_delivered {wire plain : Bytes} {addr : AddrPort} (hpd : d.policyDecider = some pd)
    (hauth : d.authenticated wire addr = some (r, plain))
    (hstart : (parsePacket plain).kind = .kindStart)
    (hdel : Output.delivered (d.idOf r) plain ∈ (d.step ⟨now, .udp wire addr⟩).2) :
    d.sourceAllowed r plain = true ∧ d.tun.isSome = true ∧
      (pd (d.idOf r) d.selfPeerID (parsePacket plain).flow.proto
        (parsePacket plain).flow.dstPort).action = .allow ∧
      d.act ⟨now, .udp wire addr⟩ = .inStart (parsePacket plain).flow := by
  have he := ((parsePacket_reads plain).start hstart).1
  obtain ⟨q, hq, hsrc, hlets, htun, -⟩ :=
    ((handleUDPPacket_spec d wire addr now).delivered _ _).mp hdel
  obtain ⟨rfl, -⟩ := Prod.mk.inj (Option.mem_unique hauth hq)
  have hallow : (pd (d.idOf r) d.selfPeerID (parsePacket plain).flow.proto
      (parsePacket plain).flow.dstPort).action = .allow := by
    rcases (letsIn_iff hpd he).mp hlets with h | h
    · exact h.2
    · exact absurd hstart h.1
  refine ⟨hsrc, htun, hallow, ?_⟩
  simp [act, udpAct, hauth, hsrc, inboundAct, hpd, he, hstart, hallow]

/-- The other direction of a flow is let out when the policy allows this node to start a connection
to the port it came from. -/
theorem letsOut_reverse {flow : Flow} (hpd : d.policyDecider = some pd) (hproto : flow.proto ≠ 0)
    (hpol : (pd d.selfPeerID (d.idOf r) flow.proto flow.srcPort).action = .allow) :
    d.letsOut r flow.reverse = true := by
  have hport : flow.reverse.dstPort = flow.srcPort := rfl
  simp [letsOut, outboundDecision, hpd, hproto, hport, hpol]

end Dispatcher

end Veld.Dataplane
