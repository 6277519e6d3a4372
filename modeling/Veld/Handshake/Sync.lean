import Veld.Core.Run
import Veld.Handshake.Tunnel

/-!
# Sessions on both sides

What holds about handshakes, packets and slots in every run, whatever the nodes
encrypt with: the session of a Resp that can still complete a handshake is pending
on the other side, because an Init that is older than the current attempt is not
accepted any more. From this, a step keeps both nodes in sync exactly when it
is safe.
-/

namespace Veld.Handshake

open Crypto Peer

namespace Side

@[simp] theorem peer_peer (n : Side) : n.peer.peer = n := by cases n <;> rfl

@[simp] theorem peer_ne (n : Side) : n.peer ≠ n := by cases n <;> exact Side.noConfusion

@[simp] theorem ne_peer (n : Side) : n ≠ n.peer := (peer_ne n).symm

theorem eq_or_eq_peer (n k : Side) : k = n ∨ k = n.peer := by
  cases n <;> cases k <;> simp [peer]

end Side

/-- The node whose handshakes or data packets a packet belongs to. -/
def Packet.owner : Packet → Side
  | .init src _ _ => src
  | .resp dst _ _ _ => dst
  | .data src _ => src

/-- The normalised timestamp of a reading in nanoseconds. -/
theorem stamp_unixNano {t : Int} (hlo : 1000000000000 < t) (hhi : t < 2 ^ 63) :
    stamp (unixNano t) = t := by
  have hint : (unixNano t).toInt = t := by
    rw [unixNano, BitVec.toInt_ofInt, Int.bmod_eq_of_le] <;> omega
  rw [stamp, normalizeTimestamp, if_pos (by rw [hint]; exact hlo), hint]

namespace Tunnel

variable {t t' : Tunnel} {n k : Side} {s : SessionRef} {ts : BitVec 64} {now : Int} {e : Entry}
  {x : SessionRef}

@[simp] theorem node_set_self (nd : Node) : (t.set n nd).node n = nd := Function.update_self ..

@[simp] theorem node_set_peer (nd : Node) : (t.set n nd).node n.peer = t.node n.peer :=
  Function.update_of_ne (Side.peer_ne n) ..

@[simp] theorem node_set_of_peer (nd : Node) : (t.set n.peer nd).node n = t.node n :=
  Function.update_of_ne (Side.ne_peer n) ..

@[simp] theorem sent_set (nd : Node) : (t.set n nd).sent = t.sent := rfl

@[simp] theorem nextHS_set (nd : Node) : (t.set n nd).nextHS = t.nextHS := rfl

@[simp] theorem nextSession_set (nd : Node) : (t.set n nd).nextSession = t.nextSession := rfl

/-- What holds about the handshakes a node initiates. -/
structure Linked (t : Tunnel) (n : Side) : Prop where
  issued : ∀ hs ts, .init n hs ts ∈ t.sent → hs < t.nextHS ∧ stamp ts ≤ (t.node n).clock
  answers : ∀ hs s ts, .resp n hs s ts ∈ t.sent → hs < t.nextHS ∧ s < t.nextSession
  current : ∀ p, (t.node n).pending = some p → p.hs < t.nextHS ∧
    stamp p.timestamp = (t.node n).clock ∧ ∀ ts, .init n p.hs ts ∈ t.sent → ts = p.timestamp
  /-- The answer to the current attempt is pending on the other side and not in use here. -/
  answered : ∀ p s ts, (t.node n).pending = some p → .resp n p.hs s ts ∈ t.sent →
    (t.node n.peer).entry.pendingSession = some s ∧
      (∃ x, (t.node n.peer).initTimestamp = some x ∧ stamp p.timestamp ≤ x) ∧
      ¬Holds (t.node n).entry s ∧ .data n s ∉ t.sent

/-- No session is in two slots of an entry. -/
structure Distinct (e : Entry) : Prop where
  pending : ∀ s, e.pendingSession = some s → e.session ≠ some s ∧ e.prevSession ≠ some s
  prev : ∀ s, e.prevSession = some s → e.session ≠ some s

/-- What holds in every run. -/
structure Wired (t : Tunnel) : Prop where
  linked : ∀ n, t.Linked n
  slots : ∀ n s, Holds (t.node n).entry s → s < t.nextSession
  data : ∀ n s, .data n s ∈ t.sent → s < t.nextSession
  distinct : ∀ n, Distinct (t.node n).entry

/-- A step that does not concern the handshakes of a node. -/
theorem Linked.congr (h : t.Linked n) (hsent : ∀ p, p.owner = n → p ∈ t'.sent → p ∈ t.sent)
    (hpending : (t'.node n).pending = (t.node n).pending)
    (hclock : (t'.node n).clock = (t.node n).clock)
    (hholds : ∀ s < t.nextSession, Holds (t'.node n).entry s → Holds (t.node n).entry s)
    (hslot : (t'.node n.peer).entry.pendingSession = (t.node n.peer).entry.pendingSession)
    (hstamp : (t'.node n.peer).initTimestamp = (t.node n.peer).initTimestamp)
    (hhs : t.nextHS ≤ t'.nextHS) (hsession : t.nextSession ≤ t'.nextSession) : t'.Linked n where
  issued hs ts hp := by
    obtain ⟨hlt, hle⟩ := h.issued hs ts (hsent _ rfl hp)
    exact ⟨hlt.trans_le hhs, hclock ▸ hle⟩
  answers hs s ts hp := by
    obtain ⟨hlt, hlt'⟩ := h.answers hs s ts (hsent _ rfl hp)
    exact ⟨hlt.trans_le hhs, hlt'.trans_le hsession⟩
  current p hp := by
    obtain ⟨hlt, hts, hsame⟩ := h.current p (hpending ▸ hp)
    exact ⟨hlt.trans_le hhs, hclock ▸ hts, fun ts hin => hsame ts (hsent _ rfl hin)⟩
  answered p s ts hp hr := by
    have hr := hsent _ rfl hr
    obtain ⟨hs, hx, hnot, hdata⟩ := h.answered p s ts (hpending ▸ hp) hr
    rw [hslot, hstamp]
    refine ⟨hs, hx, fun hh => hnot (hholds s (h.answers _ _ _ hr).2 hh), fun hd => hdata ?_⟩
    exact hsent _ rfl hd

/-- What holds for a node and for its peer holds for both nodes. -/
theorem forall_side {P : Side → Prop} (n : Side) (h : P n) (h' : P n.peer) (k : Side) :
    P k := by
  rcases Side.eq_or_eq_peer n k with rfl | rfl
  · exact h
  · exact h'

theorem wired_new (id : Side → PeerID) (vpnAddr : Side → Netip.Addr) :
    (new id vpnAddr).Wired where
  linked n := ⟨nofun, nofun, nofun, nofun⟩
  slots n s h := by rcases h with h | h | h <;> cases h
  data := nofun
  distinct n := ⟨nofun, nofun⟩

section Start

variable {stampedAt createdAt : Int} {retries : Nat} {hasEndpoint : Bool}

theorem mem_sent_start {p : Packet}
    (hp : p ∈ (t.start n stampedAt createdAt retries hasEndpoint).sent) :
    p ∈ t.sent ∨ p = .init n t.nextHS (unixNano stampedAt) := by
  have hp : p ∈ if hasEndpoint then t.sent ++ [.init n t.nextHS (unixNano stampedAt)]
    else t.sent := hp
  split at hp
  · exact (List.mem_append.mp hp).imp_right List.mem_singleton.mp
  · exact .inl hp

theorem node_start_self : (t.start n stampedAt createdAt retries hasEndpoint).node n =
    { t.node n with
      pending := if hasEndpoint then
        some ⟨t.nextHS, unixNano stampedAt, createdAt, retries⟩ else none
      entry := (t.node n).entry.setState .stateHandshaking
      clock := stampedAt } :=
  node_set_self _

theorem pending_start {p : PendingHS}
    (hp : ((t.start n stampedAt createdAt retries hasEndpoint).node n).pending = some p) :
    p = ⟨t.nextHS, unixNano stampedAt, createdAt, retries⟩ := by
  rw [node_start_self] at hp
  have hp : (if hasEndpoint then
    some ⟨t.nextHS, unixNano stampedAt, createdAt, retries⟩ else none) = some p := hp
  split at hp
  · exact (Option.some.inj hp).symm
  · cases hp

/-- The attempt has a number of its own, so that nothing sent before belongs to it. -/
theorem Linked.start (h : t.Linked n) (hclock : (t.node n).clock ≤ stampedAt)
    (hstamp : stamp (unixNano stampedAt) = stampedAt) :
    (t.start n stampedAt createdAt retries hasEndpoint).Linked n where
  issued hs ts hp := by
    rw [node_start_self]
    rcases mem_sent_start hp with hp | hp
    · obtain ⟨hlt, hle⟩ := h.issued hs ts hp
      exact ⟨hlt.trans (Nat.lt_succ_self _), hle.trans hclock⟩
    · obtain ⟨-, rfl, rfl⟩ := Packet.init.inj hp
      exact ⟨Nat.lt_succ_self _, hstamp.le⟩
  answers hs s ts hp := by
    obtain ⟨hlt, hlt'⟩ := h.answers hs s ts ((mem_sent_start hp).resolve_right Packet.noConfusion)
    exact ⟨hlt.trans (Nat.lt_succ_self _), hlt'⟩
  current p hp := by
    obtain rfl := pending_start hp
    rw [node_start_self]
    refine ⟨Nat.lt_succ_self _, hstamp, fun ts hin => ?_⟩
    rcases mem_sent_start hin with hin | hin
    · exact absurd (h.issued _ ts hin).1 (lt_irrefl _)
    · exact (Packet.init.inj hin).2.2
  answered p s ts hp hr := by
    obtain rfl := pending_start hp
    have hr := (mem_sent_start hr).resolve_right Packet.noConfusion
    exact absurd (h.answers _ s ts hr).1 (lt_irrefl _)

/-- A node starts another attempt. -/
theorem Wired.start (h : t.Wired) (hclock : (t.node n).clock ≤ stampedAt)
    (hlo : 1000000000000 < stampedAt) (hhi : stampedAt < 2 ^ 63) :
    (t.start n stampedAt createdAt retries hasEndpoint).Wired := by
  set t' := t.start n stampedAt createdAt retries hasEndpoint
  have hself : t'.node n = _ := node_start_self
  have hpeer : t'.node n.peer = t.node n.peer := node_set_peer _
  have hholds (k : Side) (s : SessionRef) : Holds (t'.node k).entry s ↔ Holds (t.node k).entry s := by
    rcases Side.eq_or_eq_peer n k with rfl | rfl
    · rw [hself]
      rfl
    · rw [hpeer]
  refine ⟨forall_side n ((h.linked n).start hclock (stamp_unixNano hlo hhi)) ?_,
    fun k s hs => h.slots k s ((hholds k s).mp hs), ?_, ?_⟩
  · refine (h.linked n.peer).congr (fun p hp hin => ?_) ?_ ?_ ?_ ?_ ?_
      (Nat.le_succ _) le_rfl
    · rcases mem_sent_start hin with hin | rfl
      · exact hin
      · exact absurd hp (Side.ne_peer n)
    · rw [hpeer]
    · rw [hpeer]
    · exact fun s _ => (hholds _ s).mp
    · rw [Side.peer_peer, hself]
      rfl
    · rw [Side.peer_peer, hself]
  · intro k s hp
    exact h.data k s ((mem_sent_start hp).resolve_right Packet.noConfusion)
  · refine forall_side n ?_ ?_
    · rw [hself]
      exact ⟨(h.distinct n).pending, (h.distinct n).prev⟩
    · rw [hpeer]
      exact h.distinct n.peer

end Start

/-- A step of a node that sends nothing and leaves the sessions in their slots. -/
theorem Wired.set (h : t.Wired) {nd : Node} (hlinked : (t.set n nd).Linked n)
    (hslots : ∀ s, Holds nd.entry s → s < t.nextSession) (hdistinct : Distinct nd.entry)
    (hlinked' : (t.set n nd).Linked n.peer) : (t.set n nd).Wired where
  linked := forall_side n hlinked hlinked'
  slots := forall_side n (by simpa using hslots) (by simpa using h.slots n.peer)
  data := h.data
  distinct := forall_side n (by simpa using hdistinct) (by simpa using h.distinct n.peer)

/-- An attempt is given up, or tried again later. -/
theorem Wired.setPending (h : t.Wired) {pending : Option PendingHS}
    (hp : ∀ p, pending = some p → ∃ p₀, (t.node n).pending = some p₀ ∧ p.hs = p₀.hs ∧
      p.timestamp = p₀.timestamp) : (t.set n { t.node n with pending }).Wired := by
  have hl := h.linked n
  refine h.set ?_ (h.slots n) (h.distinct n) ?_
  · constructor
    · simpa using hl.issued
    · exact hl.answers
    · intro p hpn
      rw [node_set_self] at hpn ⊢
      obtain ⟨p₀, hp₀, hhs, hts⟩ := hp p hpn
      rw [hhs, hts]
      exact hl.current p₀ hp₀
    · intro p s ts hpn hr
      rw [node_set_self] at hpn ⊢
      obtain ⟨p₀, hp₀, hhs, hts⟩ := hp p hpn
      rw [node_set_peer, hts]
      rw [hhs] at hr
      exact hl.answered p₀ s ts hp₀ hr
  · exact (h.linked n.peer).congr (fun p _ => id) (by simp) (by simp) (by simp) (by simp)
      (by simp) le_rfl le_rfl

theorem Wired.initiate (h : t.Wired) {checkedAt stampedAt createdAt : Int} {built hasEndpoint : Bool}
    (hticks : t.Ticks (.initiate n checkedAt stampedAt createdAt built hasEndpoint)) :
    (t.initiate n checkedAt stampedAt createdAt built hasEndpoint).Wired := by
  cases hphs : (t.node n).pending with
  | none =>
    simp only [Tunnel.initiate, hphs]
    split
    · exact h
    · exact h.start hticks.1 hticks.2.1 hticks.2.2
  | some phs =>
    simp only [Tunnel.initiate, hphs]
    split
    · exact h
    · split
      · exact h.setPending nofun
      · split
        · refine h.setPending fun p hp => ⟨phs, hphs, ?_⟩
          obtain rfl := Option.some.inj hp
          exact ⟨rfl, rfl⟩
        · exact h.start hticks.1 hticks.2.1 hticks.2.2

/-- An accepted Init is newer than those accepted before. -/
theorem lt_of_accepts {now x : Int} (h : t.accepts n ts now = true)
    (hx : (t.node n).initTimestamp = some x) : x < stamp ts := by
  simp only [accepts, hx, Option.any_some, Bool.and_eq_true, Bool.not_eq_true',
    decide_eq_false_iff_not, not_le] at h
  exact h.2

/-- An Init is accepted but its sender is not trusted. -/
theorem Wired.note (h : t.Wired) {ts : BitVec 64} {now : Int}
    (hacc : t.accepts n.peer ts now = true) :
    (t.set n.peer { t.node n.peer with initTimestamp := some (stamp ts) }).Wired := by
  have hl := h.linked n
  refine h.set ?_ (h.slots n.peer) (h.distinct n.peer) ?_
  · exact (h.linked n.peer).congr (fun p _ => id) (by simp) (by simp) (by simp) (by simp)
      (by simp) le_rfl le_rfl
  · rw [Side.peer_peer]
    constructor
    · simpa using hl.issued
    · exact hl.answers
    · simpa using hl.current
    · intro p s ts' hp hr
      rw [node_set_of_peer] at hp ⊢
      rw [node_set_self]
      obtain ⟨hs, ⟨x, hx, hle⟩, hrest⟩ := hl.answered p s ts' hp hr
      exact ⟨hs, ⟨stamp ts, rfl, hle.trans (lt_of_accepts hacc hx).le⟩, hrest⟩

section Answer

variable {hs : Nat} {ts ts' : BitVec 64} {now : Int}

/-- The node that answers an Init, with a new session that is pending. -/
def answering (t : Tunnel) (n : Side) (ts : BitVec 64) : Node :=
  { t.node n.peer with
    initTimestamp := some (stamp ts)
    entry := (t.node n.peer).entry.setPendingSession (some t.nextSession) }

theorem holds_answering (h : Holds (t.answering n ts).entry s) :
    s = t.nextSession ∨ Holds (t.node n.peer).entry s := by
  rcases h with h | h | h
  · exact .inr (.inl h)
  · exact .inl (Option.some.inj h).symm
  · exact .inr (.inr (.inr h))

/-- A Resp was sent and its session is the last one so far. -/
def sentResp (t : Tunnel) (n : Side) (hs : Nat) (ts ts' : BitVec 64) : Tunnel :=
  { t.set n.peer (t.answering n ts) with
    sent := t.sent ++ [.resp n hs t.nextSession ts']
    nextSession := t.nextSession + 1 }

theorem node_sentResp : (t.sentResp n hs ts ts').node n = t.node n := node_set_of_peer _

theorem node_sentResp_peer : (t.sentResp n hs ts ts').node n.peer = t.answering n ts :=
  node_set_self _

theorem mem_sentResp {p : Packet} : p ∈ (t.sentResp n hs ts ts').sent ↔
    p ∈ t.sent ∨ p = .resp n hs t.nextSession ts' := by
  rw [sentResp, List.mem_append, List.mem_singleton]

/-- The attempt an answer belongs to is the current one: an older Init would not have been accepted
after it. -/
theorem Linked.answer (h : t.Linked n) (hin : .init n hs ts ∈ t.sent)
    (hacc : t.accepts n.peer ts now = true) (hfresh : ¬Holds (t.node n).entry t.nextSession)
    (hdata : .data n t.nextSession ∉ t.sent) : (t.sentResp n hs ts ts').Linked n where
  issued hs' ts₀ hp := by
    rw [node_sentResp]
    exact h.issued hs' ts₀ ((mem_sentResp.mp hp).resolve_right Packet.noConfusion)
  answers hs' s ts₀ hp := by
    rcases mem_sentResp.mp hp with hp | hp
    · obtain ⟨hlt, hlt'⟩ := h.answers hs' s ts₀ hp
      exact ⟨hlt, hlt'.trans (Nat.lt_succ_self _)⟩
    · obtain ⟨-, rfl, rfl, -⟩ := Packet.resp.inj hp
      exact ⟨(h.issued hs' ts hin).1, Nat.lt_succ_self _⟩
  current p hp := by
    rw [node_sentResp] at hp ⊢
    obtain ⟨hlt, hts, hsame⟩ := h.current p hp
    exact ⟨hlt, hts, fun ts₀ hp₀ =>
      hsame ts₀ ((mem_sentResp.mp hp₀).resolve_right Packet.noConfusion)⟩
  answered p s ts₀ hp hr := by
    rw [node_sentResp] at hp ⊢
    rw [node_sentResp_peer]
    obtain ⟨-, hts, hsame⟩ := h.current p hp
    rcases mem_sentResp.mp hr with hr | hr
    · obtain ⟨-, ⟨x, hx, hle⟩, -⟩ := h.answered p s ts₀ hp hr
      have hlt := lt_of_accepts hacc hx
      have hissued := (h.issued hs ts hin).2
      omega
    · obtain ⟨-, hhs, rfl, -⟩ := Packet.resp.inj hr
      rw [← hhs] at hin
      refine ⟨rfl, ⟨stamp ts, rfl, by rw [hsame ts hin]⟩, hfresh, fun hd => hdata ?_⟩
      exact (mem_sentResp.mp hd).resolve_right Packet.noConfusion

/-- The answer to an Init: the session is new and pending. -/
theorem Wired.answer (h : t.Wired) (hin : .init n hs ts ∈ t.sent)
    (hacc : t.accepts n.peer ts now = true) : (t.sentResp n hs ts ts').Wired := by
  have hfresh (k : Side) : ¬Holds (t.node k).entry t.nextSession :=
    fun hh => lt_irrefl _ (h.slots k _ hh)
  have hdata : .data n t.nextSession ∉ t.sent := fun hd => lt_irrefl _ (h.data n _ hd)
  refine ⟨forall_side n ((h.linked n).answer hin hacc (hfresh n) hdata) ?_, forall_side n ?_ ?_, ?_,
    forall_side n ?_ ?_⟩
  · refine (h.linked n.peer).congr (fun p hp hin => ?_) (by rw [node_sentResp_peer]; rfl)
      (by rw [node_sentResp_peer]; rfl) ?_ ?_ ?_ le_rfl (Nat.le_succ _)
    · rcases mem_sentResp.mp hin with hin | rfl
      · exact hin
      · exact absurd hp (Side.ne_peer n)
    · intro s hlt hs'
      rw [node_sentResp_peer] at hs'
      exact (holds_answering hs').resolve_left hlt.ne
    · rw [Side.peer_peer, node_sentResp]
    · rw [Side.peer_peer, node_sentResp]
  · intro s hs'
    rw [node_sentResp] at hs'
    exact (h.slots n s hs').trans (Nat.lt_succ_self _)
  · intro s hs'
    rw [node_sentResp_peer] at hs'
    rcases holds_answering hs' with rfl | hs'
    · exact Nat.lt_succ_self _
    · exact (h.slots n.peer s hs').trans (Nat.lt_succ_self _)
  · intro k s hp
    have hp := (mem_sentResp.mp hp).resolve_right Packet.noConfusion
    exact (h.data k s hp).trans (Nat.lt_succ_self _)
  · rw [node_sentResp]
    exact h.distinct n
  · rw [node_sentResp_peer]
    refine ⟨fun s hs' => ?_, (h.distinct n.peer).prev⟩
    obtain rfl := Option.some.inj hs'
    exact ⟨fun hh => hfresh n.peer (.inl hh), fun hh => hfresh n.peer (.inr (.inr hh))⟩

end Answer

/-- The slots after a handshake was completed. -/
theorem holds_setSession (h : Holds (e.setSession (some s)) x) : x = s ∨ Holds e x := by
  rcases h with h | h | h
  · exact .inl (Option.some.inj h).symm
  · exact .inr (.inr (.inl h))
  · simp only [Entry.setSession] at h
    split at h
    · exact .inr (.inl h)
    · exact .inr (.inr (.inr h))

theorem Distinct.setSession (h : Distinct e) (hs : ¬Holds e s) :
    Distinct (e.setSession (some s)) := by
  have hprev {x : SessionRef} (hx : (e.setSession (some s)).prevSession = some x) :
      e.session = some x ∨ e.prevSession = some x := by
    simp only [Entry.setSession] at hx
    split at hx
    · exact .inl hx
    · exact .inr hx
  refine ⟨fun x hx => ⟨fun hsx => hs ?_, fun hpx => ?_⟩, fun x hx hsx => hs ?_⟩
  · obtain rfl := Option.some.inj hsx
    exact .inr (.inl hx)
  · exact (hprev hpx).elim (h.pending x hx).1 (h.pending x hx).2
  · obtain rfl := Option.some.inj hsx
    exact (hprev hx).imp_right .inr

/-- The slots after a confirmation. -/
theorem holds_promotePendingSession (h : Holds e.promotePendingSession x) : Holds e x := by
  unfold Entry.promotePendingSession at h
  split at h
  · rcases h with h | h | h
    · exact .inr (.inl h)
    · cases h
    · dsimp only at h
      split at h
      · exact .inl h
      · exact .inr (.inr h)
  · exact h

theorem Distinct.promotePendingSession (h : Distinct e) : Distinct e.promotePendingSession := by
  unfold Entry.promotePendingSession
  split
  · refine ⟨nofun, fun x hx hs => ?_⟩
    dsimp only at hx hs
    split at hx
    · exact (h.pending x hs).1 hx
    · exact (h.pending x hs).2 hx
  · exact h

/-- A Resp completes the current attempt. -/
theorem Wired.complete (h : t.Wired) {hs : Nat} {ts : BitVec 64} {p : PendingHS}
    (hin : .resp n hs s ts ∈ t.sent) (hp : (t.node n).pending = some p) (hhs : p.hs = hs) :
    (t.set n { t.node n with
      pending := none
      entry := (t.node n).entry.setSession (some s) }).Wired := by
  have hl := h.linked n
  subst hhs
  obtain ⟨-, -, hnot, -⟩ := hl.answered p s ts hp hin
  refine h.set ?_ (fun x hx => ?_) ((h.distinct n).setSession hnot) ?_
  · exact ⟨by simpa using hl.issued, hl.answers, by simp, by simp⟩
  · rcases holds_setSession hx with rfl | hx
    · exact (hl.answers _ _ _ hin).2
    · exact h.slots n x hx
  · exact (h.linked n.peer).congr (fun p _ => id) (by simp) (by simp) (by simp)
      (by simp [Entry.setSession]) (by simp) le_rfl le_rfl

/-- A data packet confirms the pending session. -/
theorem Wired.confirm (h : t.Wired) (hin : .data n s ∈ t.sent)
    (hs : (t.node n.peer).entry.pendingSession = some s) :
    (t.set n.peer { t.node n.peer with
      entry := (t.node n.peer).entry.promotePendingSession }).Wired := by
  have hl := h.linked n
  refine h.set ?_ (fun x hx => h.slots n.peer x (holds_promotePendingSession hx))
    (h.distinct n.peer).promotePendingSession ?_
  · refine (h.linked n.peer).congr (fun p _ => id) (by simp) (by simp) (fun x _ hx => ?_) (by simp)
      (by simp) le_rfl le_rfl
    rw [node_set_self] at hx
    exact holds_promotePendingSession hx
  · rw [Side.peer_peer]
    refine ⟨by simpa using hl.issued, hl.answers, by simpa using hl.current, ?_⟩
    intro p x ts hp hr
    -- the session of the current attempt is not in use yet
    rw [node_set_of_peer] at hp
    obtain ⟨hx, -, -, hdata⟩ := hl.answered p x ts hp hr
    obtain rfl := Option.mem_unique hs hx
    exact absurd hin hdata

/-- A node sends a data packet. -/
theorem Wired.send (h : t.Wired) (hs : (t.node n).entry.session = some s) :
    Wired { t with sent := t.sent ++ [.data n s] } := by
  have hl := h.linked n
  set t' : Tunnel := { t with sent := t.sent ++ [.data n s] }
  have hsent (p : Packet) : p ∈ t'.sent → p ∈ t.sent ∨ p = .data n s := fun hp =>
    (List.mem_append.mp hp).imp_right List.mem_singleton.mp
  refine ⟨forall_side n ?_ ?_, h.slots, fun k x hp => ?_, h.distinct⟩
  · constructor
    · exact fun hs' ts hp => hl.issued hs' ts ((hsent _ hp).resolve_right Packet.noConfusion)
    · exact fun hs' x ts hp => hl.answers hs' x ts ((hsent _ hp).resolve_right Packet.noConfusion)
    · intro p hp
      obtain ⟨hlt, hts, hsame⟩ := hl.current p hp
      exact ⟨hlt, hts, fun ts hin => hsame ts ((hsent _ hin).resolve_right Packet.noConfusion)⟩
    · intro p x ts hp hr
      obtain ⟨hx, hstamp, hnot, hdata⟩ :=
        hl.answered p x ts hp ((hsent _ hr).resolve_right Packet.noConfusion)
      refine ⟨hx, hstamp, hnot, fun hd => ?_⟩
      rcases hsent _ hd with hd | hd
      · exact hdata hd
      · obtain ⟨-, rfl⟩ := Packet.data.inj hd
        exact hnot (.inl hs)
  · refine (h.linked n.peer).congr (fun p hp hin => ?_) rfl rfl (fun _ _ => id) rfl rfl le_rfl le_rfl
    rcases hsent p hin with hin | rfl
    · exact hin
    · exact absurd hp (Side.ne_peer n)
  · rcases hsent _ hp with hp | hp
    · exact h.data k x hp
    · obtain ⟨rfl, rfl⟩ := Packet.data.inj hp
      exact h.slots k x (.inl hs)

/-- A session of a node becomes old. -/
theorem Wired.age (h : t.Wired) (n : Side) (s : SessionRef) : (t.next (.age n s)).Wired := by
  refine h.set ?_ (h.slots n) (h.distinct n) ?_
  · exact (h.linked n).congr (fun p _ => id) (by simp) (by simp) (by simp) (by simp) (by simp) le_rfl
      le_rfl
  · exact (h.linked n.peer).congr (fun p _ => id) (by simp) (by simp) (by simp) (by simp) (by simp)
      le_rfl le_rfl

theorem exists_pending_of_completes {hs : Nat} {trusted : Bool}
    (h : t.completes n hs ts now trusted = true) :
    ∃ p, (t.node n).pending = some p ∧ p.hs = hs := by
  simp only [completes, Bool.and_eq_true, Option.any_eq_true, decide_eq_true_eq] at h
  exact h.1.1

theorem confirms_iff : t.confirms n s = true ↔
    (t.node n).entry.session ≠ some s ∧ (t.node n).entry.pendingSession = some s := by
  simp [confirms]

theorem session_of_live (h : t.live n = some s) : (t.node n).entry.session = some s :=
  (Option.filter_eq_some_iff.mp h).1

/-- Every step keeps the connection between packets and slots. -/
theorem Wired.next (h : t.Wired) {i : TunnelStep} (hticks : t.Ticks i) : (t.next i).Wired := by
  cases i with
  | initiate n checkedAt stampedAt createdAt built hasEndpoint => exact h.initiate hticks
  | send n =>
    cases hlive : t.live n with
    | none => simpa only [Tunnel.next, hlive] using h
    | some s =>
      simp only [Tunnel.next, hlive]
      exact h.send (session_of_live hlive)
  | age n s => exact h.age n s
  | deliver p now builtAt trusted =>
    by_cases hin : p ∈ t.sent
    · rw [Tunnel.next, if_pos hin]
      cases p with
      | init src hs ts =>
        simp only [handle, handleInit, Side.peer_peer]
        cases hacc : t.accepts src.peer ts now with
        | false => exact h
        | true =>
          cases trusted with
          | false => exact h.note hacc
          | true => exact h.answer hin hacc
      | resp dst hs s ts =>
        simp only [handle, handleResp]
        split
        · rename_i hc
          obtain ⟨p, hp, hhs⟩ := exists_pending_of_completes hc
          exact h.complete hin hp hhs
        · exact h
      | data src s =>
        simp only [handle, handleData]
        split
        · rename_i hc
          exact h.confirm hin (confirms_iff.mp hc).2
        · exact h
    · rw [Tunnel.next, if_neg hin]
      exact h

section InSync

/-- A step that gives no node another session to encrypt with and takes none away. -/
theorem InSync.mono (h : t.InSync) (hlive : ∀ n s, t'.live n = some s → t.live n = some s)
    (hholds : ∀ n s, Holds (t.node n).entry s → Holds (t'.node n).entry s) : t'.InSync :=
  fun n s hs => hholds n.peer s (h n s (hlive n s hs))

theorem live_congr (h : (t'.node n).entry.session = (t.node n).entry.session)
    (hr : (t'.node n).needsRekey = (t.node n).needsRekey) : t'.live n = t.live n := by
  rw [live, live, h, hr]

/-- A node changes, but not in its slots. -/
theorem InSync.of_slots (h : t.InSync) (hpeer : t'.node n.peer = t.node n.peer)
    (hrekey : (t'.node n).needsRekey = (t.node n).needsRekey)
    (hsession : (t'.node n).entry.session = (t.node n).entry.session)
    (hpending : (t'.node n).entry.pendingSession = (t.node n).entry.pendingSession)
    (hprev : (t'.node n).entry.prevSession = (t.node n).entry.prevSession) : t'.InSync := by
  have hlive : t'.live n = t.live n := live_congr hsession hrekey
  have hlive' : t'.live n.peer = t.live n.peer := live_congr (by rw [hpeer]) (by rw [hpeer])
  refine h.mono (forall_side n ?_ ?_) (forall_side n ?_ ?_)
  · exact fun s hs => hlive ▸ hs
  · exact fun s hs => hlive' ▸ hs
  · intro s hs
    rw [Holds, hsession, hpending, hprev]
    exact hs
  · rw [hpeer]
    exact fun _ => id

theorem InSync.start (h : t.InSync) (n : Side) (stampedAt createdAt : Int) (retries : Nat)
    (hasEndpoint : Bool) : (t.start n stampedAt createdAt retries hasEndpoint).InSync := by
  have hself : (t.start n stampedAt createdAt retries hasEndpoint).node n = { t.node n with
      pending := if hasEndpoint then
        some ⟨t.nextHS, unixNano stampedAt, createdAt, retries⟩ else none
      entry := (t.node n).entry.setState .stateHandshaking
      clock := stampedAt } := node_set_self _
  refine h.of_slots (n := n) (node_set_peer _) ?_ ?_ ?_ ?_ <;> rw [hself] <;> rfl

/-- No attempt to initiate a handshake matters at once. -/
theorem InSync.initiate (h : t.InSync) (n : Side) (checkedAt stampedAt createdAt : Int)
    (built hasEndpoint : Bool) :
    (t.initiate n checkedAt stampedAt createdAt built hasEndpoint).InSync := by
  have hset (pending : Option PendingHS) : (t.set n { t.node n with pending }).InSync :=
    h.of_slots (n := n) (node_set_peer _) (by simp) (by simp) (by simp) (by simp)
  cases hphs : (t.node n).pending with
  | none =>
    simp only [Tunnel.initiate, hphs]
    split
    · exact h
    · exact h.start n stampedAt createdAt 0 hasEndpoint
  | some phs =>
    simp only [Tunnel.initiate, hphs]
    split
    · exact h
    · split
      · exact hset none
      · split
        · exact hset _
        · exact h.start n stampedAt createdAt _ hasEndpoint

/-- A new pending session takes the place of the old one. -/
theorem inSync_answer_iff (hw : t.Wired) (h : t.InSync) (ht' : t'.node n = t.node n)
    (hslot : (t'.node n.peer).entry =
      (t.node n.peer).entry.setPendingSession (some t.nextSession))
    (hrekey : (t'.node n.peer).needsRekey = (t.node n.peer).needsRekey) :
    t'.InSync ↔ ∀ s, (t.node n.peer).entry.pendingSession = some s → t.live n ≠ some s := by
  have hlive : t'.live n = t.live n := live_congr (by rw [ht']) (by rw [ht'])
  have hlive' : t'.live n.peer = t.live n.peer := live_congr (by rw [hslot]; rfl) hrekey
  constructor
  · intro h' s hs hl
    have hdistinct := (hw.distinct n.peer).pending s hs
    rcases h' n s (hlive.trans hl) with hh | hh | hh
    · rw [hslot] at hh
      exact hdistinct.1 hh
    · rw [hslot] at hh
      obtain rfl := Option.some.inj hh
      exact lt_irrefl _ (hw.slots n.peer _ (.inr (.inl hs)))
    · rw [hslot] at hh
      exact hdistinct.2 hh
  · intro hsafe
    refine forall_side n (fun s hl => ?_) (fun s hl => ?_)
    · rw [hlive] at hl
      rw [hslot]
      rcases h n s hl with hh | hh | hh
      · exact .inl hh
      · exact absurd hl (hsafe s hh)
      · exact .inr (.inr hh)
    · rw [hlive'] at hl
      rw [Side.peer_peer, ht']
      simpa using h n.peer s hl

/-- The previous session after a completed handshake. -/
theorem prevSession_setSession {e : Entry} (hs : ¬Holds e s) :
    (e.setSession (some s)).prevSession = if e.session.isSome then e.session else e.prevSession := by
  simp only [Entry.setSession]
  cases hsess : e.session with
  | none => rfl
  | some x =>
    have hne : x ≠ s := by
      rintro rfl
      exact hs (.inl hsess)
    simp [hne]

/-- A node gets another active session, and the old one becomes its previous one. -/
theorem inSync_replace_iff (t' : Tunnel) (hw : t.Wired) (h : t.InSync) {e : Entry}
    (ht' : t'.node n.peer = t.node n.peer) (he : (t'.node n).entry = e)
    (hsession : e.session = some s)
    (hslots : ∀ x, (t.node n).entry.pendingSession = some x →
      e.session = some x ∨ e.pendingSession = some x)
    (hpending : ∀ x, e.pendingSession = some x → (t.node n).entry.pendingSession = some x)
    (hprev : e.prevSession = if (t.node n).entry.session.isSome then (t.node n).entry.session
      else (t.node n).entry.prevSession)
    (hpeer : t.live n.peer = some s → (t.node n).entry.prevSession ≠ some s) :
    t'.InSync ↔ t.SparesPrev n ∧
      ((t'.node n).needsRekey s = false → Holds (t.node n.peer).entry s) := by
  have hlive' : t'.live n.peer = t.live n.peer := live_congr (by rw [ht']) (by rw [ht'])
  have hlive : t'.live n = if (t'.node n).needsRekey s then none else some s := by
    rw [live, he, hsession]
    cases hr : (t'.node n).needsRekey s <;> simp [Option.filter, hr]
  constructor
  · intro h'
    refine ⟨fun hsome x hx hl => ?_, fun hrekey => ?_⟩
    · have hheld := h' n.peer x (hlive'.trans hl)
      rw [Side.peer_peer, he] at hheld
      rcases hheld with hh | hh | hh
      · obtain rfl := Option.mem_unique hsession hh
        exact hpeer hl hx
      · exact ((hw.distinct n).pending x (hpending x hh)).2 hx
      · rw [hprev, if_pos hsome] at hh
        exact (hw.distinct n).prev x hx hh
    · have hheld := h' n s (by rw [hlive, hrekey]; rfl)
      rwa [ht'] at hheld
  · rintro ⟨hspares, hheld⟩
    refine forall_side n (fun x hl => ?_) (fun x hl => ?_)
    · rw [hlive] at hl
      split at hl
      · cases hl
      · rename_i hrekey
        obtain rfl := Option.some.inj hl
        rw [ht']
        exact hheld (Bool.not_eq_true _ ▸ hrekey)
    · rw [hlive'] at hl
      rw [Side.peer_peer, he]
      have hold := h n.peer x hl
      rw [Side.peer_peer] at hold
      rcases hold with hh | hh | hh
      · refine .inr (.inr ?_)
        rw [hprev, hh]
        rfl
      · exact (hslots x hh).elim .inl fun hh => .inr (.inl hh)
      · refine .inr (.inr ?_)
        rw [hprev, if_neg fun hsome => hspares hsome x hh hl]
        exact hh

theorem InSync.age (h : t.InSync) (n : Side) (s : SessionRef) : (t.next (.age n s)).InSync := by
  have hself : (t.next (.age n s)).node n = { t.node n with
      needsRekey := Function.update (t.node n).needsRekey s true } := node_set_self _
  have hpeer : (t.next (.age n s)).node n.peer = t.node n.peer := node_set_peer _
  refine h.mono (forall_side n (fun x hx => ?_) fun x hx => ?_) (forall_side n ?_ ?_)
  · rw [live, hself] at hx
    obtain ⟨hsession, hrekey⟩ := Option.filter_eq_some_iff.mp hx
    have hrekey : (!Function.update (t.node n).needsRekey s true x) = true := hrekey
    refine Option.filter_eq_some_iff.mpr ⟨hsession, ?_⟩
    by_cases hxs : x = s
    · subst hxs
      rw [Function.update_self] at hrekey
      cases hrekey
    · rwa [Function.update_of_ne hxs] at hrekey
  · rwa [live, hpeer] at hx
  · rw [hself]
    exact fun _ => id
  · rw [hpeer]
    exact fun _ => id

/-- A Resp completes a handshake. -/
theorem inSync_complete_iff (hw : t.Wired) (h : t.InSync) {hs : Nat} {ts : BitVec 64} {p : PendingHS}
    (hin : .resp n hs s ts ∈ t.sent) (hp : (t.node n).pending = some p) (hhs : p.hs = hs) :
    (t.set n { t.node n with
      pending := none
      entry := (t.node n).entry.setSession (some s) }).InSync ↔ t.SparesPrev n := by
  subst hhs
  -- the other node has the session pending, and so it does not encrypt with it yet
  obtain ⟨hpending, -, hnot, -⟩ := (hw.linked n).answered p s ts hp hin
  have hnotLive (hl : t.live n.peer = some s) : (t.node n).entry.prevSession ≠ some s :=
    absurd (session_of_live hl) ((hw.distinct n.peer).pending s hpending).1
  have hiff := inSync_replace_iff (t.set n { t.node n with
      pending := none
      entry := (t.node n).entry.setSession (some s) }) (n := n) (s := s)
    (e := (t.node n).entry.setSession (some s)) hw h (node_set_peer _)
    (by rw [node_set_self]) rfl (fun x hx => .inr hx) (fun x hx => hx)
    (prevSession_setSession hnot) hnotLive
  exact hiff.trans (and_iff_left fun _ => .inr (.inl hpending))

/-- A data packet confirms a pending session. -/
theorem inSync_confirm_iff (hw : t.Wired) (h : t.InSync)
    (hs : (t.node n).entry.pendingSession = some s) :
    (t.set n { t.node n with entry := (t.node n).entry.promotePendingSession }).InSync ↔
      t.SparesPrev n ∧ ((t.node n).needsRekey s = false → Holds (t.node n.peer).entry s) := by
  have he : (t.node n).entry.promotePendingSession = { (t.node n).entry with
      prevSession := if (t.node n).entry.session.isSome then (t.node n).entry.session
        else (t.node n).entry.prevSession
      session := some s
      pendingSession := none
      state := .stateConnected } := by
    rw [Entry.promotePendingSession, hs]
    rfl
  have hiff := inSync_replace_iff (t.set n { t.node n with
      entry := (t.node n).entry.promotePendingSession }) (n := n) (s := s)
    (e := (t.node n).entry.promotePendingSession) hw h (node_set_peer _)
    (by rw [node_set_self]) (by rw [he]) (fun x hx => .inl (by rw [he, ← hs, hx]))
    (fun x hx => by rw [he] at hx; cases hx) (by rw [he]) fun _ => ((hw.distinct n).pending s hs).2
  rw [node_set_self] at hiff
  exact hiff

/-- A step keeps both nodes in sync exactly when it is safe. -/
theorem inSync_next_iff (hw : t.Wired) (h : t.InSync) (i : TunnelStep) :
    (t.next i).InSync ↔ t.Safe i := by
  cases i with
  | initiate n checkedAt stampedAt createdAt built hasEndpoint =>
    exact iff_of_true (h.initiate n checkedAt stampedAt createdAt built hasEndpoint) trivial
  | send n =>
    refine iff_of_true ?_ trivial
    cases hlive : t.live n with
    | none => simpa only [next, hlive] using h
    | some s =>
      simp only [next, hlive]
      exact h
  | age n s => exact iff_of_true (h.age n s) trivial
  | deliver p now builtAt trusted =>
    by_cases hin : p ∈ t.sent
    · rw [next, if_pos hin]
      refine Iff.trans ?_ (forall_prop_of_true hin).symm
      cases p with
      | init src hs ts =>
        simp only [handle, handleInit, Side.peer_peer]
        cases hacc : t.accepts src.peer ts now with
        | false => exact iff_of_true h nofun
        | true =>
          cases trusted with
          | false =>
            refine iff_of_true (h.of_slots (n := src.peer) ?_ ?_ ?_ ?_ ?_) fun _ => nofun
            all_goals simp
          | true =>
            simp only [forall_const]
            exact inSync_answer_iff hw h (node_set_of_peer _) (by simp) (by simp)
      | resp dst hs s ts =>
        simp only [handle, handleResp]
        split
        · rename_i hc
          obtain ⟨p, hp, hhs⟩ := exists_pending_of_completes hc
          simp only [hc, forall_const]
          exact inSync_complete_iff hw h hin hp hhs
        · rename_i hc
          exact iff_of_true h fun hc' => absurd hc' hc
      | data src s =>
        simp only [handle, handleData]
        split
        · rename_i hc
          simp only [hc, forall_const]
          have hiff := inSync_confirm_iff hw h (confirms_iff.mp hc).2
          rwa [Side.peer_peer] at hiff
        · rename_i hc
          exact iff_of_true h fun hc' => absurd hc' hc
    · rw [next, if_neg hin]
      exact iff_of_true h fun hp => absurd hp hin

end InSync

instance (t : Tunnel) (n : Side) : Decidable (t.SparesPrev n) :=
  decidable_of_iff ((t.node n).entry.session.isSome = true →
      ∀ s ∈ (t.node n).entry.prevSession, t.live n.peer ≠ some s) Iff.rfl

instance (t : Tunnel) : (i : TunnelStep) → Decidable (t.Safe i)
  | .deliver (.init src hs ts) now _ trusted =>
    decidable_of_iff (.init src hs ts ∈ t.sent → t.accepts src.peer ts now = true →
      trusted = true → ∀ s ∈ (t.node src.peer).entry.pendingSession, t.live src ≠ some s) Iff.rfl
  | .deliver (.resp dst hs s ts) now _ trusted =>
    decidable_of_iff (.resp dst hs s ts ∈ t.sent → t.completes dst hs ts now trusted = true →
      t.SparesPrev dst) Iff.rfl
  | .deliver (.data src s) _ _ _ =>
    decidable_of_iff (.data src s ∈ t.sent → t.confirms src.peer s = true →
      t.SparesPrev src.peer ∧
        ((t.node src.peer).needsRekey s = false → Holds (t.node src).entry s)) Iff.rfl
  | .initiate .. | .send _ | .age .. => inferInstanceAs (Decidable True)

instance (t : Tunnel) : (i : TunnelStep) → Decidable (t.Ticks i)
  | .initiate n _ stampedAt _ _ _ => inferInstanceAs (Decidable ((t.node n).clock ≤ stampedAt ∧
      1000000000000 < stampedAt ∧ stampedAt < 2 ^ 63))
  | .deliver .. | .send _ | .age .. => inferInstanceAs (Decidable True)

end Tunnel

namespace Sample

/-- A second in the year 2023. -/
def now (sec : Int) : Int := (1700000000 + sec) * second

/-- Two nodes. -/
def tunnel : Tunnel := .new (fun _ => 0) fun _ => .zero

/-- Node a initiates a handshake. -/
def initiates (sec : Int) : TunnelStep := .initiate .a (now sec) (now sec) (now sec) true true

/-- The Init of a handshake of node a arrives. -/
def initArrives (hs : Nat) (sec : Int) : TunnelStep :=
  .deliver (.init .a hs (unixNano (now sec))) (now sec) (now sec) true

/-- The Resp to a handshake of node a arrives. -/
def respArrives (hs session : Nat) (sec : Int) : TunnelStep :=
  .deliver (.resp .a hs session (unixNano (now sec))) (now sec) (now sec) true

/-- Node a sends a data packet with a session, and it arrives. -/
def dataArrives (session : Nat) (sec : Int) : List TunnelStep :=
  [.send .a, .deliver (.data .a session) (now sec) (now sec) true]

end Sample

namespace Tunnel

end Tunnel

end Veld.Handshake
