import Veld.Dataplane.Inbound
import Veld.Dataplane.Outbound

/-!
# Following a connection through a run

Every input uses the flow table in at most one way, so a run of the dispatcher is
a run of actions on the table. The entry of one connection is followed through
such a run: as long as it is used often enough and not evicted it stays, and its
state is determined by the actions on its own key.
-/

namespace Veld.Dataplane

open Acl Netip Peer

/-- The input is a packet or the expiry timer, not a change made by other components. -/
def Input.isHandler (i : Input) : Bool :=
  match i.event with
  | .tun _ | .udp _ _ | .expire => true
  | _ => false

namespace Dispatcher

variable {d : Dispatcher} {i : Input} {is : List Input}

/-- What an input does to the flow table. -/
def act (d : Dispatcher) (i : Input) : FlowAct :=
  match i.event with
  | .tun pkt => d.outboundAct pkt i.now
  | .udp pkt addr => d.udpAct pkt addr
  | .expire => .expire
  | _ => .idle

theorem next_flowTable (d : Dispatcher) (i : Input) :
    (d.next i).flowTable = d.flowTable.act (d.act i) i.now := by
  obtain ⟨now, event⟩ := i
  cases event with
  | tun pkt => exact (handleTunPacket_spec d pkt now).flowTable
  | udp pkt addr => exact (handleUDPPacket_spec d pkt addr now).flowTable
  | expire => rfl
  | flush r => rfl
  | peers t => rfl
  | store pd => rfl

theorem next_alike (h : i.isHandler = true) : Alike d (d.next i) := by
  obtain ⟨now, event⟩ := i
  cases event with
  | tun pkt =>
    have hs := handleTunPacket_spec d pkt now
    exact ⟨⟨hs.tun, hs.selfPeerID, hs.peers.toSamePeers⟩, hs.policyDecider⟩
  | udp pkt addr => exact (handleUDPPacket_spec d pkt addr now).alike
  | expire => exact ⟨⟨rfl, rfl, .refl _⟩, rfl⟩
  | flush r => cases h
  | peers t => cases h
  | store pd => cases h

theorem run_alike (h : ∀ i ∈ is, i.isHandler = true) : Alike d (run next d is) := by
  induction is generalizing d with
  | nil => exact .refl d
  | cons i is ih =>
    obtain ⟨hi, his⟩ := List.forall_mem_cons.mp h
    exact (next_alike hi).trans (ih his)

/-- No entry of the table is in the state `Closed`, which the dispatcher never stores. -/
def NoClosed (ft : FlowTable) : Prop := ∀ k e, ft.find k = some e → e.state ≠ .closed

theorem advance_ne_closed {a : FlowAct} {st : FlowState} (h : st ≠ .closed) :
    a.advance st ≠ .closed := by
  cases a <;> cases st <;> simp_all [FlowAct.advance]

theorem noClosed_act {ft : FlowTable} (h : NoClosed ft) (a : FlowAct) (now : Int) :
    NoClosed (ft.act a now) := by
  intro k e he
  rcases FlowTable.find_act_cases he with hf | ⟨-, e₀, hf, hst⟩ | ⟨-, ⟨-, hst⟩ | ⟨-, hst⟩⟩
  · exact h k e hf
  · rw [hst]
    exact advance_ne_closed (h k e₀ hf)
  · rw [hst]
    exact FlowState.noConfusion
  · rw [hst]
    exact FlowState.noConfusion

/-- A dispatcher that has handled nothing yet. -/
def Fresh (d : Dispatcher) : Prop := d.flowTable.flows = .empty

theorem noClosed_run (h : d.Fresh) (is : List Input) : NoClosed (run next d is).flowTable := by
  have hstart : NoClosed d.flowTable := by
    intro k e he
    rw [FlowTable.find, h, Lru.find_empty] at he
    cases he
  induction is using List.reverseRecOn with
  | nil => exact hstart
  | append_singleton is i ih =>
    rw [run_snoc, next_flowTable]
    exact noClosed_act ih _ _

/-- The flow table never holds more than `MaxFlows` entries. -/
theorem len_run_le (h : d.Fresh) (is : List Input) :
    (run next d is).flowTable.len ≤ (run next d is).flowTable.config.maxFlows := by
  induction is using List.reverseRecOn with
  | nil =>
    have hroom := d.flowTable.roomy
    have hlen : d.flowTable.len = 0 := by
      rw [FlowTable.len, h]
      rfl
    rw [run_nil, hlen]
    omega
  | append_singleton is i ih =>
    rw [run_snoc, next_flowTable, FlowTable.config_act]
    exact FlowTable.len_act_le ih _ _

/-- The step uses the entry under the key. -/
def uses (k : FlowKey) (x : Dispatcher × Input) : Bool := (x.1.act x.2).key = some k

/-- The steps of a run that use the entry under a key. -/
def usesOf (k : FlowKey) (d : Dispatcher) (is : List Input) : List (Dispatcher × Input) :=
  (trail next d is).filter (uses k)

/-- The actions of a run on the entry under a key. -/
def actsOf (k : FlowKey) (d : Dispatcher) (is : List Input) : List FlowAct :=
  (usesOf k d is).map fun x => x.1.act x.2

/-- The times at which a run uses the entry under a key. -/
def timesOf (k : FlowKey) (d : Dispatcher) (is : List Input) : List Int :=
  (usesOf k d is).map fun x => x.2.now

theorem usesOf_cons (k : FlowKey) (d : Dispatcher) (i : Input) (is : List Input) :
    usesOf k d (i :: is) = if uses k (d, i) then (d, i) :: usesOf k (d.next i) is
      else usesOf k (d.next i) is := by
  simp only [usesOf, trail_cons, List.filter_cons]

theorem usesOf_append (k : FlowKey) (d : Dispatcher) (is js : List Input) :
    usesOf k d (is ++ js) = usesOf k d is ++ usesOf k (run next d is) js := by
  simp [usesOf, trail_append]

/-- A run, last used before it at a given time, in which the clock does not go back, the entry
under a key is used at least once per idle timeout and is never evicted. -/
structure Undisturbed (k : FlowKey) (d : Dispatcher) (last : Int) (is : List Input) : Prop where
  ordered : (last :: is.map Input.now).Pairwise (· ≤ ·)
  spaced : List.IsChain (fun s t => t - s ≤ d.flowTable.getTimeout k.proto) (last :: timesOf k d is)
  kept : Along next (fun d i => ¬d.flowTable.Evicts (d.act i) i.now k) d is

theorem getTimeout_next (d : Dispatcher) (i : Input) (p : Proto) :
    (d.next i).flowTable.getTimeout p = d.flowTable.getTimeout p := by
  rw [next_flowTable, FlowTable.getTimeout_act]

/-- Before its next use, an entry of an undisturbed run is not idle for too long. -/
theorem Undisturbed.head_le {k : FlowKey} {last : Int} (h : Undisturbed k d last (i :: is)) (hne : usesOf k d (i :: is) ≠ []) :
    i.now - last ≤ d.flowTable.getTimeout k.proto := by
  have hall : ∀ t ∈ timesOf k d (i :: is), i.now ≤ t := by
    intro t ht
    obtain ⟨x, hx, rfl⟩ := List.mem_map.mp ht
    have hmem := snd_mem_of_mem_trail (List.mem_filter.mp hx).1
    have hord := List.pairwise_cons.mp (List.pairwise_cons.mp h.ordered).2
    rcases List.mem_cons.mp hmem with he | he
    · rw [he]
    · exact hord.1 _ (List.mem_map_of_mem he)
  cases htimes : timesOf k d (i :: is) with
  | nil => exact absurd (List.map_eq_nil_iff.mp htimes) hne
  | cons t ts =>
    have hspaced := h.spaced
    rw [htimes, List.isChain_cons_cons] at hspaced
    have hle := hall t (by rw [htimes]; exact List.mem_cons_self)
    omega

theorem Undisturbed.tail {k : FlowKey} {d : Dispatcher} {last : Int} {i : Input}
    {is : List Input} (h : Undisturbed k d last (i :: is)) :
    Undisturbed k (d.next i) (if uses k (d, i) then i.now else last) is := by
  have hord := List.pairwise_cons.mp h.ordered
  have hspaced := h.spaced
  refine ⟨?_, ?_, (along_cons.mp h.kept).2⟩
  · split
    · exact hord.2
    · refine List.pairwise_cons.mpr ⟨fun t ht => hord.1 t (List.mem_cons_of_mem _ ht), ?_⟩
      exact (List.pairwise_cons.mp hord.2).2
  · simp only [getTimeout_next]
    simp only [timesOf, usesOf_cons] at hspaced
    split
    · rename_i hu
      rw [if_pos hu, List.map_cons, List.isChain_cons_cons] at hspaced
      exact hspaced.2
    · rename_i hu
      rw [if_neg hu] at hspaced
      exact hspaced

/-- Up to the last use of an undisturbed run, the entry under the key is live, and its state is
what the actions on the key make of it. -/
theorem Undisturbed.follow {k : FlowKey} {d : Dispatcher} {last : Int} {is : List Input}
    {final : Input} {e : FlowEntry} (h : Undisturbed k d last (is ++ [final]))
    (hf : d.flowTable.find k = some e) (hlast : e.lastSeen = last) (hc : e.state ≠ .closed)
    (hu : uses k (run next d is, final) = true) :
    ∃ e', (run next d is).flowTable.live k final.now = some e' ∧
      e'.state = (actsOf k d is).foldl (fun st a => a.advance st) e.state := by
  induction is generalizing d last e with
  | nil =>
    refine ⟨e, ?_, rfl⟩
    refine FlowTable.live_eq_some_of_find hf ?_
    rw [hlast]
    refine h.head_le ?_
    have hfinal : uses k (d, final) = true := hu
    rw [usesOf_cons, if_pos hfinal]
    exact List.cons_ne_nil _ _
  | cons i is ih =>
    have hne : usesOf k d (i :: (is ++ [final])) ≠ [] := by
      rw [← List.cons_append, usesOf_append, usesOf_cons k (run next d (i :: is)), if_pos hu]
      exact List.append_ne_nil_of_right_ne_nil _ (List.cons_ne_nil _ _)
    have ht := h.head_le hne
    have hkept := (along_cons.mp h.kept).1
    obtain ⟨e₁, hf₁, hs₁, hl₁⟩ :=
      FlowTable.find_act_of_live hf (by rw [hlast]; exact ht) hc hkept
    rw [← next_flowTable] at hf₁
    have hclosed : e₁.state ≠ .closed := by
      rw [hs₁]
      split
      · exact advance_ne_closed hc
      · exact hc
    have hnow : e₁.lastSeen = if uses k (d, i) then i.now else last := by
      rw [hl₁, hlast]
      simp [uses]
    obtain ⟨e', hlive, hstate⟩ := ih h.tail hf₁ hnow hclosed hu
    refine ⟨e', hlive, ?_⟩
    rw [hstate, hs₁, actsOf, actsOf, usesOf_cons]
    simp only [uses, decide_eq_true_eq]
    split
    · rw [List.map_cons, List.foldl_cons]
    · rfl

/-- The action opens a connection a peer was allowed to start. -/
def opens (a : FlowAct) : Bool :=
  match a with
  | .inStart _ => true
  | _ => false

/-- The action may close an established connection. -/
def closes (a : FlowAct) : Bool :=
  match a with
  | .finish _ => true
  | _ => false

/-- Without an end of connection, an entry becomes established only by an allowed inbound start,
and only if it was new. -/
theorem foldl_advance_eq_established {acts : List FlowAct} (h : ∀ a ∈ acts, closes a = false)
    (st : FlowState) :
    acts.foldl (fun st a => a.advance st) st = .established ↔
      st = .established ∨ (st = .new ∧ ∃ a ∈ acts, opens a = true) := by
  induction acts generalizing st with
  | nil => simp
  | cons a acts ih =>
    obtain ⟨ha, hacts⟩ := List.forall_mem_cons.mp h
    rw [List.foldl_cons, ih hacts]
    cases a with
    | finish f => cases ha
    | inStart f => cases st <;> simp [FlowAct.advance, opens]
    | idle => cases st <;> simp [FlowAct.advance, opens]
    | outStart f => cases st <;> simp [FlowAct.advance, opens]
    | touch f => cases st <;> simp [FlowAct.advance, opens]
    | expire => cases st <;> simp [FlowAct.advance, opens]

end Dispatcher

end Veld.Dataplane
