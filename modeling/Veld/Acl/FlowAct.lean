import Veld.Acl.FlowTable

/-!
# What packets do to the flow table

The dispatcher uses the flow table in six ways. Each of them is one action here,
and the entry under one key is followed through an action: it stays, it is
refreshed and its state advances, it goes idle for too long, or it is evicted to
make room for another flow.
-/

namespace Veld.Acl

/-- One use of the flow table. -/
inductive FlowAct
  /-- The table is not used. -/
  | idle
  /-- A connection start left for a peer. -/
  | outStart (f : Flow)
  /-- A connection start of a peer was allowed. -/
  | inStart (f : Flow)
  /-- A packet of a peer looked for its flow. -/
  | touch (f : Flow)
  /-- An end of connection of a peer looked for its flow, and closes it if it is established. -/
  | finish (f : Flow)
  /-- The expiry timer fired. -/
  | expire

namespace FlowAct

/-- The key an action works on. -/
def key : FlowAct → Option FlowKey
  | outStart f | inStart f | touch f | finish f => some (flowKey f)
  | idle | expire => none

/-- The state an action leaves a live entry of its own key in. -/
def advance (a : FlowAct) (st : FlowState) : FlowState :=
  match a, st with
  | inStart _, .new => .established
  | finish _, .established => .closing
  | _, st => st

end FlowAct

namespace FlowTable

/-- There is a live entry under the key and its connection is established. -/
def isEstablished (ft : FlowTable) (k : FlowKey) (now : Int) : Bool :=
  (ft.live k now).any (·.state = .established)

/-- The state of the live entry under the key, `New` when there is none. -/
def stateOf (ft : FlowTable) (k : FlowKey) (now : Int) : FlowState :=
  ((ft.live k now).map (·.state)).getD .new

/-- The table after one use. -/
def act (ft : FlowTable) (a : FlowAct) (now : Int) : FlowTable :=
  match a with
  | .idle => ft
  | .outStart f => (ft.lookup f true .new now).table
  | .inStart f => (ft.lookup f true .established now).table
  | .touch f => (ft.lookup f false .new now).table
  | .finish f =>
    if ft.isEstablished (flowKey f) now then
      ((ft.lookup f false .new now).table.updateState f .closing now).1
    else (ft.lookup f false .new now).table
  | .expire => ft.expireOldFlows now

/-- An action for another flow takes the entry under the key away. -/
def Evicts (ft : FlowTable) (a : FlowAct) (now : Int) (k : FlowKey) : Prop :=
  a.key ≠ some k ∧ a.key.isSome ∧ (ft.find k).isSome ∧ (ft.act a now).find k = none

instance (ft : FlowTable) (a : FlowAct) (now : Int) (k : FlowKey) :
    Decidable (ft.Evicts a now k) :=
  inferInstanceAs (Decidable (_ ∧ _ ∧ _ ∧ _))

variable {ft : FlowTable} {a : FlowAct} {now : Int} {k : FlowKey} {e : FlowEntry} {f : Flow}

/-- An entry is live as long as its last use is not longer ago than its protocol's timeout. -/
theorem live_eq_some_of_find (hf : ft.find k = some e)
    (ht : now - e.lastSeen ≤ ft.getTimeout k.proto) : ft.live k now = some e := by
  refine live_eq_some_iff.mpr ⟨hf, ?_⟩
  have hk : e.key = k := Lru.key_of_find hf
  have hp : e.flow.proto = k.proto := by
    rw [← hk]
    exact (flowKey_proto e.flow).symm
  rw [isEntryExpired, hp, decide_eq_false_iff_not]
  omega

theorem refresh_new_state (e : FlowEntry) : (refresh e .new now).state = e.state := by
  simp [refresh]

/-- The entry an inbound packet finds is established exactly when the live one is. -/
theorem entry_lookup_any (f : Flow) :
    ((ft.lookup f false .new now).entry.any (·.state = .established)) =
      ft.isEstablished (flowKey f) now := by
  rw [entry_lookup, find_lookup_self, isEstablished]
  cases ft.live (flowKey f) now with
  | none => rfl
  | some e => simp [refresh_new_state]

theorem created_lookup_false (f : Flow) (st : FlowState) :
    (ft.lookup f false st now).created = false := by
  simp only [lookup]
  split <;> rfl

theorem config_act : (ft.act a now).config = ft.config := by
  cases a with
  | finish f =>
    simp only [act]
    split
    · rw [config_updateState, config_lookup]
    · exact config_lookup ..
  | idle => rfl
  | outStart f => exact config_lookup ..
  | inStart f => exact config_lookup ..
  | touch f => exact config_lookup ..
  | expire => rfl

/-- No use of the table takes it over its bound. -/
theorem len_act_le (h : ft.len ≤ ft.config.maxFlows) (a : FlowAct) (now : Int) :
    (ft.act a now).len ≤ ft.config.maxFlows := by
  cases a with
  | idle => exact h
  | outStart f => exact ft.len_lookup_le f now h true .new
  | inStart f => exact ft.len_lookup_le f now h true .established
  | touch f => exact ft.len_lookup_le f now h false .new
  | finish f =>
    have hlookup : (ft.lookup f false .new now).table.len ≤ ft.config.maxFlows :=
      ft.len_lookup_le f now h false .new
    simp only [act]
    split
    · exact (Int.ofNat_le.mpr (len_updateState_le _ f now .closing)).trans hlookup
    · exact hlookup
  | expire =>
    have hlen : (ft.expireOldFlows now).len ≤ ft.len := ft.flows.length_keep_le _
    exact (Int.ofNat_le.mpr hlen).trans h

theorem getTimeout_act (p : Proto) : (ft.act a now).getTimeout p = ft.getTimeout p := by
  simp only [getTimeout, config_act]

/-- A live entry of the action's own key is refreshed and its state advances. -/
theorem find_act_self (hk : a.key = some k) (hl : ft.live k now = some e) :
    ∃ e', (ft.act a now).find k = some e' ∧ e'.state = a.advance e.state ∧
      e'.lastSeen = now := by
  cases a with
  | idle => cases hk
  | expire => cases hk
  | outStart f =>
    obtain rfl : flowKey f = k := Option.some.inj hk
    refine ⟨refresh e .new now, ?_, refresh_new_state e, rfl⟩
    simp only [act, find_lookup_self, hl]
  | inStart f =>
    obtain rfl : flowKey f = k := Option.some.inj hk
    refine ⟨refresh e .established now, ?_, ?_, rfl⟩
    · simp only [act, find_lookup_self, hl]
    · cases hs : e.state <;> simp [refresh, FlowAct.advance, hs]
  | touch f =>
    obtain rfl : flowKey f = k := Option.some.inj hk
    refine ⟨refresh e .new now, ?_, refresh_new_state e, rfl⟩
    simp only [act, find_lookup_self, hl]
  | finish f =>
    obtain rfl : flowKey f = k := Option.some.inj hk
    have hfind : (ft.lookup f false .new now).table.find (flowKey f) =
        some (refresh e .new now) := by
      simp only [find_lookup_self, hl]
    by_cases hs : e.state = .established
    · have hest : ft.isEstablished (flowKey f) now = true := by
        simp [isEstablished, hl, hs]
      have hlive : (ft.lookup f false .new now).table.live (flowKey f) now =
          some (refresh e .new now) := by
        refine live_eq_some_of_find hfind ?_
        have hpos := getTimeout_pos (ft.lookup f false .new now).table (flowKey f).proto
        have hself : (refresh e .new now).lastSeen = now := rfl
        omega
      refine ⟨{ refresh e .new now with state := .closing, lastSeen := now }, ?_, ?_, rfl⟩
      · simp [act, hest, find_updateState_self, hlive]
      · simp only [FlowAct.advance, hs]
    · have hest : ft.isEstablished (flowKey f) now = false := by
        simp [isEstablished, hl, hs]
      refine ⟨refresh e .new now, ?_, ?_, rfl⟩
      · simp [act, hest, hfind]
      · rw [refresh_new_state]
        cases hst : e.state <;> simp_all [FlowAct.advance]

/-- Without a live entry, only a connection start leaves one under the action's key. -/
theorem find_act_none (hk : a.key = some k) (hl : ft.live k now = none) :
    (ft.act a now).find k =
      match a with
      | .outStart f => some ⟨f, now, now, .new, (normalizeFlowKey f).2⟩
      | .inStart f => some ⟨f, now, now, .established, (normalizeFlowKey f).2⟩
      | _ => none := by
  cases a with
  | idle => cases hk
  | expire => cases hk
  | outStart f =>
    obtain rfl : flowKey f = k := Option.some.inj hk
    simp [act, find_lookup_self, hl]
  | inStart f =>
    obtain rfl : flowKey f = k := Option.some.inj hk
    simp [act, find_lookup_self, hl]
  | touch f =>
    obtain rfl : flowKey f = k := Option.some.inj hk
    simp [act, find_lookup_self, hl]
  | finish f =>
    obtain rfl : flowKey f = k := Option.some.inj hk
    have hest : ft.isEstablished (flowKey f) now = false := by
      rw [isEstablished, hl, Option.any_none]
    simp [act, hest, find_lookup_self, hl]

theorem isEstablished_iff : ft.isEstablished k now = true ↔ ft.stateOf k now = .established := by
  cases hl : ft.live k now <;> simp [isEstablished, stateOf, hl]

theorem stateOf_of_live (hl : ft.live k now = some e) : ft.stateOf k now = e.state := by
  simp [stateOf, hl]

/-- A recorded connection start leaves an entry whose state advances from the live one's. -/
theorem find_act_start (hk : a.key = some k)
    (hs : a = .outStart f ∨ a = .inStart f) :
    ∃ e, (ft.act a now).find k = some e ∧ e.state = a.advance (ft.stateOf k now) ∧
      e.lastSeen = now := by
  cases hl : ft.live k now with
  | some e =>
    obtain ⟨e', hf, hst, hn⟩ := find_act_self hk hl
    exact ⟨e', hf, by rw [hst, stateOf_of_live hl], hn⟩
  | none =>
    have hst : ft.stateOf k now = .new := by
      simp [stateOf, hl]
    rw [find_act_none hk hl, hst]
    rcases hs with rfl | rfl
    · exact ⟨_, rfl, rfl, rfl⟩
    · exact ⟨_, rfl, rfl, rfl⟩

/-- An action for another flow leaves an entry as it is, or evicts it. -/
theorem find_act_other (hk : a.key ≠ some k) (he : a.key.isSome) :
    (ft.act a now).find k = ft.find k ∨ (ft.act a now).find k = none := by
  cases a with
  | idle => cases he
  | expire => cases he
  | outStart f => exact find_lookup_ne ft f now true .new fun h => hk (by rw [h]; rfl)
  | inStart f => exact find_lookup_ne ft f now true .established fun h => hk (by rw [h]; rfl)
  | touch f => exact find_lookup_ne ft f now false .new fun h => hk (by rw [h]; rfl)
  | finish f =>
    have hne : k ≠ flowKey f := fun h => hk (by rw [h]; rfl)
    simp only [act]
    split
    · rw [find_updateState_ne _ _ _ _ hne]
      exact find_lookup_ne ft f now false .new hne
    · exact find_lookup_ne ft f now false .new hne

/-- An entry that is live and not evicted survives every action; it changes only with an action
of its own key. -/
theorem find_act_of_live (hf : ft.find k = some e)
    (ht : now - e.lastSeen ≤ ft.getTimeout k.proto) (hc : e.state ≠ .closed)
    (hev : ¬ft.Evicts a now k) :
    ∃ e', (ft.act a now).find k = some e' ∧
      e'.state = (if a.key = some k then a.advance e.state else e.state) ∧
      e'.lastSeen = (if a.key = some k then now else e.lastSeen) := by
  have hl := live_eq_some_of_find hf ht
  by_cases hk : a.key = some k
  · obtain ⟨e', hf', hs, hn⟩ := find_act_self hk hl
    exact ⟨e', hf', by rw [if_pos hk, hs], by rw [if_pos hk, hn]⟩
  · refine ⟨e, ?_, by rw [if_neg hk], by rw [if_neg hk]⟩
    by_cases hs : a.key.isSome
    · have hother : (ft.act a now).find k = ft.find k ∨ (ft.act a now).find k = none :=
        find_act_other hk hs
      rcases hother with h | h
      · rw [h, hf]
      · exact absurd ⟨hk, hs, by rw [hf]; rfl, h⟩ hev
    · cases a with
      | idle => exact hf
      | expire =>
        have hlive := (live_eq_some_iff.mp hl).2
        rw [act, find_expireOldFlows, hf, Option.filter_some, hlive]
        simp [hc]
      | outStart f => exact absurd rfl hs
      | inStart f => exact absurd rfl hs
      | touch f => exact absurd rfl hs
      | finish f => exact absurd rfl hs

/-- Where an entry after an action comes from: it was there, it advanced, or it was created. -/
theorem find_act_cases (hf : (ft.act a now).find k = some e) :
    ft.find k = some e ∨
    (a.key = some k ∧ ∃ e₀, ft.find k = some e₀ ∧ e.state = a.advance e₀.state) ∨
    (a.key = some k ∧ ((∃ f, a = .outStart f) ∧ e.state = .new ∨
      (∃ f, a = .inStart f) ∧ e.state = .established)) := by
  by_cases hk : a.key = some k
  · cases hl : ft.live k now with
    | some e₀ =>
      obtain ⟨e', hf', hst, -⟩ := find_act_self hk hl
      obtain rfl : e' = e := Option.mem_unique hf' hf
      exact .inr (.inl ⟨hk, e₀, (live_eq_some_iff.mp hl).1, hst⟩)
    | none =>
      rw [find_act_none hk hl] at hf
      refine .inr (.inr ⟨hk, ?_⟩)
      cases a with
      | outStart f =>
        obtain rfl := Option.some.inj hf
        exact .inl ⟨⟨f, rfl⟩, rfl⟩
      | inStart f =>
        obtain rfl := Option.some.inj hf
        exact .inr ⟨⟨f, rfl⟩, rfl⟩
      | idle => cases hf
      | touch f => cases hf
      | finish f => cases hf
      | expire => cases hf
  · refine .inl ?_
    by_cases hkey : a.key.isSome
    · have hother : (ft.act a now).find k = ft.find k ∨ (ft.act a now).find k = none :=
        find_act_other hk hkey
      rcases hother with h | h
      · exact h.symm.trans hf
      · rw [h] at hf
        cases hf
    · cases a with
      | idle => exact hf
      | expire =>
        rw [act, find_expireOldFlows, Option.filter_eq_some_iff] at hf
        exact hf.1
      | outStart f => exact absurd rfl hkey
      | inStart f => exact absurd rfl hkey
      | touch f => exact absurd rfl hkey
      | finish f => exact absurd rfl hkey

/-- Apart from an allowed start of a peer, an action only closes established entries. -/
theorem advance_cases (hin : ∀ f, a ≠ .inStart f) (st : FlowState) :
    a.advance st = st ∨ (st = .established ∧ a.advance st = .closing) := by
  cases a with
  | inStart f => exact absurd rfl (hin f)
  | finish f =>
    cases st with
    | established => exact .inr ⟨rfl, rfl⟩
    | new => exact .inl rfl
    | closing => exact .inl rfl
    | closed => exact .inl rfl
  | idle => exact .inl rfl
  | outStart f => exact .inl rfl
  | touch f => exact .inl rfl
  | expire => exact .inl rfl

/-- The origin of an entry beyond the state `New`: an entry that was already in its state or was
just closed, or a start a peer was just allowed to send. -/
theorem origin_of_not_new (hf : (ft.act a now).find k = some e) (hs : e.state ≠ .new) :
    (∃ e₀, ft.find k = some e₀ ∧ (e.state = e₀.state ∨
      (e₀.state = .established ∧ e.state = .closing))) ∨ ∃ f, a = .inStart f ∧ flowKey f = k := by
  rcases find_act_cases hf with h | ⟨hk, e₀, h, hst⟩ | ⟨hk, ⟨-, hst⟩ | ⟨⟨f, rfl⟩, -⟩⟩
  · exact .inl ⟨e, h, .inl rfl⟩
  · by_cases hin : ∃ f, a = .inStart f
    · obtain ⟨f, rfl⟩ := hin
      exact .inr ⟨f, rfl, Option.some.inj hk⟩
    · have hadv := advance_cases (fun f ha => hin ⟨f, ha⟩) e₀.state
      rw [← hst] at hadv
      exact .inl ⟨e₀, h, hadv⟩
  · exact absurd hst hs
  · exact .inr ⟨f, rfl, Option.some.inj hk⟩

end FlowTable

end Veld.Acl
