import Veld.Coord.Bus
import Veld.Core.Tally

/-!
# Held signals are delivered once and in order

Three invariants of the bus. The channels of subscribers are open and belong to
one recipient each. A signal is in the hands of its call, or held, or it was put
on channels. The signals held for a recipient are the last ones that were held for
it since it subscribed or was dropped, up to some that have expired.
-/

namespace Veld.Coord

namespace Bus

variable {b : Bus} {ch : ChanRef} {msg : SignalMsg} {peerID : String} {now : Int}

theorem subscribed_insert (m : AList fun _ : String => List ChanRef) (p q : String)
    (l : List ChanRef) :
    ((m.insert p l).lookup q).getD [] = if q = p then l else (m.lookup q).getD [] := by
  split
  · rename_i h
    rw [h, AList.lookup_insert, Option.getD_some]
  · rename_i h
    rw [AList.lookup_insert_ne h]

/-- The channels of subscribers are open, and each belongs to one recipient. -/
structure Wired (b : Bus) : Prop where
  usable : ∀ peerID, ∀ ch ∈ b.subscribed peerID, ch < b.size ∧ (b.chan ch).closed = false
  single : ∀ p q, ∀ ch ∈ b.subscribed p, ch ∈ b.subscribed q → p = q
  distinct : ∀ peerID, (b.subscribed peerID).Nodup
  fifo : ∀ ch, (b.chan ch).buffer <:+ (b.chan ch).log
  running : b.blocked = false ∧ b.panicked = false

/-- A signal was offered to some channels, each of which may have been full. -/
structure Fed (msg : SignalMsg) (chs : List ChanRef) (b b' : Bus) : Prop where
  signals : b'.signals = b.signals
  pending : b'.pending = b.pending
  size : b'.size = b.size
  blocked : b'.blocked = b.blocked
  panicked : b'.panicked = b.panicked
  chan : ∀ ch, b'.chan ch = b.chan ch ∨ (ch ∈ chs ∧ b'.chan ch = (b.chan ch).push msg)

theorem fed_deliver {chs : List ChanRef} (hopen : ∀ ch ∈ chs, (b.chan ch).closed = false)
    (hnodup : chs.Nodup) : Fed msg chs b (b.deliver chs msg) := by
  induction chs generalizing b with
  | nil => exact ⟨rfl, rfl, rfl, rfl, rfl, fun _ => .inl rfl⟩
  | cons c chs ih =>
    obtain ⟨hc, hnodup⟩ := List.nodup_cons.mp hnodup
    obtain ⟨hfirst, hrest⟩ := List.forall_mem_cons.mp hopen
    have htry : b.trySend c msg = b ∨ b.trySend c msg = b.push c msg := by
      rw [trySend, hfirst, if_neg Bool.false_ne_true]
      split
      · exact .inr rfl
      · exact .inl rfl
    show Fed msg (c :: chs) b ((b.trySend c msg).deliver chs msg)
    rcases htry with he | he
    · have hfed := ih hrest hnodup
      rw [he]
      exact ⟨hfed.signals, hfed.pending, hfed.size, hfed.blocked, hfed.panicked,
        fun ch => (hfed.chan ch).imp_right fun h => ⟨List.mem_cons_of_mem c h.1, h.2⟩⟩
    · have hother {d : ChanRef} (hd : d ≠ c) : (b.push c msg).chan d = b.chan d :=
        Function.update_of_ne hd _ _
      have hne {d : ChanRef} (hd : d ∈ chs) : d ≠ c := by
        rintro rfl
        exact hc hd
      have hfed := ih (b := b.push c msg) (fun d hd => by rw [hother (hne hd)]; exact hrest d hd)
        hnodup
      rw [he]
      refine ⟨hfed.signals, hfed.pending, hfed.size, hfed.blocked, hfed.panicked, fun d => ?_⟩
      by_cases hd : d = c
      · subst hd
        refine .inr ⟨List.mem_cons_self, ?_⟩
        rcases hfed.chan d with h | ⟨hmem, -⟩
        · rw [h]
          exact Function.update_self _ _ _
        · exact absurd hmem hc
      · rcases hfed.chan d with h | ⟨hmem, h⟩
        · exact .inl (h.trans (hother hd))
        · exact .inr ⟨List.mem_cons_of_mem c hmem, by rw [h, hother hd]⟩

theorem Fed.wired {chs : List ChanRef} {b' : Bus} (h : Fed msg chs b b') (hb : b.Wired) :
    b'.Wired := by
  have hsubs (p : String) : b'.subscribed p = b.subscribed p := by
    rw [subscribed, h.signals, subscribed]
  have hclosed (c : ChanRef) : (b'.chan c).closed = (b.chan c).closed := by
    rcases h.chan c with hc | ⟨-, hc⟩
    · rw [hc]
    · rw [hc]
      rfl
  constructor
  · intro p c hc
    rw [hsubs] at hc
    rw [h.size, hclosed]
    exact hb.usable p c hc
  · intro p q c hp hq
    rw [hsubs] at hp hq
    exact hb.single p q c hp hq
  · intro p
    rw [hsubs]
    exact hb.distinct p
  · intro c
    rcases h.chan c with hc | ⟨-, hc⟩
    · rw [hc]
      exact hb.fifo c
    · rw [hc]
      obtain ⟨received, hlog⟩ := hb.fifo c
      refine ⟨received, ?_⟩
      show received ++ ((b.chan c).buffer ++ [msg]) = (b.chan c).log ++ [msg]
      rw [← hlog, List.append_assoc]
  · rw [h.blocked, h.panicked]
    exact hb.running

/-- The new channel with the signals that were held. -/
structure Filled (b : Bus) (peerID : String) (msgs : List SignalMsg) (b' : Bus) : Prop where
  signals : b'.signals = b.signals
  pending : b'.pending = b.pending.erase peerID
  size : b'.size = b.size + 1
  blocked : b'.blocked = b.blocked
  panicked : b'.panicked = b.panicked
  new : b'.chan b.size = { buffer := msgs, log := msgs }
  old : ∀ ch, ch ≠ b.size → b'.chan ch = b.chan ch

theorem Filled.send {msgs : List SignalMsg} {b' : Bus} (h : Filled b peerID msgs b')
    (hroom : msgs.length < signalCap) (msg : SignalMsg) :
    Filled b peerID (msgs ++ [msg]) (b'.send b.size msg) := by
  have hsend : b'.send b.size msg = b'.push b.size msg := by
    rw [Bus.send, h.new, if_neg Bool.false_ne_true, if_pos hroom]
  rw [hsend]
  refine ⟨h.signals, h.pending, h.size, h.blocked, h.panicked, ?_, fun c hc => ?_⟩
  · show Function.update b'.chan b.size ((b'.chan b.size).push msg) b.size = _
    rw [Function.update_self, h.new]
    rfl
  · exact (Function.update_of_ne hc _ _).trans (h.old c hc)

theorem filled_fill (hroom : (b.held peerID).length ≤ signalCap) :
    Filled b peerID (((b.held peerID).filter (·.young now)).map PendingSignal.msg)
      (b.fill peerID now) := by
  have hloop (l : List PendingSignal) (msgs : List SignalMsg) (b' : Bus)
      (h : Filled b peerID msgs b') (hlen : msgs.length + l.length ≤ signalCap) :
      Filled b peerID (msgs ++ l.map PendingSignal.msg)
        (l.foldl (fun b' p => b'.send b.size p.msg) b') := by
    induction l generalizing msgs b' with
    | nil =>
      rw [List.map_nil, List.append_nil]
      exact h
    | cons p l ih =>
      rw [List.length_cons] at hlen
      rw [List.map_cons, List.append_cons]
      refine ih _ _ (h.send (by omega) p.msg) ?_
      rw [List.length_append, List.length_singleton]
      omega
  refine hloop _ [] _ ⟨rfl, rfl, rfl, rfl, rfl, Function.update_self _ _ _, fun c hc => ?_⟩ ?_
  · exact Function.update_of_ne hc _ _
  · have hle := List.length_filter_le (fun p => PendingSignal.young now p) (b.held peerID)
    rw [List.length_nil]
    omega

theorem subscribed_subscribe (hroom : (b.held peerID).length ≤ signalCap) (p : String) :
    (b.subscribeSignals peerID now).subscribed p =
      if p = peerID then b.subscribed peerID ++ [b.size] else b.subscribed p := by
  have hfill : Filled b peerID _ (b.fill peerID now) := filled_fill hroom
  have hlookup := subscribed_insert (b.fill peerID now).signals peerID p
    ((b.fill peerID now).subscribed peerID ++ [b.size])
  rw [hfill.signals] at hlookup
  rw [subscribed, subscribeSignals, hfill.signals, hlookup, subscribed, hfill.signals]
  rfl

theorem Wired.subscribe (h : b.Wired) (hroom : (b.held peerID).length ≤ signalCap) :
    (b.subscribeSignals peerID now).Wired := by
  have hfill : Filled b peerID _ (b.fill peerID now) := filled_fill hroom
  have hmem {p : String} {c : ChanRef} (hc : c ∈ (b.subscribeSignals peerID now).subscribed p) :
      c ∈ b.subscribed p ∨ (p = peerID ∧ c = b.size) := by
    rw [subscribed_subscribe hroom] at hc
    split at hc
    · rename_i hp
      subst hp
      exact (List.mem_append.mp hc).imp_right fun hc => ⟨rfl, List.mem_singleton.mp hc⟩
    · exact .inl hc
  have hold {p : String} {c : ChanRef} (hc : c ∈ b.subscribed p) : c ≠ b.size :=
    (h.usable p c hc).1.ne
  have hchan : (b.subscribeSignals peerID now).chan = (b.fill peerID now).chan := rfl
  have hsize : (b.subscribeSignals peerID now).size = b.size + 1 := hfill.size
  constructor
  · intro p c hc
    rw [hchan, hsize]
    rcases hmem hc with hc | ⟨-, rfl⟩
    · rw [hfill.old c (hold hc)]
      exact ⟨Nat.lt_succ_of_lt (h.usable p c hc).1, (h.usable p c hc).2⟩
    · rw [hfill.new]
      exact ⟨Nat.lt_succ_self _, rfl⟩
  · intro p q c hp hq
    rcases hmem hp with hp | ⟨rfl, rfl⟩
    · rcases hmem hq with hq | ⟨-, rfl⟩
      · exact h.single p q c hp hq
      · exact absurd rfl (hold hp)
    · rcases hmem hq with hq | ⟨rfl, -⟩
      · exact absurd rfl (hold hq)
      · rfl
  · intro p
    rw [subscribed_subscribe hroom]
    split
    · refine List.nodup_append.mpr ⟨h.distinct peerID, List.nodup_singleton _, ?_⟩
      intro c hc d hd
      rw [List.mem_singleton.mp hd]
      exact hold hc
    · exact h.distinct p
  · intro c
    rw [hchan]
    by_cases hc : c = b.size
    · rw [hc, hfill.new]
    · rw [hfill.old c hc]
      exact h.fifo c
  · show (b.fill peerID now).blocked = false ∧ (b.fill peerID now).panicked = false
    rw [hfill.blocked, hfill.panicked]
    exact h.running

theorem Wired.unsubscribe (h : b.Wired) : (b.unsubscribeSignals peerID ch).Wired := by
  unfold unsubscribeSignals
  split
  · rename_i hch
    have hsubs (p : String) : subscribed { b with
        signals := b.signals.insert peerID ((b.subscribed peerID).erase ch) } p =
        if p = peerID then (b.subscribed peerID).erase ch else b.subscribed p :=
      subscribed_insert _ _ _ _
    have hmem {p : String} {c : ChanRef} (hc : c ∈ subscribed { b with
        signals := b.signals.insert peerID ((b.subscribed peerID).erase ch) } p) :
        c ∈ b.subscribed p ∧ c ≠ ch := by
      rw [hsubs] at hc
      split at hc
      · rename_i hp
        subst hp
        exact ((h.distinct p).mem_erase_iff.mp hc).symm
      · rename_i hp
        refine ⟨hc, ?_⟩
        rintro rfl
        exact hp (h.single p peerID c hc hch)
    constructor
    · intro p c hc
      obtain ⟨hc, hne⟩ := hmem hc
      refine ⟨(h.usable p c hc).1, ?_⟩
      show (Function.update b.chan ch _ c).closed = false
      rw [Function.update_of_ne hne]
      exact (h.usable p c hc).2
    · intro p q c hp hq
      exact h.single p q c (hmem hp).1 (hmem hq).1
    · intro p
      show (subscribed { b with
        signals := b.signals.insert peerID ((b.subscribed peerID).erase ch) } p).Nodup
      rw [hsubs]
      split
      · exact (h.distinct peerID).erase ch
      · exact h.distinct p
    · intro c
      show (Function.update b.chan ch { b.chan ch with closed := true } c).buffer <:+
        (Function.update b.chan ch { b.chan ch with closed := true } c).log
      by_cases hc : c = ch
      · subst hc
        rw [Function.update_self]
        exact h.fifo c
      · rw [Function.update_of_ne hc]
        exact h.fifo c
    · refine ⟨h.running.1, ?_⟩
      show (b.panicked || (b.chan ch).closed) = false
      rw [h.running.2, (h.usable peerID ch hch).2]
      rfl
  · exact h

theorem Wired.receive (h : b.Wired) : (b.receive ch).Wired := by
  have hclosed (c : ChanRef) : ((b.receive ch).chan c).closed = (b.chan c).closed := by
    show (Function.update b.chan ch _ c).closed = _
    by_cases hc : c = ch
    · subst hc
      rw [Function.update_self]
    · rw [Function.update_of_ne hc]
  refine ⟨fun p c hc => ?_, h.single, h.distinct, fun c => ?_, h.running⟩
  · rw [hclosed]
    exact h.usable p c hc
  · show (Function.update b.chan ch { b.chan ch with buffer := (b.chan ch).buffer.tail } c).buffer <:+
      (Function.update b.chan ch { b.chan ch with buffer := (b.chan ch).buffer.tail } c).log
    by_cases hc : c = ch
    · subst hc
      rw [Function.update_self]
      exact (List.tail_suffix _).trans (h.fifo c)
    · rw [Function.update_of_ne hc]
      exact h.fifo c

/-- The recipient gets no place among those that have held signals. -/
def refuses (b : Bus) (peerID : String) (now : Int) : Bool :=
  b.crowded peerID && decide ((b.purge now).entries.length ≥ maxPendingRecipients)

theorem lookup_purge (b : Bus) (now : Int) (p : String) :
    ((b.purge now).lookup p).getD [] = b.held p ∨
      ((b.purge now).lookup p).getD [] = [] ∧
        ((b.held p).getLast?.any fun x => x.young now) = false := by
  rw [held]
  cases hp : b.pending.lookup p with
  | none =>
    have hnone : (b.purge now).lookup p = none := by
      refine Option.eq_none_iff_forall_ne_some.mpr fun l hl => ?_
      rw [(lookup_keepValues_eq_some.mp hl).1] at hp
      cases hp
    exact .inl (by rw [hnone])
  | some l =>
    cases hyoung : l.getLast?.any fun x => x.young now with
    | true =>
      refine .inl ?_
      rw [purge, lookup_keepValues_eq_some.mpr ⟨hp, hyoung⟩]
    | false =>
      have hnone : (b.purge now).lookup p = none := by
        refine Option.eq_none_iff_forall_ne_some.mpr fun l' hl => ?_
        obtain ⟨hl, htrue⟩ := lookup_keepValues_eq_some.mp hl
        obtain rfl := Option.mem_unique hp hl
        rw [hyoung] at htrue
        cases htrue
      exact .inr ⟨by rw [hnone, Option.getD_none], hyoung⟩

theorem held_store (m : AList fun _ : String => List PendingSignal) (p : String) :
    (b.store m msg now).held p = if p = msg.toPeerID then
      lastN maxPendingPerPeer (((m.lookup msg.toPeerID).getD []).filter (·.young now) ++ [⟨msg, now⟩])
      else (m.lookup p).getD [] := by
  rw [held, store]
  split
  · rename_i h
    rw [h, AList.lookup_insert, Option.getD_some]
  · rename_i h
    rw [AList.lookup_insert_ne h]

theorem held_of_crowded (h : b.crowded peerID = true) : b.held peerID = [] := by
  have hnone : b.pending.lookup peerID = none := by simpa using (Bool.and_eq_true_iff.mp h).1
  rw [held, hnone]
  rfl

/-- What `holdLocked` does to the signals of each recipient: it appends the signal to those of its
own recipient, unless this one is refused, and may forget recipients whose last signal expired. -/
theorem held_holdLocked (b : Bus) (msg : SignalMsg) (now : Int) (p : String) :
    (p = msg.toPeerID ∧ b.refuses msg.toPeerID now = false ∧ (b.holdLocked msg now).held p =
      lastN maxPendingPerPeer ((b.held p).filter (·.young now) ++ [⟨msg, now⟩])) ∨
    ((p ≠ msg.toPeerID ∨ b.refuses msg.toPeerID now = true) ∧
      ((b.holdLocked msg now).held p = b.held p ∨ ((b.holdLocked msg now).held p = [] ∧
        ((b.held p).getLast?.any fun x => x.young now) = false))) := by
  unfold holdLocked
  split
  · rename_i hcrowded
    split
    · rename_i hfull
      have hrefuses : b.refuses msg.toPeerID now = true := by
        rw [refuses, hcrowded, Bool.true_and]
        exact decide_eq_true hfull
      exact .inr ⟨.inr hrefuses, lookup_purge b now p⟩
    · rename_i hroom
      have hrefuses : b.refuses msg.toPeerID now = false := by
        rw [refuses, hcrowded, Bool.true_and]
        exact decide_eq_false hroom
      rw [held_store]
      by_cases hp : p = msg.toPeerID
      · subst hp
        have hnone : b.held msg.toPeerID = [] := held_of_crowded hcrowded
        refine .inl ⟨rfl, hrefuses, ?_⟩
        rw [if_pos rfl]
        rcases lookup_purge b now msg.toPeerID with h | ⟨h, -⟩
        · rw [h]
        · rw [h, hnone]
      · rw [if_neg hp]
        exact .inr ⟨.inl hp, lookup_purge b now p⟩
  · rename_i hroom
    have hrefuses : b.refuses msg.toPeerID now = false := by
      rw [refuses, Bool.eq_false_iff.mpr hroom, Bool.false_and]
    rw [held_store]
    by_cases hp : p = msg.toPeerID
    · subst hp
      exact .inl ⟨rfl, hrefuses, if_pos rfl⟩
    · exact .inr ⟨.inl hp, .inl (if_neg hp)⟩

/-- Only held signals change. -/
theorem holdLocked_eq (b : Bus) (msg : SignalMsg) (now : Int) :
    ∃ m, b.holdLocked msg now = { b with pending := m } := by
  unfold holdLocked
  split
  · split
    · exact ⟨_, rfl⟩
    · exact ⟨_, rfl⟩
  · exact ⟨_, rfl⟩

theorem chan_holdLocked (b : Bus) (msg : SignalMsg) (now : Int) :
    (b.holdLocked msg now).chan = b.chan := by
  obtain ⟨m, hm⟩ := b.holdLocked_eq msg now
  rw [hm]

/-- What is held was held before or is the signal, for its recipient. -/
theorem mem_held_holdLocked {now : Int} {p : String} {x : PendingSignal}
    (hx : x ∈ (b.holdLocked msg now).held p) :
    x ∈ b.held p ∨ (p = msg.toPeerID ∧ x.msg = msg) := by
  rcases b.held_holdLocked msg now p with ⟨rfl, -, he⟩ | ⟨-, he | ⟨he, -⟩⟩
  · rw [he] at hx
    rcases List.mem_append.mp (lastN_sublist.subset hx) with hx | hx
    · exact .inl (List.mem_of_mem_filter hx)
    · exact .inr ⟨rfl, by rw [List.mem_singleton.mp hx]⟩
  · exact .inl (he ▸ hx)
  · rw [he] at hx
    cases hx

/-- Held signals do not matter for the channels. -/
theorem Wired.pending (h : b.Wired) (m : AList fun _ : String => List PendingSignal) :
    Wired { b with pending := m } :=
  ⟨h.usable, h.single, h.distinct, h.fifo, h.running⟩

theorem held_erase {p q : String} :
    held { b with pending := b.pending.erase p } q = if q = p then [] else b.held q := by
  rw [held, held]
  split
  · rename_i h
    rw [h, AList.lookup_erase, Option.getD_none]
  · rename_i h
    rw [AList.lookup_erase_ne h]

theorem held_subscribe (hroom : (b.held peerID).length ≤ signalCap) (q : String) :
    (b.subscribeSignals peerID now).held q = if q = peerID then [] else b.held q := by
  have hfill : Filled b peerID _ (b.fill peerID now) := filled_fill hroom
  have hpending : (b.subscribeSignals peerID now).pending = b.pending.erase peerID := hfill.pending
  rw [held, hpending]
  exact held_erase

end Bus

/-- The signal a call has not disposed of. -/
def SendTask.unsent : SendTask → Option SignalMsg
  | .sending msg _ => some msg
  | .upgrading msg => some msg
  | .sent => none

namespace BusSystem

/-- A signal is with its call, or held, or it was put on channels, and never twice. -/
structure Traced (s : BusSystem) : Prop where
  numbered : ∀ (k : Nat) (t : SendTask) (msg : SignalMsg),
    s.calls[k]? = some t → t.unsent = some msg → msg.call = k
  unsent : ∀ t ∈ s.calls, ∀ msg ∈ t.unsent,
    (∀ p, ∀ x ∈ s.bus.held p, x.msg ≠ msg) ∧ ∀ ch, msg ∉ (s.bus.chan ch).log
  addressed : ∀ p, ∀ x ∈ s.bus.held p, x.msg.toPeerID = p ∧ x.msg.call < s.calls.length
  logged : ∀ ch, ∀ msg ∈ (s.bus.chan ch).log, msg.call < s.calls.length
  once : ∀ p, ∀ x ∈ s.bus.held p, ∀ ch, x.msg ∉ (s.bus.chan ch).log
  heldOnce : ∀ p, ((s.bus.held p).map PendingSignal.msg).Nodup
  putOnce : ∀ ch, (s.bus.chan ch).log.Nodup

namespace Traced

variable {s : BusSystem} {b' : Bus} {k : Nat} {t t' : SendTask} {msg : SignalMsg} {now : Int}

/-- Held signals may go, everything else stays. -/
theorem shrink (h : s.Traced) (b' : Bus) (hheld : ∀ p, (b'.held p).Sublist (s.bus.held p))
    (hlog : ∀ ch, (b'.chan ch).log = (s.bus.chan ch).log) (clock : Int) :
    Traced ⟨b', s.calls, clock⟩ where
  numbered := h.numbered
  unsent t ht msg hmsg := by
    obtain ⟨hnot, hput⟩ := h.unsent t ht msg hmsg
    refine ⟨fun p x hx => hnot p x ((hheld p).subset hx), fun ch => ?_⟩
    rw [hlog]
    exact hput ch
  addressed p x hx := h.addressed p x ((hheld p).subset hx)
  logged ch msg hmsg := by
    rw [hlog] at hmsg
    exact h.logged ch msg hmsg
  once p x hx ch := by
    rw [hlog]
    exact h.once p x ((hheld p).subset hx) ch
  heldOnce p := (h.heldOnce p).sublist ((hheld p).map _)
  putOnce ch := by
    rw [hlog]
    exact h.putOnce ch

theorem call (h : s.Traced) (msg : SignalMsg) (hold : Bool) (hmsg : msg.call = s.calls.length) :
    Traced { s with calls := s.calls ++ [.sending msg hold] } := by
  have hlength : (s.calls ++ [SendTask.sending msg hold]).length = s.calls.length + 1 :=
    List.length_append
  constructor
  · intro k t m hk hm
    rcases getElem?_snoc_eq_some.mp hk with hk | ⟨rfl, rfl⟩
    · exact h.numbered k t m hk hm
    · obtain rfl := Option.some.inj hm
      exact hmsg
  · intro t ht m hm
    rcases List.mem_append.mp ht with ht | ht
    · exact h.unsent t ht m hm
    · rw [List.mem_singleton.mp ht] at hm
      obtain rfl := Option.some.inj hm
      refine ⟨fun p x hx he => ?_, fun ch hlog => ?_⟩
      · have := (h.addressed p x hx).2
        rw [he, hmsg] at this
        exact this.false
      · have := h.logged ch msg hlog
        rw [hmsg] at this
        exact this.false
  · intro p x hx
    rw [hlength]
    exact ⟨(h.addressed p x hx).1, Nat.lt_succ_of_lt (h.addressed p x hx).2⟩
  · intro ch m hm
    rw [hlength]
    exact Nat.lt_succ_of_lt (h.logged ch m hm)
  · exact h.once
  · exact h.heldOnce
  · exact h.putOnce

/-- The calls that have a signal left after one of them went on. -/
theorem unsent_set {u : SendTask} {m : SignalMsg} (h : s.Traced)
    (hk : s.calls[k]? = some t) (hmsg : t.unsent = some msg) (hu : u ∈ s.calls.set k t')
    (hm : u.unsent = some m) : (u = t' ∧ t'.unsent = some m) ∨ (u ∈ s.calls ∧ m ≠ msg) := by
  obtain ⟨j, hj⟩ := List.getElem?_of_mem hu
  rcases getElem?_set_eq_some hj with ⟨-, rfl⟩ | ⟨hne, hj⟩
  · exact .inl ⟨rfl, hm⟩
  · refine .inr ⟨List.mem_of_getElem? hj, ?_⟩
    rintro rfl
    exact hne ((h.numbered j u m hj hm).symm.trans (h.numbered k t m hk hmsg))

theorem numbered_set (h : s.Traced) (hk : s.calls[k]? = some t)
    (hkeep : ∀ m, t'.unsent = some m → t.unsent = some m) {j : Nat} {u : SendTask}
    {m : SignalMsg} (hj : (s.calls.set k t')[j]? = some u) (hm : u.unsent = some m) :
    m.call = j := by
  rcases getElem?_set_eq_some hj with ⟨rfl, rfl⟩ | ⟨-, hj⟩
  · exact h.numbered j t m hk (hkeep m hm)
  · exact h.numbered j u m hj hm

/-- A call takes the write lock. -/
theorem upgrade {hold : Bool} (h : s.Traced) (hk : s.calls[k]? = some (.sending msg hold))
    (clock : Int) :
    Traced ⟨s.bus, s.calls.set k (if hold then .upgrading msg else .sent), clock⟩ := by
  have hkeep (m : SignalMsg) (hm : (if hold then SendTask.upgrading msg else .sent).unsent = some m) :
      (SendTask.sending msg hold).unsent = some m := by
    cases hold with
    | true => exact hm
    | false => cases hm
  constructor
  · exact fun j u m hj hm => h.numbered_set hk hkeep hj hm
  · intro u hu m hm
    rcases h.unsent_set hk rfl hu hm with ⟨-, hm⟩ | ⟨hu, -⟩
    · exact h.unsent _ (List.mem_of_getElem? hk) m (hkeep m hm)
    · exact h.unsent u hu m hm
  · rw [List.length_set]
    exact h.addressed
  · rw [List.length_set]
    exact h.logged
  · exact h.once
  · exact h.heldOnce
  · exact h.putOnce

/-- A call puts its signal on channels. -/
theorem put {chs : List ChanRef} (h : s.Traced) (hk : s.calls[k]? = some t)
    (hmsg : t.unsent = some msg) (hfed : Bus.Fed msg chs s.bus b') (clock : Int) :
    Traced ⟨b', s.calls.set k .sent, clock⟩ := by
  obtain ⟨hnot, hnew⟩ := h.unsent t (List.mem_of_getElem? hk) msg hmsg
  have hheld (p : String) : b'.held p = s.bus.held p := by
    rw [Bus.held, hfed.pending, Bus.held]
  have hlog {c : ChanRef} {m : SignalMsg} (hm : m ∈ (b'.chan c).log) :
      m ∈ (s.bus.chan c).log ∨ m = msg := by
    rcases hfed.chan c with hc | ⟨-, hc⟩
    · rw [hc] at hm
      exact .inl hm
    · rw [hc] at hm
      exact (List.mem_append.mp hm).imp_right List.mem_singleton.mp
  constructor
  · exact fun j u m hj hm => h.numbered_set hk (fun _ h => by cases h) hj hm
  · intro u hu m hm
    rcases h.unsent_set hk hmsg hu hm with ⟨-, hm⟩ | ⟨hu, hne⟩
    · cases hm
    · obtain ⟨hm, hput⟩ := h.unsent u hu m hm
      refine ⟨fun p x hx => hm p x (hheld p ▸ hx), fun c hc => ?_⟩
      exact (hlog hc).elim (hput c) hne
  · intro p x hx
    rw [List.length_set]
    exact h.addressed p x (hheld p ▸ hx)
  · intro c m hm
    rw [List.length_set]
    rcases hlog hm with hm | rfl
    · exact h.logged c m hm
    · rw [h.numbered k t m hk hmsg]
      exact (List.getElem?_eq_some_iff.mp hk).1
  · intro p x hx c hc
    have hx : x ∈ s.bus.held p := hheld p ▸ hx
    exact (hlog hc).elim (h.once p x hx c) (hnot p x hx)
  · intro p
    show ((b'.held p).map _).Nodup
    rw [hheld]
    exact h.heldOnce p
  · intro c
    rcases hfed.chan c with hc | ⟨-, hc⟩
    · rw [hc]
      exact h.putOnce c
    · rw [hc]
      refine List.nodup_append.mpr ⟨h.putOnce c, List.nodup_singleton _, ?_⟩
      rintro m hm m' hm' rfl
      rw [List.mem_singleton.mp hm'] at hm
      exact hnew c hm

/-- A call leaves its signal to be held. -/
theorem hold (h : s.Traced) (hk : s.calls[k]? = some t) (hmsg : t.unsent = some msg) :
    Traced ⟨s.bus.holdLocked msg now, s.calls.set k .sent, now⟩ := by
  obtain ⟨hnot, hnew⟩ := h.unsent t (List.mem_of_getElem? hk) msg hmsg
  have hchan := s.bus.chan_holdLocked msg now
  constructor
  · exact fun j u m hj hm => h.numbered_set hk (fun _ h => by cases h) hj hm
  · intro u hu m hm
    rcases h.unsent_set hk hmsg hu hm with ⟨-, hm⟩ | ⟨hu, hne⟩
    · cases hm
    · obtain ⟨hm, hput⟩ := h.unsent u hu m hm
      refine ⟨fun p x hx => ?_, fun c => by rw [hchan]; exact hput c⟩
      rcases Bus.mem_held_holdLocked hx with hx | ⟨-, he⟩
      · exact hm p x hx
      · rw [he]
        exact hne.symm
  · intro p x hx
    rw [List.length_set]
    rcases Bus.mem_held_holdLocked hx with hx | ⟨rfl, he⟩
    · exact h.addressed p x hx
    · rw [he, h.numbered k t msg hk hmsg]
      exact ⟨rfl, (List.getElem?_eq_some_iff.mp hk).1⟩
  · intro c m hm
    rw [List.length_set]
    exact h.logged c m (hchan ▸ hm)
  · intro p x hx c
    rw [hchan]
    rcases Bus.mem_held_holdLocked hx with hx | ⟨-, he⟩
    · exact h.once p x hx c
    · rw [he]
      exact hnew c
  · intro p
    rcases s.bus.held_holdLocked msg now p with ⟨rfl, -, he⟩ | ⟨-, he | ⟨he, -⟩⟩
    · refine List.Nodup.sublist (he ▸ lastN_sublist.map _) ?_
      rw [List.map_append]
      refine List.nodup_append.mpr ⟨(h.heldOnce _).sublist (List.filter_sublist.map _),
        List.nodup_singleton _, ?_⟩
      rintro m hm m' hm' rfl
      obtain ⟨x, hx, rfl⟩ := List.mem_map.mp hm
      exact hnot _ x (List.mem_of_mem_filter hx) (List.mem_singleton.mp hm')
    · exact he ▸ h.heldOnce p
    · rw [he]
      exact List.nodup_nil
  · intro c
    rw [hchan]
    exact h.putOnce c

/-- A recipient subscribes. -/
theorem subscribe {peerID : String} (h : s.Traced)
    (hroom : (s.bus.held peerID).length ≤ signalCap) :
    Traced ⟨s.bus.subscribeSignals peerID now, s.calls, now⟩ := by
  have hfill : Bus.Filled s.bus peerID _ (s.bus.fill peerID now) := Bus.filled_fill hroom
  have hheld {p : String} {x : PendingSignal}
      (hx : x ∈ (s.bus.subscribeSignals peerID now).held p) : x ∈ s.bus.held p ∧ p ≠ peerID := by
    rw [Bus.held_subscribe hroom] at hx
    split at hx
    · cases hx
    · rename_i hne
      exact ⟨hx, hne⟩
  have hlog {c : ChanRef} {m : SignalMsg}
      (hm : m ∈ ((s.bus.subscribeSignals peerID now).chan c).log) :
      m ∈ (s.bus.chan c).log ∨ ∃ x ∈ s.bus.held peerID, x.msg = m := by
    have hm : m ∈ ((s.bus.fill peerID now).chan c).log := hm
    by_cases hc : c = s.bus.size
    · rw [hc, hfill.new] at hm
      obtain ⟨x, hx, rfl⟩ := List.mem_map.mp hm
      exact .inr ⟨x, List.mem_of_mem_filter hx, rfl⟩
    · rw [hfill.old c hc] at hm
      exact .inl hm
  constructor
  · exact h.numbered
  · intro u hu m hm
    obtain ⟨hnot, hput⟩ := h.unsent u hu m hm
    refine ⟨fun p x hx => hnot p x (hheld hx).1, fun c hc => ?_⟩
    rcases hlog hc with hc | ⟨x, hx, he⟩
    · exact hput c hc
    · exact hnot peerID x hx he
  · exact fun p x hx => h.addressed p x (hheld hx).1
  · intro c m hm
    rcases hlog hm with hm | ⟨x, hx, rfl⟩
    · exact h.logged c m hm
    · exact (h.addressed peerID x hx).2
  · intro p x hx c hc
    obtain ⟨hx, hne⟩ := hheld hx
    rcases hlog hc with hc | ⟨y, hy, he⟩
    · exact h.once p x hx c hc
    · refine hne ?_
      rw [← (h.addressed p x hx).1, ← he, (h.addressed peerID y hy).1]
  · intro p
    rw [Bus.held_subscribe hroom]
    split
    · exact List.nodup_nil
    · exact h.heldOnce p
  · intro c
    show ((s.bus.fill peerID now).chan c).log.Nodup
    by_cases hc : c = s.bus.size
    · rw [hc, hfill.new]
      exact (h.heldOnce peerID).sublist (List.filter_sublist.map _)
    · rw [hfill.old c hc]
      exact h.putOnce c

end Traced

/-- The signal a step puts among the held ones. -/
def holds (s : BusSystem) : BusStep → Option PendingSignal
  | .advance k now =>
    match s.calls[k]? with
    | some (.upgrading msg) =>
      if s.bus.subscribed msg.toPeerID = [] ∧ s.bus.refuses msg.toPeerID now = false then
        some ⟨msg, now⟩
      else none
    | _ => none
  | _ => none

end BusSystem

/-- The recipient whose held signals a step delivers or forgets. -/
def BusStep.clears : BusStep → Option String
  | .subscribe peerID _ => some peerID
  | .drop peerID => some peerID
  | _ => none

namespace BusSystem

/-- The signals held for a recipient by the steps of a run since it last subscribed or was
dropped. -/
def heldSince (peerID : String) (past : List (BusSystem × BusStep)) : List PendingSignal :=
  past.foldl (fun held x =>
    if x.2.clears = some peerID then []
    else held ++ ((x.1.holds x.2).filter (·.msg.toPeerID = peerID)).toList) []

theorem heldSince_snoc (peerID : String) (past : List (BusSystem × BusStep))
    (x : BusSystem × BusStep) : heldSince peerID (past ++ [x]) =
      if x.2.clears = some peerID then []
      else heldSince peerID past ++
        ((x.1.holds x.2).filter (·.msg.toPeerID = peerID)).toList := by
  rw [heldSince, List.foldl_append]
  rfl

/-- Signals in the order in which they were held, not after the clock. -/
structure InOrder (clock : Int) (l : List PendingSignal) : Prop where
  sorted : l.Pairwise fun x y => x.heldAt ≤ y.heldAt
  passed : ∀ x ∈ l, x.heldAt ≤ clock

/-- The held signals of a recipient are the last ones of its history, up to expired ones. -/
structure Recalls (clock : Int) (history held : List PendingSignal) : Prop where
  told : InOrder clock history
  kept : InOrder clock held
  bounded : held.length ≤ maxPendingPerPeer
  agree : ∀ now, clock ≤ now → held.filter (·.young now) =
    lastN maxPendingPerPeer (history.filter (·.young now))

section Recalls

variable {clock now : Int} {history held : List PendingSignal} {msg : SignalMsg}

theorem InOrder.mono (h : InOrder clock held) (hclock : clock ≤ now) : InOrder now held :=
  ⟨h.sorted, fun x hx => (h.passed x hx).trans hclock⟩

theorem InOrder.sublist {l : List PendingSignal} (h : InOrder clock held) (hl : l.Sublist held) :
    InOrder clock l :=
  ⟨h.sorted.sublist hl, fun x hx => h.passed x (hl.subset hx)⟩

theorem InOrder.snoc (h : InOrder now held) : InOrder now (held ++ [⟨msg, now⟩]) := by
  refine ⟨List.pairwise_append.mpr ⟨h.sorted, List.pairwise_singleton _ _, ?_⟩, ?_⟩
  · intro x hx y hy
    rw [List.mem_singleton.mp hy]
    exact h.passed x hx
  · intro x hx
    rcases List.mem_append.mp hx with hx | hx
    · exact h.passed x hx
    · rw [List.mem_singleton.mp hx]

/-- Once a signal is young, so are those after it. -/
theorem InOrder.young (h : InOrder clock held) (now : Int) :
    held.Pairwise fun x y => x.young now = true → y.young now = true := by
  refine h.sorted.imp fun {x y} hle hx => ?_
  have hx := of_decide_eq_true hx
  exact decide_eq_true (hx.trans_le hle)

theorem InOrder.filter_lastN (h : InOrder clock held) (now : Int) :
    (lastN maxPendingPerPeer held).filter (·.young now) =
      lastN maxPendingPerPeer (held.filter (·.young now)) :=
  Veld.filter_lastN (h.young now)

theorem recalls_nil : Recalls clock [] [] :=
  ⟨⟨List.Pairwise.nil, nofun⟩, ⟨List.Pairwise.nil, nofun⟩, Nat.zero_le _, fun _ _ => rfl⟩

theorem Recalls.mono (h : Recalls clock history held) (hclock : clock ≤ now) :
    Recalls now history held :=
  ⟨h.told.mono hclock, h.kept.mono hclock, h.bounded, fun now' hnow =>
    h.agree now' (hclock.trans hnow)⟩

/-- A signal that expired stays expired. -/
theorem filter_young_filter {now' : Int} (h : now ≤ now') (l : List PendingSignal) :
    (l.filter (·.young now)).filter (·.young now') = l.filter (·.young now') := by
  rw [List.filter_filter]
  refine List.filter_congr fun x _ => ?_
  rw [Bool.and_eq_left_iff_imp]
  intro hx
  have hx := of_decide_eq_true hx
  exact decide_eq_true (by omega)

/-- A signal is held. -/
theorem Recalls.hold (h : Recalls clock history held) (hclock : clock ≤ now) (msg : SignalMsg) :
    Recalls now (history ++ [⟨msg, now⟩])
      (lastN maxPendingPerPeer (held.filter (·.young now) ++ [⟨msg, now⟩])) := by
  have hkept := (h.kept.mono hclock).sublist (List.filter_sublist (p := (·.young now)))
  refine ⟨(h.told.mono hclock).snoc, hkept.snoc.sublist lastN_sublist, length_lastN_le, ?_⟩
  intro now' hnow
  rw [hkept.snoc.filter_lastN, List.filter_append, filter_young_filter hnow,
    h.agree now' (hclock.trans hnow), lastN_append, ← List.filter_append]

/-- A recipient whose last signal has expired is forgotten. -/
theorem Recalls.forget (h : Recalls clock history held) (hclock : clock ≤ now)
    (hlast : (held.getLast?.any fun x => x.young now) = false) : Recalls now history [] := by
  refine ⟨h.told.mono hclock, ⟨List.Pairwise.nil, nofun⟩, Nat.zero_le _, fun now' hnow => ?_⟩
  rw [← h.agree now' (hclock.trans hnow), ← filter_young_filter hnow held]
  have hnone : held.filter (·.young now) = [] := by
    rcases List.eq_nil_or_concat held with rfl | ⟨l, y, rfl⟩
    · rfl
    · rw [List.concat_eq_append] at hlast ⊢
      rw [List.getLast?_concat, Option.any_some] at hlast
      have hyoung := h.kept.young now
      rw [List.concat_eq_append, List.pairwise_append] at hyoung
      refine List.filter_eq_nil_iff.mpr fun x hx hxyoung => ?_
      rcases List.mem_append.mp hx with hx | hx
      · rw [hyoung.2.2 x hx y (List.mem_singleton_self y) hxyoung] at hlast
        cases hlast
      · rw [List.mem_singleton.mp hx, hlast] at hxyoung
        cases hxyoung
  rw [hnone]

end Recalls

/-- The invariant of the bus over a run. -/
structure Sound (past : List (BusSystem × BusStep)) (s : BusSystem) : Prop where
  wired : s.bus.Wired
  traced : s.Traced
  recalls : ∀ p, Recalls s.clock (heldSince p past) (s.bus.held p)
  nonempty : ∀ p l, s.bus.pending.lookup p = some l → l ≠ []
  few : s.bus.pending.entries.length ≤ maxPendingRecipients

end BusSystem

namespace Bus

variable {b : Bus} {msg : SignalMsg} {peerID : String} {now : Int}

theorem length_insert_le {m : AList fun _ : String => List PendingSignal} {p : String}
    {l : List PendingSignal} (h : m.entries.length < maxPendingRecipients ∨ (m.lookup p).isSome)
    (hm : m.entries.length ≤ maxPendingRecipients) :
    (m.insert p l).entries.length ≤ maxPendingRecipients := by
  rcases h with h | h
  · have hle := (List.kerase_sublist p m.entries).length_le
    rw [AList.entries_insert, List.length_cons]
    omega
  · have hlength (m : AList fun _ : String => List PendingSignal) :
        m.keys.length = m.entries.length := List.length_map _
    have hmem : p ∈ m.keys := AList.mem_keys.mp (AList.lookup_isSome.mp h)
    have hpos := List.length_pos_of_mem hmem
    rw [← hlength, AList.keys_insert, List.length_cons, List.length_erase_of_mem hmem, hlength]
    rw [hlength] at hpos
    omega

theorem length_erase_le (m : AList fun _ : String => List PendingSignal) (p : String) :
    (m.erase p).entries.length ≤ m.entries.length :=
  (List.kerase_sublist p m.entries).length_le

theorem few_holdLocked (h : b.pending.entries.length ≤ maxPendingRecipients) :
    (b.holdLocked msg now).pending.entries.length ≤ maxPendingRecipients := by
  have hpurge : (b.purge now).entries.length ≤ b.pending.entries.length :=
    List.length_filter_le _ _
  unfold holdLocked
  split
  · split
    · exact hpurge.trans h
    · rename_i hroom
      exact length_insert_le (.inl (Nat.lt_of_not_le hroom)) (hpurge.trans h)
  · rename_i hroom
    refine length_insert_le ?_ h
    rw [crowded, Bool.and_eq_true, not_and_or, Option.isNone_iff_eq_none, ← ne_eq,
      ← Option.isSome_iff_ne_none, decide_eq_true_eq] at hroom
    exact hroom.symm.imp_left Nat.lt_of_not_le

theorem some_holdLocked (h : ∀ p l, b.pending.lookup p = some l → l ≠ []) (p : String)
    (l : List PendingSignal) (hl : (b.holdLocked msg now).pending.lookup p = some l) : l ≠ [] := by
  have hstore {m : AList fun _ : String => List PendingSignal}
      (hm : ∀ p l, m.lookup p = some l → l ≠ [])
      (hl : (b.store m msg now).pending.lookup p = some l) : l ≠ [] := by
    rcases lookup_insert_eq_some.mp hl with ⟨-, rfl⟩ | ⟨-, hl⟩
    · exact lastN_append_singleton_ne_nil (by decide)
    · exact hm p l hl
  have hpurge (p : String) (l : List PendingSignal) (hl : (b.purge now).lookup p = some l) :
      l ≠ [] := h p l (lookup_keepValues_eq_some.mp hl).1
  unfold holdLocked at hl
  split at hl
  · split at hl
    · exact hpurge p l hl
    · exact hstore hpurge hl
  · exact hstore h hl

/-- A recipient is refused only while enough others have a signal that has not expired. -/
theorem others_of_refuses (h : b.refuses peerID now = true) :
    ∃ others : List String, others.Nodup ∧ maxPendingRecipients ≤ others.length ∧
      ∀ id ∈ others, id ≠ peerID ∧ ∃ x ∈ b.held id, x.young now = true := by
  obtain ⟨hcrowded, hfull⟩ := Bool.and_eq_true_iff.mp h
  have hnone : b.pending.lookup peerID = none := by
    simpa using (Bool.and_eq_true_iff.mp hcrowded).1
  refine ⟨(b.purge now).keys, (b.purge now).keys_nodup, ?_, ?_⟩
  · rw [AList.keys, List.keys, List.length_map]
    exact of_decide_eq_true hfull
  · intro id hid
    obtain ⟨l, hl⟩ := Option.isSome_iff_exists.mp (AList.lookup_isSome.mpr (AList.mem_keys.mp hid))
    obtain ⟨hold, hyoung⟩ := lookup_keepValues_eq_some.mp hl
    refine ⟨?_, ?_⟩
    · rintro rfl
      rw [hnone] at hold
      cases hold
    · rw [held, hold, Option.getD_some]
      cases hlast : l.getLast? with
      | none =>
        rw [hlast] at hyoung
        cases hyoung
      | some x =>
        rw [hlast] at hyoung
        exact ⟨x, List.mem_of_getLast? hlast, hyoung⟩

end Bus

namespace BusSystem

variable {s : BusSystem} {past : List (BusSystem × BusStep)} {step : BusStep} {b' : Bus}
  {calls : List SendTask} {clock : Int} {steps : List BusStep} {ch : ChanRef}

/-- A step that does not touch the held signals. -/
theorem Sound.quiet (h : Sound past s) (hclock : s.clock ≤ clock)
    (hpending : b'.pending = s.bus.pending) (hwired : b'.Wired) (htraced : Traced ⟨b', calls, clock⟩)
    (hholds : s.holds step = none) (hclears : step.clears = none) :
    Sound (past ++ [(s, step)]) ⟨b', calls, clock⟩ := by
  have hheld (p : String) : b'.held p = s.bus.held p := by rw [Bus.held, hpending, Bus.held]
  refine ⟨hwired, htraced, fun p => ?_, ?_, ?_⟩
  · rw [heldSince_snoc, hholds, hclears, if_neg nofun]
    show Recalls clock (heldSince p past ++ []) (b'.held p)
    rw [List.append_nil, hheld]
    exact (h.recalls p).mono hclock
  · rw [hpending]
    exact h.nonempty
  · rw [hpending]
    exact h.few

theorem Sound.room (h : Sound past s) (p : String) : (s.bus.held p).length ≤ signalCap :=
  (h.recalls p).bounded.trans (by decide)

/-- A step that delivers or forgets the signals of one recipient. -/
theorem Sound.clear {peerID : String} (h : Sound past s) (hclock : s.clock ≤ clock)
    (hpending : b'.pending = s.bus.pending.erase peerID) (hwired : b'.Wired)
    (htraced : Traced ⟨b', calls, clock⟩) (hclears : step.clears = some peerID) 
    (hholds : s.holds step = none) : Sound (past ++ [(s, step)]) ⟨b', calls, clock⟩ := by
  have hheld (p : String) : b'.held p = if p = peerID then [] else s.bus.held p := by
    rw [Bus.held, hpending]
    exact Bus.held_erase
  refine ⟨hwired, htraced, fun p => ?_, ?_, ?_⟩
  · rw [heldSince_snoc, hholds, hclears]
    show Recalls clock _ (b'.held p)
    rw [hheld]
    by_cases hp : p = peerID
    · rw [if_pos (congrArg some hp.symm), if_pos hp]
      exact recalls_nil
    · rw [if_neg fun he => hp (Option.some.inj he).symm, if_neg hp]
      show Recalls clock (heldSince p past ++ []) _
      rw [List.append_nil]
      exact (h.recalls p).mono hclock
  · intro p l hl
    rw [hpending] at hl
    exact h.nonempty p l (lookup_erase_eq_some.mp hl).2
  · rw [hpending]
    exact (Bus.length_erase_le _ _).trans h.few

/-- The second critical section of a call without subscribers. -/
theorem Sound.hold {k : Nat} {msg : SignalMsg} {now : Int} (h : Sound past s)
    (hclock : s.clock ≤ now) (hk : s.calls[k]? = some (.upgrading msg))
    (hsubs : s.bus.subscribed msg.toPeerID = []) :
    Sound (past ++ [(s, .advance k now)])
      ⟨s.bus.holdLocked msg now, s.calls.set k .sent, now⟩ := by
  have hholds : s.holds (.advance k now) =
      if s.bus.refuses msg.toPeerID now = false then some ⟨msg, now⟩ else none := by
    simp [holds, hk, hsubs]
  refine ⟨?_, h.traced.hold hk rfl, fun p => ?_, Bus.some_holdLocked h.nonempty,
    Bus.few_holdLocked h.few⟩
  · obtain ⟨m, hm⟩ := s.bus.holdLocked_eq msg now
    rw [hm]
    exact h.wired.pending m
  · rw [heldSince_snoc, if_neg nofun, hholds]
    show Recalls now _ ((s.bus.holdLocked msg now).held p)
    rcases s.bus.held_holdLocked msg now p with ⟨rfl, hroom, he⟩ | ⟨hnot, he⟩
    · rw [he, if_pos hroom, Option.filter_some, if_pos (decide_eq_true rfl)]
      exact (h.recalls _).hold hclock msg
    · have hnothing : ((if s.bus.refuses msg.toPeerID now = false then some ⟨msg, now⟩ else none :
          Option PendingSignal).filter fun x => x.msg.toPeerID = p).toList = [] := by
        rcases hnot with hp | hrefuses
        · split
          · rw [Option.filter_some, if_neg (by simpa using Ne.symm hp)]
            rfl
          · rfl
        · rw [hrefuses]
          rfl
      rw [hnothing, List.append_nil]
      rcases he with he | ⟨he, hexpired⟩
      · rw [he]
        exact (h.recalls p).mono hclock
      · rw [he]
        exact (h.recalls p).forget hclock hexpired

theorem Sound.advance {k : Nat} {now : Int} (h : Sound past s) (hclock : s.clock ≤ now) :
    Sound (past ++ [(s, .advance k now)]) (s.next (.advance k now)) := by
  simp only [BusSystem.next]
  cases hk : s.calls[k]? with
  | none =>
    refine h.quiet le_rfl rfl h.wired h.traced ?_ rfl
    simp only [holds, hk]
  | some t =>
    have hdeliver (msg : SignalMsg) : Bus.Fed msg (s.bus.subscribed msg.toPeerID) s.bus
        (s.bus.deliver (s.bus.subscribed msg.toPeerID) msg) :=
      Bus.fed_deliver (fun ch hch => (h.wired.usable _ ch hch).2) (h.wired.distinct _)
    cases t with
    | sending msg hold =>
      have hholds : s.holds (.advance k now) = none := by simp only [holds, hk]
      simp only [Bus.step]
      split
      · exact h.quiet hclock rfl h.wired (h.traced.upgrade hk now) hholds rfl
      · exact h.quiet hclock (hdeliver msg).pending ((hdeliver msg).wired h.wired)
          (h.traced.put hk rfl (hdeliver msg) now) hholds rfl
    | upgrading msg =>
      simp only [Bus.step]
      split
      · rename_i hsubs
        exact h.hold hclock hk hsubs
      · rename_i hsubs
        refine h.quiet hclock (hdeliver msg).pending ((hdeliver msg).wired h.wired)
          (h.traced.put hk rfl (hdeliver msg) now) ?_ rfl
        simp [holds, hk, hsubs]
    | sent =>
      have hsame : s.calls.set k .sent = s.calls := by
        obtain ⟨hlt, he⟩ := List.getElem?_eq_some_iff.mp hk
        rw [← he, List.set_getElem_self]
      simp only [Bus.step, hsame]
      refine h.quiet hclock rfl h.wired (h.traced.shrink s.bus (fun _ => List.Sublist.refl _)
        (fun _ => rfl) now) ?_ rfl
      simp only [holds, hk]

theorem Sound.next (h : Sound past s) (hin : s.InTime step) :
    Sound (past ++ [(s, step)]) (s.next step) := by
  cases step with
  | call fromPeerID toPeerID payload hold =>
    exact h.quiet le_rfl rfl h.wired (h.traced.call _ hold rfl) rfl rfl
  | advance k now => exact h.advance hin
  | subscribe peerID now =>
    have hfill : Bus.Filled s.bus peerID _ (s.bus.fill peerID now) := Bus.filled_fill (h.room peerID)
    exact h.clear hin hfill.pending (h.wired.subscribe (h.room peerID))
      (h.traced.subscribe (h.room peerID)) rfl rfl
  | unsubscribe peerID ch =>
    have hsame : ∃ m f p, s.bus.unsubscribeSignals peerID ch = { s.bus with
        signals := m, chan := f, panicked := p } ∧ ∀ c, (f c).log = (s.bus.chan c).log := by
      unfold Bus.unsubscribeSignals
      split
      · refine ⟨_, _, _, rfl, fun c => ?_⟩
        by_cases hc : c = ch
        · rw [hc, Function.update_self]
        · rw [Function.update_of_ne hc]
      · exact ⟨_, _, _, rfl, fun _ => rfl⟩
    have hwired : (s.bus.unsubscribeSignals peerID ch).Wired := h.wired.unsubscribe
    obtain ⟨m, f, p, he, hlog⟩ := hsame
    simp only [BusSystem.next]
    rw [he] at hwired ⊢
    exact h.quiet le_rfl rfl hwired
      (h.traced.shrink { s.bus with signals := m, chan := f, panicked := p }
        (fun _ => List.Sublist.refl _) hlog s.clock) rfl rfl
  | drop peerID =>
    refine h.clear le_rfl rfl (h.wired.pending _) ?_ rfl rfl
    refine h.traced.shrink (s.bus.dropPendingSignals peerID) (fun p => ?_) (fun _ => rfl) s.clock
    show (Bus.held { s.bus with pending := s.bus.pending.erase peerID } p).Sublist _
    rw [Bus.held_erase]
    split
    · exact List.nil_sublist _
    · exact List.Sublist.refl _
  | receive ch =>
    refine h.quiet le_rfl rfl h.wired.receive ?_ rfl rfl
    refine h.traced.shrink (s.bus.receive ch) (fun _ => List.Sublist.refl _) (fun c => ?_) s.clock
    show (Function.update s.bus.chan ch _ c).log = _
    by_cases hc : c = ch
    · rw [hc, Function.update_self]
    · rw [Function.update_of_ne hc]

/-- The state of the bus after some steps, with an initial clock reading. -/
def reached (start : Int) (steps : List BusStep) : BusSystem := run next { clock := start } steps

/-- The steps so far, each with the state before it. -/
def history (start : Int) (steps : List BusStep) : List (BusSystem × BusStep) :=
  trail next { clock := start } steps

theorem sound_reached {start : Int} (h : Along next InTime { clock := start } steps) :
    Sound (history start steps) (reached start steps) := by
  refine h.invariant Sound ?_ fun _ _ _ hsound hin => hsound.next hin
  refine ⟨⟨nofun, nofun, fun _ => List.nodup_nil, fun _ => List.suffix_rfl, rfl, rfl⟩, ?_,
    fun _ => recalls_nil, nofun, Nat.zero_le _⟩
  exact ⟨nofun, nofun, nofun, nofun, nofun, fun _ => List.nodup_nil, fun _ => List.nodup_nil⟩

/-- Nothing is taken off the log of a channel. -/
theorem Sound.log_prefix (h : Sound past s) (hch : ch < s.bus.size)
    (step : BusStep) : ch < (s.next step).bus.size ∧
      (s.bus.chan ch).log <+: ((s.next step).bus.chan ch).log := by
  have hfed {msg : SignalMsg} {chs : List ChanRef} {b' : Bus} (hf : Bus.Fed msg chs s.bus b') :
      ch < b'.size ∧ (s.bus.chan ch).log <+: (b'.chan ch).log := by
    refine ⟨hf.size ▸ hch, ?_⟩
    rcases hf.chan ch with hc | ⟨-, hc⟩
    · rw [hc]
    · rw [hc]
      exact List.prefix_append _ _
  have hdeliver (msg : SignalMsg) : Bus.Fed msg (s.bus.subscribed msg.toPeerID) s.bus
      (s.bus.deliver (s.bus.subscribed msg.toPeerID) msg) :=
    Bus.fed_deliver (fun ch hch => (h.wired.usable _ ch hch).2) (h.wired.distinct _)
  have hupdate (c : ChanRef) (new : SignalChan) (hnew : new.log = (s.bus.chan c).log) :
      (s.bus.chan ch).log <+: (Function.update s.bus.chan c new ch).log := by
    by_cases hc : ch = c
    · rw [hc, Function.update_self, hnew]
    · rw [Function.update_of_ne hc]
  cases step with
  | call => exact ⟨hch, List.prefix_rfl⟩
  | advance k now =>
    simp only [BusSystem.next]
    cases s.calls[k]? with
    | none => exact ⟨hch, List.prefix_rfl⟩
    | some t =>
      cases t with
      | sending msg hold =>
        simp only [Bus.step]
        split
        · exact ⟨hch, List.prefix_rfl⟩
        · exact hfed (hdeliver msg)
      | upgrading msg =>
        simp only [Bus.step]
        split
        · obtain ⟨m, hm⟩ := s.bus.holdLocked_eq msg now
          rw [hm]
          exact ⟨hch, List.prefix_rfl⟩
        · exact hfed (hdeliver msg)
      | sent => exact ⟨hch, List.prefix_rfl⟩
  | subscribe peerID now =>
    have hfill : Bus.Filled s.bus peerID _ (s.bus.fill peerID now) := Bus.filled_fill (h.room peerID)
    show ch < (s.bus.fill peerID now).size ∧ _ <+: ((s.bus.fill peerID now).chan ch).log
    rw [hfill.size, hfill.old ch hch.ne]
    exact ⟨Nat.lt_succ_of_lt hch, List.prefix_rfl⟩
  | unsubscribe peerID c =>
    simp only [BusSystem.next, Bus.unsubscribeSignals]
    split
    · exact ⟨hch, hupdate c _ rfl⟩
    · exact ⟨hch, List.prefix_rfl⟩
  | drop peerID => exact ⟨hch, List.prefix_rfl⟩
  | receive c => exact ⟨hch, hupdate c _ rfl⟩

theorem Sound.log_prefix_run (h : Sound past s) (hch : ch < s.bus.size) (hsteps : Along BusSystem.next InTime s steps) :
    (s.bus.chan ch).log <+: ((run BusSystem.next s steps).bus.chan ch).log := by
  induction steps generalizing s past with
  | nil => exact List.prefix_rfl
  | cons step steps ih =>
    obtain ⟨hin, hsteps⟩ := along_cons.mp hsteps
    obtain ⟨hlt, hprefix⟩ := h.log_prefix hch step
    exact hprefix.trans (ih (h.next hin) hlt hsteps)

/-- The signals a recipient gets when it subscribes: those held for it since it last subscribed or
was dropped that are young and among the last sixteen. -/
def due (peerID : String) (now : Int) (past : List (BusSystem × BusStep)) : List SignalMsg :=
  ((lastN 16 (heldSince peerID past)).filter (·.young now)).map PendingSignal.msg

/-- Over every run with nondecreasing clock readings: a held signal was never put on a channel, and
no signal is held or put on a channel twice; a new channel gets what is due, which is not held any
more and precedes everything that is put on the channel later; the bounds on held signals hold; a
signal is refused only while 4096 other recipients have one that has not expired; and no send
blocks or goes to a closed channel. -/
theorem signals_held_and_delivered {start : Int} {steps : List BusStep}
    (h : Along next InTime { clock := start } steps) :
    let s := reached start steps
    (∀ p, ∀ x ∈ s.bus.held p, ∀ ch, x.msg ∉ (s.bus.chan ch).log) ∧
    (∀ p, ((s.bus.held p).map PendingSignal.msg).Nodup) ∧
    (∀ ch, (s.bus.chan ch).log.Nodup ∧ (s.bus.chan ch).buffer <:+ (s.bus.chan ch).log) ∧
    (∀ past peerID now later, steps = past ++ .subscribe peerID now :: later →
      let before := reached start past
      let after := before.next (.subscribe peerID now)
      (after.bus.chan before.bus.size).buffer = due peerID now (history start past) ∧
      before.bus.size ∈ after.bus.subscribed peerID ∧ after.bus.held peerID = [] ∧
      due peerID now (history start past) <+: (s.bus.chan before.bus.size).log) ∧
    (∀ p, (s.bus.held p).length ≤ 16) ∧ s.bus.pending.entries.length ≤ 4096 ∧
    (∀ msg now, ⟨msg, now⟩ ∉ (s.bus.holdLocked msg now).held msg.toPeerID →
      ∃ others : List String, others.Nodup ∧ 4096 ≤ others.length ∧
        ∀ id ∈ others, id ≠ msg.toPeerID ∧ ∃ x ∈ s.bus.held id, x.young now = true) ∧
    s.bus.blocked = false ∧ s.bus.panicked = false := by
  intro s
  have hs : Sound (history start steps) s := sound_reached h
  refine ⟨hs.traced.once, hs.traced.heldOnce, fun ch => ⟨hs.traced.putOnce ch, hs.wired.fifo ch⟩,
    ?_, fun p => (hs.recalls p).bounded, hs.few, ?_, hs.wired.running⟩
  · rintro past peerID now later rfl before after
    obtain ⟨hpast, hrest⟩ := along_append.mp h
    obtain ⟨hin, hlater⟩ := along_cons.mp hrest
    have hbefore : Sound (history start past) before := sound_reached hpast
    have hfill : Bus.Filled before.bus peerID _ (before.bus.fill peerID now) :=
      Bus.filled_fill (hbefore.room peerID)
    have hnew : after.bus.chan before.bus.size = _ := hfill.new
    have hdue : ((before.bus.held peerID).filter (·.young now)).map PendingSignal.msg =
        due peerID now (history start past) := by
      have hrecalls := hbefore.recalls peerID
      rw [due, hrecalls.agree now hin]
      exact congrArg _ (hrecalls.told.filter_lastN now).symm
    rw [hdue] at hnew
    refine ⟨by rw [hnew], ?_, ?_, ?_⟩
    · rw [show after.bus = before.bus.subscribeSignals peerID now from rfl,
        Bus.subscribed_subscribe (hbefore.room peerID), if_pos rfl]
      exact List.mem_concat_self
    · exact (Bus.held_subscribe (hbefore.room peerID) peerID).trans (if_pos rfl)
    · have hlt : before.bus.size < after.bus.size := by
        show _ < (before.bus.fill peerID now).size
        rw [hfill.size]
        exact Nat.lt_succ_self _
      have hprefix := (hbefore.next hin).log_prefix_run hlt hlater
      have hlog : (after.bus.chan before.bus.size).log = due peerID now (history start past) := by
        rw [hnew]
      show _ <+: ((run next _ (past ++ _)).bus.chan before.bus.size).log
      rw [run_append, run_cons, ← hlog]
      exact hprefix
  · intro msg now hnot
    refine Bus.others_of_refuses ?_
    by_contra hrefuses
    rcases s.bus.held_holdLocked msg now msg.toPeerID with ⟨-, -, he⟩ | ⟨hne | htrue, -⟩
    · rw [he] at hnot
      exact hnot (mem_lastN_append_singleton (by decide))
    · exact hne rfl
    · exact hrefuses htrue

/-- Three calls are held, the last two within 30 s of the recipient's subscription, and a fourth
one is made after it. -/
def joined : List BusStep :=
  [.call "a" "b" [1] true, .call "a" "b" [2] true, .call "a" "b" [3] true,
    .advance 0 0, .advance 0 0, .advance 2 (20 * second), .advance 2 (20 * second),
    .advance 1 (20 * second), .advance 1 (21 * second)]

theorem signals_held_and_delivered_joined :
    let steps := joined ++ .subscribe "b" (40 * second) ::
      [.call "a" "b" [4] true, .advance 3 (41 * second)]
    (due "b" (40 * second) (history 0 joined)).map SignalMsg.payload = [[3], [2]] ∧
      due "b" (40 * second) (history 0 joined) <+: ((reached 0 steps).bus.chan 0).log ∧
      ((reached 0 steps).bus.chan 0).log.map SignalMsg.payload = [[3], [2], [4]] :=
  ⟨by decide +kernel,
    ((signals_held_and_delivered (by decide +kernel)).2.2.2.1 joined "b" (40 * second) _ rfl).2.2.2,
    by decide +kernel⟩

end BusSystem

end Veld.Coord
