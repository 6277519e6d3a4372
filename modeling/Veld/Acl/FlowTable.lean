import Veld.Core.Lru
import Veld.Core.Run
import Veld.Acl.Parse

/-!
# The flow table

`internal/acl/flowtable.go` used by one goroutine at a time. The shards partition
one map by the hash of the key, and the eviction list links the same entries in
the order of their use; both are the one keyed list here, newest use first, so
`flowCount` is its length and `popOldestEntry` takes its last element. Every
operation is described by what it does to the entry under one key.
-/

namespace Veld.Acl

inductive FlowState
  | new
  | established
  | closing
  | closed
  deriving DecidableEq, Repr

/-- The normalized, direction-free form of a flow. -/
structure FlowKey where
  srcIP : BitVec 128
  dstIP : BitVec 128
  srcPort : UInt16
  dstPort : UInt16
  proto : Proto
  ipv6 : Bool
  deriving DecidableEq, Repr

/-- The key with the flow's own fields. -/
def Flow.toKey (f : Flow) : FlowKey := ⟨f.srcIP, f.dstIP, f.srcPort, f.dstPort, f.proto, f.ipv6⟩

/-- All sixteen bytes decide for IPv6, the last four for IPv4. -/
def compareIPs (a b : BitVec 128) (ipv6 : Bool) : Ordering :=
  if ipv6 then compare a.toNat b.toNat
  else compare (a.extractLsb' 0 32).toNat (b.extractLsb' 0 32).toNat

/-- Both directions of a connection get the key of the direction that starts at
the lower address, or at the lower port; the flag is set when that is the reverse. -/
def normalizeFlowKey (f : Flow) : FlowKey × Bool :=
  let cmp := compareIPs f.srcIP f.dstIP f.ipv6
  if cmp = .lt ∨ (cmp = .eq ∧ f.srcPort ≤ f.dstPort) then (f.toKey, false)
  else (f.reverse.toKey, true)

/-- The key a flow is stored under. -/
def flowKey (f : Flow) : FlowKey := (normalizeFlowKey f).1

theorem normalizeFlowKey_fst (f : Flow) : (normalizeFlowKey f).1 = flowKey f := rfl

/-- The list pointers of the source are the position in the table's list. -/
structure FlowEntry where
  flow : Flow
  created : Int
  lastSeen : Int
  state : FlowState
  isReplyDir : Bool
  deriving DecidableEq, Repr

def FlowEntry.key (e : FlowEntry) : FlowKey := flowKey e.flow

structure FlowTableConfig where
  maxFlows : Int
  tcpIdleTimeout : Int
  udpIdleTimeout : Int
  icmpIdleTimeout : Int
  deriving DecidableEq, Repr

def defaultFlowTableConfig : FlowTableConfig where
  maxFlows := 16384
  tcpIdleTimeout := 5 * 60 * second
  udpIdleTimeout := 60 * second
  icmpIdleTimeout := 30 * second

structure FlowTable where
  config : FlowTableConfig
  flows : Lru FlowEntry.key
  /-- `NewFlowTable` replaces a bound that leaves no room. -/
  roomy : 0 < config.maxFlows
  /-- `NewFlowTable` replaces timeouts that are not positive. -/
  timely : 0 < config.tcpIdleTimeout ∧ 0 < config.udpIdleTimeout ∧ 0 < config.icmpIdleTimeout

/-- A setting that is not positive is replaced by its default. -/
def positiveOr (value default : Int) : Int := if value ≤ 0 then default else value

theorem positiveOr_pos (value : Int) {default : Int} (h : 0 < default) :
    0 < positiveOr value default := by
  unfold positiveOr
  split <;> omega

def newFlowTable (config : FlowTableConfig) : FlowTable where
  config :=
    { maxFlows := positiveOr config.maxFlows 16384
      tcpIdleTimeout := positiveOr config.tcpIdleTimeout (5 * 60 * second)
      udpIdleTimeout := positiveOr config.udpIdleTimeout (60 * second)
      icmpIdleTimeout := positiveOr config.icmpIdleTimeout (30 * second) }
  flows := .empty
  roomy := positiveOr_pos _ (by decide)
  timely := ⟨positiveOr_pos _ (by decide), positiveOr_pos _ (by decide),
    positiveOr_pos _ (by decide)⟩

namespace FlowTable

/-- The idle timeout of a protocol. -/
def getTimeout (ft : FlowTable) (proto : Proto) : Int :=
  if proto = protoTCP then ft.config.tcpIdleTimeout
  else if proto = protoUDP then ft.config.udpIdleTimeout
  else if proto = protoICMP ∨ proto = protoICMPv6 then ft.config.icmpIdleTimeout
  else ft.config.udpIdleTimeout

theorem getTimeout_pos (ft : FlowTable) (proto : Proto) : 0 < ft.getTimeout proto := by
  obtain ⟨htcp, hudp, hicmp⟩ := ft.timely
  unfold getTimeout
  split_ifs <;> assumption

def isEntryExpired (ft : FlowTable) (entry : FlowEntry) (now : Int) : Bool :=
  now - entry.lastSeen > ft.getTimeout entry.flow.proto

/-- The entry stored under a key. -/
def find (ft : FlowTable) (k : FlowKey) : Option FlowEntry := ft.flows.find k

/-- The entry under a key unless it has been idle for too long. -/
def live (ft : FlowTable) (k : FlowKey) (now : Int) : Option FlowEntry :=
  (ft.find k).filter fun e => !ft.isEntryExpired e now

/-- `Len`. -/
def len (ft : FlowTable) : Nat := ft.flows.length

/-- What `Lookup` returns beside the table it leaves. -/
structure LookupResult where
  table : FlowTable
  entry : Option FlowEntry
  isReply : Bool
  created : Bool

/-- A found entry is refreshed; `New` becomes `Established` when that is asked for. -/
def refresh (entry : FlowEntry) (initialState : FlowState) (now : Int) : FlowEntry :=
  { entry with
    lastSeen := now
    state := if entry.state = .new ∧ initialState = .established then .established
      else entry.state }

/-- `Lookup`: an expired entry counts as missing and leaves; a missing entry is
created on request, after the oldest entries have made room for it. -/
def lookup (ft : FlowTable) (f : Flow) (createIfMissing : Bool) (initialState : FlowState)
    (now : Int) : LookupResult :=
  let key := (normalizeFlowKey f).1
  let isReply := (normalizeFlowKey f).2
  match ft.live key now with
  | some entry =>
    let entry := refresh entry initialState now
    ⟨{ ft with flows := ft.flows.push entry }, some entry, isReply, false⟩
  | none =>
    let flows := ft.flows.erase key
    if !createIfMissing then ⟨{ ft with flows := flows }, none, isReply, false⟩
    else
      let entry : FlowEntry := ⟨f, now, now, initialState, isReply⟩
      ⟨{ ft with flows := (flows.evictBelow ft.config.maxFlows.toNat).push entry },
        some entry, isReply, true⟩

/-- `UpdateState`: an expired entry leaves instead. -/
def updateState (ft : FlowTable) (f : Flow) (state : FlowState) (now : Int) :
    FlowTable × Bool :=
  let key := (normalizeFlowKey f).1
  match ft.live key now with
  | some entry =>
    ({ ft with flows := ft.flows.push { entry with state := state, lastSeen := now } }, true)
  | none => ({ ft with flows := ft.flows.erase key }, false)

/-- `ExpireOldFlows`: idle and closed entries leave. -/
def expireOldFlows (ft : FlowTable) (now : Int) : FlowTable :=
  { ft with flows := ft.flows.keep fun e => !(ft.isEntryExpired e now || e.state == .closed) }

end FlowTable

theorem Flow.toKey_injective {f g : Flow} (h : f.toKey = g.toKey) : f = g := by
  cases f
  cases g
  simpa only [Flow.toKey, FlowKey.mk.injEq, Flow.mk.injEq] using h

theorem flowKey_cases (f : Flow) : flowKey f = f.toKey ∨ flowKey f = f.reverse.toKey := by
  simp only [flowKey, normalizeFlowKey]
  split
  · exact .inl rfl
  · exact .inr rfl

/-- One key stands for one conversation: two flows share it only when they are
equal or one reverses the other. -/
theorem eq_or_reverse_of_flowKey {f g : Flow} (h : flowKey f = flowKey g) :
    f = g ∨ f = g.reverse := by
  rcases flowKey_cases f with hf | hf <;> rcases flowKey_cases g with hg | hg <;>
    rw [hf, hg] at h <;> have he := Flow.toKey_injective h
  · exact .inl he
  · exact .inr he
  · exact .inr (by rw [← he, Flow.reverse_reverse])
  · exact .inl (by rw [← Flow.reverse_reverse f, he, Flow.reverse_reverse])

@[simp] theorem flowKey_proto (f : Flow) : (flowKey f).proto = f.proto := by
  rcases flowKey_cases f with h | h <;> rw [h] <;> rfl

/-- An IPv4 flow keeps its addresses in the last four bytes and zeros before them. -/
def Flow.Tidy (f : Flow) : Prop :=
  f.ipv6 = false → f.srcIP.toNat < 2 ^ 32 ∧ f.dstIP.toNat < 2 ^ 32

private theorem toNat_last4 {a : BitVec 128} (h : a.toNat < 2 ^ 32) :
    (a.extractLsb' 0 32).toNat = a.toNat := by
  rw [BitVec.extractLsb'_toNat, Nat.shiftRight_zero]
  exact Nat.mod_eq_of_lt h

/-- On tidy flows the comparison is the order of the whole addresses. -/
theorem Flow.Tidy.compareIPs_eq {f : Flow} (h : f.Tidy) :
    compareIPs f.srcIP f.dstIP f.ipv6 = compare f.srcIP.toNat f.dstIP.toNat := by
  unfold compareIPs
  cases hv : f.ipv6 with
  | true => simp
  | false =>
    obtain ⟨hs, hd⟩ := h hv
    simp [toNat_last4 hs, toNat_last4 hd]

theorem Flow.Tidy.reverse {f : Flow} (h : f.Tidy) : f.reverse.Tidy :=
  fun hv => ⟨(h hv).2, (h hv).1⟩

/-- Both directions of a tidy flow are stored under one key. -/
theorem Flow.Tidy.flowKey_reverse {f : Flow} (h : f.Tidy) : flowKey f.reverse = flowKey f := by
  simp only [flowKey, normalizeFlowKey, h.compareIPs_eq, h.reverse.compareIPs_eq]
  have hs : f.reverse.srcIP = f.dstIP := rfl
  have hd : f.reverse.dstIP = f.srcIP := rfl
  have hsp : f.reverse.srcPort = f.dstPort := rfl
  have hdp : f.reverse.dstPort = f.srcPort := rfl
  rw [hs, hd, hsp, hdp, Flow.reverse_reverse]
  rcases lt_trichotomy f.srcIP.toNat f.dstIP.toNat with hlt | heq | hgt
  · simp [compare_lt_iff_lt.mpr hlt, compare_gt_iff_gt.mpr hlt]
  · have hip : f.srcIP = f.dstIP := BitVec.eq_of_toNat_eq heq
    simp only [heq, compare_eq_iff_eq.mpr rfl, reduceCtorEq, false_or, true_and]
    by_cases hle : f.srcPort ≤ f.dstPort
    · by_cases hge : f.dstPort ≤ f.srcPort
      · have hp : f.srcPort = f.dstPort := UInt16.le_antisymm hle hge
        simp only [Flow.toKey, Flow.reverse, hip, hp]
      · simp [hle, hge]
    · have hge : f.dstPort ≤ f.srcPort := (UInt16.le_total _ _).resolve_left hle
      simp [hle, hge]
  · simp [compare_lt_iff_lt.mpr hgt, compare_gt_iff_gt.mpr hgt]

private theorem setLast4_zero_lt (b : Bytes) : (setLast4 0 b).toNat < 2 ^ 32 := by
  have h : setLast4 0 b = (0#96 ++ BitVec.ofNat 32 b.beNat : BitVec 128) := by
    unfold setLast4
    congr 1
  rw [h, BitVec.toNat_append]
  simp only [BitVec.toNat_ofNat, Nat.zero_mod, Nat.zero_shiftLeft, Nat.zero_or]
  exact Nat.mod_lt _ (by decide)

/-- Every flow the parser reports for anything but an ICMP error is tidy. -/
theorem parsePacket_tidy {pkt : Bytes} (he : (parsePacket pkt).err = none)
    (hk : (parsePacket pkt).kind ≠ .kindError) : (parsePacket pkt).flow.Tidy := by
  obtain ⟨hs, hd, hv⟩ := (parsePacket_reads pkt).header he hk
  intro h6
  rw [hv] at h6
  rw [hs, hd]
  unfold outerFlow at h6 ⊢
  split
  · exact ⟨setLast4_zero_lt _, setLast4_zero_lt _⟩
  · rename_i h4
    simp only [h4, ite_false] at h6
    cases h6

namespace FlowTable

variable (ft : FlowTable) (f : Flow) (now : Int) {k : FlowKey} {e : FlowEntry}

/-- An expired entry is no live entry, and a live one is stored. -/
theorem live_eq_some_iff {ft : FlowTable} {now : Int} :
    ft.live k now = some e ↔ ft.find k = some e ∧ ft.isEntryExpired e now = false := by
  simp [live]

theorem key_of_live {ft : FlowTable} {now : Int} (h : ft.live k now = some e) : e.key = k :=
  Lru.key_of_find (live_eq_some_iff.mp h).1

theorem key_refresh_of_live {ft : FlowTable} {now : Int}
    (h : ft.live k now = some e) (st : FlowState) : (refresh e st now).key = k :=
  key_of_live (e := e) h

/-- An entry that gets a state is kept under its key. -/
theorem key_update_of_live {ft : FlowTable} {now : Int}
    (h : ft.live k now = some e) (st : FlowState) :
    FlowEntry.key { e with state := st, lastSeen := now } = k :=
  key_of_live (e := e) h

/-- What `Lookup` leaves under the key it was called with. -/
theorem find_lookup_self (create : Bool) (st : FlowState) :
    (ft.lookup f create st now).table.find (flowKey f) =
      match ft.live (flowKey f) now with
      | some e => some (refresh e st now)
      | none => if create then some ⟨f, now, now, st, (normalizeFlowKey f).2⟩ else none := by
  simp only [lookup, normalizeFlowKey_fst]
  cases hl : ft.live (flowKey f) now with
  | some e =>
    have hp := ft.flows.find_push_self (refresh e st now)
    rw [key_refresh_of_live hl] at hp
    exact hp
  | none =>
    cases create with
    | true => exact Lru.find_push_self _ (⟨f, now, now, st, _⟩ : FlowEntry)
    | false => exact ft.flows.find_erase_self (flowKey f)

/-- `Lookup` returns the entry it leaves in the table. -/
theorem entry_lookup (create : Bool) (st : FlowState) :
    (ft.lookup f create st now).entry =
      (ft.lookup f create st now).table.find (flowKey f) := by
  rw [find_lookup_self]
  simp only [lookup, normalizeFlowKey_fst]
  cases ft.live (flowKey f) now with
  | some e => rfl
  | none => cases create <;> rfl

/-- `Lookup` on one key leaves the entry under another one or evicts it. -/
theorem find_lookup_ne (create : Bool) (st : FlowState) (h : k ≠ flowKey f) :
    (ft.lookup f create st now).table.find k = ft.find k ∨
      (ft.lookup f create st now).table.find k = none := by
  simp only [lookup, normalizeFlowKey_fst]
  cases hl : ft.live (flowKey f) now with
  | some e =>
    exact .inl (ft.flows.find_push_ne _ (by rw [key_refresh_of_live hl]; exact h))
  | none =>
    cases create with
    | false => exact .inl (ft.flows.find_erase_ne h)
    | true =>
      have hpush := Lru.find_push_ne ((ft.flows.erase (flowKey f)).evictBelow
        ft.config.maxFlows.toNat) ⟨f, now, now, st, (normalizeFlowKey f).2⟩ h
      have hev := (ft.flows.erase (flowKey f)).find_evictBelow ft.config.maxFlows.toNat k
      rw [ft.flows.find_erase_ne h] at hev
      simp only [find, Bool.not_true, Bool.false_eq_true, ite_false]
      rw [hpush]
      exact hev

/-- What `UpdateState` leaves under the key it was called with. -/
theorem find_updateState_self (st : FlowState) :
    (ft.updateState f st now).1.find (flowKey f) =
      (ft.live (flowKey f) now).map fun e => { e with state := st, lastSeen := now } := by
  simp only [updateState, normalizeFlowKey_fst]
  cases hl : ft.live (flowKey f) now with
  | some e =>
    have hp := ft.flows.find_push_self { e with state := st, lastSeen := now }
    rw [key_update_of_live hl] at hp
    exact hp
  | none => exact ft.flows.find_erase_self (flowKey f)

theorem find_updateState_ne (st : FlowState) (h : k ≠ flowKey f) :
    (ft.updateState f st now).1.find k = ft.find k := by
  simp only [updateState, normalizeFlowKey_fst]
  cases hl : ft.live (flowKey f) now with
  | some e =>
    exact ft.flows.find_push_ne _ (by rw [key_update_of_live hl]; exact h)
  | none => exact ft.flows.find_erase_ne h

/-- `ExpireOldFlows` drops exactly the idle and the closed entries. -/
theorem find_expireOldFlows (k : FlowKey) :
    (ft.expireOldFlows now).find k =
      (ft.find k).filter fun e => !(ft.isEntryExpired e now || e.state == .closed) :=
  ft.flows.find_keep _ k

@[simp] theorem config_lookup (create : Bool) (st : FlowState) :
    (ft.lookup f create st now).table.config = ft.config := by
  simp only [lookup]
  split
  · rfl
  · split <;> rfl

@[simp] theorem config_updateState (st : FlowState) :
    (ft.updateState f st now).1.config = ft.config := by
  simp only [updateState]
  split <;> rfl

/-- `Lookup` makes room before it adds an entry. -/
theorem len_lookup_le (h : ft.len ≤ ft.config.maxFlows) (create : Bool) (st : FlowState) :
    (ft.lookup f create st now).table.len ≤ ft.config.maxFlows := by
  simp only [lookup, normalizeFlowKey_fst]
  cases hl : ft.live (flowKey f) now with
  | some e =>
    have hfind : ft.flows.find (refresh e st now).key = some e := by
      rw [key_refresh_of_live hl]
      exact (live_eq_some_iff.mp hl).1
    have hlen := Lru.length_push_of_find hfind
    simp only [len] at h ⊢
    omega
  | none =>
    cases create with
    | false =>
      have hlen := ft.flows.length_keep_le fun e => e.key ≠ flowKey f
      simp only [len] at h
      simp only [Bool.not_false, ite_true, len, Lru.erase]
      omega
    | true =>
      have hroom := ft.roomy
      have hevict := (ft.flows.erase (flowKey f)).length_evictBelow
        (Int.lt_toNat.mpr hroom : 0 < ft.config.maxFlows.toNat)
      simp only [Bool.not_true, Bool.false_eq_true, ite_false, len]
      have hpush := ((ft.flows.erase (flowKey f)).evictBelow ft.config.maxFlows.toNat).length_push_le
        ⟨f, now, now, st, (normalizeFlowKey f).2⟩
      omega

theorem len_updateState_le (st : FlowState) : (ft.updateState f st now).1.len ≤ ft.len := by
  simp only [updateState, normalizeFlowKey_fst]
  cases hl : ft.live (flowKey f) now with
  | some e =>
    apply Lru.length_push_of_find
    rw [key_update_of_live hl]
    exact (live_eq_some_iff.mp hl).1
  | none => exact ft.flows.length_keep_le _

end FlowTable

end Veld.Acl
