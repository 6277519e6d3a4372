import Veld.Core.Assoc
import Veld.Core.Hex
import Veld.Crypto.PeerSignature

/-!
# Replayed handshake initiations

`handleInit` of `internal/handshake/manager.go` up to its replay check, with the
file that keeps the timestamps over restarts. The Noise library and Ed25519 are
parameters. What `handleInit` does after the check does not touch the timestamps
and is left out, and so is the JSON around the file's map. The table of peers
changes between packets in any way; only its `PeerLookupFn` matters here.
-/

namespace Veld.Handshake

open Crypto

/-- A `[32]byte`. -/
abbrev ID := { b : Bytes // b.length = 32 }

/-- What does not change over restarts: the keys of the node and the libraries. -/
structure Responder where
  /-- `ReadMessage` of the Noise library: the payload and the initiator's static key. -/
  readMessage : Bytes → Option (Bytes × Bytes)
  /-- `ed25519.Verify` of a key, a message and a signature. -/
  verify : Bytes → Bytes → Bytes → Bool
  x25519Public : Bytes
  networkID : Bytes

/-- The contents of an Init. -/
structure Message1 where
  peerID : ID
  sig : Bytes
  networkID : Bytes
  timestampRaw : BitVec 64
  peerX25519 : Bytes
  deriving DecidableEq

/-- The normalised timestamp of an Init. -/
def Message1.timestamp (x : Message1) : Int := (normalizeTimestamp x.timestampRaw).toInt

namespace Responder

variable (rs : Responder)

/-- An Init is decrypted and split into its fields. -/
def readInit (noiseMsg : Bytes) : Option Message1 := do
  let (payload, peerStatic) ← rs.readMessage noiseMsg
  if h : payload.length = 120 then
    if peerStatic.length = 32 then
      some {
        peerID := ⟨payload.take 32, by rw [List.length_take, h]; rfl⟩
        sig := (payload.drop 32).take 64
        networkID := (payload.drop 96).take 16
        timestampRaw := BitVec.ofNat 64 (Bytes.beNat ((payload.drop 112).take 8))
        peerX25519 := peerStatic }
    else none
  else none

/-- `ProcessMessage1`: the initiator is a peer with this X25519 key, and its signature is valid and
fresh. -/
def processMessage1 (peerLookup : ID → Option Bytes) (noiseMsg : Bytes) (now : Int) :
    Option Message1 :=
  (rs.readInit noiseMsg).filter fun x =>
    decide (peerLookup x.peerID = some x.peerX25519) &&
      verifyPeerSig rs.verify x.peerID.val x.peerX25519 rs.x25519Public x.sig x.timestampRaw now

end Responder

/-- The greatest timestamps accepted from each peer. -/
abbrev InitTimestamps := AList fun _ : ID => Int

/-- The cutoff of a clock reading: older timestamps do not matter. -/
def cutoff (now : Int) : Int := (unixNano (now - maxTimestampSkew)).toInt

/-- `pruneTimestampsLocked`. -/
def pruneTimestamps (m : InitTimestamps) (now : Int) : InitTimestamps :=
  keepValues (fun ts => cutoff now ≤ ts) m

/-- The map that is saved, with the IDs in hexadecimal. -/
def savedPeers (m : InitTimestamps) : List (String × Int) :=
  m.entries.map fun e => (Hex.encodeToString e.1.val, e.2)

/-- One entry of the file is loaded; a missing timestamp counts as zero. -/
def loadPeer (cutoff : Int) (m : InitTimestamps) (peer : String × Int) : InitTimestamps :=
  match Hex.decodeString peer.1 with
  | none => m
  | some b =>
    if h : b.length = 32 then
      if cutoff ≤ peer.2 ∧ (m.lookup ⟨b, h⟩).getD 0 < peer.2 then m.insert ⟨b, h⟩ peer.2 else m
    else m

/-- `UseReplayState` of a new manager. -/
def useReplayState (saved : List (String × Int)) (now : Int) : InitTimestamps :=
  saved.foldl (loadPeer (cutoff now)) ∅

/-- The state of a node, with the file and the last clock reading. -/
structure Manager where
  initTimestamps : InitTimestamps := ∅
  saved : List (String × Int) := []
  peerLookup : ID → Option Bytes := fun _ => none
  clock : Int

/-- An Init that passed the replay check. -/
structure Passed where
  noiseMsg : Bytes
  peerID : ID
  timestamp : Int
  deriving DecidableEq

inductive ReplayStep
  /-- An Init is handled. `BuildMessage2` may fail. The clock is read for the signature and for
  pruning. -/
  | init (noiseMsg : Bytes) (built : Bool) (verifiedAt prunedAt : Int)
  /-- Peers are added or removed. -/
  | peers (peerLookup : ID → Option Bytes)
  | restart (now : Int)

namespace Manager

variable (rs : Responder)

/-- A refused Init only reads the clock. -/
def refused (m : Manager) (now : Int) : Manager × Option Passed := ({ m with clock := now }, none)

/-- The accepted timestamp is stored, old ones are pruned, and the rest is saved. -/
def accepted (m : Manager) (noiseMsg : Bytes) (x : Message1) (now : Int) :
    Manager × Option Passed :=
  let stamps := pruneTimestamps (m.initTimestamps.insert x.peerID x.timestamp) now
  ({ m with initTimestamps := stamps, saved := savedPeers stamps, clock := now },
    some ⟨noiseMsg, x.peerID, x.timestamp⟩)

/-- `handleInit` up to the replay check. -/
def handleInit (m : Manager) (noiseMsg : Bytes) (built : Bool) (verifiedAt prunedAt : Int) :
    Manager × Option Passed :=
  match rs.processMessage1 m.peerLookup noiseMsg verifiedAt with
  | none => m.refused verifiedAt
  | some x =>
    if !built || x.networkID ≠ rs.networkID || (m.peerLookup x.peerID).isNone then
      m.refused verifiedAt
    else if x.timestamp = 0 then m.refused verifiedAt
    else if (m.initTimestamps.lookup x.peerID).any (x.timestamp ≤ ·) then m.refused verifiedAt
    else m.accepted noiseMsg x prunedAt

def next (m : Manager) : ReplayStep → Manager
  | .init noiseMsg built verifiedAt prunedAt =>
    (m.handleInit rs noiseMsg built verifiedAt prunedAt).1
  | .peers peerLookup => { m with peerLookup }
  | .restart now =>
    { m with initTimestamps := useReplayState m.saved now, clock := now }

/-- The Init that passes in a step. -/
def passed (m : Manager) : ReplayStep → Option Passed
  | .init noiseMsg built verifiedAt prunedAt =>
    (m.handleInit rs noiseMsg built verifiedAt prunedAt).2
  | _ => none

/-- The Inits that passed in some steps. -/
def allPassed (past : List (Manager × ReplayStep)) : List Passed :=
  past.filterMap fun s => s.1.passed rs s.2

/-- The clock readings do not decrease. -/
def Forward (m : Manager) : ReplayStep → Prop
  | .init _ _ verifiedAt prunedAt => m.clock ≤ verifiedAt ∧ verifiedAt ≤ prunedAt
  | .peers _ => True
  | .restart now => m.clock ≤ now

/-- The clock is where `UnixNano` is exact, and the timestamps that pass the signature check are
positive. -/
def AfterEpoch (m : Manager) : ReplayStep → Prop
  | .init noiseMsg _ verifiedAt prunedAt =>
    Representable verifiedAt ∧ Representable prunedAt ∧
      ∀ x ∈ rs.processMessage1 m.peerLookup noiseMsg verifiedAt, 0 < x.timestamp
  | .peers _ => True
  | .restart now => Representable now

/-- A timestamp is below the stored one, or an Init with it is no longer fresh. -/
def Remembers (m : Manager) (id : ID) (ts : Int) : Prop :=
  (∃ x, m.initTimestamps.lookup id = some x ∧ ts ≤ x) ∨ ts + maxTimestampSkew < m.clock

/-- The same for the file. -/
def Keeps (m : Manager) (id : ID) (ts : Int) : Prop :=
  (∃ x, (Hex.encodeToString id.val, x) ∈ m.saved ∧ ts ≤ x) ∨ ts + maxTimestampSkew < m.clock

end Manager

section Load

variable {m : InitTimestamps} {id : ID} {ts c : Int}

/-- Loading an entry never lowers a timestamp. -/
theorem le_loadPeer (peer : String × Int) (h : m.lookup id = some ts) :
    ∃ x, (loadPeer c m peer).lookup id = some x ∧ ts ≤ x := by
  unfold loadPeer
  split
  · exact ⟨ts, h, le_rfl⟩
  · split
    · rename_i b _ hb
      split
      · rename_i hlt
        by_cases hid : id = ⟨b, hb⟩
        · subst hid
          rw [h] at hlt
          exact ⟨peer.2, AList.lookup_insert m, hlt.2.le⟩
        · exact ⟨ts, by rw [AList.lookup_insert_ne hid, h], le_rfl⟩
      · exact ⟨ts, h, le_rfl⟩
    · exact ⟨ts, h, le_rfl⟩

theorem le_foldl_loadPeer (saved : List (String × Int)) (h : m.lookup id = some ts) :
    ∃ x, (saved.foldl (loadPeer c) m).lookup id = some x ∧ ts ≤ x := by
  induction saved generalizing m ts with
  | nil => exact ⟨ts, h, le_rfl⟩
  | cons peer saved ih =>
    obtain ⟨y, hy, hle⟩ := le_loadPeer (c := c) peer h
    obtain ⟨x, hx, hle'⟩ := ih hy
    exact ⟨x, hx, hle.trans hle'⟩

/-- A positive timestamp that is not too old is loaded. -/
theorem loadPeer_self (hc : c ≤ ts) (hpos : 0 < ts) :
    ∃ x, (loadPeer c m (Hex.encodeToString id.val, ts)).lookup id = some x ∧ ts ≤ x := by
  have hload : loadPeer c m (Hex.encodeToString id.val, ts) =
      if c ≤ ts ∧ (m.lookup id).getD 0 < ts then m.insert id ts else m := by
    rw [loadPeer, Hex.decodeString_encodeToString]
    exact dif_pos id.2
  rw [hload]
  split
  · exact ⟨ts, AList.lookup_insert m, le_rfl⟩
  · rename_i hnot
    cases hl : m.lookup id with
    | none =>
      rw [hl] at hnot
      exact absurd ⟨hc, hpos⟩ hnot
    | some x =>
      rw [hl] at hnot
      exact ⟨x, rfl, not_lt.mp fun hlt => hnot ⟨hc, hlt⟩⟩

theorem le_useReplayState {saved : List (String × Int)} {now : Int}
    (h : (Hex.encodeToString id.val, ts) ∈ saved) (hc : cutoff now ≤ ts) (hpos : 0 < ts) :
    ∃ x, (useReplayState saved now).lookup id = some x ∧ ts ≤ x := by
  unfold useReplayState
  generalize (∅ : InitTimestamps) = m
  induction saved generalizing m with
  | nil => cases h
  | cons peer saved ih =>
    rcases List.mem_cons.mp h with rfl | h
    · obtain ⟨y, hy, hle⟩ := loadPeer_self (m := m) hc hpos
      obtain ⟨x, hx, hle'⟩ := le_foldl_loadPeer saved hy
      exact ⟨x, hx, hle.trans hle'⟩
    · exact ih h _

end Load

namespace Manager

variable {rs : Responder} {m : Manager} {id : ID} {ts : Int} {past : List (Manager × ReplayStep)}

/-- An Init is refused, or it is read, its timestamp is fresh and above the stored one, and it is
accepted. -/
theorem handleInit_cases (rs : Responder) (m : Manager) (noiseMsg : Bytes) (built : Bool)
    (verifiedAt prunedAt : Int) :
    m.handleInit rs noiseMsg built verifiedAt prunedAt = m.refused verifiedAt ∨
    ∃ x, rs.readInit noiseMsg = some x ∧
      rs.processMessage1 m.peerLookup noiseMsg verifiedAt = some x ∧
      inSkew (unixNano verifiedAt) (normalizeTimestamp x.timestampRaw) = true ∧
      (∀ y, m.initTimestamps.lookup x.peerID = some y → y < x.timestamp) ∧
      m.handleInit rs noiseMsg built verifiedAt prunedAt = m.accepted noiseMsg x prunedAt := by
  unfold handleInit
  cases hproc : rs.processMessage1 m.peerLookup noiseMsg verifiedAt with
  | none => exact .inl rfl
  | some x =>
    dsimp only
    split
    · exact .inl rfl
    · split
      · exact .inl rfl
      · split
        · exact .inl rfl
        · rename_i hlast
          obtain ⟨hread, hchecks⟩ := Option.filter_eq_some_iff.mp hproc
          simp only [Bool.and_eq_true, verifyPeerSig] at hchecks
          refine .inr ⟨x, hread, rfl, hchecks.2.2, fun y hy => ?_, rfl⟩
          rw [hy, Option.any_some, decide_eq_true_eq, not_le] at hlast
          exact hlast

/-- What passed in a step was read from its message. -/
theorem passed_eq_some {i : ReplayStep} {p : Passed} (h : m.passed rs i = some p) :
    ∃ x, rs.readInit p.noiseMsg = some x ∧ p.peerID = x.peerID ∧ p.timestamp = x.timestamp := by
  cases i with
  | peers f => cases h
  | restart now => cases h
  | init noiseMsg built verifiedAt prunedAt =>
    rw [passed] at h
    rcases handleInit_cases rs m noiseMsg built verifiedAt prunedAt with hr | ⟨x, hread, -, -, -, ha⟩
    · rw [hr] at h
      cases h
    · rw [ha] at h
      obtain rfl := Option.some.inj h
      exact ⟨x, hread, rfl, rfl⟩

theorem Remembers.mono {m' : Manager} (h : m.Remembers id ts)
    (hstamps : m'.initTimestamps = m.initTimestamps) (hclock : m.clock ≤ m'.clock) :
    m'.Remembers id ts := by
  rw [Remembers, hstamps]
  exact h.imp_right fun hlt => hlt.trans_le hclock

theorem Keeps.mono {m' : Manager} (h : m.Keeps id ts) (hsaved : m'.saved = m.saved)
    (hclock : m.clock ≤ m'.clock) : m'.Keeps id ts := by
  rw [Keeps, hsaved]
  exact h.imp_right fun hlt => hlt.trans_le hclock

/-- The file is written with what is remembered. -/
theorem Remembers.keeps (h : m.Remembers id ts)
    (hsaved : m.saved = savedPeers m.initTimestamps) : m.Keeps id ts := by
  rcases h with ⟨x, hx, hle⟩ | hlt
  · refine .inl ⟨x, ?_, hle⟩
    rw [hsaved]
    exact List.mem_map.mpr ⟨⟨id, x⟩, AList.mem_lookup_iff.mp hx, rfl⟩
  · exact .inr hlt

/-- Pruning only forgets timestamps of Inits that are no longer fresh. -/
theorem remembers_accepted {x : Message1} {y : Int} {noiseMsg : Bytes} {now : Int}
    (hnow : Representable now)
    (hy : (m.initTimestamps.insert x.peerID x.timestamp).lookup id = some y) (hle : ts ≤ y) :
    (m.accepted noiseMsg x now).1.Remembers id ts := by
  by_cases hcut : cutoff now ≤ y
  · refine .inl ⟨y, lookup_keepValues_eq_some.mpr ⟨hy, ?_⟩, hle⟩
    exact decide_eq_true hcut
  · refine .inr ?_
    rw [cutoff, toInt_unixNano_sub hnow] at hcut
    show ts + maxTimestampSkew < now
    omega

/-- The accepted timestamp and all older ones stay remembered. -/
theorem Remembers.accepted {x : Message1} {noiseMsg : Bytes} {now : Int}
    (h : m.Remembers id ts) (hnow : Representable now) (hclock : m.clock ≤ now)
    (hlast : ∀ y, m.initTimestamps.lookup x.peerID = some y → y < x.timestamp) :
    (m.accepted noiseMsg x now).1.Remembers id ts := by
  rcases h with ⟨y, hy, hle⟩ | hlt
  · by_cases hid : id = x.peerID
    · subst hid
      exact remembers_accepted hnow (AList.lookup_insert _) (hle.trans (hlast y hy).le)
    · exact remembers_accepted hnow (by rw [AList.lookup_insert_ne hid, hy]) hle
  · exact .inr (hlt.trans_le hclock)

/-- What the file keeps is remembered after a restart. -/
theorem Keeps.restart {now : Int} (h : m.Keeps id ts) (hpos : 0 < ts) (hnow : Representable now)
    (hclock : m.clock ≤ now) : (m.next rs (.restart now)).Remembers id ts := by
  rcases h with ⟨x, hx, hle⟩ | hlt
  · by_cases hcut : cutoff now ≤ x
    · obtain ⟨y, hy, hle'⟩ := le_useReplayState hx hcut (hpos.trans_le hle)
      exact .inl ⟨y, hy, hle.trans hle'⟩
    · refine .inr ?_
      rw [cutoff, toInt_unixNano_sub hnow] at hcut
      show ts + maxTimestampSkew < now
      omega
  · exact .inr (hlt.trans_le hclock)

/-- Whatever passed is remembered and kept, in the order of its timestamps. -/
structure Guards (rs : Responder) (past : List (Manager × ReplayStep)) (m : Manager) : Prop where
  remembers : ∀ p ∈ allPassed rs past, m.Remembers p.peerID p.timestamp
  keeps : ∀ p ∈ allPassed rs past, m.Keeps p.peerID p.timestamp
  positive : ∀ p ∈ allPassed rs past, 0 < p.timestamp
  increasing : (allPassed rs past).Pairwise fun p q => p.peerID = q.peerID → p.timestamp < q.timestamp

theorem allPassed_snoc (past : List (Manager × ReplayStep)) (m : Manager) (i : ReplayStep) :
    allPassed rs (past ++ [(m, i)]) = allPassed rs past ++ (m.passed rs i).toList := by
  rw [allPassed, List.filterMap_append]
  cases h : m.passed rs i <;> simp [allPassed, h]

/-- A step in which nothing passes. -/
theorem Guards.quiet {m' : Manager} {i : ReplayStep} (h : Guards rs past m)
    (hpassed : m.passed rs i = none)
    (hremembers : ∀ id ts, 0 < ts → m.Remembers id ts → m.Keeps id ts → m'.Remembers id ts)
    (hkeeps : ∀ id ts, m.Keeps id ts → m'.Keeps id ts) : Guards rs (past ++ [(m, i)]) m' := by
  have hall : allPassed rs (past ++ [(m, i)]) = allPassed rs past := by
    rw [allPassed_snoc, hpassed, Option.toList_none, List.append_nil]
  constructor <;> rw [hall]
  · exact fun p hp => hremembers _ _ (h.positive p hp) (h.remembers p hp) (h.keeps p hp)
  · exact fun p hp => hkeeps _ _ (h.keeps p hp)
  · exact h.positive
  · exact h.increasing

theorem Guards.init {noiseMsg : Bytes} {built : Bool} {verifiedAt prunedAt : Int}
    (h : Guards rs past m) (hforward : m.Forward (.init noiseMsg built verifiedAt prunedAt))
    (hcond : m.AfterEpoch rs (.init noiseMsg built verifiedAt prunedAt)) :
    Guards rs (past ++ [(m, .init noiseMsg built verifiedAt prunedAt)])
      (m.next rs (.init noiseMsg built verifiedAt prunedAt)) := by
  obtain ⟨hclock, hlater⟩ := hforward
  obtain ⟨hverified, hpruned, hpositive⟩ := hcond
  rcases handleInit_cases rs m noiseMsg built verifiedAt prunedAt with
    hr | ⟨x, -, hproc, hskew, hlast, ha⟩
  · refine h.quiet ?_ ?_ ?_
    · rw [passed, hr]
      rfl
    · rw [next, hr]
      exact fun id ts _ hm _ => hm.mono rfl hclock
    · rw [next, hr]
      exact fun id ts hk => hk.mono rfl hclock
  · have hall : allPassed rs (past ++ [(m, .init noiseMsg built verifiedAt prunedAt)]) =
        allPassed rs past ++ [⟨noiseMsg, x.peerID, x.timestamp⟩] := by
      rw [allPassed_snoc, passed, ha]
      rfl
    have hremembers : ∀ p ∈ allPassed rs (past ++ [(m, .init noiseMsg built verifiedAt prunedAt)]),
        (m.accepted noiseMsg x prunedAt).1.Remembers p.peerID p.timestamp := by
      intro p hp
      rw [hall] at hp
      rcases List.mem_append.mp hp with hp | hp
      · exact (h.remembers p hp).accepted hpruned (hclock.trans hlater) hlast
      · obtain rfl := List.mem_singleton.mp hp
        exact remembers_accepted hpruned (AList.lookup_insert _) le_rfl
    rw [next, ha]
    refine ⟨hremembers, fun p hp => (hremembers p hp).keeps rfl, ?_, ?_⟩ <;> rw [hall]
    · intro p hp
      rcases List.mem_append.mp hp with hp | hp
      · exact h.positive p hp
      · obtain rfl := List.mem_singleton.mp hp
        exact hpositive x hproc
    · refine List.pairwise_append.mpr ⟨h.increasing, List.pairwise_singleton _ _, ?_⟩
      intro p hp q hq hid
      obtain rfl := List.mem_singleton.mp hq
      -- the stored timestamp is lower, or the older Init is no longer fresh but this one is
      rcases h.remembers p hp with ⟨y, hy, hle⟩ | hlt
      · rw [hid] at hy
        exact hle.trans_lt (hlast y hy)
      · have hfresh := le_of_inSkew hverified hskew
        show p.timestamp < x.timestamp
        rw [Message1.timestamp]
        omega

theorem Guards.next {i : ReplayStep} (h : Guards rs past m) (hforward : m.Forward i)
    (hcond : m.AfterEpoch rs i) : Guards rs (past ++ [(m, i)]) (m.next rs i) := by
  cases i with
  | init noiseMsg built verifiedAt prunedAt => exact h.init hforward hcond
  | peers f =>
    exact h.quiet rfl (fun id ts _ hm _ => hm.mono rfl le_rfl) fun id ts hk => hk.mono rfl le_rfl
  | restart now =>
    exact h.quiet rfl (fun id ts hpos _ hk => hk.restart hpos hcond hforward)
      fun id ts hk => hk.mono rfl hforward

/-- The timestamps of the Inits of one peer that pass are strictly increasing, and no Init passes
twice, however often the node restarts, when the clock is where `UnixNano` is exact and the
timestamps are positive. -/
theorem init_passes_once {start : Int} {steps : List ReplayStep}
    (hforward : Along (next rs) Forward { clock := start } steps)
    (hcond : Along (next rs) (AfterEpoch rs) { clock := start } steps) :
    (∀ id, (((allPassed rs (trail (next rs) { clock := start } steps)).filter
        (·.peerID = id)).map (·.timestamp)).Pairwise (· < ·)) ∧
      ((allPassed rs (trail (next rs) { clock := start } steps)).map (·.noiseMsg)).Nodup := by
  have hboth : Along (Manager.next rs) (fun m i => Forward m i ∧ AfterEpoch rs m i)
      { clock := start } steps := fun x hx => ⟨hforward x hx, hcond x hx⟩
  have hguards := hboth.invariant (Guards rs) ⟨nofun, nofun, nofun, List.Pairwise.nil⟩
    fun past m i h hi => h.next hi.1 hi.2
  have hread : ∀ p ∈ allPassed rs (trail (next rs) { clock := start } steps),
      ∃ x, rs.readInit p.noiseMsg = some x ∧ p.peerID = x.peerID ∧ p.timestamp = x.timestamp := by
    intro p hp
    obtain ⟨s, -, hs⟩ := List.mem_filterMap.mp hp
    exact passed_eq_some hs
  have hincreasing := hguards.increasing
  constructor
  · intro id
    refine List.pairwise_map.mpr ?_
    refine (hincreasing.filter _).imp_of_mem fun {p q} hp hq hlt => hlt ?_
    rw [of_decide_eq_true (List.mem_filter.mp hp).2, of_decide_eq_true (List.mem_filter.mp hq).2]
  · refine List.pairwise_map.mpr (hincreasing.imp_of_mem fun {p q} hp hq hlt heq => ?_)
    obtain ⟨x, hx, hid, hts⟩ := hread p hp
    obtain ⟨y, hy, hid', hts'⟩ := hread q hq
    rw [heq, hy] at hx
    obtain rfl := Option.some.inj hx
    have hcontra := hlt (hid.trans hid'.symm)
    rw [hts, hts'] at hcontra
    exact lt_irrefl _ hcontra

instance (m : Manager) : (i : ReplayStep) → Decidable (m.Forward i)
  | .init _ _ verifiedAt prunedAt =>
    inferInstanceAs (Decidable (m.clock ≤ verifiedAt ∧ verifiedAt ≤ prunedAt))
  | .peers _ => inferInstanceAs (Decidable True)
  | .restart now => inferInstanceAs (Decidable (m.clock ≤ now))

instance (m : Manager) : (i : ReplayStep) → Decidable (m.AfterEpoch rs i)
  | .init noiseMsg _ verifiedAt prunedAt =>
    inferInstanceAs (Decidable (Representable verifiedAt ∧ Representable prunedAt ∧
      ∀ x ∈ rs.processMessage1 m.peerLookup noiseMsg verifiedAt, 0 < x.timestamp))
  | .peers _ => inferInstanceAs (Decidable True)
  | .restart now => inferInstanceAs (Decidable (Representable now))

end Manager

namespace Sample

/-- Messages are sent in the clear, and all signatures are valid. -/
def responder : Responder where
  readMessage noiseMsg := some (noiseMsg, List.replicate 32 7)
  verify _ _ _ := true
  x25519Public := List.replicate 32 8
  networkID := List.replicate 16 9

/-- A peer. -/
def initiator : ID := ⟨List.replicate 32 1, rfl⟩

/-- An Init of the peer with a raw timestamp. -/
def initMsg (raw : Int) : Bytes :=
  List.replicate 32 1 ++ List.replicate 64 0 ++ List.replicate 16 9 ++
    Bytes.ofNatBE 8 (BitVec.ofInt 64 raw).toNat

/-- The peer is added; it sends an Init at some second, the node restarts, and the Init is sent once
more. -/
def replayedInit (raw sec : Int) : List ReplayStep :=
  [.peers fun _ => some (List.replicate 32 7), .init (initMsg raw) true (sec * second) (sec * second),
    .restart ((sec + 1) * second),
    .init (initMsg raw) true ((sec + 2) * second) ((sec + 2) * second)]

end Sample

namespace Manager

/-- Ten seconds after the epoch a peer signs a timestamp five seconds before it. The timestamp is
saved, but it is not greater than zero and so it is not loaded again. -/
theorem init_passes_twice :
    Along (next Sample.responder) Forward { clock := 0 } (Sample.replayedInit (-5) 10) ∧
      allPassed Sample.responder
        (trail (next Sample.responder) { clock := 0 } (Sample.replayedInit (-5) 10)) =
          [⟨Sample.initMsg (-5), Sample.initiator, -5 * second⟩,
            ⟨Sample.initMsg (-5), Sample.initiator, -5 * second⟩] := by
  decide +kernel

/-- In the year 2023 the Init passes once. -/
theorem init_passes_once_recent :
    (allPassed Sample.responder (trail (next Sample.responder) { clock := 0 }
        (Sample.replayedInit 1700000000 1700000000))).map (·.timestamp) =
          [1700000000 * second] ∧
      ((allPassed Sample.responder (trail (next Sample.responder) { clock := 0 }
        (Sample.replayedInit 1700000000 1700000000))).map (·.noiseMsg)).Nodup :=
  ⟨by decide +kernel, (init_passes_once (by decide +kernel) (by decide +kernel)).2⟩

end Manager

end Veld.Handshake
