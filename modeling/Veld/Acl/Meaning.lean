import Veld.Core.Checked
import Veld.Acl.Policy

/-!
# What a policy file means

A policy as it is written, read without its compiled form: which keys a subject names,
which packets a port entry covers and when a rule matches. `Decide` of the compiled
policy answers by this meaning, which does not depend on the order of the rules.
-/

namespace Veld.Acl

open Peer

/-- A port entry of a rule. -/
inductive PortEntry
  | any
  | icmp
  | tcp (start stop : UInt16)
  | udp (start stop : UInt16)
  deriving DecidableEq, Repr

namespace PortEntry

/-- The range an entry is read as. -/
def toRange : PortEntry → PortRange
  | any => ⟨protoAny, 0, 65535, false⟩
  | icmp => icmpRange
  | tcp start stop => { proto := protoTCP, start, stop }
  | udp start stop => { proto := protoUDP, start, stop }

/-- The packets an entry covers. -/
def Covers : PortEntry → Proto → UInt16 → Prop
  | any, _, _ => True
  | icmp, proto, _ => proto = protoICMP ∨ proto = protoICMPv6
  | tcp start stop, proto, port => proto = protoTCP ∧ start ≤ port ∧ port ≤ stop
  | udp start stop, proto, port => proto = protoUDP ∧ start ≤ port ∧ port ≤ stop

/-- The protocols an entry names. -/
def NamesProto : PortEntry → Proto → Prop
  | any, _ => True
  | icmp, proto => proto = protoICMP ∨ proto = protoICMPv6
  | tcp _ _, proto => proto = protoTCP
  | udp _ _, proto => proto = protoUDP

/-- The ports an entry names; those of `*` and `icmp` are all. -/
def NamesPort : PortEntry → UInt16 → Prop
  | any, _ => True
  | icmp, _ => True
  | tcp start stop, port => start ≤ port ∧ port ≤ stop
  | udp start stop, port => start ≤ port ∧ port ≤ stop

theorem matchesProto_toRange (e : PortEntry) (proto : Proto) :
    e.toRange.matchesProto proto = true ↔ e.NamesProto proto := by
  have hports (p : Proto) (hp : p ≠ protoAny) (start stop : UInt16) :
      PortRange.matchesProto { proto := p, start, stop } proto = true ↔ proto = p := by
    have hany : (p == protoAny) = false := beq_eq_false_iff_ne.mpr hp
    simp only [PortRange.matchesProto, hany, Bool.false_and, Bool.or_false, Bool.false_or,
      beq_iff_eq]
    rw [eq_comm]
  cases e with
  | any => exact ⟨fun _ => trivial, fun _ => rfl⟩
  | icmp =>
    simp only [toRange, NamesProto, PortRange.matchesProto, icmpRange, Bool.true_and,
      Bool.or_eq_true, beq_iff_eq]
    constructor
    · rintro ((h | h) | h)
      · exact absurd h (by decide)
      · exact .inl h.symm
      · exact h
    · exact fun h => .inr h
  | tcp start stop => exact hports protoTCP (by decide) start stop
  | udp start stop => exact hports protoUDP (by decide) start stop

theorem containsPort_toRange (e : PortEntry) (port : UInt16) :
    e.toRange.containsPort port = true ↔ e.NamesPort port := by
  have hports (p : Proto) (hp : p ≠ protoAny ∧ p ≠ protoICMP ∧ p ≠ protoICMPv6)
      (start stop : UInt16) :
      PortRange.containsPort { proto := p, start, stop } port = true ↔
        start ≤ port ∧ port ≤ stop := by
    rw [PortRange.containsPort, if_pos hp]
    simp
  cases e with
  | any => exact ⟨fun _ => trivial, fun _ => rfl⟩
  | icmp => exact ⟨fun _ => trivial, fun _ => rfl⟩
  | tcp start stop => exact hports protoTCP (by decide) start stop
  | udp start stop => exact hports protoUDP (by decide) start stop

theorem covers_iff (e : PortEntry) (proto : Proto) (port : UInt16) :
    e.Covers proto port ↔ e.NamesProto proto ∧ e.NamesPort port := by
  cases e with
  | any => exact ⟨fun _ => ⟨trivial, trivial⟩, fun _ => trivial⟩
  | icmp => exact ⟨fun h => ⟨h, trivial⟩, fun h => h.1⟩
  | tcp start stop => exact Iff.rfl
  | udp start stop => exact Iff.rfl

theorem covers_toRange (e : PortEntry) (proto : Proto) (port : UInt16) :
    (e.toRange.matchesProto proto && e.toRange.containsPort port) = true ↔
      e.Covers proto port := by
  rw [Bool.and_eq_true, matchesProto_toRange, containsPort_toRange, covers_iff]

theorem toRange_of_parsePorts {codec : Codec} {proto : Proto} {portStr : List Char} {pr : PortRange}
    (h : parsePorts codec proto portStr = .ok pr) :
    ∃ start stop, pr = { proto, start, stop } ∧ start ≤ stop := by
  unfold parsePorts at h
  split at h
  · split at h
    · obtain ⟨start, -, h⟩ := bind_eq_ok.mp h
      obtain ⟨stop, -, h⟩ := bind_eq_ok.mp h
      obtain ⟨hle, h⟩ := guard_eq_ok.mp h
      cases h
      exact ⟨start, stop, rfl, UInt16.not_lt.mp hle⟩
    · cases h
  · obtain ⟨port, -, h⟩ := bind_eq_ok.mp h
    cases h
    exact ⟨port, port, rfl, UInt16.le_refl port⟩

/-- Every entry that is accepted is one of these, and it covers something. -/
theorem exists_of_parsePortRange {codec : Codec} {s : String} {pr : PortRange}
    (h : parsePortRange codec s = .ok pr) :
    ∃ e : PortEntry, pr = e.toRange ∧ ∃ proto port, e.Covers proto port := by
  unfold parsePortRange at h
  split at h
  · cases h
    exact ⟨any, rfl, protoTCP, 0, trivial⟩
  · split at h
    · cases h
      exact ⟨icmp, rfl, protoICMP, 0, .inl rfl⟩
    · split at h
      · dsimp only at h
        split at h
        · obtain ⟨start, stop, rfl, hle⟩ := toRange_of_parsePorts h
          exact ⟨tcp start stop, rfl, protoTCP, start, rfl, UInt16.le_refl start, hle⟩
        · split at h
          · obtain ⟨start, stop, rfl, hle⟩ := toRange_of_parsePorts h
            exact ⟨udp start stop, rfl, protoUDP, start, rfl, UInt16.le_refl start, hle⟩
          · split at h
            · cases h
              exact ⟨icmp, rfl, protoICMP, 0, .inl rfl⟩
            · cases h
      · cases h

end PortEntry

theorem tagName_eq_some {subject tag : String} :
    tagName subject = some tag ↔ subject = "tag:" ++ tag := by
  unfold tagName
  constructor
  · intro h
    split at h
    · next hprefix =>
      cases h
      obtain ⟨rest, hrest⟩ := List.isPrefixOf_iff_prefix.mp hprefix
      have hdrop : ("tag:".toList ++ rest).drop 4 = rest := rfl
      have hlist : (String.ofList rest).toList = rest := String.toList_ofList
      rw [← String.toList_inj, String.toList_append, ← hrest, hdrop, hlist]
    · cases h
  · rintro rfl
    rw [String.toList_append]
    have hprefix : "tag:".toList.isPrefixOf ("tag:".toList ++ tag.toList) = true :=
      List.isPrefixOf_iff_prefix.mpr (List.prefix_append _ _)
    have hdrop : ("tag:".toList ++ tag.toList).drop 4 = tag.toList := rfl
    rw [if_pos hprefix, hdrop, String.ofList_toList]

namespace RawPolicy

variable (codec : Codec) (r : RawPolicy)

/-- The key of a peer, by its name. -/
def keyOf (name : String) : Option PeerID :=
  (r.peers.lookup name).bind fun s => (parsePeerKey codec s).toOption

/-- The subject names a peer with the key: every peer, the peer of the name, or one with a tag. What
starts with `tag:` is a tag, also if a peer has this name. -/
inductive Names (subject : String) (key : PeerID) : Prop
  | everyone (h : subject = "*")
  | peer (hname : ∀ tag, subject ≠ "tag:" ++ tag) (h : r.keyOf codec subject = some key)
  | tag {tag name : String} {names : List String} (h : subject = "tag:" ++ tag)
    (htag : r.tags.lookup tag = some names) (hname : name ∈ names)
    (hkey : r.keyOf codec name = some key)

/-- The rule is about a connection. -/
structure Matches (rr : RawRule) (src dst : PeerID) (proto : Proto) (port : UInt16) : Prop where
  fromSubject : r.Names codec rr.fromSubject src
  toSubject : r.Names codec rr.toSubject dst
  ports : ∃ s ∈ rr.ports, ∃ e : PortEntry, parsePortRange codec s = .ok e.toRange ∧
    e.Covers proto port

/-- The key is that of an outbound-only peer. -/
def OutboundOnly (key : PeerID) : Prop :=
  ∃ name ∈ r.outboundOnlyPeers, r.keyOf codec name = some key

/-- One rule of the file and the rule that was read of it. -/
structure ReadAs (rr : RawRule) (rule : Rule) : Prop where
  fromSubject : rule.fromSubject = rr.fromSubject
  toSubject : rule.toSubject = rr.toSubject
  ports : List.Forall₂ (fun s pr => parsePortRange codec s = .ok pr) rr.ports rule.ports

/-- What a policy that is accepted has of its file. -/
structure Accepted (p : Policy) : Prop where
  default : parseDefaultAction codec r.default = .ok p.default
  peers : ∀ name, p.peers.lookup name = r.keyOf codec name
  tags : ∀ tag, p.tags.lookup tag = r.tags.lookup tag
  rules : List.Forall₂ (ReadAs codec) r.rules p.rules
  outboundOnly : p.outboundOnly = r.outboundOnlyPeers

section Validation

variable {codec r} {peers : AList fun _ : String => PeerID} {tags : AList fun _ : String => List String}

theorem lookup_validatePeers (h : r.validatePeers codec = .ok peers) (name : String) :
    peers.lookup name = r.keyOf codec name := by
  refine Option.ext fun key => ?_
  rw [lookup_foldlM_insert (f := fun e => (parsePeerKey codec e.2).mapError
    ("policy: peer " ++ codec.quote e.1 ++ ": " ++ ·)) ?_ h, keyOf, Option.bind_eq_some_iff]
  · constructor
    · rintro (hnone | ⟨e, he, rfl, hkey⟩)
      · cases hnone
      · refine ⟨e.2, AList.mem_lookup_iff.mpr he, ?_⟩
        rw [mapError_eq_ok.mp hkey]
        rfl
    · rintro ⟨s, hs, hkey⟩
      refine .inr ⟨⟨name, s⟩, AList.mem_lookup_iff.mp hs, rfl, mapError_eq_ok.mpr ?_⟩
      cases hparse : parsePeerKey codec s with
      | error e =>
        rw [hparse] at hkey
        cases hkey
      | ok key' =>
        rw [hparse] at hkey
        cases hkey
        rfl
  · intro m e m' hstep
    obtain ⟨-, hstep⟩ := guard_eq_ok.mp hstep
    obtain ⟨hnew, hstep⟩ := guard_eq_ok.mp hstep
    obtain ⟨key, hkey, hstep⟩ := bind_eq_ok.mp hstep
    cases hstep
    exact ⟨key, hkey, Option.not_isSome_iff_eq_none.mp hnew, rfl⟩

theorem lookup_validateTags (h : r.validateTags codec peers = .ok tags) (tag : String) :
    tags.lookup tag = r.tags.lookup tag := by
  refine Option.ext fun names => ?_
  rw [lookup_foldlM_insert (f := fun e => .ok e.2) ?_ h]
  · constructor
    · rintro (hnone | ⟨e, he, rfl, hnames⟩)
      · cases hnone
      · cases hnames
        exact AList.mem_lookup_iff.mpr he
    · intro hnames
      exact .inr ⟨⟨tag, names⟩, AList.mem_lookup_iff.mp hnames, rfl, rfl⟩
  · intro m e m' hstep
    obtain ⟨-, hstep⟩ := guard_eq_ok.mp hstep
    obtain ⟨hnew, hstep⟩ := guard_eq_ok.mp hstep
    obtain ⟨-, hstep⟩ := guard_eq_ok.mp hstep
    split at hstep
    · cases hstep
    · cases hstep
      exact ⟨e.2, rfl, Option.not_isSome_iff_eq_none.mp hnew, rfl⟩

theorem readAs_of_validateRule {rr : RawRule} {i : Nat} {rule : Rule}
    (h : validateRule codec peers tags rr i = .ok rule) : ReadAs codec rr rule := by
  obtain ⟨-, h⟩ := guard_eq_ok.mp h
  obtain ⟨-, h⟩ := guard_eq_ok.mp h
  obtain ⟨-, -, h⟩ := bind_eq_ok.mp h
  obtain ⟨-, -, h⟩ := bind_eq_ok.mp h
  obtain ⟨ports, hports, h⟩ := bind_eq_ok.mp h
  cases h
  exact ⟨rfl, rfl, (mapM_eq_ok.mp hports).imp fun _ _ => mapError_eq_ok.mp⟩

/-- These are the parts of the file that decide. -/
theorem accepted_of_validateAndCompile {p : Policy} (h : r.validateAndCompile codec = .ok p) :
    r.Accepted codec p := by
  obtain ⟨-, h⟩ := guard_eq_ok.mp h
  obtain ⟨-, h⟩ := guard_eq_ok.mp h
  obtain ⟨default, hdefault, h⟩ := bind_eq_ok.mp h
  obtain ⟨-, h⟩ := guard_eq_ok.mp h
  obtain ⟨peers, hpeers, h⟩ := bind_eq_ok.mp h
  obtain ⟨tags, htags, h⟩ := bind_eq_ok.mp h
  obtain ⟨rules, hrules, h⟩ := bind_eq_ok.mp h
  have hrules : List.Forall₂ (ReadAs codec) r.rules rules := by
    have hread := (mapM_eq_ok.mp hrules).imp fun _ _ => readAs_of_validateRule
    rwa [← List.zipIdx_map_fst 0 r.rules, List.forall₂_map_left_iff]
  split at h
  · cases h
  · cases h
    exact ⟨mapError_eq_ok.mp hdefault, lookup_validatePeers hpeers, lookup_validateTags htags,
      hrules, rfl⟩

end Validation

section Compilation

variable {codec r} {p : Policy} {src dst : PeerID} {proto : Proto} {port : UInt16} {rr : RawRule}
  {rule : Rule} {i : Nat} {cr : CompiledRule}

/-- The set and the flag of a compiled rule stand for the keys its subject names. -/
theorem names_iff (h : r.Accepted codec p) (subject : String) (key : PeerID) :
    (subject == "*" || decide (key ∈ resolveSubjectToPeers subject p.peers p.tags)) = true ↔
      r.Names codec subject key := by
  rw [Bool.or_eq_true, beq_iff_eq, decide_eq_true_eq]
  by_cases hstar : subject = "*"
  · exact iff_of_true (.inl hstar) (.everyone hstar)
  rw [or_iff_right hstar, resolveSubjectToPeers, if_neg hstar]
  cases htag : tagName subject with
  | some tag =>
    have hsubject := tagName_eq_some.mp htag
    simp only [List.mem_toFinset, List.mem_filterMap, h.tags, h.peers]
    constructor
    · rintro ⟨name, hname, hkey⟩
      cases hnames : r.tags.lookup tag with
      | none =>
        rw [hnames] at hname
        cases hname
      | some names =>
        rw [hnames] at hname
        exact .tag hsubject hnames hname hkey
    · intro hkey
      cases hkey with
      | everyone hall => exact absurd hall hstar
      | peer hname _ => exact absurd hsubject (hname tag)
      | tag hsame hnames hname hkey =>
        rw [tagName_eq_some.mpr hsame] at htag
        cases htag
        exact ⟨_, by rwa [hnames], hkey⟩
  | none =>
    have hname (tag : String) : subject ≠ "tag:" ++ tag := by
      intro hsubject
      rw [tagName_eq_some.mpr hsubject] at htag
      cases htag
    simp only [List.mem_toFinset, Option.mem_toList, h.peers]
    constructor
    · exact .peer hname
    · intro hkey
      cases hkey with
      | everyone hall => exact absurd hall hstar
      | peer _ hkey => exact hkey
      | tag hsame _ _ _ => exact absurd hsame (hname _)

theorem ports_iff (h : ReadAs codec rr rule) :
    (rule.ports.any fun pr => pr.matchesProto proto && pr.containsPort port) = true ↔
      ∃ s ∈ rr.ports, ∃ e : PortEntry, parsePortRange codec s = .ok e.toRange ∧
        e.Covers proto port := by
  rw [List.any_eq_true]
  constructor
  · rintro ⟨pr, hpr, hcovers⟩
    obtain ⟨s, hs, hparse⟩ := exists_mem_of_forall₂ h.ports.flip hpr
    obtain ⟨e, rfl, -⟩ := PortEntry.exists_of_parsePortRange hparse
    exact ⟨s, hs, e, hparse, (e.covers_toRange proto port).mp hcovers⟩
  · rintro ⟨s, hs, e, hparse, hcovers⟩
    obtain ⟨pr, hpr, hparse'⟩ := exists_mem_of_forall₂ h.ports hs
    cases hparse.symm.trans hparse'
    exact ⟨_, hpr, (e.covers_toRange proto port).mpr hcovers⟩

/-- The compiled form of one rule. -/
def compiledRule (p : Policy) (rule : Rule) (i : Nat) : CompiledRule where
  srcPeers := resolveSubjectToPeers rule.fromSubject p.peers p.tags
  dstPeers := resolveSubjectToPeers rule.toSubject p.peers p.tags
  srcAny := rule.fromSubject == "*"
  dstAny := rule.toSubject == "*"
  ports := rule.ports
  ruleIndex := i

/-- A compiled rule matches what it was written for. -/
theorem covers_iff (h : r.Accepted codec p) (hrule : ReadAs codec rr rule) (i : Nat) :
    (compiledRule p rule i).covers src dst proto port = true ↔
      r.Matches codec rr src dst proto port := by
  rw [CompiledRule.covers, Bool.and_eq_true, Bool.and_eq_true, compiledRule, ports_iff hrule,
    names_iff h, names_iff h, hrule.fromSubject, hrule.toSubject]
  exact ⟨fun ⟨⟨hdst, hsrc⟩, hports⟩ => ⟨hsrc, hdst, hports⟩, fun hm => ⟨⟨hm.2, hm.1⟩, hm.3⟩⟩

theorem getElem?_compile : p.compile.rules[i]? = some cr ↔
      ∃ rule, p.rules[i]? = some rule ∧ cr = compiledRule p rule i := by
  have hrules : p.compile.rules = p.rules.zipIdx.map fun x => compiledRule p x.1 x.2 := rfl
  rw [hrules, List.getElem?_map, List.getElem?_zipIdx, Option.map_map, Option.map_eq_some_iff]
  simp [eq_comm]

/-- The rule with the lowest index that matches. -/
structure FirstMatch (codec : Codec) (r : RawPolicy) (src dst : PeerID) (proto : Proto)
    (port : UInt16) (i : Nat) : Prop where
  holds : ∃ rr, r.rules[i]? = some rr ∧ r.Matches codec rr src dst proto port
  lowest : ∀ j rr, j < i → r.rules[j]? = some rr → ¬r.Matches codec rr src dst proto port

theorem matches_of_getElem? (h : r.Accepted codec p)
    (hcr : p.compile.rules[i]? = some cr) : ∃ rr, r.rules[i]? = some rr ∧
      (cr.covers src dst proto port = true ↔ r.Matches codec rr src dst proto port) ∧
      cr.ruleIndex = i := by
  obtain ⟨rule, hrule, rfl⟩ := getElem?_compile.mp hcr
  obtain ⟨rr, hrr, hread⟩ := exists_getElem?_of_forall₂ h.rules.flip hrule
  exact ⟨rr, hrr, covers_iff h hread i, rfl⟩

theorem exists_compiled (h : r.Accepted codec p)
    (hrr : r.rules[i]? = some rr) : ∃ cr, p.compile.rules[i]? = some cr ∧
      (cr.covers src dst proto port = true ↔ r.Matches codec rr src dst proto port) := by
  obtain ⟨rule, hrule, hread⟩ := exists_getElem?_of_forall₂ h.rules hrr
  exact ⟨_, getElem?_compile.mpr ⟨rule, hrule, rfl⟩, covers_iff h hread i⟩

/-- The scan of `Decide` stops at the first match. -/
theorem firstMatch_of_find (h : r.Accepted codec p)
    (hfind : p.compile.rules.find? (·.covers src dst proto port) = some cr) :
    ∃ i, FirstMatch codec r src dst proto port i ∧ cr.ruleIndex = i := by
  obtain ⟨hcovers, i, hi, hcr, hbefore⟩ := List.find?_eq_some_iff_getElem.mp hfind
  obtain ⟨rr, hrr, hiff, hindex⟩ := matches_of_getElem? h (List.getElem?_eq_some_iff.mpr ⟨hi, hcr⟩)
  refine ⟨i, ⟨⟨rr, hrr, hiff.mp hcovers⟩, fun j rr' hj hrr' hmatches => ?_⟩, hindex⟩
  obtain ⟨cr', hcr', hiff'⟩ := exists_compiled h hrr'
  obtain ⟨hj', hget⟩ := List.getElem?_eq_some_iff.mp hcr'
  have hnot := hbefore j hj
  rw [hget, hiff'.mpr hmatches] at hnot
  cases hnot

theorem not_matches_of_find (h : r.Accepted codec p)
    (hfind : p.compile.rules.find? (·.covers src dst proto port) = none) :
    ∀ rr ∈ r.rules, ¬r.Matches codec rr src dst proto port := by
  intro rr hrr hmatches
  obtain ⟨i, hi⟩ := List.mem_iff_getElem?.mp hrr
  obtain ⟨cr, hcr, hiff⟩ := exists_compiled h hi
  exact List.find?_eq_none.mp hfind cr (List.mem_of_getElem? hcr) (hiff.mpr hmatches)

theorem outboundOnly_iff (h : r.Accepted codec p) (key : PeerID) :
    key ∈ p.compile.outboundOnly ↔ r.OutboundOnly codec key := by
  simp [Policy.compile, h.peers, h.outboundOnly, OutboundOnly]

/-- The peers `Decide` refuses are among those it knows. -/
theorem known_of_outboundOnly (h : r.Accepted codec p) {key : PeerID}
    (hkey : r.OutboundOnly codec key) : key ∈ p.compile.knownPeers := by
  obtain ⟨name, -, hname⟩ := hkey
  rw [← h.peers] at hname
  exact List.mem_toFinset.mpr (mem_values.mpr ⟨name, hname⟩)

/-- `Decide` of an accepted policy, by what is written. -/
theorem decide_cases (h : r.Accepted codec p) (src dst : PeerID) (proto : Proto) (port : UInt16) :
    (r.OutboundOnly codec dst ∧ p.compile.decide src dst proto port = ⟨.deny, -1, true⟩) ∨
    (¬r.OutboundOnly codec dst ∧ ∃ i, FirstMatch codec r src dst proto port i ∧
      p.compile.decide src dst proto port = ⟨.allow, i, false⟩) ∨
    (¬r.OutboundOnly codec dst ∧ (∀ rr ∈ r.rules, ¬r.Matches codec rr src dst proto port) ∧
      p.compile.decide src dst proto port = ⟨p.default, -1, false⟩) := by
  unfold CompiledPolicy.decide
  by_cases hout : r.OutboundOnly codec dst
  · have hmem : dst ∈ p.compile.outboundOnly := (outboundOnly_iff h dst).mpr hout
    refine .inl ⟨hout, ?_⟩
    split
    · rw [if_pos hmem]
    · rw [if_neg (not_not.mpr (known_of_outboundOnly h hout)), if_pos hmem]
  · have hnot : dst ∉ p.compile.outboundOnly := fun hmem => hout ((outboundOnly_iff h dst).mp hmem)
    cases hfind : p.compile.rules.find? (·.covers src dst proto port) with
    | some cr =>
      obtain ⟨i, hfirst, hindex⟩ := firstMatch_of_find h hfind
      refine .inr (.inl ⟨hout, i, hfirst, ?_⟩)
      simp only [if_neg hnot, hindex]
    | none =>
      refine .inr (.inr ⟨hout, not_matches_of_find h hfind, ?_⟩)
      simp only [if_neg hnot]
      split <;> rfl

/-- What a rule means does not depend on the other rules. -/
theorem matches_rules_iff {rules : List RawRule} :
    Matches codec { r with rules } rr src dst proto port ↔
      r.Matches codec rr src dst proto port := by
  have hnames {subject : String} {key : PeerID} :
      Names codec { r with rules } subject key ↔ r.Names codec subject key := by
    constructor
    · intro hkey
      cases hkey with
      | everyone hall => exact .everyone hall
      | peer hname hkey => exact .peer hname hkey
      | tag htag hnames hname hkey => exact .tag htag hnames hname hkey
    · intro hkey
      cases hkey with
      | everyone hall => exact .everyone hall
      | peer hname hkey => exact .peer hname hkey
      | tag htag hnames hname hkey => exact .tag htag hnames hname hkey
  exact ⟨fun hm => ⟨hnames.mp hm.1, hnames.mp hm.2, hm.3⟩,
    fun hm => ⟨hnames.mpr hm.1, hnames.mpr hm.2, hm.3⟩⟩

/-- The action, without the order of the rules. -/
theorem allow_iff (h : r.Accepted codec p) (src dst : PeerID) (proto : Proto) (port : UInt16) :
    (p.compile.decide src dst proto port).action = .allow ↔
      ¬r.OutboundOnly codec dst ∧ ((∃ rr ∈ r.rules, r.Matches codec rr src dst proto port) ∨
        parseDefaultAction codec r.default = .ok .allow) := by
  rcases decide_cases h src dst proto port with ⟨hout, hdec⟩ | ⟨hout, i, hfirst, hdec⟩ |
    ⟨hout, hnone, hdec⟩
  · rw [hdec]
    exact iff_of_false (by decide) fun hallow => hallow.1 hout
  · obtain ⟨rr, hrr, hmatches⟩ := hfirst.holds
    rw [hdec]
    exact iff_of_true rfl ⟨hout, .inl ⟨rr, List.mem_of_getElem? hrr, hmatches⟩⟩
  · rw [hdec, and_iff_right hout, or_iff_right fun ⟨rr, hrr, hm⟩ => hnone rr hrr hm, h.default]
    exact ⟨congrArg _, Except.ok.inj⟩

end Compilation

end RawPolicy

open RawPolicy

/-- Accepted policies decide as they are written. The action is given by the rules that match, the
default and the outbound-only peers; the index is that of the first match if a rule allows. So the
order of the rules does not matter for the action, and more rules never deny more. -/
theorem compiled_policy_as_written {codec : Codec} {r : RawPolicy} {p : Policy}
    (h : r.validateAndCompile codec = .ok p) (src dst : PeerID) (proto : Proto) (port : UInt16) :
    ((p.compile.decide src dst proto port).action = .allow ↔
      ¬r.OutboundOnly codec dst ∧ ((∃ rr ∈ r.rules, r.Matches codec rr src dst proto port) ∨
        parseDefaultAction codec r.default = .ok .allow)) ∧
    ((p.compile.decide src dst proto port).action = .allow →
      (∃ rr ∈ r.rules, r.Matches codec rr src dst proto port) →
      ∃ i, FirstMatch codec r src dst proto port i ∧
        (p.compile.decide src dst proto port).ruleIndex = i) ∧
    (¬((p.compile.decide src dst proto port).action = .allow ∧
        ∃ rr ∈ r.rules, r.Matches codec rr src dst proto port) →
      (p.compile.decide src dst proto port).ruleIndex = -1) ∧
    (∀ rules p', rules.Perm r.rules → validateAndCompile codec { r with rules } = .ok p' →
      (p'.compile.decide src dst proto port).action =
        (p.compile.decide src dst proto port).action) ∧
    ∀ rules p', r.rules ⊆ rules → validateAndCompile codec { r with rules } = .ok p' →
      (p.compile.decide src dst proto port).action = .allow →
      (p'.compile.decide src dst proto port).action = .allow := by
  have hacc := accepted_of_validateAndCompile h
  have hallow {rules : List RawRule} {p' : Policy}
      (h' : validateAndCompile codec { r with rules } = .ok p') :
      (p'.compile.decide src dst proto port).action = .allow ↔
        ¬r.OutboundOnly codec dst ∧ ((∃ rr ∈ rules, r.Matches codec rr src dst proto port) ∨
          parseDefaultAction codec r.default = .ok .allow) := by
    have hiff := allow_iff (accepted_of_validateAndCompile h') src dst proto port
    simp only [matches_rules_iff] at hiff
    exact hiff
  refine ⟨allow_iff hacc src dst proto port, ?_, ?_, ?_, ?_⟩
  · rintro haction ⟨rr, hrr, hmatches⟩
    rcases decide_cases hacc src dst proto port with ⟨-, hdec⟩ | ⟨-, i, hfirst, hdec⟩ |
      ⟨-, hnone, -⟩
    · rw [hdec] at haction
      cases haction
    · exact ⟨i, hfirst, by rw [hdec]⟩
    · exact absurd hmatches (hnone rr hrr)
  · intro hnot
    rcases decide_cases hacc src dst proto port with ⟨-, hdec⟩ | ⟨-, i, hfirst, hdec⟩ | ⟨-, -, hdec⟩
    · rw [hdec]
    · obtain ⟨rr, hrr, hmatches⟩ := hfirst.holds
      exact absurd ⟨by rw [hdec], rr, List.mem_of_getElem? hrr, hmatches⟩ hnot
    · rw [hdec]
  · intro rules p' hperm h'
    have hsame : (p'.compile.decide src dst proto port).action = .allow ↔
        (p.compile.decide src dst proto port).action = .allow := by
      rw [hallow h', allow_iff hacc]
      simp only [hperm.mem_iff]
    cases ha : (p.compile.decide src dst proto port).action with
    | allow => exact hsame.mpr ha
    | deny =>
      cases ha' : (p'.compile.decide src dst proto port).action with
      | deny => rfl
      | allow =>
        rw [hsame.mp ha'] at ha
        cases ha
  · intro rules p' hsub h' haction
    obtain ⟨hout, hrule | hdefault⟩ := (allow_iff hacc src dst proto port).mp haction
    · obtain ⟨rr, hrr, hmatches⟩ := hrule
      exact (hallow h').mpr ⟨hout, .inl ⟨rr, hsub hrr, hmatches⟩⟩
    · exact (hallow h').mpr ⟨hout, .inr hdefault⟩

namespace Sample

/-- Keys are told apart by the length of their text. -/
def lengthCodec : Codec where
  decode _ := .error ""
  hex s := some (List.replicate 31 0 ++ [UInt8.ofNat s.length])
  base64 _ := none
  quote s := s

/-- A peer with the key 1 whose name looks like a tag, and the tag with another peer. -/
def taggedPolicy : RawPolicy where
  version := 1
  default := "deny"
  peers := (AList.insert "bob" "ed25519:22" ∅).insert "tag:x" "ed25519:1"
  tags := AList.insert "x" ["bob"] ∅
  rules := [{ fromSubject := "tag:x", toSubject := "*", ports := ["tcp/20-30"] }]

end Sample

theorem compiled_policy_as_written_tagged :
    ∃ p, Sample.taggedPolicy.validateAndCompile Sample.lengthCodec = .ok p ∧
      (p.compile.decide 2 1 protoTCP 22).action = .allow ∧
      ∃ i, FirstMatch Sample.lengthCodec Sample.taggedPolicy 2 1 protoTCP 22 i ∧
        (p.compile.decide 2 1 protoTCP 22).ruleIndex = i := by
  have hdec : (Sample.taggedPolicy.validateAndCompile Sample.lengthCodec).toOption.map
      (fun p => (p.compile.decide 2 1 protoTCP 22).action) = some .allow := by decide +kernel
  obtain ⟨p, hp, hallow⟩ := exists_of_toOption_map hdec
  obtain ⟨hiff, hindex, -⟩ := compiled_policy_as_written hp 2 1 protoTCP 22
  refine ⟨p, hp, hallow, hindex hallow ((hiff.mp hallow).2.resolve_right ?_)⟩
  decide +kernel

/-- The rule names, letter by letter, a peer with the key 1, but `tag:x` is read as the tag. -/
theorem tag_shadows_peer :
    ∃ p, Sample.taggedPolicy.validateAndCompile Sample.lengthCodec = .ok p ∧
      (∃ rr ∈ Sample.taggedPolicy.rules,
        Sample.taggedPolicy.keyOf Sample.lengthCodec rr.fromSubject = some 1 ∧ rr.toSubject = "*" ∧
        ∃ s ∈ rr.ports, parsePortRange Sample.lengthCodec s = .ok (PortEntry.tcp 20 30).toRange) ∧
      ¬Sample.taggedPolicy.OutboundOnly Sample.lengthCodec 2 ∧
      (p.compile.decide 1 2 protoTCP 22).action = .deny := by
  have hdec : (Sample.taggedPolicy.validateAndCompile Sample.lengthCodec).toOption.map
      (fun p => (p.compile.decide 1 2 protoTCP 22).action) = some .deny := by decide +kernel
  obtain ⟨p, hp, hdeny⟩ := exists_of_toOption_map hdec
  refine ⟨p, hp, ⟨_, List.mem_cons_self, ?_, rfl, _, List.mem_cons_self, ?_⟩, ?_, hdeny⟩
  · decide +kernel
  · decide +kernel
  · rintro ⟨name, hname, -⟩
    cases hname

end Veld.Acl
