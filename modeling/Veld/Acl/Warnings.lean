import Veld.Acl.Meaning

/-!
# Warnings about rules that never match

`isUnmatchable` takes a rule for unmatchable if its two subjects resolve to the same
single peer or to peers none of which they share. Only the first of these says that the
rule matches no two different peers, and only if neither subject is the wildcard, which
names more keys than those of the listed peers. A rule between two different peers is
warned about although it decides about their connections.
-/

namespace Veld.Acl

open Peer

namespace RawPolicy

variable {codec : Codec} {r : RawPolicy} {p : Policy} {i : Nat} {rr : RawRule} {rule : Rule}
  {src dst : PeerID}

/-- The warning about the rule at an index is among those of the policy. -/
def Warned (codec : Codec) (p : Policy) (i : Nat) : Prop :=
  ∃ rule text, p.rules[i]? = some rule ∧ ruleWarning codec p.peers p.tags rule i = some text ∧
    text ∈ p.warnings

instance (codec : Codec) (p : Policy) (i : Nat) : Decidable (Warned codec p i) :=
  decidable_of_iff (∃ rule ∈ p.rules[i]?, ∃ text ∈ ruleWarning codec p.peers p.tags rule i,
      text ∈ p.warnings) <| by
    simp [Warned]

/-- The subjects of a rule name one and the same key. -/
def SamePeer (codec : Codec) (r : RawPolicy) (rr : RawRule) : Prop :=
  ∃ key, (∀ x, r.Names codec rr.fromSubject x ↔ x = key) ∧
    ∀ x, r.Names codec rr.toSubject x ↔ x = key

/-- Rules are warned about because of their subjects. -/
theorem isUnmatchable_of_warned (h : Warned codec p i) :
    ∃ rule, p.rules[i]? = some rule ∧ isUnmatchable rule p.peers p.tags = true := by
  obtain ⟨rule, text, hrule, htext, -⟩ := h
  refine ⟨rule, hrule, ?_⟩
  unfold ruleWarning at htext
  split at htext
  · next h => exact h
  · cases htext

/-- A rule without ports is not accepted. -/
theorem ports_ne_nil_of_validateAndCompile (h : r.validateAndCompile codec = .ok p) :
    ∀ rr ∈ r.rules, rr.ports ≠ [] := by
  intro rr hrr
  obtain ⟨-, h⟩ := guard_eq_ok.mp h
  obtain ⟨-, h⟩ := guard_eq_ok.mp h
  obtain ⟨default, -, h⟩ := bind_eq_ok.mp h
  obtain ⟨-, h⟩ := guard_eq_ok.mp h
  obtain ⟨peers, -, h⟩ := bind_eq_ok.mp h
  obtain ⟨tags, -, h⟩ := bind_eq_ok.mp h
  obtain ⟨rules, hrules, -⟩ := bind_eq_ok.mp h
  obtain ⟨i, hi⟩ := List.mem_iff_getElem?.mp hrr
  have hmem : (rr, i) ∈ r.rules.zipIdx := by
    rw [List.mem_zipIdx_iff_getElem?]
    exact hi
  obtain ⟨rule, -, hrule⟩ := exists_mem_of_forall₂ (mapM_eq_ok.mp hrules) hmem
  obtain ⟨-, hrule⟩ := guard_eq_ok.mp hrule
  obtain ⟨hports, -⟩ := guard_eq_ok.mp hrule
  simpa using hports

section Subjects

variable (h : r.Accepted codec p)
include h

/-- The set of a subject that is not the wildcard has the keys it names. -/
theorem mem_resolveSubject_iff {subject : String} (hstar : subject ≠ "*") (key : PeerID) :
    key ∈ resolveSubject subject p.peers p.tags ↔ r.Names codec subject key := by
  rw [← names_iff h, resolveSubject, if_neg hstar]
  simp [hstar]

/-- The wildcard names every key. -/
theorem names_of_mem_resolveSubject {subject : String} {key : PeerID}
    (hkey : key ∈ resolveSubject subject p.peers p.tags) : r.Names codec subject key := by
  by_cases hstar : subject = "*"
  · exact .everyone hstar
  · exact (mem_resolveSubject_iff h hstar key).mp hkey

end Subjects

/-- A rule with subjects that name two keys matches something between them. -/
theorem exists_matches (hread : ReadAs codec rr rule)
    (hports : rr.ports ≠ []) (hsrc : r.Names codec rr.fromSubject src)
    (hdst : r.Names codec rr.toSubject dst) :
    ∃ proto port, r.Matches codec rr src dst proto port := by
  obtain ⟨s, hs⟩ := List.exists_mem_of_ne_nil _ hports
  obtain ⟨pr, -, hparse⟩ := exists_mem_of_forall₂ hread.ports hs
  obtain ⟨e, rfl, proto, port, hcovers⟩ := PortEntry.exists_of_parsePortRange hparse
  exact ⟨proto, port, hsrc, hdst, s, hs, e, hparse, hcovers⟩

/-- A rule that is warned about matches two different keys, unless its subjects name one and the
same key. -/
theorem exists_names_of_isUnmatchable (h : r.Accepted codec p)
    (hread : ReadAs codec rr rule) (hwarn : isUnmatchable rule p.peers p.tags = true)
    (hsame : ¬SamePeer codec r rr) :
    ∃ src dst, src ≠ dst ∧ r.Names codec rr.fromSubject src ∧ r.Names codec rr.toSubject dst := by
  unfold isUnmatchable at hwarn
  rw [hread.fromSubject, hread.toSubject] at hwarn
  simp only [Bool.or_eq_true, Bool.and_eq_true, decide_eq_true_eq] at hwarn
  rcases hwarn with ⟨⟨hfrom, hto⟩, hcommon⟩ | ⟨⟨hfrom, hto⟩, hdisjoint⟩
  · -- one key on both sides: a wildcard names others as well
    obtain ⟨key, hkey⟩ := Finset.card_eq_one.mp hfrom
    obtain ⟨key', hkey'⟩ := Finset.card_eq_one.mp hto
    obtain ⟨x, hx⟩ := Finset.card_ne_zero.mp hcommon
    rw [hkey, hkey', Finset.mem_inter, Finset.mem_singleton, Finset.mem_singleton] at hx
    obtain ⟨rfl, rfl⟩ := hx
    have hsrc : r.Names codec rr.fromSubject x :=
      names_of_mem_resolveSubject h (by rw [hkey]; exact Finset.mem_singleton_self x)
    have hdst : r.Names codec rr.toSubject x :=
      names_of_mem_resolveSubject h (by rw [hkey']; exact Finset.mem_singleton_self x)
    have hother : x + 1 ≠ x := by
      rw [Ne, add_eq_left]
      decide
    by_cases hanyone : rr.fromSubject = "*"
    · exact ⟨x + 1, x, hother, .everyone hanyone, hdst⟩
    · by_cases hanywhere : rr.toSubject = "*"
      · exact ⟨x, x + 1, hother.symm, hsrc, .everyone hanywhere⟩
      · refine absurd ⟨x, fun y => ?_, fun y => ?_⟩ hsame
        · rw [← mem_resolveSubject_iff h hanyone, hkey, Finset.mem_singleton]
        · rw [← mem_resolveSubject_iff h hanywhere, hkey', Finset.mem_singleton]
  · obtain ⟨src, hsrc⟩ := Finset.card_pos.mp hfrom
    obtain ⟨dst, hdst⟩ := Finset.card_pos.mp hto
    refine ⟨src, dst, ?_, names_of_mem_resolveSubject h hsrc, names_of_mem_resolveSubject h hdst⟩
    rintro rfl
    rw [Finset.card_eq_zero] at hdisjoint
    exact Finset.notMem_empty src (hdisjoint ▸ Finset.mem_inter.mpr ⟨hsrc, hdst⟩)

/-- `Decide` returns the index of a rule exactly if the rule is the first that matches and the
destination may be reached. -/
theorem ruleIndex_eq_iff (h : r.Accepted codec p) {proto : Proto} {port : UInt16} : (p.compile.decide src dst proto port).ruleIndex = i ↔
      ¬r.OutboundOnly codec dst ∧ FirstMatch codec r src dst proto port i := by
  have hneg : (-1 : Int) ≠ i := by omega
  rcases decide_cases h src dst proto port with ⟨hout, hdec⟩ | ⟨hout, j, hfirst, hdec⟩ |
    ⟨hout, hnone, hdec⟩
  · rw [hdec]
    exact iff_of_false hneg fun hi => hi.1 hout
  · rw [hdec]
    constructor
    · intro hij
      obtain rfl : j = i := Int.ofNat.inj hij
      exact ⟨hout, hfirst⟩
    · rintro ⟨-, hi⟩
      rcases lt_trichotomy j i with hlt | rfl | hgt
      · obtain ⟨rr, hrr, hm⟩ := hfirst.holds
        exact absurd hm (hi.lowest j rr hlt hrr)
      · rfl
      · obtain ⟨rr, hrr, hm⟩ := hi.holds
        exact absurd hm (hfirst.lowest i rr hgt hrr)
  · rw [hdec]
    refine iff_of_false hneg fun hi => ?_
    obtain ⟨rr, hrr, hm⟩ := hi.2.holds
    exact hnone rr (List.mem_of_getElem? hrr) hm

end RawPolicy

open RawPolicy

/-- A warning about a rule is right if both subjects of the rule name one and the same key: then
`Decide` never returns its index for two different peers. In every other case the rule matches
different peers, and `Decide` returns its index for all of them that no earlier rule matches and
whose destination is not outbound-only. -/
theorem unmatchable_warning_right_iff {codec : Codec} {r : RawPolicy} {p : Policy}
    (h : r.validateAndCompile codec = .ok p) {i : Nat} (hwarn : Warned codec p i) :
    ∃ rr, r.rules[i]? = some rr ∧
      (SamePeer codec r rr → ∀ src dst proto port, src ≠ dst →
        (p.compile.decide src dst proto port).ruleIndex ≠ i) ∧
      (¬SamePeer codec r rr → ∃ src dst proto port, src ≠ dst ∧
        r.Matches codec rr src dst proto port) ∧
      ∀ src dst proto port, r.Matches codec rr src dst proto port → ¬r.OutboundOnly codec dst →
        (∀ j rr', j < i → r.rules[j]? = some rr' → ¬r.Matches codec rr' src dst proto port) →
        (p.compile.decide src dst proto port).ruleIndex = i := by
  have hacc := accepted_of_validateAndCompile h
  obtain ⟨rule, hrule, hunmatchable⟩ := isUnmatchable_of_warned hwarn
  obtain ⟨rr, hrr, hread⟩ := exists_getElem?_of_forall₂ hacc.rules.flip hrule
  refine ⟨rr, hrr, ?_, ?_, ?_⟩
  · rintro ⟨key, hfrom, hto⟩ src dst proto port hne hindex
    obtain ⟨rr', hrr', hm⟩ := ((ruleIndex_eq_iff hacc).mp hindex).2.holds
    rw [hrr] at hrr'
    cases hrr'
    exact hne (((hfrom src).mp hm.fromSubject).trans ((hto dst).mp hm.toSubject).symm)
  · intro hsame
    obtain ⟨src, dst, hne, hsrc, hdst⟩ := exists_names_of_isUnmatchable hacc hread hunmatchable hsame
    obtain ⟨proto, port, hm⟩ := exists_matches hread
      (ports_ne_nil_of_validateAndCompile h rr (List.mem_of_getElem? hrr)) hsrc hdst
    exact ⟨src, dst, proto, port, hne, hm⟩
  · intro src dst proto port hm hout hfirst
    exact (ruleIndex_eq_iff hacc).mpr ⟨hout, ⟨rr, hrr, hm⟩, hfirst⟩

namespace Sample

/-- `alice` may reach `bob`, and `bob` may reach themself. -/
def alicePolicy : RawPolicy where
  version := 1
  default := "deny"
  peers := (AList.insert "bob" "ed25519:22" ∅).insert "alice" "ed25519:1"
  rules := [{ fromSubject := "alice", toSubject := "bob", ports := ["tcp/22"] },
    { fromSubject := "bob", toSubject := "bob", ports := ["*"] }]

end Sample

/-- The second rule never decides about two different peers, as its warning says. -/
theorem unmatchable_warning_right_iff_bob :
    ∃ p, Sample.alicePolicy.validateAndCompile Sample.lengthCodec = .ok p ∧
      Warned Sample.lengthCodec p 1 ∧ ∀ src dst proto port, src ≠ dst →
        (p.compile.decide src dst proto port).ruleIndex ≠ 1 := by
  have hdec : (Sample.alicePolicy.validateAndCompile Sample.lengthCodec).toOption.map
      (fun p => (decide (Warned Sample.lengthCodec p 1), resolveSubject "bob" p.peers p.tags)) =
        some (true, {2}) := by decide +kernel
  obtain ⟨p, hp, hdec⟩ := exists_of_toOption_map hdec
  obtain ⟨hwarn, hbob⟩ := Prod.mk.inj hdec
  obtain ⟨rr, hrr, hright, -⟩ := unmatchable_warning_right_iff hp (of_decide_eq_true hwarn)
  obtain rfl : Sample.alicePolicy.rules[1] = rr := Option.some.inj hrr
  have hnames (x : PeerID) : Sample.alicePolicy.Names Sample.lengthCodec "bob" x ↔ x = 2 := by
    rw [← mem_resolveSubject_iff (accepted_of_validateAndCompile hp) (by decide), hbob,
      Finset.mem_singleton]
  exact ⟨p, hp, of_decide_eq_true hwarn, hright ⟨2, hnames, hnames⟩⟩

/-- The first rule is warned about as well, although it decides about connections from `alice` to
`bob`. -/
theorem warned_rule_decides :
    ∃ p, Sample.alicePolicy.validateAndCompile Sample.lengthCodec = .ok p ∧
      Warned Sample.lengthCodec p 0 ∧ (p.compile.decide 1 2 protoTCP 22).ruleIndex = 0 := by
  have hdec : (Sample.alicePolicy.validateAndCompile Sample.lengthCodec).toOption.map
      (fun p => (decide (Warned Sample.lengthCodec p 0),
        (p.compile.decide 1 2 protoTCP 22).ruleIndex)) = some (true, 0) := by decide +kernel
  obtain ⟨p, hp, hdec⟩ := exists_of_toOption_map hdec
  obtain ⟨hwarn, hindex⟩ := Prod.mk.inj hdec
  exact ⟨p, hp, of_decide_eq_true hwarn, hindex⟩

end Veld.Acl
