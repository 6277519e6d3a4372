import Veld.Core.Assoc
import Veld.Core.Netip
import Veld.Core.Trim
import Veld.Dns.Question

/-!
# The resolver for peer names

`Resolver` of `internal/dns/resolver.go`: what `handle` replies to a message. The labels
of a question are joined with dots and the text is compared with the domain, so that the
text has to determine the labels. It does when no label has a dot in it; then the reply
is about the one label in front of those of the domain, unless the resolver knows a name
with dots itself.
-/

namespace Veld.Dns

open Bytes
open Netip (Addr)

def dnsTypeA : UInt16 := 1
def dnsClassIN : UInt16 := 1
def dnsTTL : UInt8 := 30

/-- `strings.TrimSuffix`. -/
def trimSuffix (s suffix : Bytes) : Bytes :=
  if suffix.isSuffixOf s then s.take (s.length - suffix.length) else s

/-- A resolver; its domain is in lower case. -/
structure Resolver where
  domain : Bytes
  lookup : Bytes → Option Addr
  static : AList fun _ : Bytes => Addr
  lowered : domain.map lowerByte = domain

namespace Resolver

/-- `New`, with the default domain `veld`. -/
def new (u : LowerCase) (domain : Bytes) (lookup : Bytes → Option Addr) : Resolver where
  domain := toLower u (trim dot (if domain = [] then [0x76, 0x65, 0x6C, 0x64] else domain))
  lookup := lookup
  static := ∅
  lowered := toLower_lowered u _

/-- `AddStatic`. -/
def addStatic (u : LowerCase) (r : Resolver) (name : Bytes) (addr : Addr) : Resolver :=
  { r with static := r.static.insert (toLower u name) addr }

/-- `resolve`; the names that are added take precedence over the lookup. -/
def resolve (u : LowerCase) (r : Resolver) (qname : Bytes) : Option Addr :=
  let q := toLower u (trimSuffix qname [dot])
  let suffix := dot :: r.domain
  if !suffix.isSuffixOf q then none
  else
    let label := trimSuffix q suffix
    if label = [] then none
    else
      match r.static.lookup label with
      | some addr => some addr
      | none => r.lookup label

end Resolver

def appendU16 (b : Bytes) (v : UInt16) : Bytes := b ++ [(v >>> 8).toUInt8, v.toUInt8]

/-- `buildARecord`; the name is a pointer to the one of the question. -/
def buildARecord (ip4 : Bytes) : Bytes :=
  let buf := [0xC0, 0x0C]
  let buf := appendU16 buf dnsTypeA
  let buf := appendU16 buf dnsClassIN
  let buf := buf ++ [0, 0, 0, dnsTTL]
  let buf := appendU16 buf 4
  buf ++ ip4

namespace Resolver

/-- Code, number of answers and answer of the response to a resolved name. -/
def outcome (qtype : UInt16) : Option Addr → UInt16 × UInt16 × Bytes
  | none => (3, 0, [])
  | some (.v4 ip) =>
    if qtype = dnsTypeA then (0, 1, buildARecord (ofNatBE 4 ip.toNat)) else (0, 0, [])
  | some _ => (0, 0, [])

def buildResponse (u : LowerCase) (r : Resolver) (id : UInt16) (questionWire qname : Bytes)
    (qtype : UInt16) : Bytes :=
  let (rcode, ancount, answer) := outcome qtype (r.resolve u qname)
  let respFlags := 0x8400 ||| rcode
  let buf := appendU16 [] id
  let buf := appendU16 buf respFlags
  let buf := appendU16 buf 1
  let buf := appendU16 buf ancount
  let buf := appendU16 buf 0
  let buf := appendU16 buf 0
  buf ++ questionWire ++ answer

/-- `handle` with every access checked: `some none` if nothing is written. -/
def handle (u : LowerCase) (r : Resolver) (msg : Bytes) : Option (Option Bytes) := do
  if msg.length < 12 then return none
  let id ← msg.uint16At 0
  let flags ← msg.uint16At 2
  if flags &&& 0x8000 ≠ 0 ∨ (flags >>> 11) &&& 0xF ≠ 0 then return none
  if (← msg.uint16At 4) = 0 then return none
  match ← parseQuestion msg 12 with
  | none => return none
  | some (qname, qtype, questionEnd) =>
    let wire ← msg.slice 12 questionEnd
    return some (r.buildResponse u id wire qname qtype)

end Resolver

section Replies

/-- What a reply says: that the name does not exist, and the address it carries. -/
structure Answer where
  nxdomain : Bool
  address : Option (BitVec 32)
  deriving DecidableEq, Repr

/-- An A record for the name of the question. -/
def record (ip : BitVec 32) : Bytes :=
  [0xC0, 0x0C] ++ (ofNatBE 2 1 ++ (ofNatBE 2 1 ++ (ofNatBE 4 30 ++ (ofNatBE 2 4 ++
    ofNatBE 4 ip.toNat))))

/-- An authoritative response with one question and at most one answer. -/
def Answer.bytes (a : Answer) (id question : Bytes) : Bytes :=
  id ++ (ofNatBE 2 (0x8400 + if a.nxdomain then 3 else 0) ++ (ofNatBE 2 1 ++
    (ofNatBE 2 a.address.toList.length ++ (ofNatBE 2 0 ++ (ofNatBE 2 0 ++
      (question ++ a.address.toList.flatMap record))))))

/-- The answer for an address that was found or not. -/
def answerTo (qtype : UInt16) : Option Addr → Answer
  | none => ⟨true, none⟩
  | some (.v4 ip) => ⟨false, if qtype = dnsTypeA then some ip else none⟩
  | some _ => ⟨false, none⟩

theorem appendU16_eq (b : Bytes) (v : UInt16) : appendU16 b v = b ++ ofNatBE 2 v.toNat := by
  have hhigh : (v >>> 8).toUInt8 = UInt8.ofNat (v.toNat / 256) := by
    rw [← UInt8.toNat_inj, UInt16.toNat_toUInt8, UInt16.toNat_shiftRight, UInt8.toNat_ofNat',
      Nat.shiftRight_eq_div_pow]
    rfl
  have hlow : v.toUInt8 = UInt8.ofNat v.toNat := by
    rw [← UInt8.toNat_inj, UInt16.toNat_toUInt8, UInt8.toNat_ofNat']
  rw [appendU16, hhigh, hlow]
  rfl

theorem buildARecord_eq (ip : BitVec 32) : buildARecord (ofNatBE 4 ip.toNat) = record ip := by
  simp only [buildARecord, appendU16_eq, record, List.append_assoc]
  rfl

theorem outcome_eq (qtype : UInt16) (found : Option Addr) : Resolver.outcome qtype found =
    (if (answerTo qtype found).nxdomain then 3 else 0,
      if (answerTo qtype found).address.isSome then 1 else 0,
      (answerTo qtype found).address.toList.flatMap record) := by
  match found with
  | none | some .zero | some (.v6 _ _) => rfl
  | some (.v4 ip) =>
    by_cases hA : qtype = dnsTypeA
    · simp [Resolver.outcome, answerTo, hA, buildARecord_eq]
    · simp [Resolver.outcome, answerTo, hA]

theorem buildResponse_eq (u : LowerCase) (r : Resolver) (id : UInt16) (wire qname : Bytes)
    (qtype : UInt16) : r.buildResponse u id wire qname qtype =
      (answerTo qtype (r.resolve u qname)).bytes (ofNatBE 2 id.toNat) wire := by
  have hflags (nx : Bool) : ((0x8400 : UInt16) ||| if nx then 3 else 0).toNat =
      0x8400 + if nx then 3 else 0 := by
    cases nx <;> rfl
  have hcount (address : Option (BitVec 32)) :
      (if address.isSome then 1 else 0 : UInt16).toNat = address.toList.length := by
    cases address <;> rfl
  simp only [Resolver.buildResponse, outcome_eq, appendU16_eq, Answer.bytes, List.nil_append,
    List.append_assoc, hflags, hcount]
  rfl

end Replies

section Messages

variable {u : LowerCase} {r : Resolver} {msg : Bytes}

/-- A query of the standard kind with at least one question. -/
structure StandardQuery (msg : Bytes) : Prop where
  header : 12 ≤ msg.length
  opcode : ∀ flags ∈ msg.uint16At 2, flags &&& 0x8000 = 0 ∧ (flags >>> 11) &&& 0xF = 0
  questions : msg.uint16At 4 ≠ some 0

/-- Nothing is read outside the message, and only a question in it is replied to. -/
theorem handle_yields (u : LowerCase) (r : Resolver) (msg : Bytes) :
    Yields (r.handle u msg) fun out => out.isSome → StandardQuery msg ∧
      ∃ q : Question, q.wire <+: msg.drop 12 := by
  unfold Resolver.handle
  refine .ite (fun _ => .pure nofun) fun h12 => ?_
  refine (yields_uint16At (by omega)).bind fun id _ => ?_
  obtain ⟨flags, hflags, -⟩ := yields_uint16At (show 2 + 2 ≤ msg.length by omega)
  obtain ⟨count, hcount, -⟩ := yields_uint16At (show 4 + 2 ≤ msg.length by omega)
  simp only [hflags, hcount, Option.bind_eq_bind, Option.bind_some]
  refine .ite (fun _ => .pure nofun) fun hopcode => ?_
  refine .ite (fun _ => .pure nofun) fun hquestions => ?_
  refine (parseQuestion_yields (by omega)).bind fun out hout => ?_
  cases out with
  | none => exact .pure nofun
  | some found =>
    obtain ⟨qname, qtype, stop⟩ := found
    obtain ⟨hfrom, hto, hq⟩ := hout qname qtype stop rfl
    refine (yields_slice hfrom hto).bind fun wire _ => .pure fun _ => ⟨⟨by omega, ?_, ?_⟩, hq⟩
    · intro flags' h
      obtain rfl : flags = flags' := Option.mem_unique hflags h
      simpa using hopcode
    · intro h
      exact hquestions (Option.mem_unique hcount h)

/-- The reply to a question that stands in the message. -/
theorem handle_wire (hstd : StandardQuery msg) {q : Question} (hq : q.wire <+: msg.drop 12) :
    r.handle u msg = some (some ((answerTo q.qtype
      (r.resolve u (joinLabels q.labels ++ [dot]))).bytes (msg.take 2) q.wire)) := by
  obtain ⟨rest, hrest⟩ := hq
  have h12 : ¬msg.length < 12 := Nat.not_lt.mpr hstd.header
  obtain ⟨id, hid, hidBytes⟩ := yields_uint16At (show 0 + 2 ≤ msg.length by omega)
  obtain ⟨flags, hflags, -⟩ := yields_uint16At (show 2 + 2 ≤ msg.length by omega)
  obtain ⟨count, hcount, -⟩ := yields_uint16At (show 4 + 2 ≤ msg.length by omega)
  have hopcode : ¬(flags &&& 0x8000 ≠ 0 ∨ (flags >>> 11) &&& 0xF ≠ 0) := by
    simpa using hstd.opcode flags hflags
  have hquestions : count ≠ 0 := fun h => hstd.questions (h ▸ hcount)
  have hidWire : ofNatBE 2 id.toNat = msg.take 2 := by
    rw [hidBytes]
    exact ofNatBE_uint16 (by rw [List.drop_zero, List.length_take]; omega)
  have hbefore : (msg.take 12).length = 12 := by
    rw [List.length_take]
    omega
  have hmsg : msg = msg.take 12 ++ (q.wire ++ rest) := by rw [hrest, List.take_append_drop]
  have hparse : parseQuestion msg 12 = some (some (joinLabels q.labels ++ [dot], q.qtype,
      12 + q.wire.length)) := by
    have := parseQuestion_wire (msg.take 12) rest q
    rwa [← hmsg, List.length_append, hbefore] at this
  have hslice : msg.slice 12 (12 + q.wire.length) = some q.wire := by
    have := slice_append (msg.take 12) q.wire rest hbefore rfl
    rwa [← hmsg] at this
  simp only [Resolver.handle, if_neg h12, hid, hflags, hcount, Option.bind_eq_bind,
    Option.bind_some, if_neg hopcode, if_neg hquestions, hparse, hslice, buildResponse_eq, hidWire]
  rfl

end Messages

section Names

variable {u : LowerCase} {r : Resolver}

theorem trimSuffix_append (s t : Bytes) : trimSuffix (s ++ t) t = s := by
  have hsuffix : t.isSuffixOf (s ++ t) = true := List.isSuffixOf_iff_suffix.mpr ⟨s, rfl⟩
  rw [trimSuffix, if_pos hsuffix, List.length_append, Nat.add_sub_cancel, List.take_left]

/-- The address of a name, from those that were added or else from the lookup. -/
def Resolver.find (r : Resolver) (name : Bytes) : Option Addr :=
  (r.static.lookup name).or (r.lookup name)

theorem resolve_append_dot (name : Bytes) : r.resolve u (name ++ [dot]) =
    if !(dot :: r.domain).isSuffixOf (toLower u name) then none
    else if trimSuffix (toLower u name) (dot :: r.domain) = [] then none
    else r.find (trimSuffix (toLower u name) (dot :: r.domain)) := by
  unfold Resolver.resolve Resolver.find
  rw [trimSuffix_append]
  dsimp only
  cases r.static.lookup (trimSuffix (toLower u name) (dot :: r.domain)) with
  | none => rfl
  | some addr => rfl

/-- A name is resolved by what stands before the domain. -/
theorem resolve_eq_some_iff {name : Bytes} {addr : Addr} :
    r.resolve u (name ++ [dot]) = some addr ↔
      ∃ label, label ≠ [] ∧ toLower u name = label ++ dot :: r.domain ∧
        r.find label = some addr := by
  rw [resolve_append_dot]
  constructor
  · intro h
    obtain ⟨hsuffix, h⟩ := Option.ite_none_left_eq_some.mp h
    obtain ⟨hne, h⟩ := Option.ite_none_left_eq_some.mp h
    rw [Bool.not_eq_true', Bool.not_eq_false] at hsuffix
    obtain ⟨label, hlabel⟩ := List.isSuffixOf_iff_suffix.mp hsuffix
    rw [← hlabel, trimSuffix_append] at hne h
    exact ⟨label, hne, hlabel.symm, h⟩
  · rintro ⟨label, hne, hname, h⟩
    have hsuffix : (dot :: r.domain).isSuffixOf (label ++ dot :: r.domain) = true :=
      List.isSuffixOf_iff_suffix.mpr ⟨label, rfl⟩
    rw [hname, trimSuffix_append, hsuffix]
    exact (if_neg (by decide)).trans ((if_neg hne).trans h)

/-- The label is, ignoring the case of ASCII letters, the one in front of those of the domain. -/
def Resolver.Serves (r : Resolver) (labels : List Bytes) (l : Bytes) : Prop :=
  labels.map (List.map lowerByte) = (l :: r.domain.splitOn dot).map (List.map lowerByte)

/-- The labels that the text of a name determines. -/
structure Plain (labels : List Bytes) : Prop where
  ascii : ∀ l ∈ labels, ∀ b ∈ l, b < 0x80
  dotless : ∀ l ∈ labels, dot ∉ l

theorem Resolver.serves_iff {labels : List Bytes} {l : Bytes} : r.Serves labels l ↔
    labels.map (List.map lowerByte) = l.map lowerByte :: r.domain.splitOn dot := by
  rw [Serves, List.map_cons, ← splitOn_map lowerByte_eq_dot_iff, r.lowered]

theorem mem_joinLabels {labels : List Bytes} {b : UInt8} (h : b ∈ joinLabels labels) :
    b = dot ∨ ∃ l ∈ labels, b ∈ l := by
  induction labels with
  | nil => cases h
  | cons l ls ih =>
    cases ls with
    | nil => exact .inr ⟨l, List.mem_cons_self, by simpa [joinLabels] using h⟩
    | cons l' ls =>
      have hsplit : joinLabels (l :: l' :: ls) = l ++ dot :: joinLabels (l' :: ls) := by
        simp [joinLabels, List.intercalate]
      rw [hsplit] at h
      rcases List.mem_append.mp h with h | h
      · exact .inr ⟨l, List.mem_cons_self, h⟩
      · rcases List.mem_cons.mp h with h | h
        · exact .inl h
        · exact (ih h).imp_right fun ⟨m, hm, hb⟩ => ⟨m, List.mem_cons_of_mem l hm, hb⟩

/-- Lower case of a plain name, and the parts of the text. -/
theorem splitOn_toLower {labels : List Bytes} (h : Plain labels) (hne : labels ≠ []) :
    (toLower u (joinLabels labels)).splitOn dot = labels.map (List.map lowerByte) := by
  have hascii : ∀ b ∈ joinLabels labels, b < 0x80 := by
    intro b hb
    obtain rfl | ⟨l, hl, hb⟩ := mem_joinLabels hb
    · decide
    · exact h.ascii l hl b hb
  have hsplit : (joinLabels labels).splitOn dot = labels :=
    List.splitOn_intercalate dot h.dotless hne
  rw [toLower_of_ascii u hascii, splitOn_map lowerByte_eq_dot_iff, hsplit]

/-- The text of a plain name shows the domain behind a label exactly if the labels do. -/
theorem toLower_joinLabels_iff {labels : List Bytes} {label : Bytes} (h : Plain labels)
    (hdot : dot ∉ label) : toLower u (joinLabels labels) = label ++ dot :: r.domain ↔
      labels.map (List.map lowerByte) = label :: r.domain.splitOn dot := by
  cases labels with
  | nil => simp [joinLabels, toLower, toLowerLoop]
  | cons l ls =>
    rw [← splitOn_inj, splitOn_toLower h (List.cons_ne_nil l ls),
      List.splitOn_append_cons_self_of_not_mem hdot]

/-- No name with a dot in it is known, and the addresses that were added are IPv4 addresses. -/
structure Resolver.Tidy (r : Resolver) : Prop where
  dotless : ∀ name, (r.find name).isSome → dot ∉ name
  ipv4 : ∀ name addr, r.static.lookup name = some addr → ∃ ip, addr = .v4 ip

/-- A plain name is resolved by its first label if the others are those of the domain. -/
theorem resolve_eq_some_iff_serves {labels : List Bytes} {addr : Addr} (h : Plain labels)
    (hlabels : ∀ l ∈ labels, l ≠ []) (hr : r.Tidy) :
    r.resolve u (joinLabels labels ++ [dot]) = some addr ↔
      ∃ l, r.Serves labels l ∧ r.find (l.map lowerByte) = some addr := by
  have hdot {name : Bytes} (hname : r.find name = some addr) : dot ∉ name :=
    hr.dotless name (by rw [hname]; rfl)
  rw [resolve_eq_some_iff]
  constructor
  · rintro ⟨label, -, hname, hfind⟩
    rw [toLower_joinLabels_iff h (hdot hfind)] at hname
    obtain ⟨l, ls, rfl, rfl, -⟩ := List.map_eq_cons_iff.mp hname
    exact ⟨l, Resolver.serves_iff.mpr hname, hfind⟩
  · rintro ⟨l, hserves, hfind⟩
    have hname := Resolver.serves_iff.mp hserves
    refine ⟨l.map lowerByte, fun hnil => ?_, (toLower_joinLabels_iff h (hdot hfind)).mpr hname, hfind⟩
    obtain ⟨l', ls, rfl, hfirst, -⟩ := List.map_eq_cons_iff.mp hname
    rw [hnil, List.map_eq_nil_iff] at hfirst
    exact hlabels l' List.mem_cons_self hfirst

/-- The label has the address in the static map or, failing that, through the lookup. -/
def Resolver.HasIPv4 (r : Resolver) (l : Bytes) (ip : BitVec 32) : Prop :=
  r.static.lookup (l.map lowerByte) = some (.v4 ip) ∨
    (∀ ip', r.static.lookup (l.map lowerByte) ≠ some (.v4 ip')) ∧
      r.lookup (l.map lowerByte) = some (.v4 ip)

theorem find_eq_v4_iff (hr : r.Tidy) (l : Bytes) (ip : BitVec 32) :
    r.find (l.map lowerByte) = some (.v4 ip) ↔ r.HasIPv4 l ip := by
  rw [Resolver.find, Resolver.HasIPv4]
  cases hstatic : r.static.lookup (l.map lowerByte) with
  | none => simp
  | some addr =>
    obtain ⟨ip', rfl⟩ := hr.ipv4 _ _ hstatic
    simp

end Names

section Answers

theorem address_answerTo {qtype : UInt16} {found : Option Addr} {ip : BitVec 32} :
    (answerTo qtype found).address = some ip ↔ qtype = dnsTypeA ∧ found = some (.v4 ip) := by
  match found with
  | none | some .zero | some (.v6 _ _) => simp [answerTo]
  | some (.v4 ip) => simp [answerTo]

theorem nxdomain_answerTo {qtype : UInt16} {found : Option Addr} :
    (answerTo qtype found).nxdomain = true ↔ ∀ addr, found ≠ some addr := by
  match found with
  | none | some .zero | some (.v6 _ _) | some (.v4 ip) => simp [answerTo]

namespace Sample

/-- Runes beyond ASCII as they are. -/
def lowerCase : LowerCase where
  lowerRune := List.map lowerByte
  lowered rune := by simp [lowerByte_lowerByte]

def ip : BitVec 32 := 0x0A000001#32

/-- The resolver of `veld` with an address for `a`. -/
def resolver : Resolver :=
  (Resolver.new lowerCase [] fun _ => none).addStatic lowerCase [0x61] (.v4 ip)

/-- A query with the identifier 0x1234 for one question. -/
def query (q : Question) : Bytes := [0x12, 0x34, 1, 0, 0, 1, 0, 0, 0, 0, 0, 0] ++ q.wire

theorem standardQuery (q : Question) : StandardQuery (query q) := by
  have hflags : (query q).uint16At 2 = some 0x100 := rfl
  have hcount : (query q).uint16At 4 = some 1 := rfl
  refine ⟨by simp [query], fun flags h => ?_, by rw [hcount]; decide⟩
  rw [← Option.mem_unique hflags h]
  decide

def veld : Bytes := [0x76, 0x65, 0x6C, 0x64]

/-- `a.veld` in the class IN. -/
def asked : Question := ⟨[[0x61], veld], dnsTypeA, dnsClassIN, by simp [IsLabel, veld]⟩

/-- `a.veld` in the class CH. -/
def chaos : Question := ⟨[[0x61], veld], dnsTypeA, 3, by simp [IsLabel, veld]⟩

/-- A label longer than the 63 bytes that DNS allows. -/
def long : Question := ⟨[List.replicate 64 0x61, veld], dnsTypeA, dnsClassIN, by simp [IsLabel, veld]⟩

/-- `a.veld` as one label. -/
def dotted : Question := ⟨[0x61 :: dot :: veld], dnsTypeA, dnsClassIN, by simp [IsLabel, veld]⟩

theorem serves_asked : resolver.Serves asked.labels [0x61] := by
  unfold Resolver.Serves
  decide

theorem tidy : resolver.Tidy := by
  have hstatic {name : Bytes} {addr : Addr} (h : resolver.static.lookup name = some addr) :
      name = [0x61] ∧ addr = .v4 ip := by
    rcases lookup_insert_eq_some.mp h with ⟨rfl, rfl⟩ | ⟨-, h⟩
    · exact ⟨rfl, rfl⟩
    · cases h
  refine ⟨fun name h => ?_, fun name addr h => ⟨ip, (hstatic h).2⟩⟩
  obtain ⟨addr, h⟩ := Option.isSome_iff_exists.mp h
  rcases Option.or_eq_some_iff.mp h with h | ⟨-, h⟩
  · rw [(hstatic h).1]
    decide
  · cases h

end Sample

end Answers

end Veld.Dns
