import Veld.Core.Framing
import Veld.Core.Lower
import Veld.Core.Split

/-!
# Questions of DNS messages

`parseQuestion` of `internal/dns/resolver.go`, with every access of the source checked,
and the questions it reads: a name as a sequence of labels, each after its length, then
a zero byte, a type and a class. The source refuses the lengths that begin a compression
pointer; those between 64 and 191 it reads as lengths of labels.
-/

namespace Veld.Dns

open Bytes

/-- The byte `.`. -/
def dot : UInt8 := 0x2E

theorem lowerByte_eq_dot_iff (b : UInt8) : lowerByte b = dot ↔ b = dot := by
  revert b
  exact forall_uint8 (by decide +kernel)

/-- `strings.Join(labels, ".")`. -/
def joinLabels (labels : List Bytes) : Bytes := [dot].intercalate labels

/-- The loop over the labels; `none` when the fuel is used up, `some none` when the source
returns `false`. -/
def parseLabels (msg : Bytes) : Nat → Nat → List Bytes → Option (Option (List Bytes × Nat))
  | 0, _, _ => none
  | fuel + 1, offset, labels => do
    if offset ≥ msg.length then return none
    let n ← msg[offset]?
    if n = 0 then return some (labels, offset + 1)
    if n &&& 0xC0 = 0xC0 then return none
    if offset + 1 + n.toNat > msg.length then return none
    let label ← msg.slice (offset + 1) (offset + 1 + n.toNat)
    parseLabels msg fuel (offset + 1 + n.toNat) (labels ++ [label])

/-- `parseQuestion`: the name with a dot at its end, the type and the end of the question. The
class is skipped. -/
def parseQuestion (msg : Bytes) (offset : Nat) : Option (Option (Bytes × UInt16 × Nat)) := do
  match ← parseLabels msg (msg.length + 1) offset [] with
  | none => return none
  | some (labels, offset) =>
    if offset + 4 > msg.length then return none
    let qtype ← msg.uint16At offset
    return some (joinLabels labels ++ [dot], qtype, offset + 4)

/-- A label that the source can read. -/
def IsLabel (l : Bytes) : Prop := l ≠ [] ∧ l.length < 192

/-- A question as the source reads it. -/
structure Question where
  labels : List Bytes
  qtype : UInt16
  qclass : UInt16
  isLabel : ∀ l ∈ labels, IsLabel l

/-- Labels on the wire, each after its length. -/
def labelsWire (labels : List Bytes) : Bytes :=
  labels.flatMap fun l => UInt8.ofNat l.length :: l

def Question.wire (q : Question) : Bytes :=
  labelsWire q.labels ++ 0 :: (ofNatBE 2 q.qtype.toNat ++ ofNatBE 2 q.qclass.toNat)

theorem labelsWire_cons (l : Bytes) (ls : List Bytes) :
    labelsWire (l :: ls) = UInt8.ofNat l.length :: (l ++ labelsWire ls) := rfl

theorem length_le_labelsWire (ls : List Bytes) : ls.length ≤ (labelsWire ls).length := by
  induction ls with
  | nil => exact Nat.le_refl _
  | cons l ls ih =>
    rw [labelsWire_cons, List.length_cons, List.length_cons, List.length_append]
    omega

section Labels

variable {msg : Bytes}

/-- The bytes that begin a compression pointer are the lengths from 192 on. -/
theorem pointer_iff (n : UInt8) : n &&& 0xC0 = 0xC0 ↔ 192 ≤ n.toNat := by
  revert n
  exact forall_uint8 (by decide +kernel)

/-- The loop reads labels that stand in the message, up to a zero byte. -/
theorem parseLabels_yields {fuel offset : Nat} {labels : List Bytes}
    (hfuel : msg.length < fuel + offset) (hoffset : offset ≤ msg.length) :
    Yields (parseLabels msg fuel offset labels) fun out => ∀ read stop, out = some (read, stop) →
      stop ≤ msg.length ∧ ∃ ls, (∀ l ∈ ls, IsLabel l) ∧ read = labels ++ ls ∧
        msg.drop offset = labelsWire ls ++ 0 :: msg.drop stop := by
  induction fuel generalizing offset labels with
  | zero => omega
  | succ fuel ih =>
    rw [parseLabels]
    refine .ite (fun _ => .pure nofun) fun hend => ?_
    have hlt : offset < msg.length := Nat.lt_of_not_le hend
    refine (yields_getElem hlt).bind fun n hn => ?_
    have hdrop : msg.drop offset = n :: msg.drop (offset + 1) := by
      rw [hn]
      exact List.drop_eq_getElem_cons hlt
    refine .ite (fun hzero => .pure ?_) fun hzero => ?_
    · intro read stop h
      cases h
      exact ⟨hlt, [], nofun, (List.append_nil _).symm, by rw [hdrop, hzero]; rfl⟩
    refine .ite (fun _ => .pure nofun) fun hpointer => ?_
    refine .ite (fun _ => .pure nofun) fun hlen => ?_
    refine (yields_slice (Nat.le_add_right _ _) (Nat.le_of_not_lt hlen)).bind fun label hlabel => ?_
    refine (ih (by omega) (by omega)).mono fun out hout read stop h => ?_
    obtain ⟨hstop, ls, hls, rfl, hrest⟩ := hout read stop h
    rw [Nat.add_sub_cancel_left] at hlabel
    have hsize : label.length = n.toNat := by
      rw [hlabel, List.length_take, List.length_drop]
      omega
    have hn0 : n.toNat ≠ 0 := fun h0 => hzero (UInt8.toNat_inj.mp h0)
    have hlt192 : n.toNat < 192 := Nat.lt_of_not_le fun h => hpointer ((pointer_iff n).mpr h)
    have hislabel : IsLabel label := by
      refine ⟨fun hnil => hn0 ?_, hsize ▸ hlt192⟩
      rw [← hsize, hnil, List.length_nil]
    have hbehind : msg.drop (offset + 1) = label ++ msg.drop (offset + 1 + n.toNat) := by
      have hsplit := (List.take_append_drop n.toNat (msg.drop (offset + 1))).symm
      rwa [List.drop_drop, ← hlabel] at hsplit
    refine ⟨hstop, label :: ls, List.forall_mem_cons.mpr ⟨hislabel, hls⟩, by simp, ?_⟩
    rw [hdrop, hbehind, hrest, labelsWire_cons, hsize, UInt8.ofNat_toNat]
    simp

theorem IsLabel.toNat_length {l : Bytes} (h : IsLabel l) :
    (UInt8.ofNat l.length).toNat = l.length := by
  have hlt : l.length < 192 := h.2
  rw [UInt8.toNat_ofNat', Nat.mod_eq_of_lt (by omega)]

/-- One turn of the loop, on a label and what follows it. -/
theorem parseLabels_append (fuel : Nat) (labels : List Bytes) (before rest : Bytes) {l : Bytes}
    (hl : IsLabel l) :
    parseLabels (before ++ (UInt8.ofNat l.length :: (l ++ rest))) (fuel + 1) before.length labels =
      parseLabels (before ++ (UInt8.ofNat l.length :: (l ++ rest))) fuel
        (before.length + 1 + l.length) (labels ++ [l]) := by
  have hlen : (before ++ (UInt8.ofNat l.length :: (l ++ rest))).length =
      before.length + 1 + l.length + rest.length := by
    simp only [List.length_append, List.length_cons]
    omega
  have hend : ¬before.length ≥ (before ++ (UInt8.ofNat l.length :: (l ++ rest))).length := by omega
  have hin : ¬before.length + 1 + l.length >
      (before ++ (UInt8.ofNat l.length :: (l ++ rest))).length := by omega
  have hread : (before ++ (UInt8.ofNat l.length :: (l ++ rest)))[before.length]? =
      some (UInt8.ofNat l.length) := getElem?_behind before _ 0
  have hzero : UInt8.ofNat l.length ≠ 0 := by
    intro h0
    have hnil : l.length = 0 := by rw [← hl.toNat_length, h0]; rfl
    exact hl.1 (List.length_eq_zero_iff.mp hnil)
  have hpointer : UInt8.ofNat l.length &&& 0xC0 ≠ 0xC0 := by
    intro h
    exact absurd ((pointer_iff _).mp h) (by rw [hl.toNat_length]; exact Nat.not_le.mpr hl.2)
  have hslice : (before ++ (UInt8.ofNat l.length :: (l ++ rest))).slice (before.length + 1)
      (before.length + 1 + l.length) = some l := by
    have hsplit : before ++ (UInt8.ofNat l.length :: (l ++ rest)) =
        (before ++ [UInt8.ofNat l.length]) ++ (l ++ rest) := by simp
    rw [hsplit]
    exact slice_append _ l rest (by simp) rfl
  rw [parseLabels]
  simp only [if_neg hend, hread, Option.bind_eq_bind, Option.bind_some, if_neg hzero,
    if_neg hpointer, hl.toNat_length, if_neg hin, hslice]

/-- The loop reads the labels of a name, whatever stands around it. -/
theorem parseLabels_wire {fuel : Nat} (before rest : Bytes) (labels : List Bytes) {ls : List Bytes}
    (hls : ∀ l ∈ ls, IsLabel l) (hfuel : ls.length < fuel) :
    parseLabels (before ++ (labelsWire ls ++ 0 :: rest)) fuel before.length labels =
      some (some (labels ++ ls, (before ++ (labelsWire ls ++ [0])).length)) := by
  induction ls generalizing fuel before labels with
  | nil =>
    obtain ⟨fuel, rfl⟩ := Nat.exists_eq_succ_of_ne_zero (Nat.ne_of_gt hfuel)
    have hend : ¬before.length ≥ (before ++ 0 :: rest).length := by simp
    have hread : (before ++ 0 :: rest)[before.length]? = some 0 := getElem?_behind before _ 0
    change parseLabels (before ++ 0 :: rest) (fuel + 1) before.length labels = _
    rw [parseLabels]
    simp only [if_neg hend, hread, Option.bind_eq_bind, Option.bind_some, if_true]
    simp [labelsWire]
  | cons l ls ih =>
    obtain ⟨fuel, rfl⟩ := Nat.exists_eq_succ_of_ne_zero (Nat.ne_of_gt (Nat.zero_lt_of_lt hfuel))
    obtain ⟨hl, hls⟩ := List.forall_mem_cons.mp hls
    have hmsg : before ++ (labelsWire (l :: ls) ++ 0 :: rest) =
        before ++ (UInt8.ofNat l.length :: (l ++ (labelsWire ls ++ 0 :: rest))) := by
      simp [labelsWire_cons]
    have hnext := ih (before ++ UInt8.ofNat l.length :: l) (labels ++ [l]) hls
      (Nat.lt_of_succ_lt_succ hfuel)
    have hlength : (before ++ UInt8.ofNat l.length :: l).length = before.length + 1 + l.length := by
      simp only [List.length_append, List.length_cons]
      omega
    rw [hlength] at hnext
    rw [hmsg, parseLabels_append fuel labels before _ hl]
    simpa [labelsWire_cons] using hnext

end Labels

section Questions

variable {msg : Bytes}

/-- Any two bytes write a number of sixteen bits. -/
theorem ofNatBE_uint16 {b : Bytes} (h : b.length = 2) :
    ofNatBE 2 (UInt16.ofNat (beNat b)).toNat = b := by
  have hlt : beNat b < 2 ^ 16 := by
    have := beNat_lt b
    rwa [h] at this
  have hwrite := ofNatBE_beNat b
  rw [h] at hwrite
  rw [UInt16.toNat_ofNat', Nat.mod_eq_of_lt hlt, hwrite]

/-- What `parseQuestion` reads is a question that stands at its place in the message. -/
theorem parseQuestion_yields {offset : Nat} (hoffset : offset ≤ msg.length) :
    Yields (parseQuestion msg offset) fun out => ∀ name qtype stop, out = some (name, qtype, stop) →
      offset ≤ stop ∧ stop ≤ msg.length ∧ ∃ q : Question, q.wire <+: msg.drop offset := by
  unfold parseQuestion
  refine (parseLabels_yields (by omega) hoffset).bind fun out hout => ?_
  cases out with
  | none => exact .pure nofun
  | some found =>
    obtain ⟨labels, stop⟩ := found
    obtain ⟨hstop, ls, hls, -, hwire⟩ := hout labels stop rfl
    refine .ite (fun _ => .pure nofun) fun hfour => ?_
    refine (yields_uint16At (by omega)).bind fun qtype _ => .pure fun _ _ _ h => ?_
    have hbehind : offset < stop := by
      have hlength := congrArg List.length hwire
      rw [List.length_drop, List.length_append, List.length_cons, List.length_drop] at hlength
      omega
    cases h
    have htype : ((msg.drop stop).take 2).length = 2 := by
      rw [List.length_take, List.length_drop]
      omega
    have hclass : ((msg.drop (stop + 2)).take 2).length = 2 := by
      rw [List.length_take, List.length_drop]
      omega
    refine ⟨by omega, by omega, ⟨ls, UInt16.ofNat (beNat ((msg.drop stop).take 2)),
      UInt16.ofNat (beNat ((msg.drop (stop + 2)).take 2)), hls⟩, msg.drop (stop + 2 + 2), ?_⟩
    rw [hwire, Question.wire, ofNatBE_uint16 htype, ofNatBE_uint16 hclass, ← List.drop_drop]
    simp [← List.drop_drop]

theorem parseQuestion_wire (before rest : Bytes) (q : Question) :
    parseQuestion (before ++ (q.wire ++ rest)) before.length =
      some (some (joinLabels q.labels ++ [dot], q.qtype, (before ++ q.wire).length)) := by
  have hmsg : before ++ (q.wire ++ rest) = before ++ (labelsWire q.labels ++ 0 ::
      (ofNatBE 2 q.qtype.toNat ++ (ofNatBE 2 q.qclass.toNat ++ rest))) := by
    simp [Question.wire]
  have hsplit : before ++ (q.wire ++ rest) = (before ++ (labelsWire q.labels ++ [0])) ++
      (ofNatBE 2 q.qtype.toNat ++ (ofNatBE 2 q.qclass.toNat ++ rest)) := by
    simp [Question.wire]
  have hstop : (before ++ (labelsWire q.labels ++ [0])).length + 4 = (before ++ q.wire).length := by
    simp only [Question.wire, List.length_append, List.length_cons, List.length_nil, length_ofNatBE]
    omega
  have hfour : ¬(before ++ q.wire).length > (before ++ (q.wire ++ rest)).length := by
    simp only [List.length_append]
    omega
  have htype : (before ++ (q.wire ++ rest)).uint16At (before ++ (labelsWire q.labels ++ [0])).length =
      some q.qtype := by
    rw [hsplit]
    refine (uint16At_behind _ _ 0).trans ?_
    rw [uint16At_ofNatBE q.qtype.toNat_lt, UInt16.ofNat_toNat]
  have hfuel : q.labels.length < (before ++ (q.wire ++ rest)).length + 1 := by
    have := length_le_labelsWire q.labels
    simp only [Question.wire, List.length_append]
    omega
  have hlabels := parseLabels_wire before
    (ofNatBE 2 q.qtype.toNat ++ (ofNatBE 2 q.qclass.toNat ++ rest)) [] q.isLabel hfuel
  rw [← hmsg, List.nil_append] at hlabels
  unfold parseQuestion
  simp only [hlabels, Option.bind_eq_bind, Option.bind_some, hstop, if_neg hfour, htype]
  rfl

end Questions

end Veld.Dns
