import Veld.Core.NetipText
import Veld.Core.Regexp

/-!
# Errors without host addresses

`TruncIP` and `ScrubErr` of `internal/logsafe/logsafe.go`. An expression finds the
addresses in the text of an error and each one that parses is cut to its network. Where
the expression and `ParseAddr` agree about an address, the output depends on the network
alone; IPv6 addresses without brackets and most zones are not found.
-/

namespace Veld.Logsafe

open Netip Regexp

/-- The host of `net.SplitHostPort`. -/
def splitHost (s : Text) : Option Text :=
  match splitLast ':' s with
  | none => none
  | some (before, _) =>
    if s.head? = some '[' then
      let host := s.tail.takeWhile (· ≠ ']')
      if before ≠ '[' :: (host ++ [']']) ∨ '[' ∈ s.tail ∨ ']' ∈ s.drop before.length then none
      else some host
    else if ':' ∈ before ∨ '[' ∈ s ∨ ']' ∈ s then none
    else some before

/-- The text of an address that is not IPv4-mapped: three bytes of IPv4, 48 bits of IPv6. -/
def truncated : Addr → Text
  | .v4 b => appendDecimal (octet b 0) ++ '.' :: (appendDecimal (octet b 1) ++ '.' ::
      (appendDecimal (octet b 2) ++ ['.', 'x']))
  | a => (Prefix.prefixFrom a 48).masked.ip.string.toList ++ ['x']

/-- `TruncIP`; the empty text if there is no address. -/
def truncIP (s : Text) : Text :=
  match (parseAddr s).or ((splitHost s).bind parseAddr) with
  | none => []
  | some addr => truncated addr.unmap

def digit : Regexp := char Char.isDigit

/-- From one to three digits. -/
def digits : Regexp := seq digit (opt (seq digit (opt digit)))

def dot : Regexp := char (· = '.')

def port : Regexp := opt (seq (char (· = ':')) (plus Char.isDigit))

/-- The class `[0-9A-Fa-f:.%]`. -/
def isAddrChar (c : Char) : Bool := isHexDigit c || c = ':' || c = '.' || c = '%'

def ipPortRe : Regexp :=
  alt (seq (seq digits (seq dot (seq digits (seq dot (seq digits (seq dot digits)))))) port)
    (seq (char (· = '[')) (seq (plus isAddrChar) (seq (char (· = ']')) port)))

/-- The address of a match, out of its brackets. -/
def hostOf (m : Text) : Text :=
  if m.head? = some '[' ∧ ']' ∈ m then m.tail.takeWhile (· ≠ ']') else m

/-- What a match is replaced by. -/
def scrubMatch (m : Text) : Text := if truncIP (hostOf m) ≠ [] then truncIP (hostOf m) else m

/-- What `ScrubErr` keeps of a `*net.OpError`. -/
structure OpError where
  op : Text
  net : Text
  /-- The text of the cause. -/
  err : Option Text

/-- An error by its text and the `*net.OpError` that `errors.As` finds in it. -/
structure Err where
  text : Text
  opError : Option OpError

/-- The text that is scrubbed; the one of an `*net.OpError` without addresses. -/
def Err.rendered (e : Err) : Text :=
  match e.opError with
  | none => e.text
  | some o => o.op ++ (if o.net = [] then [] else ' ' :: o.net) ++
      ':' :: ' ' :: o.err.getD "network error".toList

def scrubErr : Option Err → Text
  | none => []
  | some err => ipPortRe.replaceAll scrubMatch err.rendered.length err.rendered

section Dotted

variable {s t : Text} {addr : Addr} {c : Char}

/-- A field of a dotted address. -/
structure IsField (ds : Text) : Prop where
  nonempty : ds ≠ []
  length_le : ds.length ≤ 3
  digits : ∀ c ∈ ds, c.isDigit = true

/-- Four fields with dots between them. -/
def Dotted (t : Text) : Prop := ∃ a b c d, IsField a ∧ IsField b ∧ IsField c ∧ IsField d ∧
  t = a ++ '.' :: (b ++ '.' :: (c ++ '.' :: d))

theorem Dotted.not_mem (h : Dotted t) (hdigit : c.isDigit = false) (hdot : c ≠ '.') : c ∉ t := by
  obtain ⟨a, b, c', d, ha, hb, hc, hd, rfl⟩ := h
  have hfield {ds : Text} (h : IsField ds) : c ∉ ds := by
    intro hmem
    rw [h.digits c hmem] at hdigit
    cases hdigit
  simp [hfield ha, hfield hb, hfield hc, hfield hd, hdot]

/-- An IPv4 address has digits and dots only. -/
theorem parseIPv4Fields_eq_none {fields : List Nat} {val n : Nat} (hc : c ∈ s)
    (hdigit : c.isDigit = false) (hdot : c ≠ '.') : parseIPv4Fields s fields val n = none := by
  induction s generalizing fields val n with
  | nil => cases hc
  | cons d s ih =>
    rw [parseIPv4Fields]
    rcases List.mem_cons.mp hc with rfl | hc
    · rw [hdigit, if_neg Bool.false_ne_true, if_neg hdot]
    · simp only [ih hc, ite_self]

/-- With a colon behind it a dotted text is not an address. -/
theorem Dotted.parseAddr_colon (h : Dotted t) : parseAddr (t ++ ':' :: s) = none := by
  have hfail : parseIPv4 (t ++ ':' :: s) = none := by
    rw [parseIPv4, parseIPv4Fields_eq_none (c := ':') (by simp) rfl (by decide)]
    rfl
  obtain ⟨a, b, c, d, ha, -, -, -, rfl⟩ := h
  have hskip : a.find? (fun c => c = '.' || c = ':' || c = '%') = none := by
    rw [List.find?_eq_none]
    intro c hc hspecial
    have hdigit := ha.digits c hc
    simp only [Bool.or_eq_true, decide_eq_true_eq] at hspecial
    rcases hspecial with (rfl | rfl) | rfl <;> cases hdigit
  rw [← hfail, parseAddr, List.append_assoc, List.find?_append, hskip]
  rfl

end Dotted

section Matches

variable {s t : Text}

/-- Digits are taken as long as there are some. -/
theorem first_digits {ds : Text} (h : IsField ds) (hs : ∀ c ∈ s.head?, c.isDigit = false) :
    digits.first (ds ++ s) = some s := by
  have hend : digit.ends s = [] := ends_char_eq_nil hs
  have hall := h.digits
  match ds, h.nonempty, h.length_le with
  | [a], _, _ =>
    exact first_seq (first_char (hall a (by simp))) (first_alt_right (ends_seq_eq_nil hend))
  | [a, b], _, _ =>
    exact first_seq (first_char (hall a (by simp)))
      (first_alt_left (first_seq (first_char (hall b (by simp))) (first_alt_right hend)))
  | [a, b, c], _, _ =>
    exact first_seq (first_char (hall a (by simp))) (first_alt_left
      (first_seq (first_char (hall b (by simp))) (first_alt_left (first_char (hall c (by simp))))))

/-- A port behind an address. -/
def portText : Option Nat → Text
  | none => []
  | some n => ':' :: Nat.toDigits 10 n

theorem isDigit_of_mem_port {n : Nat} {c : Char} (hc : c ∈ Nat.toDigits 10 n) : c.isDigit = true :=
  Nat.isDigit_of_mem_toDigits (by decide) (by decide) hc

theorem first_port (p : Option Nat) (hs : ∀ c ∈ s.head?, c.isDigit = false ∧ c ≠ ':') :
    port.first (portText p ++ s) = some s := by
  cases p with
  | none =>
    refine first_alt_right (ends_seq_eq_nil (ends_char_eq_nil fun c hc => ?_))
    exact decide_eq_false (hs c hc).2
  | some n =>
    exact first_alt_left (first_seq (first_char (decide_eq_true rfl))
      (first_plus Nat.toDigits_ne_nil (fun _ => isDigit_of_mem_port) fun c hc => (hs c hc).1))

/-- A dotted address with or without a port is found as a whole. -/
theorem first_dotted (h : Dotted t) (p : Option Nat)
    (hs : ∀ c ∈ s.head?, c.isDigit = false ∧ c ≠ ':') :
    ipPortRe.first (t ++ portText p ++ s) = some s := by
  obtain ⟨a, b, c, d, ha, hb, hc, hd, rfl⟩ := h
  have hdot {ds : Text} (h : IsField ds) (s : Text) : digits.first (ds ++ '.' :: s) = some ('.' :: s) :=
    first_digits h fun c hc => by
      cases hc
      decide
  have hone (s : Text) : dot.first ('.' :: s) = some s := first_char (decide_eq_true rfl)
  have hlast : digits.first (d ++ (portText p ++ s)) = some (portText p ++ s) := by
    refine first_digits hd fun c hc => ?_
    cases p with
    | none => exact (hs c hc).1
    | some n =>
      cases hc
      decide
  refine first_alt_left (first_seq ?_ (first_port p hs))
  simp only [List.append_assoc, List.cons_append]
  exact first_seq (hdot ha _) (first_seq (hone _) (first_seq (hdot hb _) (first_seq (hone _)
    (first_seq (hdot hc _) (first_seq (hone _) hlast)))))

/-- An address in brackets is found as a whole if its characters are of the class. -/
theorem first_brackets (hne : t ≠ []) (ht : ∀ c ∈ t, isAddrChar c = true) (p : Option Nat)
    (hs : ∀ c ∈ s.head?, c.isDigit = false ∧ c ≠ ':') :
    ipPortRe.first ('[' :: (t ++ ']' :: (portText p ++ s))) = some s := by
  refine (first_alt_right ?_).trans ?_
  · exact ends_seq_eq_nil (ends_seq_eq_nil (ends_seq_eq_nil (ends_char_eq_nil fun c hc => by
      cases hc
      decide)))
  · have hplus : (plus isAddrChar).first (t ++ ']' :: (portText p ++ s)) =
        some (']' :: (portText p ++ s)) :=
      first_plus hne ht fun c hc => by
        cases hc
        decide
    exact first_seq (first_char (decide_eq_true rfl)) (first_seq hplus
      (first_seq (first_char (decide_eq_true rfl)) (first_port p hs)))

/-- A match begins with a digit or a bracket. -/
theorem first_eq_none {c : Char} (hdigit : c.isDigit = false) (hbracket : c ≠ '[') (s : Text) :
    ipPortRe.first (c :: s) = none := by
  simp [first, ipPortRe, digits, digit, hdigit, hbracket]

end Matches

section Replaced

variable {t : Text} {addr : Addr}

theorem splitLast_append {c : Char} {x y : Text} (hy : c ∉ y) :
    splitLast c (x ++ c :: y) = some (x, y) := by
  have hall : ∀ d ∈ y.reverse, decide (d ≠ c) = true := by
    intro d hd
    refine decide_eq_true ?_
    rintro rfl
    exact hy (List.mem_reverse.mp hd)
  rw [splitLast, if_pos (by simp), List.reverse_append, List.reverse_cons, List.append_assoc,
    List.dropWhile_append_of_pos hall, List.takeWhile_append_of_pos hall]
  simp

theorem truncIP_of_parseAddr (h : parseAddr t = some addr) : truncIP t = truncated addr.unmap := by
  rw [truncIP, h]
  rfl

theorem Dotted.truncIP (h : Dotted t) (haddr : parseAddr t = some addr) (p : Option Nat) :
    truncIP (t ++ portText p) = truncated addr.unmap := by
  cases p with
  | none =>
    rw [portText, List.append_nil]
    exact truncIP_of_parseAddr haddr
  | some n =>
    -- the host is split off
    have hport {c : Char} (hc : c.isDigit = false) : c ∉ Nat.toDigits 10 n := by
      intro hmem
      rw [isDigit_of_mem_port hmem] at hc
      cases hc
    have hfree {c : Char} (hc : c.isDigit = false) (hne : c ∉ ['.', ':']) :
        c ∉ t ++ ':' :: Nat.toDigits 10 n := by
      simp_all [h.not_mem hc]
    have hopen := hfree (c := '[') rfl (by simp)
    have hclose := hfree (c := ']') rfl (by simp)
    have hhead := fun he => hopen (List.mem_of_head? he)
    have hcolon : ':' ∉ t := h.not_mem rfl (by decide)
    have hhost : splitHost (t ++ ':' :: Nat.toDigits 10 n) = some t := by
      simp only [splitHost, splitLast_append (hport (c := ':') rfl), if_neg hhead, hcolon, hopen,
        hclose, or_self, if_false]
    rw [portText, Logsafe.truncIP, h.parseAddr_colon, hhost, Option.bind_some, haddr]
    rfl

end Replaced

/-- An address as a text that `ParseAddr` reads, as the packages print it or otherwise. -/
structure Literal where
  text : Text
  addr : Addr
  reads : parseAddr text = some addr

/-- How an address is written, in brackets or not and with a port or without. -/
structure Form where
  brackets : Bool
  port : Option Nat

def Form.write (f : Form) (l : Literal) : Text :=
  (if f.brackets then '[' :: (l.text ++ [']']) else l.text) ++ portText f.port

/-- The forms in which the address is found: a dotted one without brackets, or any address in
brackets whose characters, the ones of its zone included, are of the class. -/
def Form.Finds (f : Form) (l : Literal) : Prop :=
  if f.brackets then ∀ c ∈ l.text, isAddrChar c = true else Dotted l.text

/-- A text around one hole. -/
structure Template where
  before : Text
  after : Text
  free : ∀ c ∈ before ++ after, c.isDigit = false ∧ c ∉ ['.', ':', '[', ']']
  spaced : (before = [] ∨ before.getLast? = some ' ') ∧ (after = [] ∨ after.head? = some ' ')

def Template.fill (t : Template) (hole : Text) : Text := t.before ++ (hole ++ t.after)

section Output

variable {f : Form} {l : Literal}

theorem Literal.ne_nil (l : Literal) : l.text ≠ [] := by
  intro h
  have := l.reads
  rw [h] at this
  cases this

theorem truncated_ne_nil (a : Addr) : truncated a ≠ [] := by
  cases a <;> simp [truncated]

/-- The expression finds the address as a whole, and its network takes its place. -/
theorem Form.Finds.found (h : f.Finds l) {s : Text}
    (hs : ∀ c ∈ s.head?, c.isDigit = false ∧ c ≠ ':') :
    ipPortRe.first (f.write l ++ s) = some s ∧ scrubMatch (f.write l) = truncated l.addr.unmap := by
  have hscrub {m : Text} (hm : truncIP (hostOf m) = truncated l.addr.unmap) :
      scrubMatch m = truncated l.addr.unmap := by
    rw [scrubMatch, hm, if_pos (truncated_ne_nil _)]
  rw [Form.Finds] at h
  cases hb : f.brackets with
  | false =>
    have hdotted : Dotted l.text := by rwa [hb] at h
    have hwrite : f.write l = l.text ++ portText f.port := by rw [Form.write, hb]; rfl
    have hhead : (f.write l).head? ≠ some '[' := by
      rw [hwrite, List.head?_append_of_ne_nil _ l.ne_nil]
      exact fun he => hdotted.not_mem rfl (by decide) (List.mem_of_head? he)
    have hhost : hostOf (f.write l) = f.write l := if_neg fun he => hhead he.1
    refine ⟨hwrite ▸ first_dotted hdotted f.port hs, hscrub ?_⟩
    rw [hhost, hwrite]
    exact hdotted.truncIP l.reads f.port
  | true =>
    rw [hb, if_pos rfl] at h
    have hclass : ∀ c ∈ l.text, decide (c ≠ ']') = true := by
      intro c hc
      refine decide_eq_true ?_
      rintro rfl
      cases h _ hc
    have hwrite : f.write l = '[' :: (l.text ++ ']' :: portText f.port) := by
      simp [Form.write, hb]
    have hhost : hostOf (f.write l) = l.text := by
      rw [hwrite, hostOf, if_pos (by simp), List.tail_cons, List.takeWhile_append_of_pos hclass]
      simp
    refine ⟨?_, hscrub (hhost ▸ truncIP_of_parseAddr l.reads)⟩
    simpa [hwrite] using first_brackets l.ne_nil h f.port hs

/-- The text of a template with an address in its hole. -/
theorem Form.Finds.scrub (h : f.Finds l) (t : Template) :
    ipPortRe.replaceAll scrubMatch (t.fill (f.write l)).length (t.fill (f.write l)) =
      t.fill (truncated l.addr.unmap) := by
  have hnone {c : Char} (hc : c ∈ t.before ++ t.after) (s : Text) : ipPortRe.first (c :: s) = none := by
    obtain ⟨hdigit, hfree⟩ := t.free c hc
    exact first_eq_none hdigit (fun he => hfree (by simp [he])) s
  have hafter : ∀ c ∈ t.after.head?, c.isDigit = false ∧ c ≠ ':' := by
    intro c hc
    obtain ⟨hdigit, hfree⟩ := t.free c (List.mem_append_right _ (List.mem_of_head? hc))
    exact ⟨hdigit, fun he => hfree (by simp [he])⟩
  have hne : f.write l ≠ [] := by
    intro he
    rw [Form.write, List.append_eq_nil_iff] at he
    revert he
    split <;> simp [l.ne_nil]
  rw [Template.fill, replaceAll_between (fun c hc => hnone (List.mem_append_left _ hc))
    (fun c hc => hnone (List.mem_append_right _ hc)) (h.found hafter).1 hne, (h.found hafter).2]
  rfl

end Output

/-- The /24 or the /48 of an address, an IPv4-mapped one being an IPv4 address. -/
def network (a : Addr) : Prefix :=
  (Prefix.prefixFrom a.unmap (if a.unmap.is4 then 24 else 48)).masked

theorem octet_of_shift {b b' : BitVec 32} (h : (b >>> 8) <<< 8 = (b' >>> 8) <<< 8) {i : Nat}
    (hi : i < 3) : octet b i = octet b' i := by
  have hb := b.isLt
  have hb' := b'.isLt
  have hnat := congrArg BitVec.toNat h
  simp only [BitVec.toNat_shiftLeft, BitVec.toNat_ushiftRight, Nat.shiftLeft_eq,
    Nat.shiftRight_eq_div_pow] at hnat
  obtain rfl | rfl | rfl : i = 0 ∨ i = 1 ∨ i = 2 := by omega
  all_goals
    simp only [octet]
    omega

/-- The text shows nothing beyond the network. -/
theorem truncated_of_network {a a' : Addr} (h : network a = network a') :
    truncated a.unmap = truncated a'.unmap := by
  have hip := congrArg Prefix.ip h
  unfold network at hip
  cases hx : a.unmap <;> cases hy : a'.unmap <;> rw [hx, hy] at hip
  case v4.v4 b b' =>
    have hb : (b >>> 8) <<< 8 = (b' >>> 8) <<< 8 := Addr.v4.inj hip
    simp only [truncated, octet_of_shift hb (show 0 < 3 by decide),
      octet_of_shift hb (show 1 < 3 by decide), octet_of_shift hb (show 2 < 3 by decide)]
  case v6.v6 => exact congrArg (fun a => a.string.toList ++ ['x']) hip
  all_goals cases hip

namespace Sample

/-- `dial` before the hole and nothing behind it. -/
def dial : Template := ⟨['d', 'i', 'a', 'l', ' '], [], by simp [Char.isDigit], by simp⟩

def bare : Form := ⟨false, none⟩

def withPort : Form := ⟨false, some 443⟩

def bracketed : Form := ⟨true, none⟩

def literal (text : String) (addr : Addr) (h : parseAddr text.toList = some addr) : Literal :=
  ⟨text.toList, addr, h⟩

def err (f : Form) (l : Literal) : Err := ⟨dial.fill (f.write l), none⟩

def hostA : Literal := literal "192.0.2.17" (.v4 0xC0000211#32) (by decide)

def hostB : Literal := literal "192.0.2.200" (.v4 0xC00002C8#32) (by decide)

def ipv6A : Literal :=
  literal "2001:db8:1::1" (.v6 0x20010db8000100000000000000000001#128 "") (by decide)

def ipv6B : Literal :=
  literal "2001:db8:1::2" (.v6 0x20010db8000100000000000000000002#128 "") (by decide)

def zonedA : Literal :=
  literal "fe80::1%eth0" (.v6 0xfe800000000000000000000000000001#128 "eth0") (by decide)

def zonedB : Literal :=
  literal "fe80::2%eth0" (.v6 0xfe800000000000000000000000000002#128 "eth0") (by decide)

end Sample

end Veld.Logsafe
