import Mathlib.Data.List.TakeWhile
import Veld.Core.Split
import Veld.Acl.Meaning

/-!
# Port entries as they are written

The grammar of the port entries of a policy file, and the texts that `parsePortRange`
reads: every text of the grammar is read as what it names, and besides them only texts
in which something stands around a number or follows `icmp/`. `Sscanf` skips blanks
before a number and leaves what comes after it, and the word `icmp` before a slash is
enough for an entry.
-/

namespace Veld.Acl

/-- The number a string of decimal digits writes. -/
def decimal (ds : List Char) : Nat := ds.foldl (fun n c => n * 10 + (c.toNat - '0'.toNat)) 0

/-- A nonempty string of decimal digits and the port number it writes. -/
structure Numeral (ds : List Char) (p : UInt16) : Prop where
  nonempty : ds ≠ []
  digits : ∀ c ∈ ds, c.isDigit = true
  value : decimal ds = p.toNat

/-- A word, its letters in any case. -/
def SameWord (word : List Char) (w : String) : Prop := word.map Char.toLower = w.toList

/-- The two protocols whose entries have ports. -/
inductive Transport
  | tcp
  | udp
  deriving DecidableEq, Repr

namespace Transport

def word : Transport → String
  | tcp => "tcp"
  | udp => "udp"

def proto : Transport → Proto
  | tcp => protoTCP
  | udp => protoUDP

def entry : Transport → UInt16 → UInt16 → PortEntry
  | tcp => .tcp
  | udp => .udp

theorem toRange_entry (t : Transport) (start stop : UInt16) :
    (t.entry start stop).toRange = { proto := t.proto, start, stop } := by
  cases t <;> rfl

end Transport

/-- The texts of the grammar, and the entry each of them names. -/
inductive Written : List Char → PortEntry → Prop
  | any : Written ['*'] .any
  | icmp {word : List Char} (hword : SameWord word "icmp") : Written word .icmp
  | port {t : Transport} {word ds : List Char} {p : UInt16} (hword : SameWord word t.word)
      (hp : Numeral ds p) : Written (word ++ '/' :: ds) (t.entry p p)
  | range {t : Transport} {word ds es : List Char} {p q : UInt16} (hword : SameWord word t.word)
      (hp : Numeral ds p) (hq : Numeral es q) (hle : p ≤ q) :
      Written (word ++ '/' :: (ds ++ '-' :: es)) (t.entry p q)

/-- What `Sscanf` skips before a number. -/
def isBlank (c : Char) : Bool := isScanSpace c && c != '\n'

/-- What `Sscanf` reads as a port: a number, with blanks before it and after it anything that
does not go on with digits. -/
def Scanned (s : List Char) (p : UInt16) : Prop :=
  ∃ blanks digits rest, s = blanks ++ (digits ++ rest) ∧ (∀ c ∈ blanks, isBlank c = true) ∧
    Numeral digits p ∧ ∀ c ∈ rest.head?, c.isDigit = false

/-- The texts that are read although they are not of the grammar. -/
inductive Sloppy : List Char → Prop
  /-- A slash and anything after `icmp`, whose first letter may be the dotted capital I. -/
  | icmp {word rest : List Char} (hword : word.map lowerChar = "icmp".toList)
      (hrest : '/' ∉ rest) : Sloppy (word ++ '/' :: rest)
  /-- More than digits in place of a port. -/
  | port {t : Transport} {word s : List Char} {p : UInt16} (hword : SameWord word t.word)
      (hs : '/' ∉ s ∧ '-' ∉ s) (hp : Scanned s p) (hmore : ∃ c ∈ s, c.isDigit = false) :
      Sloppy (word ++ '/' :: s)
  /-- More than digits in place of one of two ports. -/
  | range {t : Transport} {word first last : List Char} {p q : UInt16}
      (hword : SameWord word t.word) (hfirst : '/' ∉ first ∧ '-' ∉ first)
      (hlast : '/' ∉ last ∧ '-' ∉ last) (hp : Scanned first p) (hq : Scanned last q) (hle : p ≤ q)
      (hmore : ∃ c ∈ first ++ last, c.isDigit = false) :
      Sloppy (word ++ '/' :: (first ++ '-' :: last))

section Numbers

variable {codec : Codec} {s ds : List Char} {p : UInt16}

theorem isBlank_of_isDigit {c : Char} (h : c.isDigit = true) : isBlank c = false := by
  have hbounds : 48 ≤ c.toNat ∧ c.toNat ≤ 57 := by
    simpa [Char.isDigit, UInt32.le_iff_toNat_le] using h
  simp only [isBlank, isScanSpace, List.any_cons, List.any_nil, Bool.or_false, Bool.and_eq_false_iff,
    Bool.or_eq_false_iff, decide_eq_false_iff_not]
  omega

/-- Digits are neither of the separators. -/
theorem Numeral.plain (h : Numeral ds p) : '/' ∉ ds ∧ '-' ∉ ds :=
  ⟨fun hc => absurd (h.digits _ hc) (by decide), fun hc => absurd (h.digits _ hc) (by decide)⟩

theorem Numeral.scanned (h : Numeral ds p) : Scanned ds p :=
  ⟨[], ds, [], (List.append_nil ds).symm, nofun, h, nofun⟩

/-- A text of digits alone is read as the number it writes. -/
theorem Scanned.numeral (h : Scanned s p) (hs : ∀ c ∈ s, c.isDigit = true) : Numeral s p := by
  obtain ⟨blanks, digits, rest, rfl, hblanks, hdigits, hrest⟩ := h
  have hb : blanks = [] := by
    refine List.eq_nil_iff_forall_not_mem.mpr fun c hc => ?_
    have hdigit := hs c (List.mem_append_left _ hc)
    exact absurd (hblanks c hc) (by rw [isBlank_of_isDigit hdigit]; decide)
  have hr : rest = [] := by
    cases rest with
    | nil => rfl
    | cons c rest =>
      have hdigit := hs c (by simp)
      exact absurd (hrest c rfl) (by rw [hdigit]; decide)
  subst hb hr
  rwa [List.nil_append, List.append_nil]

/-- The digits `Sscanf` finds behind the blanks. -/
def scannedDigits (s : List Char) : List Char := (s.dropWhile isBlank).takeWhile Char.isDigit

theorem scanUint64_eq_some {n : Nat} : scanUint64 s = some n ↔
    scannedDigits s ≠ [] ∧ decimal (scannedDigits s) = n ∧ n < 2 ^ 64 := by
  have hdef : scanUint64 s = if (scannedDigits s).isEmpty || decimal (scannedDigits s) ≥ 2 ^ 64
      then none else some (decimal (scannedDigits s)) := rfl
  rw [hdef, Option.ite_none_left_eq_some]
  simp only [Bool.or_eq_true, List.isEmpty_iff, decide_eq_true_eq, not_or, Option.some.injEq]
  constructor
  · rintro ⟨⟨hne, hlt⟩, rfl⟩
    exact ⟨hne, rfl, Nat.lt_of_not_le hlt⟩
  · rintro ⟨hne, rfl, hlt⟩
    exact ⟨⟨hne, Nat.not_le.mpr hlt⟩, rfl⟩

theorem scannedDigits_append {blanks digits rest : List Char}
    (hblanks : ∀ c ∈ blanks, isBlank c = true) (hdigits : Numeral digits p)
    (hrest : ∀ c ∈ rest.head?, c.isDigit = false) :
    scannedDigits (blanks ++ (digits ++ rest)) = digits := by
  have hskip : (digits ++ rest).dropWhile isBlank = digits ++ rest := by
    obtain ⟨c, ds, rfl⟩ := List.exists_cons_of_ne_nil hdigits.nonempty
    have hc : isBlank c = false := isBlank_of_isDigit (hdigits.digits c List.mem_cons_self)
    rw [List.cons_append, List.dropWhile_cons_of_neg (Bool.eq_false_iff.mp hc)]
  have htake : rest.takeWhile Char.isDigit = [] := by
    cases rest with
    | nil => rfl
    | cons c rest => exact List.takeWhile_cons_of_neg (Bool.eq_false_iff.mp (hrest c rfl))
  rw [scannedDigits, List.dropWhile_append_of_pos hblanks, hskip,
    List.takeWhile_append_of_pos hdigits.digits, htake, List.append_nil]

theorem scanUint64_of_scanned (h : Scanned s p) : scanUint64 s = some p.toNat := by
  obtain ⟨blanks, digits, rest, rfl, hblanks, hdigits, hrest⟩ := h
  have hp : p.toNat < 2 ^ 16 := p.toNat_lt
  rw [scanUint64_eq_some, scannedDigits_append hblanks hdigits hrest]
  exact ⟨hdigits.nonempty, hdigits.value, by omega⟩

theorem scanned_of_scanUint64 {n : Nat} (h : scanUint64 s = some n) (hn : n ≤ 65535) :
    Scanned s (UInt16.ofNat n) := by
  obtain ⟨hne, rfl, -⟩ := scanUint64_eq_some.mp h
  have hvalue : decimal (scannedDigits s) = (UInt16.ofNat (decimal (scannedDigits s))).toNat := by
    rw [UInt16.toNat_ofNat', Nat.mod_eq_of_lt (Nat.lt_succ_of_le hn)]
  refine ⟨s.takeWhile isBlank, scannedDigits s, (s.dropWhile isBlank).dropWhile Char.isDigit, ?_,
    fun c hc => List.mem_takeWhile_imp hc, ⟨hne, fun c hc => List.mem_takeWhile_imp hc, hvalue⟩, ?_⟩
  · rw [scannedDigits, List.takeWhile_append_dropWhile, List.takeWhile_append_dropWhile]
  · intro c hc
    have hhead := List.head?_dropWhile_not Char.isDigit (s.dropWhile isBlank)
    rwa [Option.mem_def.mp hc] at hhead

theorem parsePort_eq_ok : parsePort codec s = .ok p ↔ Scanned s p := by
  unfold parsePort
  constructor
  · intro h
    split at h
    · cases h
    · next n hn =>
      obtain ⟨hle, h⟩ := ite_error_eq_ok.mp h
      cases h
      exact scanned_of_scanUint64 hn (Nat.not_lt.mp hle)
  · intro h
    have hle : ¬p.toNat > 65535 := by
      have := p.toNat_lt
      omega
    simp [scanUint64_of_scanned h, if_neg hle]

/-- The text after the slash: one port, or two in their order. -/
def ReadPorts (s : List Char) (p q : UInt16) : Prop :=
  ('-' ∉ s ∧ p = q ∧ Scanned s p) ∨
    ∃ first last, s = first ++ '-' :: last ∧ '-' ∉ first ∧ '-' ∉ last ∧ Scanned first p ∧
      Scanned last q ∧ p ≤ q

theorem parsePorts_eq_ok {proto : Proto} {pr : PortRange} : parsePorts codec proto s = .ok pr ↔
    ∃ start stop, pr = { proto, start, stop } ∧ ReadPorts s start stop := by
  unfold parsePorts
  by_cases hdash : '-' ∈ s
  · rw [if_pos hdash]
    constructor
    · intro h
      split at h
      · next first last hsplit =>
        obtain ⟨rfl, hfirst, hlast⟩ := splitOn_eq_pair_iff.mp hsplit
        obtain ⟨start, hstart, h⟩ := bind_eq_ok.mp h
        obtain ⟨stop, hstop, h⟩ := bind_eq_ok.mp h
        obtain ⟨hle, h⟩ := guard_eq_ok.mp h
        cases h
        exact ⟨start, stop, rfl, .inr ⟨first, last, rfl, hfirst, hlast,
          parsePort_eq_ok.mp (mapError_eq_ok.mp hstart),
          parsePort_eq_ok.mp (mapError_eq_ok.mp hstop), UInt16.not_lt.mp hle⟩⟩
      · cases h
    · rintro ⟨start, stop, rfl, ⟨hno, -⟩ | ⟨first, last, rfl, hfirst, hlast, hstart, hstop, hle⟩⟩
      · exact absurd hdash hno
      · have hsplit := splitOn_eq_pair_iff.mpr ⟨rfl, hfirst, hlast⟩
        simp only [hsplit]
        refine bind_eq_ok.mpr ⟨start, mapError_eq_ok.mpr (parsePort_eq_ok.mpr hstart), ?_⟩
        refine bind_eq_ok.mpr ⟨stop, mapError_eq_ok.mpr (parsePort_eq_ok.mpr hstop), ?_⟩
        exact guard_eq_ok.mpr ⟨UInt16.not_lt.mpr hle, rfl⟩
  · rw [if_neg hdash]
    constructor
    · intro h
      obtain ⟨port, hport, h⟩ := bind_eq_ok.mp h
      cases h
      exact ⟨port, port, rfl, .inl ⟨hdash, rfl, parsePort_eq_ok.mp hport⟩⟩
    · rintro ⟨start, stop, rfl, ⟨-, rfl, hport⟩ | ⟨first, last, rfl, -⟩⟩
      · exact bind_eq_ok.mpr ⟨start, parsePort_eq_ok.mpr hport, rfl⟩
      · exact absurd (List.mem_append_right _ List.mem_cons_self) hdash

end Numbers

section Words

variable {codec : Codec} {word rest : List Char} {t : Transport}

/-- Outside `i` and `k` the lower case of a text is the one of its ASCII letters. -/
theorem lowerChar_eq_iff {c x : Char} (hx : x ∈ "tcpud".toList) : lowerChar c = x ↔ c.toLower = x := by
  have hall : "tcpud".toList.all (fun x => ('i' = x ↔ (Char.ofNat 0x130).toLower = x) ∧
      ('k' = x ↔ (Char.ofNat 0x212a).toLower = x)) = true := by decide
  have hextra := fun x hx => of_decide_eq_true (List.all_eq_true.mp hall x hx)
  unfold lowerChar
  split
  · next hc => exact hc ▸ (hextra x hx).1
  · split
    · next hc => exact hc ▸ (hextra x hx).2
    · exact Iff.rfl

theorem map_eq_iff_of_forall {α β : Type} {f g : α → β} {target : List β} {l : List α}
    (h : ∀ x ∈ target, ∀ c, f c = x ↔ g c = x) : l.map f = target ↔ l.map g = target := by
  induction l generalizing target with
  | nil => exact Iff.rfl
  | cons c l ih =>
    cases target with
    | nil => exact ⟨nofun, nofun⟩
    | cons x target =>
      obtain ⟨hx, htarget⟩ := List.forall_mem_cons.mp h
      rw [List.map_cons, List.map_cons, List.cons.injEq, List.cons.injEq, hx, ih htarget]

theorem map_lowerChar_eq_iff : word.map lowerChar = t.word.toList ↔ SameWord word t.word := by
  have hletters : ∀ t : Transport, ∀ x ∈ t.word.toList, x ∈ "tcpud".toList := by
    intro t x hx
    have hall : t.word.toList.all (· ∈ "tcpud".toList) = true := by cases t <;> decide
    exact of_decide_eq_true (List.all_eq_true.mp hall x hx)
  exact map_eq_iff_of_forall fun x hx c => lowerChar_eq_iff (hletters t x hx)

theorem lowerWord_eq_iff {w : String} :
    lowerWord (String.ofList word) = w ↔ word.map lowerChar = w.toList := by
  rw [← String.toList_inj, lowerWord, String.toList_map, String.toList_ofList]

/-- A slash remains one in lower case, so that words without it are written without it. -/
theorem slash_not_mem_of_map {f : Char → Char} {w : String} (hf : f '/' = '/')
    (hw : '/' ∉ w.toList) (h : word.map f = w.toList) : '/' ∉ word := fun hc =>
  hw (h ▸ hf ▸ List.mem_map_of_mem hc)

theorem SameWord.slash_not_mem (h : SameWord word t.word) : '/' ∉ word :=
  slash_not_mem_of_map (by decide) (by cases t <;> decide) h

/-- With one slash, the word before it decides. -/
theorem parsePortRange_slash {s : String} {pr : PortRange} (hs : s.toList = word ++ '/' :: rest)
    (hword : '/' ∉ word) (hrest : '/' ∉ rest) : parsePortRange codec s = .ok pr ↔
      (∃ t : Transport, SameWord word t.word ∧ parsePorts codec t.proto rest = .ok pr) ∨
      word.map lowerChar = "icmp".toList ∧ pr = icmpRange := by
  have hmem : '/' ∈ s.toList := hs ▸ List.mem_append_right _ List.mem_cons_self
  have hany : s ≠ "*" := by
    rintro rfl
    exact absurd hmem (by decide)
  have hicmp : s.map Char.toLower ≠ "icmp" := by
    intro h
    rw [← String.toList_inj, String.toList_map] at h
    exact slash_not_mem_of_map (by decide) (by decide) h hmem
  have hsplit : s.toList.splitOn '/' = [word, rest] := splitOn_eq_pair_iff.mpr ⟨hs, hword, hrest⟩
  have hdef : parsePortRange codec s =
      if word.map lowerChar = "tcp".toList then parsePorts codec protoTCP rest
      else if word.map lowerChar = "udp".toList then parsePorts codec protoUDP rest
      else if word.map lowerChar = "icmp".toList then .ok icmpRange
      else .error ("unknown protocol: " ++ codec.quote (lowerWord (String.ofList word))) := by
    simp only [parsePortRange, if_neg hany, if_neg hicmp, hsplit, lowerWord_eq_iff]
  have htransport (t : Transport) : SameWord word t.word ↔ word.map lowerChar = t.word.toList :=
    map_lowerChar_eq_iff.symm
  rw [hdef]
  constructor
  · intro h
    split at h
    · next hw => exact .inl ⟨.tcp, (htransport .tcp).mpr hw, h⟩
    · split at h
      · next hw => exact .inl ⟨.udp, (htransport .udp).mpr hw, h⟩
      · split at h
        · next hw => exact .inr ⟨hw, (Except.ok.inj h).symm⟩
        · cases h
  · rintro (⟨t, hw, h⟩ | ⟨hw, rfl⟩)
    · rw [(htransport t).mp hw]
      cases t with
      | tcp => exact (if_pos rfl).trans h
      | udp => exact (if_neg (by decide)).trans ((if_pos rfl).trans h)
    · rw [hw, if_neg (by decide), if_neg (by decide), if_pos rfl]

end Words

section Entries

variable {codec : Codec} {s : String} {e : PortEntry} {pr : PortRange} {word rest : List Char}
  {t : Transport}

/-- A text that is read is `*`, `icmp`, or a word, a slash and what follows it. -/
theorem exists_slash_of_parse (h : parsePortRange codec s = .ok pr) :
    s = "*" ∨ SameWord s.toList "icmp" ∨
      ∃ word rest, s.toList = word ++ '/' :: rest ∧ '/' ∉ word ∧ '/' ∉ rest := by
  unfold parsePortRange at h
  split at h
  · next hany => exact .inl hany
  · split at h
    · next hicmp =>
      rw [← String.toList_inj, String.toList_map] at hicmp
      exact .inr (.inl hicmp)
    · split at h
      · next word rest hsplit => exact .inr (.inr ⟨word, rest, splitOn_eq_pair_iff.mp hsplit⟩)
      · cases h

theorem slash_not_mem_range_iff {first last : List Char} :
    '/' ∉ first ++ '-' :: last ↔ '/' ∉ first ∧ '/' ∉ last :=
  not_mem_append_cons_iff (by decide)

theorem parsePortRange_of_readPorts {p q : UInt16}
    (hs : s.toList = word ++ '/' :: rest) (hword : SameWord word t.word) (hrest : '/' ∉ rest)
    (h : ReadPorts rest p q) : parsePortRange codec s = .ok (t.entry p q).toRange := by
  have hports : parsePorts codec t.proto rest = .ok (t.entry p q).toRange :=
    parsePorts_eq_ok.mpr ⟨p, q, t.toRange_entry p q, h⟩
  exact (parsePortRange_slash hs hword.slash_not_mem hrest).mpr (.inl ⟨t, hword, hports⟩)

/-- Every text of the grammar is read as the entry it names. -/
theorem parsePortRange_of_written (h : Written s.toList e) :
    parsePortRange codec s = .ok e.toRange := by
  generalize hs : s.toList = text at h
  cases h with
  | any =>
    obtain rfl : s = "*" := String.toList_inj.mp hs
    rfl
  | icmp hword =>
    have hany : s ≠ "*" := by
      rintro rfl
      rw [← hs] at hword
      exact absurd hword (by unfold SameWord; decide)
    have hlower : s.map Char.toLower = "icmp" := by
      rw [← String.toList_inj, String.toList_map, hs]
      exact hword
    rw [parsePortRange, if_neg hany, if_pos hlower]
    rfl
  | port hword hp =>
    exact parsePortRange_of_readPorts hs hword hp.plain.1 (.inl ⟨hp.plain.2, rfl, hp.scanned⟩)
  | range hword hp hq hle =>
    have hrest := slash_not_mem_range_iff.mpr ⟨hp.plain.1, hq.plain.1⟩
    exact parsePortRange_of_readPorts hs hword hrest
      (.inr ⟨_, _, rfl, hp.plain.2, hq.plain.2, hp.scanned, hq.scanned, hle⟩)

theorem parsePortRange_of_sloppy (h : Sloppy s.toList) : ∃ pr, parsePortRange codec s = .ok pr := by
  generalize hs : s.toList = text at h
  cases h with
  | icmp hword hrest =>
    have hslash := slash_not_mem_of_map (by decide) (by decide) hword
    exact ⟨_, (parsePortRange_slash hs hslash hrest).mpr (.inr ⟨hword, rfl⟩)⟩
  | port hword hplain hp =>
    exact ⟨_, parsePortRange_of_readPorts hs hword hplain.1 (.inl ⟨hplain.2, rfl, hp⟩)⟩
  | range hword hfirst hlast hp hq hle =>
    have hrest := slash_not_mem_range_iff.mpr ⟨hfirst.1, hlast.1⟩
    exact ⟨_, parsePortRange_of_readPorts hs hword hrest
      (.inr ⟨_, _, rfl, hfirst.2, hlast.2, hp, hq, hle⟩)⟩

/-- Only digits, or something else among them. -/
theorem digits_or (s : List Char) :
    (∀ c ∈ s, c.isDigit = true) ∨ ∃ c ∈ s, c.isDigit = false := by
  by_cases h : ∀ c ∈ s, c.isDigit = true
  · exact .inl h
  · obtain ⟨c, hc⟩ := not_forall.mp h
    obtain ⟨hmem, hdigit⟩ := Classical.not_imp.mp hc
    exact .inr ⟨c, hmem, Bool.eq_false_iff.mpr hdigit⟩

/-- Nothing is read but the texts of the grammar and those that go beyond it. -/
theorem written_or_sloppy (h : parsePortRange codec s = .ok pr) :
    (∃ e, Written s.toList e) ∨ Sloppy s.toList := by
  obtain rfl | hicmp | ⟨word, rest, hs, hword, hrest⟩ := exists_slash_of_parse h
  · exact .inl ⟨.any, .any⟩
  · exact .inl ⟨.icmp, .icmp hicmp⟩
  rw [hs]
  obtain ⟨t, hw, hports⟩ | ⟨hw, -⟩ := (parsePortRange_slash hs hword hrest).mp h
  · obtain ⟨p, q, -, ⟨hdash, rfl, hp⟩ | ⟨first, last, rfl, hfirst, hlast, hp, hq, hle⟩⟩ :=
      parsePorts_eq_ok.mp hports
    · obtain hall | hmore := digits_or rest
      · exact .inl ⟨_, .port hw (hp.numeral hall)⟩
      · exact .inr (.port hw ⟨hrest, hdash⟩ hp hmore)
    · obtain hall | hmore := digits_or (first ++ last)
      · have hnumeral := fun c hc => hall c (List.mem_append_left _ hc)
        have hnumeral' := fun c hc => hall c (List.mem_append_right _ hc)
        exact .inl ⟨_, .range hw (hp.numeral hnumeral) (hq.numeral hnumeral') hle⟩
      · have hslash := slash_not_mem_range_iff.mp hrest
        exact .inr (.range hw ⟨hslash.1, hfirst⟩ ⟨hslash.2, hlast⟩ hp hq hle hmore)
  · exact .inr (.icmp hw hrest)

/-- The words of the two transports are not the one of ICMP. -/
theorem SameWord.ne_icmp (h : SameWord word t.word) : word.map lowerChar ≠ "icmp".toList := by
  rw [map_lowerChar_eq_iff.mpr h]
  cases t <;> decide

/-- After a slash the texts of the grammar have digits and dashes only, and the word before it is
not `icmp`. -/
theorem Written.behind_slash (h : Written (word ++ '/' :: rest) e)
    (hword : '/' ∉ word) : word.map lowerChar ≠ "icmp".toList ∧
      ∀ c ∈ rest, c.isDigit = true ∨ c = '-' := by
  have hmem : '/' ∈ word ++ '/' :: rest := List.mem_append_right _ List.mem_cons_self
  generalize htext : word ++ '/' :: rest = text at h hmem
  cases h with
  | any => exact absurd hmem (by decide)
  | icmp hicmp => exact absurd hmem (slash_not_mem_of_map (by decide) (by decide) hicmp)
  | port hw hp =>
    obtain ⟨rfl, rfl⟩ := append_cons_inj_of_not_mem hword hw.slash_not_mem htext
    exact ⟨hw.ne_icmp, fun c hc => .inl (hp.digits c hc)⟩
  | range hw hp hq =>
    obtain ⟨rfl, rfl⟩ := append_cons_inj_of_not_mem hword hw.slash_not_mem htext
    refine ⟨hw.ne_icmp, fun c hc => ?_⟩
    obtain hc | hc := List.mem_append.mp hc
    · exact .inl (hp.digits c hc)
    · obtain rfl | hc := List.mem_cons.mp hc
      · exact .inr rfl
      · exact .inl (hq.digits c hc)

/-- Anything but digits and dashes after the slash leaves the grammar. -/
theorem not_written_of_mem {c : Char} (hword : '/' ∉ word) (hc : c ∈ rest)
    (hdigit : c.isDigit = false) (hdash : c ≠ '-') : ¬Written (word ++ '/' :: rest) e := by
  intro h
  obtain htrue | heq := (h.behind_slash hword).2 c hc
  · exact absurd (htrue.symm.trans hdigit) (by decide)
  · exact hdash heq

theorem not_written_of_sloppy {text : List Char} (h : Sloppy text) : ¬Written text e := by
  have hne {c : Char} {l : List Char} (hl : '-' ∉ l) (hc : c ∈ l) : c ≠ '-' := fun he => hl (he ▸ hc)
  cases h with
  | icmp hword hrest =>
    intro hw
    exact (hw.behind_slash (slash_not_mem_of_map (by decide) (by decide) hword)).1 hword
  | port hword hplain hp hmore =>
    obtain ⟨c, hc, hdigit⟩ := hmore
    exact not_written_of_mem hword.slash_not_mem hc hdigit (hne hplain.2 hc)
  | range hword hfirst hlast hp hq hle hmore =>
    obtain ⟨c, hc, hdigit⟩ := hmore
    obtain hc | hc := List.mem_append.mp hc
    · exact not_written_of_mem hword.slash_not_mem (List.mem_append_left _ hc) hdigit
        (hne hfirst.2 hc)
    · exact not_written_of_mem hword.slash_not_mem
        (List.mem_append_right _ (List.mem_cons_of_mem _ hc)) hdigit (hne hlast.2 hc)

/-- A port entry is accepted exactly if it is written in the grammar, unless it goes beyond the
grammar by text around a number or after `icmp/`; and an entry of the grammar matches exactly the
protocols and the ports it names. -/
theorem parsePortRange_exact (codec : Codec) (s : String) :
    (((∃ pr, parsePortRange codec s = .ok pr) ↔ ∃ e, Written s.toList e) ↔ ¬Sloppy s.toList) ∧
      ∀ e, Written s.toList e → ∃ pr, parsePortRange codec s = .ok pr ∧
        (∀ proto, pr.matchesProto proto = true ↔ e.NamesProto proto) ∧
        ∀ port, pr.containsPort port = true ↔ e.NamesPort port := by
  refine ⟨⟨fun hiff hsloppy => ?_, fun hsloppy => ⟨fun ⟨pr, hpr⟩ => ?_, fun ⟨e, he⟩ => ?_⟩⟩,
    fun e he => ?_⟩
  · obtain ⟨e, he⟩ := hiff.mp (parsePortRange_of_sloppy hsloppy)
    exact not_written_of_sloppy hsloppy he
  · exact (written_or_sloppy hpr).resolve_right hsloppy
  · exact ⟨_, parsePortRange_of_written he⟩
  · exact ⟨_, parsePortRange_of_written he, e.matchesProto_toRange, e.containsPort_toRange⟩

theorem parsePortRange_exact_tcp :
    Written "TCP/8000-8099".toList (.tcp 8000 8099) ∧
      ∃ pr, parsePortRange Sample.lengthCodec "TCP/8000-8099" = .ok pr ∧
        (∀ proto, pr.matchesProto proto = true ↔ proto = protoTCP) ∧
        ∀ port, pr.containsPort port = true ↔ 8000 ≤ port ∧ port ≤ 8099 := by
  have hword : SameWord "TCP".toList Transport.tcp.word := rfl
  have hp : Numeral "8000".toList 8000 := ⟨nofun, List.all_eq_true.mp rfl, by decide⟩
  have hq : Numeral "8099".toList 8099 := ⟨nofun, List.all_eq_true.mp rfl, by decide⟩
  have hwritten : Written "TCP/8000-8099".toList (.tcp 8000 8099) :=
    .range hword hp hq (by decide)
  exact ⟨hwritten, (parsePortRange_exact Sample.lengthCodec "TCP/8000-8099").2 _ hwritten⟩

/-- `tcp/22x` opens port 22, a blank may stand before a port and `icmp/22` opens all of ICMP,
and none of these texts is of the grammar. -/
theorem sloppy_entries_accepted :
    (parsePortRange Sample.lengthCodec "tcp/22x").toOption = some (PortEntry.tcp 22 22).toRange ∧
      (parsePortRange Sample.lengthCodec "udp/ 53-54").toOption =
        some (PortEntry.udp 53 54).toRange ∧
      (parsePortRange Sample.lengthCodec "icmp/22").toOption = some PortEntry.icmp.toRange ∧
      ∀ e, ¬Written "tcp/22x".toList e ∧ ¬Written "udp/ 53-54".toList e ∧
        ¬Written "icmp/22".toList e := by
  refine ⟨by decide +kernel, by decide +kernel, by decide +kernel, fun e => ⟨?_, ?_, fun h => ?_⟩⟩
  · have htext : "tcp/22x".toList = "tcp".toList ++ '/' :: "22x".toList := rfl
    have hx : 'x' ∈ "22x".toList := by decide
    exact htext ▸ not_written_of_mem (by decide) hx (by decide) (by decide)
  · have htext : "udp/ 53-54".toList = "udp".toList ++ '/' :: " 53-54".toList := rfl
    have hblank : ' ' ∈ " 53-54".toList := by decide
    exact htext ▸ not_written_of_mem (by decide) hblank (by decide) (by decide)
  · have htext : "icmp/22".toList = "icmp".toList ++ '/' :: "22".toList := rfl
    exact (Written.behind_slash (htext ▸ h) (by decide)).1 (by decide)

end Entries

end Veld.Acl
