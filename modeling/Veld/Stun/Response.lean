import Veld.Core.Framing
import Veld.Core.Netip

/-!
# STUN binding responses

`parseSTUNResponse` and the functions below it, as `internal/nat/stun.go` computes
them. Every index and slice of the source is a checked access; no byte string makes
one fail, and the loop over the attributes always ends. On a response built from
attributes the first attribute of either address type decides, whatever follows it,
so the IPv4 address that should be preferred is returned exactly if that attribute
does not stand before it.
-/

namespace Veld.Stun

open Netip (AddrPort)
open Bytes

/-- A transaction ID. -/
abbrev TxID := {b : Bytes // b.length = 12}

/-- An endpoint or the text of an error. -/
abbrev Result := Except String AddrPort

def stunMagicCookie : UInt32 := 0x2112A442

/-- `%04x` of a message type. -/
def formatType (t : UInt16) : String :=
  String.ofList ((Nat.toDigits 16 t.toNat).leftpad 4 '0')

/-- `netip.AddrFrom4` of four bytes. -/
def addrFrom4 (ip : Bytes) : Netip.Addr := .v4 (BitVec.ofNat 32 ip.beNat)

def parseXORMappedAddr (data : Bytes) : Option Result := do
  if data.length < 8 then
    return .error "xor-mapped-address: need ≥8 bytes and IPv4 family"
  if (← data[1]?) ≠ 0x01 then
    return .error "xor-mapped-address: need ≥8 bytes and IPv4 family"
  let port := (← data.uint16At 2) ^^^ (stunMagicCookie >>> 16).toUInt16
  let ip := [(← data[4]?) ^^^ 0x21, (← data[5]?) ^^^ 0x12, (← data[6]?) ^^^ 0xA4,
    (← data[7]?) ^^^ 0x42]
  return .ok ⟨addrFrom4 ip, port⟩

def parseMappedAddr (data : Bytes) : Option Result := do
  if data.length < 8 then
    return .error "mapped-address: need ≥8 bytes and IPv4 family"
  if (← data[1]?) ≠ 0x01 then
    return .error "mapped-address: need ≥8 bytes and IPv4 family"
  let port ← data.uint16At 2
  let ip ← data.slice 4 8
  return .ok ⟨addrFrom4 ip, port⟩

/-- The return after the loop. -/
def noMappedAddress : Result := .error "no mapped address attribute in stun response"

/-- The loop over the attributes; `none` when the fuel is used up. -/
def scanAttrs : Nat → Bytes → Option Result
  | 0, _ => none
  | fuel + 1, attrs => do
    if attrs.length < 4 then return noMappedAddress
    let attrType ← attrs.uint16At 0
    let attrLen := (← attrs.uint16At 2).toNat
    if 4 + attrLen > attrs.length then return noMappedAddress
    let value ← attrs.slice 4 (4 + attrLen)
    if attrType = 0x0020 then parseXORMappedAddr value
    else if attrType = 0x0001 then parseMappedAddr value
    else
      -- `(attrLen + 3) &^ 3`
      let padded := (attrLen + 3) / 4 * 4
      if 4 + padded > attrs.length then return noMappedAddress
      scanAttrs fuel (← attrs.sliceFrom (4 + padded))

/-- The attributes of a message; one that is shorter than it says is read as far as it goes. -/
def cutAttrs (attrs : Bytes) (msgLen : Nat) : Option Bytes :=
  if msgLen > attrs.length then some attrs else attrs.slice 0 msgLen

/-- Each turn of the loop takes at least four bytes, so that the fuel suffices. -/
def parseSTUNResponse (data : Bytes) (txID : TxID) : Option Result := do
  if data.length < 20 then
    return .error ("stun response too short: " ++ toString data.length ++ " bytes")
  let msgType ← data.uint16At 0
  if msgType ≠ 0x0101 then
    return .error ("unexpected stun message type: " ++ formatType msgType)
  if (← data.slice 8 20) ≠ txID.val then return .error "stun transaction ID mismatch"
  let msgLen := (← data.uint16At 2).toNat
  let attrs ← cutAttrs (← data.sliceFrom 20) msgLen
  scanAttrs (attrs.length + 1) attrs

section Value

/-- Port and address of a value that carries an IPv4 address, as they are written: one byte
that is not used, the family, two bytes and four. -/
def ipv4Value : Bytes → Option (UInt16 × BitVec 32)
  | _ :: family :: p :: q :: a :: b :: c :: d :: _ =>
    if family = 0x01 then
      some (UInt16.ofNat (beNat [p, q]), BitVec.ofNat 32 (beNat [a, b, c, d]))
    else none
  | _ => none

/-- The endpoint of a MAPPED-ADDRESS value. -/
def mappedEndpoint (value : Bytes) : Option AddrPort :=
  (ipv4Value value).map fun (port, ip) => ⟨.v4 ip, port⟩

/-- The endpoint of an XOR-MAPPED-ADDRESS value, whose address is combined with the cookie and
whose port with the upper half of it. -/
def xorMappedEndpoint (value : Bytes) : Option AddrPort :=
  (ipv4Value value).map fun (port, ip) => ⟨.v4 (ip ^^^ 0x2112A442#32), port ^^^ 0x2112⟩

theorem ofNat_mul_add (w n : Nat) (x : UInt8) :
    BitVec.ofNat (w + 8) (n * 256 + x.toNat) = BitVec.ofNat w n ++ x.toBitVec := by
  apply BitVec.eq_of_toNat_eq
  have hx : x.toNat < 256 := x.toNat_lt
  have hdiv : (n * 256 + x.toNat) / 256 = n := by omega
  have hmod : (n * 256 + x.toNat) % 256 = x.toNat := by omega
  rw [BitVec.toNat_append, ← Nat.shiftLeft_add_eq_or_of_lt x.toBitVec.isLt, BitVec.toNat_ofNat,
    BitVec.toNat_ofNat, Nat.shiftLeft_eq, Nat.pow_add, UInt8.toNat_toBitVec, Nat.mul_comm (2 ^ w),
    Nat.mod_mul, hdiv, hmod]
  omega

theorem ofNat_beNat4 (a b c d : UInt8) : BitVec.ofNat 32 (beNat [a, b, c, d]) =
    a.toBitVec ++ b.toBitVec ++ c.toBitVec ++ d.toBitVec := by
  have ha : BitVec.ofNat 8 (beNat [a]) = a.toBitVec := by simp [beNat]
  rw [← ha, ← ofNat_mul_add, ← ofNat_mul_add, ← ofNat_mul_add]
  rfl

/-- The source combines byte by byte what the format combines as one number. -/
theorem addrFrom4_xor (a b c d : UInt8) :
    addrFrom4 [a ^^^ 0x21, b ^^^ 0x12, c ^^^ 0xA4, d ^^^ 0x42] =
      .v4 (BitVec.ofNat 32 (beNat [a, b, c, d]) ^^^ 0x2112A442#32) := by
  have hcookie : 0x2112A442#32 = 0x21#8 ++ 0x12#8 ++ 0xA4#8 ++ 0x42#8 := by decide
  rw [addrFrom4, ofNat_beNat4, ofNat_beNat4, hcookie, BitVec.xor_append, BitVec.xor_append,
    BitVec.xor_append]
  rfl

/-- A value of at least eight bytes, byte for byte. -/
theorem exists_cons8 {data : Bytes} (h : ¬data.length < 8) :
    ∃ x family p q a b c d rest, data = x :: family :: p :: q :: a :: b :: c :: d :: rest := by
  match data with
  | x :: family :: p :: q :: a :: b :: c :: d :: rest =>
    exact ⟨x, family, p, q, a, b, c, d, rest, rfl⟩
  | [] | [_] | [_, _] | [_, _, _] | [_, _, _, _] | [_, _, _, _, _] | [_, _, _, _, _, _]
  | [_, _, _, _, _, _, _] => exact absurd (by simp) h

theorem ipv4Value_of_short {data : Bytes} (h : data.length < 8) : ipv4Value data = none := by
  unfold ipv4Value
  split
  · simp only [List.length_cons] at h
    omega
  · rfl

theorem parseXORMappedAddr_yields (data : Bytes) :
    Yields (parseXORMappedAddr data) (·.toOption = xorMappedEndpoint data) := by
  unfold parseXORMappedAddr xorMappedEndpoint
  refine .ite (fun h => .pure ?_) fun h8 => ?_
  · rw [ipv4Value_of_short h]
    rfl
  obtain ⟨x, family, p, q, a, b, c, d, rest, rfl⟩ := exists_cons8 h8
  refine .ite (fun h => .pure ?_) fun hfamily => .pure ?_
  · rw [ipv4Value, if_neg h]
    rfl
  · rw [ipv4Value, if_pos (not_not.mp hfamily), Option.map_some, addrFrom4_xor]
    rfl

theorem parseMappedAddr_yields (data : Bytes) :
    Yields (parseMappedAddr data) (·.toOption = mappedEndpoint data) := by
  unfold parseMappedAddr mappedEndpoint
  refine .ite (fun h => .pure ?_) fun h8 => ?_
  · rw [ipv4Value_of_short h]
    rfl
  obtain ⟨x, family, p, q, a, b, c, d, rest, rfl⟩ := exists_cons8 h8
  refine .ite (fun h => .pure ?_) fun hfamily => ?_
  · rw [ipv4Value, if_neg h]
    rfl
  · rw [ipv4Value, if_pos (not_not.mp hfamily)]
    exact .pure rfl

end Value

section Safety

/-- The loop ends and never reads outside the attributes. -/
theorem scanAttrs_yields {fuel : Nat} {attrs : Bytes} (h : attrs.length < fuel) :
    Yields (scanAttrs fuel attrs) fun _ => True := by
  induction fuel generalizing attrs with
  | zero => exact absurd h (Nat.not_lt_zero _)
  | succ fuel ih =>
    rw [scanAttrs]
    refine .ite (fun _ => .pure trivial) fun h4 => ?_
    refine (yields_uint16At (by omega)).bind fun attrType _ => ?_
    refine (yields_uint16At (by omega)).bind fun attrLen _ => ?_
    refine .ite (fun _ => .pure trivial) fun hlen => ?_
    refine (yields_slice (by omega) (by omega)).bind fun value _ => ?_
    refine .ite (fun _ => (parseXORMappedAddr_yields value).mono fun _ _ => trivial) fun _ => ?_
    refine .ite (fun _ => (parseMappedAddr_yields value).mono fun _ _ => trivial) fun _ => ?_
    refine .ite (fun _ => .pure trivial) fun hpadded => ?_
    refine (yields_sliceFrom (by omega)).bind fun rest hrest => ih ?_
    rw [hrest, List.length_drop]
    omega

theorem cutAttrs_yields (attrs : Bytes) (msgLen : Nat) :
    Yields (cutAttrs attrs msgLen) fun _ => True := by
  refine .ite (fun _ => .pure trivial) fun hlen => ?_
  exact (yields_slice (Nat.zero_le _) (by omega)).mono fun _ _ => trivial

theorem parseSTUNResponse_yields (data : Bytes) (txID : TxID) :
    Yields (parseSTUNResponse data txID) fun _ => True := by
  unfold parseSTUNResponse
  refine .ite (fun _ => .pure trivial) fun h20 => ?_
  refine (yields_uint16At (by omega)).bind fun msgType _ => ?_
  refine .ite (fun _ => .pure trivial) fun _ => ?_
  refine (yields_slice (by omega) (by omega)).bind fun id _ => ?_
  refine .ite (fun _ => .pure trivial) fun _ => ?_
  refine (yields_uint16At (by omega)).bind fun msgLen _ => ?_
  refine (yields_sliceFrom (by omega)).bind fun attrs _ => ?_
  exact (cutAttrs_yields _ _).bind fun attrs _ => scanAttrs_yields (Nat.lt_succ_self _)

end Safety

section Responses

/-- An attribute on the wire: the value is followed by the bytes that bring it to a multiple
of four, whose contents nobody reads. -/
structure Attribute where
  type : UInt16
  value : Bytes
  padding : Bytes
  fits : value.length < 2 ^ 16
  padded : value.length + padding.length = (value.length + 3) / 4 * 4

namespace Attribute

variable (a : Attribute)

def bytes : Bytes :=
  ofNatBE 2 a.type.toNat ++ (ofNatBE 2 a.value.length ++ (a.value ++ a.padding))

/-- The endpoint of an XOR-MAPPED-ADDRESS attribute with an IPv4 address. -/
def xorMapped : Option AddrPort :=
  if a.type = 0x0020 then xorMappedEndpoint a.value else none

/-- The endpoint of a MAPPED-ADDRESS attribute with an IPv4 address. -/
def mapped : Option AddrPort :=
  if a.type = 0x0001 then mappedEndpoint a.value else none

/-- One of the two address attributes, of whatever family. -/
def isAddress : Bool := a.type = 0x0020 ∨ a.type = 0x0001

/-- The IPv4 endpoint an attribute carries. -/
def endpoint : Option AddrPort := a.xorMapped.or a.mapped

theorem endpoint_of_xorMapped (h : a.type = 0x0020) : a.endpoint = xorMappedEndpoint a.value := by
  have hmapped : ¬a.type = 0x0001 := by
    rw [h]
    decide
  rw [endpoint, xorMapped, mapped, if_pos h, if_neg hmapped, Option.or_none]

theorem endpoint_of_mapped (h : a.type = 0x0001) : a.endpoint = mappedEndpoint a.value := by
  have hxor : ¬a.type = 0x0020 := by
    rw [h]
    decide
  rw [endpoint, xorMapped, mapped, if_pos h, if_neg hxor, Option.none_or]

theorem xorMapped_of_not_isAddress (h : ¬a.isAddress) : a.xorMapped = none :=
  if_neg fun hxor => h (decide_eq_true (.inl hxor))

theorem mapped_of_not_isAddress (h : ¬a.isAddress) : a.mapped = none :=
  if_neg fun hmapped => h (decide_eq_true (.inr hmapped))

theorem endpoint_of_not_isAddress (h : ¬a.isAddress) : a.endpoint = none := by
  rw [endpoint, a.xorMapped_of_not_isAddress h, a.mapped_of_not_isAddress h, Option.or_none]

/-- No attribute is of both types. -/
theorem mapped_of_xorMapped {x : AddrPort} (h : a.xorMapped = some x) : a.mapped = none := by
  rw [xorMapped, Option.ite_none_right_eq_some] at h
  rw [mapped, if_neg]
  rw [h.1]
  decide

theorem length_bytes : a.bytes.length = 4 + (a.value.length + 3) / 4 * 4 := by
  rw [bytes, List.length_append, List.length_append, List.length_append, length_ofNatBE,
    length_ofNatBE, a.padded]
  omega

theorem uint16At_type (rest : Bytes) : (a.bytes ++ rest).uint16At 0 = some a.type := by
  rw [bytes, List.append_assoc, uint16At_ofNatBE a.type.toNat_lt, UInt16.ofNat_toNat]

theorem uint16At_length (rest : Bytes) :
    (a.bytes ++ rest).uint16At 2 = some (UInt16.ofNat a.value.length) := by
  have hbehind := uint16At_behind (ofNatBE 2 a.type.toNat)
    (ofNatBE 2 a.value.length ++ (a.value ++ a.padding) ++ rest) 0
  rw [length_ofNatBE] at hbehind
  rw [bytes, List.append_assoc, hbehind, List.append_assoc, uint16At_ofNatBE a.fits]

theorem slice_value (rest : Bytes) :
    (a.bytes ++ rest).slice 4 (4 + a.value.length) = some a.value := by
  have hsplit : a.bytes ++ rest = (ofNatBE 2 a.type.toNat ++ ofNatBE 2 a.value.length) ++
      (a.value ++ (a.padding ++ rest)) := by
    simp [bytes]
  rw [hsplit]
  exact slice_append _ _ _ rfl rfl

theorem sliceFrom_padded (rest : Bytes) :
    (a.bytes ++ rest).sliceFrom (4 + (a.value.length + 3) / 4 * 4) = some rest :=
  sliceFrom_append _ _ a.length_bytes

end Attribute

/-- One turn of the loop, on an attribute and what follows it. -/
theorem scanAttrs_append (fuel : Nat) (a : Attribute) (rest : Bytes) :
    scanAttrs (fuel + 1) (a.bytes ++ rest) =
      if a.type = 0x0020 then parseXORMappedAddr a.value
      else if a.type = 0x0001 then parseMappedAddr a.value
      else scanAttrs fuel rest := by
  have hlen : (a.bytes ++ rest).length = 4 + (a.value.length + 3) / 4 * 4 + rest.length := by
    rw [List.length_append, a.length_bytes]
  have hread : (UInt16.ofNat a.value.length).toNat = a.value.length := by
    rw [UInt16.toNat_ofNat', Nat.mod_eq_of_lt a.fits]
  have h4 : ¬(a.bytes ++ rest).length < 4 := by omega
  have hvalue : ¬4 + a.value.length > (a.bytes ++ rest).length := by omega
  have hpadded : ¬4 + (a.value.length + 3) / 4 * 4 > (a.bytes ++ rest).length := by omega
  simp only [scanAttrs, if_neg h4, a.uint16At_type, a.uint16At_length, hread, if_neg hvalue,
    a.slice_value, if_neg hpadded, a.sliceFrom_padded, Option.bind_eq_bind, Option.bind_some]

/-- The loop's answer is the one of the first address attribute. -/
theorem scanAttrs_attributes {fuel : Nat} {attrs : List Attribute}
    (h : (attrs.flatMap Attribute.bytes).length < fuel) :
    Yields (scanAttrs fuel (attrs.flatMap Attribute.bytes))
      (·.toOption = (attrs.find? Attribute.isAddress).bind Attribute.endpoint) := by
  obtain ⟨fuel, rfl⟩ := Nat.exists_eq_succ_of_ne_zero (Nat.ne_of_gt (Nat.zero_lt_of_lt h))
  induction attrs generalizing fuel with
  | nil => exact .pure rfl
  | cons a attrs ih =>
    rw [List.flatMap_cons] at h ⊢
    rw [scanAttrs_append]
    refine .ite (fun hxor => ?_) fun hxor => .ite (fun hmapped => ?_) fun hmapped => ?_
    · have hfind : (a :: attrs).find? Attribute.isAddress = some a :=
        List.find?_cons_of_pos (decide_eq_true (.inl hxor))
      rw [hfind, Option.bind_some, a.endpoint_of_xorMapped hxor]
      exact parseXORMappedAddr_yields a.value
    · have hfind : (a :: attrs).find? Attribute.isAddress = some a :=
        List.find?_cons_of_pos (decide_eq_true (.inr hmapped))
      rw [hfind, Option.bind_some, a.endpoint_of_mapped hmapped]
      exact parseMappedAddr_yields a.value
    · have hfind : (a :: attrs).find? Attribute.isAddress = attrs.find? Attribute.isAddress :=
        List.find?_cons_of_neg (by simp [Attribute.isAddress, hxor, hmapped])
      have hlen : (attrs.flatMap Attribute.bytes).length < fuel := by
        rw [List.length_append, a.length_bytes] at h
        omega
      obtain ⟨fuel, rfl⟩ := Nat.exists_eq_succ_of_ne_zero (Nat.ne_of_gt (Nat.zero_lt_of_lt hlen))
      rw [hfind]
      exact ih fuel hlen

/-- A binding response whose attributes fill the message length. -/
structure Response where
  /-- The four bytes of the cookie, which the source does not look at. -/
  cookie : Bytes
  txID : TxID
  attrs : List Attribute
  cookie_length : cookie.length = 4
  fits : (attrs.flatMap Attribute.bytes).length < 2 ^ 16

namespace Response

variable (m : Response) {a : Attribute} {x : AddrPort}

def header : Bytes :=
  ofNatBE 2 0x0101 ++ (ofNatBE 2 (m.attrs.flatMap Attribute.bytes).length ++
    (m.cookie ++ m.txID.val))

def bytes : Bytes := m.header ++ m.attrs.flatMap Attribute.bytes

/-- What should be returned: the first XOR-MAPPED-ADDRESS with an IPv4 address, without one the
first MAPPED-ADDRESS with an IPv4 address, and without that nothing. -/
def expected : Option AddrPort :=
  (m.attrs.findSome? Attribute.xorMapped).or (m.attrs.findSome? Attribute.mapped)

/-- The first address attribute does not hide a better one: it has an IPv4 address if any
attribute has one, and if it is a MAPPED-ADDRESS, then an XOR-MAPPED-ADDRESS behind it says the
same. -/
def FirstDecides : Prop :=
  ∀ a ∈ m.attrs.find? Attribute.isAddress,
    (a.endpoint = none → ∀ b ∈ m.attrs, b.endpoint = none) ∧
    ∀ x ∈ a.mapped, ∀ y ∈ m.attrs.findSome? Attribute.xorMapped, x = y

theorem length_header : m.header.length = 20 := by
  rw [header, List.length_append, List.length_append, List.length_append, length_ofNatBE,
    length_ofNatBE, m.cookie_length, m.txID.property]

theorem uint16At_type (rest : Bytes) : (m.header ++ rest).uint16At 0 = some 0x0101 := by
  rw [header, List.append_assoc]
  exact uint16At_ofNatBE (by decide) _

theorem uint16At_length (rest : Bytes) : (m.header ++ rest).uint16At 2 =
    some (UInt16.ofNat (m.attrs.flatMap Attribute.bytes).length) := by
  rw [header, List.append_assoc]
  refine (uint16At_behind (ofNatBE 2 0x0101) _ 0).trans ?_
  rw [List.append_assoc]
  exact uint16At_ofNatBE m.fits _

theorem slice_txID (rest : Bytes) : (m.header ++ rest).slice 8 20 = some m.txID.val := by
  have hsplit : m.header ++ rest = (ofNatBE 2 0x0101 ++
      (ofNatBE 2 (m.attrs.flatMap Attribute.bytes).length ++ m.cookie)) ++
      (m.txID.val ++ rest) := by
    simp [header]
  have hbefore : (ofNatBE 2 0x0101 ++
      (ofNatBE 2 (m.attrs.flatMap Attribute.bytes).length ++ m.cookie)).length = 8 := by
    rw [List.length_append, List.length_append, length_ofNatBE, length_ofNatBE, m.cookie_length]
  rw [hsplit]
  exact slice_append _ _ _ hbefore (by rw [m.txID.property])

/-- What the message length covers is cut out of what follows the header. -/
theorem cutAttrs_append (attrs trailing : Bytes) :
    cutAttrs (attrs ++ trailing) attrs.length = some attrs := by
  have hle : ¬attrs.length > (attrs ++ trailing).length := by
    rw [List.length_append]
    omega
  rw [cutAttrs, if_neg hle]
  exact slice_append [] attrs trailing rfl (Nat.zero_add _)

/-- The header is read as it was written, and the loop is given the attributes. -/
theorem parse_bytes (trailing : Bytes) :
    parseSTUNResponse (m.bytes ++ trailing) m.txID =
      scanAttrs ((m.attrs.flatMap Attribute.bytes).length + 1) (m.attrs.flatMap Attribute.bytes) := by
  have h20 : ¬(m.header ++ (m.attrs.flatMap Attribute.bytes ++ trailing)).length < 20 := by
    rw [List.length_append, m.length_header]
    omega
  have hread : (UInt16.ofNat (m.attrs.flatMap Attribute.bytes).length).toNat =
      (m.attrs.flatMap Attribute.bytes).length := by
    rw [UInt16.toNat_ofNat', Nat.mod_eq_of_lt m.fits]
  simp only [bytes, List.append_assoc, parseSTUNResponse, if_neg h20, m.uint16At_type,
    m.uint16At_length, m.slice_txID, sliceFrom_append _ _ m.length_header, hread, cutAttrs_append,
    Option.bind_eq_bind, Option.bind_some, ne_eq, not_true, if_false]

theorem parse_yields (trailing : Bytes) :
    Yields (parseSTUNResponse (m.bytes ++ trailing) m.txID)
      (·.toOption = (m.attrs.find? Attribute.isAddress).bind Attribute.endpoint) := by
  rw [parse_bytes]
  exact scanAttrs_attributes (Nat.lt_succ_self _)

theorem expected_eq_none_iff : m.expected = none ↔ ∀ b ∈ m.attrs, b.endpoint = none := by
  rw [expected, Option.or_eq_none_iff, List.findSome?_eq_none_iff, List.findSome?_eq_none_iff]
  simp only [Attribute.endpoint, Option.or_eq_none_iff]
  exact ⟨fun h b hb => ⟨h.1 b hb, h.2 b hb⟩,
    fun h => ⟨fun b hb => (h b hb).1, fun b hb => (h b hb).2⟩⟩

/-- An attribute that is found first and has an answer gives the first answer. -/
theorem findSome?_of_find? {f : Attribute → Option AddrPort} {attrs : List Attribute} (hf : ∀ b : Attribute, ¬b.isAddress → f b = none)
    (ha : attrs.find? Attribute.isAddress = some a) (hx : f a = some x) :
    attrs.findSome? f = some x := by
  obtain ⟨_, before, after, rfl, hbefore⟩ := List.find?_eq_some_iff_append.mp ha
  have hnone : before.findSome? f = none :=
    List.findSome?_eq_none_iff.mpr fun b hb => hf b (by simpa using hbefore b hb)
  rw [List.findSome?_append, hnone, Option.none_or, List.findSome?_cons, hx]

theorem expected_of_xorMapped
    (ha : m.attrs.find? Attribute.isAddress = some a) (hx : a.xorMapped = some x) :
    m.expected = some x := by
  have hfirst : m.attrs.findSome? Attribute.xorMapped = some x :=
    findSome?_of_find? (fun b hb => b.xorMapped_of_not_isAddress hb) ha hx
  rw [expected, hfirst, Option.some_or]

theorem expected_of_mapped
    (ha : m.attrs.find? Attribute.isAddress = some a) (hx : a.mapped = some x) :
    m.expected = some ((m.attrs.findSome? Attribute.xorMapped).getD x) := by
  have hfirst : m.attrs.findSome? Attribute.mapped = some x :=
    findSome?_of_find? (fun b hb => b.mapped_of_not_isAddress hb) ha hx
  rw [expected, hfirst]
  cases m.attrs.findSome? Attribute.xorMapped with
  | none => rfl
  | some y => rfl

theorem expected_iff : (m.attrs.find? Attribute.isAddress).bind Attribute.endpoint = m.expected ↔
    m.FirstDecides := by
  rw [FirstDecides]
  cases hfind : m.attrs.find? Attribute.isAddress with
  | none =>
    have hnone : m.expected = none := by
      refine m.expected_eq_none_iff.mpr fun b hb => ?_
      exact b.endpoint_of_not_isAddress (List.find?_eq_none.mp hfind b hb)
    rw [hnone]
    exact ⟨fun _ => nofun, fun _ => rfl⟩
  | some a =>
    simp only [Option.bind_some, Option.mem_def, Option.some.injEq, forall_eq']
    -- the first address attribute has no IPv4 address, or it is of one of the two types
    cases hxor : a.xorMapped with
    | some x =>
      have hend : a.endpoint = some x := by rw [Attribute.endpoint, hxor, Option.some_or]
      have hmapped : a.mapped = none := a.mapped_of_xorMapped hxor
      rw [hend, m.expected_of_xorMapped hfind hxor, hmapped]
      exact ⟨fun _ => ⟨nofun, nofun⟩, fun _ => rfl⟩
    | none =>
      have hend : a.endpoint = a.mapped := by rw [Attribute.endpoint, hxor, Option.none_or]
      rw [hend]
      cases hmapped : a.mapped with
      | none =>
        rw [eq_comm, m.expected_eq_none_iff]
        exact ⟨fun h => ⟨fun _ => h, nofun⟩, fun h => h.1 rfl⟩
      | some x =>
        rw [m.expected_of_mapped hfind hmapped]
        cases m.attrs.findSome? Attribute.xorMapped with
        | none => exact ⟨fun _ => ⟨nofun, nofun⟩, fun _ => rfl⟩
        | some y => simp

end Response

/-- `parseSTUNResponse` returns on every byte string. On a response it returns the first IPv4
XOR-MAPPED-ADDRESS, without one the first IPv4 MAPPED-ADDRESS, and without that an error, exactly
if the first address attribute hides no better one. -/
theorem parseSTUNResponse_reads (data : Bytes) (txID : TxID) (m : Response) (trailing : Bytes) :
    (parseSTUNResponse data txID).isSome ∧ ∃ r,
      parseSTUNResponse (m.bytes ++ trailing) m.txID = some r ∧
      (r.toOption = m.expected ↔ m.FirstDecides) := by
  refine ⟨(parseSTUNResponse_yields data txID).isSome, ?_⟩
  obtain ⟨r, hr, hanswer⟩ := m.parse_yields trailing
  exact ⟨r, hr, by rw [hanswer, m.expected_iff]⟩

namespace Sample

def txID : TxID := ⟨List.replicate 12 7, rfl⟩

/-- An attribute whose value fills its last word. -/
def unpadded (type : UInt16) (value : Bytes) (hfits : value.length < 2 ^ 16)
    (hword : value.length % 4 = 0) : Attribute where
  type := type
  value := value
  padding := []
  fits := hfits
  padded := by
    rw [List.length_nil]
    omega

def response (attrs : List Attribute) (h : (attrs.flatMap Attribute.bytes).length < 2 ^ 16) :
    Response where
  cookie := [0x21, 0x12, 0xA4, 0x42]
  txID := txID
  attrs := attrs
  cookie_length := rfl
  fits := h

/-- The address 203.0.113.7 with the port 51820. -/
def xorIPv4 : Attribute :=
  unpadded 0x0020 [0, 1, 0xEB, 0x7E, 0xEA, 0x12, 0xD5, 0x45] (by decide) (by decide)

/-- The address 10.0.0.1 with the port 4096. -/
def mappedIPv4 : Attribute := unpadded 0x0001 [0, 1, 16, 0, 10, 0, 0, 1] (by decide) (by decide)

/-- An address of the IPv6 family. -/
def xorIPv6 : Attribute :=
  unpadded 0x0020 ([0, 2, 0xEB, 0x7E] ++ List.replicate 16 0) (by decide) (by decide)

/-- A name of the server's software, padded with blanks. -/
def software : Attribute where
  type := 0x8022
  value := [115, 116]
  padding := [32, 32]
  fits := by decide
  padded := rfl

end Sample

theorem parseSTUNResponse_reads_software :
    ∃ r, parseSTUNResponse
        ((Sample.response [Sample.software, Sample.xorIPv4, Sample.mappedIPv4] (by decide)).bytes ++
          [1, 2, 3]) Sample.txID = some r ∧
      r.toOption = some ⟨.v4 0xCB007107#32, 51820⟩ := by
  obtain ⟨-, r, hr, hiff⟩ := parseSTUNResponse_reads [] Sample.txID
    (Sample.response [Sample.software, Sample.xorIPv4, Sample.mappedIPv4] (by decide)) [1, 2, 3]
  refine ⟨r, hr, (hiff.mpr ?_).trans (by decide)⟩
  intro a ha
  obtain rfl : Sample.xorIPv4 = a := Option.some.inj ha
  exact ⟨fun h => absurd h (by decide), nofun⟩

/-- A MAPPED-ADDRESS before an XOR-MAPPED-ADDRESS is returned in its place, and an address of the
IPv6 family before an IPv4 address makes the response an error. -/
theorem preferred_address_hidden :
    (let m := Sample.response [Sample.mappedIPv4, Sample.xorIPv4] (by decide)
     m.expected = some ⟨.v4 0xCB007107#32, 51820⟩ ∧
      (parseSTUNResponse m.bytes m.txID).map (·.toOption) =
        some (some ⟨.v4 0x0A000001#32, 4096⟩)) ∧
    (let m := Sample.response [Sample.xorIPv6, Sample.xorIPv4] (by decide)
     m.expected = some ⟨.v4 0xCB007107#32, 51820⟩ ∧
      (parseSTUNResponse m.bytes m.txID).map (·.toOption) = some none) := by
  decide +kernel

end Responses

end Veld.Stun
