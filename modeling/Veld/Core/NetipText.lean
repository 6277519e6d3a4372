import Veld.Core.Hex
import Veld.Core.Overlap

/-!
# Addresses of `net/netip` as texts

The `String` methods of an address, a prefix and an endpoint, and `ParseAddr` and
`ParseAddrPort`. A text is a list of characters. The functions look for ASCII
characters and copy all others, so that a character above 0x7f can stand for a rune
as well as for a byte of a Go string that is not UTF-8.
-/

namespace Veld.Netip

abbrev Text := List Char

/-- The number a list of decimal digits writes. -/
def decimalValue (s : Text) : Nat := s.foldl (fun n c => n * 10 + (c.toNat - '0'.toNat)) 0

/-- The number a list of hexadecimal digits writes. -/
def hexValue (s : Text) : Nat := s.foldl (fun n c => n * 16 + (Hex.value c).getD 0) 0

def isHexDigit (c : Char) : Bool := (Hex.value c).isSome

/-- A byte in decimal. -/
def appendDecimal (x : Nat) : Text :=
  (if x ≥ 100 then [Hex.digit (x / 100)] else []) ++
    (if x ≥ 10 then [Hex.digit (x / 10 % 10)] else []) ++ [Hex.digit (x % 10)]

/-- Sixteen bits in hexadecimal, without leading zeros. -/
def appendHex (x : Nat) : Text :=
  (if x ≥ 0x1000 then [Hex.digit (x / 0x1000)] else []) ++
    (if x ≥ 0x100 then [Hex.digit (x / 0x100 % 16)] else []) ++
    (if x ≥ 0x10 then [Hex.digit (x / 0x10 % 16)] else []) ++ [Hex.digit (x % 16)]

/-- One of the four bytes of an IPv4 address. -/
def octet (b : BitVec 32) (i : Nat) : Nat := b.toNat / 256 ^ (3 - i) % 256

/-- The eight 16-bit groups of an IPv6 address. -/
def groups (b : BitVec 128) : List Nat :=
  (List.range 8).map fun i => b.toNat / 65536 ^ (7 - i) % 65536

def appendTo4 (b : BitVec 32) : Text :=
  appendDecimal (octet b 0) ++ '.' :: appendDecimal (octet b 1) ++ '.' ::
    appendDecimal (octet b 2) ++ '.' :: appendDecimal (octet b 3)

/-- The first of the longest runs of at least two zero groups, as its start and its end; both are
255 if there is none. -/
def zeroRun (gs : List Nat) : Nat × Nat :=
  (List.range 8).foldl (fun z i =>
    let j := i + ((gs.drop i).takeWhile (· = 0)).length
    if j - i ≥ 2 ∧ j - i > z.2 - z.1 then (i, j) else z) (255, 255)

/-- The loop that writes the groups from the `i`-th one on, with `::` for the run of zeros. -/
def writeGroups (gs : List Nat) (zeroStart zeroEnd : Nat) : Nat → Nat → Text
  | 0, _ => []
  | fuel + 1, i =>
    if i ≥ 8 then []
    else if i = zeroStart then
      ':' :: ':' :: (if zeroEnd ≥ 8 then []
        else appendHex (gs.getD zeroEnd 0) ++ writeGroups gs zeroStart zeroEnd fuel (zeroEnd + 1))
    else (if i > 0 then [':'] else []) ++ appendHex (gs.getD i 0) ++
      writeGroups gs zeroStart zeroEnd fuel (i + 1)

def appendTo6 (b : BitVec 128) : Text :=
  let gs := groups b
  let z := zeroRun gs
  writeGroups gs z.1 z.2 8 0

/-- A zone is written after a percent sign. -/
def appendZone (zone : String) : Text := if zone = "" then [] else '%' :: zone.toList

namespace Addr

/-- `AppendTo`. -/
def appendTo : Addr → Text
  | zero => []
  | v4 b => appendTo4 b
  | v6 b z =>
    (if is4In6 (v6 b z) then "::ffff:".toList ++ appendTo4 (b.extractLsb' 0 32) else appendTo6 b) ++
      appendZone z

/-- `Addr.String`. -/
def string (a : Addr) : String :=
  if a.isValid then String.ofList a.appendTo else "invalid IP"

end Addr

/-- `Prefix.String`. -/
def Prefix.string (p : Prefix) : String :=
  if p.isValid then p.ip.string ++ "/" ++ toString p.bits else "invalid Prefix"

/-- The fields of a dotted IPv4 address, with the value and the number of digits of the field that
is being read. -/
def parseIPv4Fields : Text → List Nat → Nat → Nat → Option (List Nat)
  | [], fields, val, _ => if fields.length < 3 then none else some (fields ++ [val])
  | c :: s, fields, val, digLen =>
    if c.isDigit then
      if digLen = 1 ∧ val = 0 then none  -- a leading zero
      else
        let val := val * 10 + (c.toNat - '0'.toNat)
        if val > 255 then none else parseIPv4Fields s fields val (digLen + 1)
    else if c = '.' then
      if digLen = 0 ∨ s = [] then none  -- a field without a digit
      else if fields.length = 3 then none
      else parseIPv4Fields s (fields ++ [val]) 0 0
    else none

/-- The address of four bytes. -/
def addrFrom4 (fields : List Nat) : Addr :=
  .v4 (BitVec.ofNat 32 (fields.foldl (fun n x => n * 256 + x) 0))

def parseIPv4 (s : Text) : Option Addr := (parseIPv4Fields s [] 0 0).map addrFrom4

/-- What the loop over the groups of an IPv6 address has read: the groups, the place of the `::`
among them, and the rest of the text. -/
structure Groups where
  read : List Nat
  ellipsis : Option Nat
  rest : Text
  deriving DecidableEq

/-- The loop reads a hexadecimal group and what separates it from the next one; there are at most
as many rounds as there is room for groups. -/
def readGroups : Nat → Groups → Option Groups
  | 0, g => some g
  | fuel + 1, g =>
    let digits := g.rest.takeWhile isHexDigit
    let after := g.rest.dropWhile isHexDigit
    let read := g.read ++ [hexValue digits]
    if digits.length > 4 ∨ digits = [] then none
    else
      match after with
      | '.' :: _ =>
        -- the rest is a dotted IPv4 address, which takes the place of two groups
        if g.ellipsis = none ∧ g.read.length ≠ 6 then none
        else if g.read.length + 2 > 8 then none
        else
          match parseIPv4Fields g.rest [] 0 0 with
          | some [a, b, c, d] => some ⟨g.read ++ [a * 256 + b, c * 256 + d], g.ellipsis, []⟩
          | _ => none
      | [] => some ⟨read, g.ellipsis, []⟩
      | [':'] => none
      | ':' :: ':' :: s =>
        if g.ellipsis.isSome then none
        else if s = [] then some ⟨read, some read.length, []⟩
        else readGroups fuel ⟨read, some read.length, s⟩
      | ':' :: s => readGroups fuel ⟨read, g.ellipsis, s⟩
      | _ => none

/-- The eight groups that were meant; a `::` stands for at least one group of zeros. -/
def Groups.expand (g : Groups) : Option (List Nat) :=
  if g.rest ≠ [] then none
  else if g.read.length < 8 then
    g.ellipsis.map fun e =>
      g.read.take e ++ List.replicate (8 - g.read.length) 0 ++ g.read.drop e
  else if g.ellipsis.isSome then none
  else some g.read

/-- The address of eight groups. -/
def addrFrom16 (gs : List Nat) (zone : String) : Addr :=
  .v6 (BitVec.ofNat 128 (gs.foldl (fun n x => n * 65536 + x) 0)) zone

/-- The groups of an address without its zone. -/
def parseGroups (s : Text) : Option (List Nat) :=
  match s with
  | [':', ':'] => some (List.replicate 8 0)
  | ':' :: ':' :: s => (readGroups 8 ⟨[], some 0, s⟩).bind Groups.expand
  | s => (readGroups 8 ⟨[], none, s⟩).bind Groups.expand

def parseIPv6 (s : Text) : Option Addr :=
  match s.dropWhile (· ≠ '%') with
  | [] => (parseGroups s).map (addrFrom16 · "")
  | _ :: zone =>
    if zone = [] then none
    else (parseGroups (s.takeWhile (· ≠ '%'))).map (addrFrom16 · (String.ofList zone))

/-- `ParseAddr`: the first dot, colon or percent sign decides how the text is read. -/
def parseAddr (s : Text) : Option Addr :=
  match s.find? (fun c => c = '.' || c = ':' || c = '%') with
  | some '.' => parseIPv4 s
  | some ':' => parseIPv6 s
  | _ => none

/-- `strconv.ParseUint` with base 10 and 16 bits. -/
def parseUint16 (s : Text) : Option UInt16 :=
  if s ≠ [] ∧ s.all Char.isDigit ∧ decimalValue s ≤ 65535 then some (UInt16.ofNat (decimalValue s))
  else none

/-- The text before the last of some character and the text after it. -/
def splitLast (c : Char) (s : Text) : Option (Text × Text) :=
  if c ∈ s then
    some ((s.reverse.dropWhile (· ≠ c)).tail.reverse, (s.reverse.takeWhile (· ≠ c)).reverse)
  else none

/-- `ParseAddrPort`: an IPv6 address, and no other, is in brackets. -/
def parseAddrPort (s : Text) : Option AddrPort :=
  match splitLast ':' s with
  | none => none
  | some (ip, port) =>
    if ip = [] ∨ port = [] then none
    else if ip.head? = some '[' then
      if ip.length < 2 ∨ ip.getLast? ≠ some ']' then none
      else
        match parseUint16 port, parseAddr ip.tail.dropLast with
        | some port, some addr => if addr.is4 then none else some ⟨addr, port⟩
        | _, _ => none
    else
      match parseUint16 port, parseAddr ip with
      | some port, some addr => if addr.is4 then some ⟨addr, port⟩ else none
      | _, _ => none

/-- `AddrPort.String` of a valid endpoint. -/
def AddrPort.string (ep : AddrPort) : Text :=
  (if ep.addr.is4 then ep.addr.appendTo else '[' :: ep.addr.appendTo ++ [']']) ++
    ':' :: (toString ep.port.toNat).toList

example : (Addr.v6 0x20010db8000000000000000000000001#128 "eth0").string = "2001:db8::1%eth0" := by
  decide

example : parseAddr "2001:db8::1%eth0".toList =
    some (.v6 0x20010db8000000000000000000000001#128 "eth0") := by
  decide

example : parseAddrPort "[::ffff:10.0.0.1]:51820".toList =
    some ⟨.v6 0xffff0a000001#128 "", 51820⟩ := by
  decide

end Veld.Netip
