import Mathlib.Data.Finset.Basic
import Mathlib.Data.List.AList
import Veld.Acl.Parse
import Veld.Peer.Table

/-!
# Policies and their compilation

`internal/acl/policy.go` and `internal/acl/compile.go`: reading a decoded policy
file, resolving its subjects to keys, deciding a connection start, combining two
deciders and the pointer through which the policy in force is replaced. The TOML
decoder, the two key encodings and the quoting of `%q` belong to libraries and
are the functions of a `Codec`. Maps are iterated in the order of their entries,
which only decides which of several errors is reported.
-/

namespace Veld.Acl

open Peer

inductive Action
  | allow
  | deny
  deriving DecidableEq, Repr

/-- The result of a policy decision; the rule index is -1 when no rule decided. -/
structure Decision where
  action : Action
  ruleIndex : Int
  outboundOnly : Bool := false
  deriving DecidableEq, Repr

/-- The `Decide` method of a `PolicyDecider`. -/
abbrev Decider := PeerID → PeerID → Proto → UInt16 → Decision

/-- A port or port range of one protocol. -/
structure PortRange where
  proto : Proto
  start : UInt16
  stop : UInt16
  matchICMPv6 : Bool := false
  deriving DecidableEq, Repr

/-- The port is ignored for ICMP and for any protocol. -/
def PortRange.containsPort (pr : PortRange) (port : UInt16) : Bool :=
  if pr.proto ≠ protoAny ∧ pr.proto ≠ protoICMP ∧ pr.proto ≠ protoICMPv6 then
    port ≥ pr.start && port ≤ pr.stop
  else true

def PortRange.matchesProto (pr : PortRange) (proto : Proto) : Bool :=
  pr.proto == protoAny || pr.proto == proto ||
    (pr.matchICMPv6 && (proto == protoICMP || proto == protoICMPv6))

/-- A rule as written: subjects are `*`, a peer name or `tag:` and a tag name. -/
structure Rule where
  fromSubject : String
  toSubject : String
  ports : List PortRange
  deriving DecidableEq, Repr

/-- A parsed and validated policy. -/
structure Policy where
  version : Int
  default : Action
  peers : AList fun _ : String => PeerID
  tags : AList fun _ : String => List String
  rules : List Rule
  outboundOnly : List String
  warnings : List String

structure RawRule where
  fromSubject : String := ""
  toSubject : String := ""
  ports : List String := []
  deriving DecidableEq, Repr

/-- What the TOML decoder reads, with Go's zero values for absent fields. -/
structure RawPolicy where
  version : Int := 0
  default : String := ""
  peers : AList (fun _ : String => String) := ∅
  tags : AList (fun _ : String => List String) := ∅
  rules : List RawRule := []
  outboundOnlyPeers : List String := []

/-- The library functions the reader of a policy file calls. -/
structure Codec where
  /-- `toml.Decode` into a `rawPolicy`, with the keys it did not decode. -/
  decode : String → Except String (RawPolicy × List (List String))
  /-- `hex.DecodeString`. -/
  hex : String → Option Bytes
  /-- `base64.StdEncoding.DecodeString`. -/
  base64 : String → Option Bytes
  /-- The verb `%q`. -/
  quote : String → String

/-- `strings.ToLower` on one letter, as far as ASCII letters can come out of it: besides the
capitals these are the dotted capital I and the Kelvin sign. -/
def lowerChar (c : Char) : Char :=
  if c = Char.ofNat 0x130 then 'i' else if c = Char.ofNat 0x212a then 'k' else c.toLower

/-- `strings.ToLower`, for comparisons with words of lower-case ASCII letters. -/
def lowerWord (s : String) : String := s.map lowerChar

/-- `ParseDefaultAction`. -/
def parseDefaultAction (codec : Codec) (s : String) : Except String Action :=
  if lowerWord s = "allow" then .ok .allow
  else if lowerWord s = "deny" then .ok .deny
  else .error ("invalid default action: " ++ codec.quote s)

/-- Hex is tried before base64. -/
def parsePeerKey (codec : Codec) (s : String) : Except String PeerID :=
  if !"ed25519:".toList.isPrefixOf s.toList then
    .error "peer key must start with \"ed25519:\""
  else
    let encoded := String.ofList (s.toList.drop 8)
    let key (decoded : Bytes) : Except String PeerID :=
      if decoded.length ≠ 32 then
        .error ("ed25519 key must be 32 bytes, got " ++ toString decoded.length)
      else .ok (BitVec.ofNat 256 decoded.beNat)
    match codec.hex encoded, codec.base64 encoded with
    | some decoded, _ => key decoded
    | none, some decoded => key decoded
    | none, none => .error "peer key must be base64 or hex encoded 32-byte ed25519 public key"

/-- The characters `fmt` skips before a number. -/
def isScanSpace (c : Char) : Bool :=
  [(0x9, 0xd), (0x20, 0x20), (0x85, 0x85), (0xa0, 0xa0), (0x1680, 0x1680), (0x2000, 0x200a),
    (0x2028, 0x2029), (0x202f, 0x202f), (0x205f, 0x205f), (0x3000, 0x3000)].any
    fun r => r.1 ≤ c.toNat && c.toNat ≤ r.2

/-- `fmt.Sscanf` with `%d` into a `uint64`: spaces, then digits, then anything. -/
def scanUint64 (s : List Char) : Option Nat :=
  let rest := s.dropWhile fun c => isScanSpace c && c != '\n'
  let digits := rest.takeWhile Char.isDigit
  let value := digits.foldl (fun n c => n * 10 + (c.toNat - '0'.toNat)) 0
  if digits.isEmpty || value ≥ 2 ^ 64 then none else some value

def parsePort (codec : Codec) (s : List Char) : Except String UInt16 :=
  match scanUint64 s with
  | none => .error ("invalid port number: " ++ codec.quote (String.ofList s))
  | some port =>
    if port > 65535 then .error ("port " ++ toString port ++ " exceeds maximum 65535")
    else .ok (UInt16.ofNat port)

/-- The range of `icmp`, which covers both ICMP versions. -/
def icmpRange : PortRange := ⟨protoICMP, 0, 65535, true⟩

/-- The port or the range after the protocol. -/
def parsePorts (codec : Codec) (proto : Proto) (portStr : List Char) :
    Except String PortRange := do
  if '-' ∈ portStr then
    match portStr.splitOn '-' with
    | [first, last] =>
      let start ← (parsePort codec first).mapError ("invalid start port: " ++ ·)
      let stop ← (parsePort codec last).mapError ("invalid end port: " ++ ·)
      if start > stop then
        throw ("start port " ++ toString start ++ " > end port " ++ toString stop)
      pure { proto, start, stop }
    | _ => throw ("invalid port range: " ++ codec.quote (String.ofList portStr))
  else
    let port ← parsePort codec portStr
    pure { proto, start := port, stop := port }

/-- `parsePortRange`: `*`, `icmp`, or a protocol, a slash and a port or a range. -/
def parsePortRange (codec : Codec) (s : String) : Except String PortRange :=
  if s = "*" then .ok ⟨protoAny, 0, 65535, false⟩
  else if s.map Char.toLower = "icmp" then .ok icmpRange
  else
    match s.toList.splitOn '/' with
    | [word, portStr] =>
      let protoStr := lowerWord (String.ofList word)
      if protoStr = "tcp" then parsePorts codec protoTCP portStr
      else if protoStr = "udp" then parsePorts codec protoUDP portStr
      else if protoStr = "icmp" then .ok icmpRange
      else .error ("unknown protocol: " ++ codec.quote protoStr)
    | _ => .error ("invalid port format: " ++ codec.quote s ++
        " (expected proto/port or proto/start-end)")

/-- The name after `tag:`, if the subject is a tag. -/
def tagName (subject : String) : Option String :=
  if "tag:".toList.isPrefixOf subject.toList then some (String.ofList (subject.toList.drop 4))
  else none

def validateSubject (codec : Codec) (subject : String) (peers : AList fun _ : String => PeerID)
    (tags : AList fun _ : String => List String) : Except String Unit :=
  if subject = "*" then .ok ()
  else
    match tagName subject with
    | some tag =>
      if tag = "" then .error "empty tag name"
      else if (tags.lookup tag).isNone then .error ("unknown tag: " ++ codec.quote tag)
      else .ok ()
    | none =>
      if (peers.lookup subject).isNone then .error ("unknown peer: " ++ codec.quote subject)
      else .ok ()

/-- The keys of a named subject; the set is empty for the wildcard. -/
def resolveSubjectToPeers (subject : String) (peers : AList fun _ : String => PeerID)
    (tags : AList fun _ : String => List String) : Finset PeerID :=
  if subject = "*" then ∅
  else
    match tagName subject with
    | some tag => (((tags.lookup tag).getD []).filterMap peers.lookup).toFinset
    | none => (peers.lookup subject).toList.toFinset

/-- The keys of a subject, for the wildcard those of every peer in the policy. -/
def resolveSubject (subject : String) (peers : AList fun _ : String => PeerID)
    (tags : AList fun _ : String => List String) : Finset PeerID :=
  if subject = "*" then (peers.entries.map Sigma.snd).toFinset
  else resolveSubjectToPeers subject peers tags

/-- The same single peer on both sides, or two sides with no common peer. -/
def isUnmatchable (rule : Rule) (peers : AList fun _ : String => PeerID)
    (tags : AList fun _ : String => List String) : Bool :=
  let fromSet := resolveSubject rule.fromSubject peers tags
  let toSet := resolveSubject rule.toSubject peers tags
  (fromSet.card = 1 && toSet.card = 1 && (fromSet ∩ toSet).card ≠ 0) ||
    (fromSet.card > 0 && toSet.card > 0 && (fromSet ∩ toSet).card = 0)

namespace RawPolicy

/-- The `[peers]` table with its keys decoded. -/
def validatePeers (codec : Codec) (r : RawPolicy) :
    Except String (AList fun _ : String => PeerID) :=
  r.peers.entries.foldlM (fun peers entry => do
    if entry.1 = "" then throw "policy: peer name cannot be empty"
    if (peers.lookup entry.1).isSome then
      throw ("policy: duplicate peer name: " ++ codec.quote entry.1)
    let key ← (parsePeerKey codec entry.2).mapError
      ("policy: peer " ++ codec.quote entry.1 ++ ": " ++ ·)
    pure (peers.insert entry.1 key)) ∅

/-- The `[tags]` table, every tag with at least one peer and only known ones. -/
def validateTags (codec : Codec) (peers : AList fun _ : String => PeerID) (r : RawPolicy) :
    Except String (AList fun _ : String => List String) :=
  r.tags.entries.foldlM (fun tags entry => do
    if entry.1 = "" then throw "policy: tag name cannot be empty"
    if (tags.lookup entry.1).isSome then
      throw ("policy: duplicate tag name: " ++ codec.quote entry.1)
    if entry.2.isEmpty then
      throw ("policy: tag " ++ codec.quote entry.1 ++ " must reference at least one peer")
    match entry.2.find? fun pn => (peers.lookup pn).isNone with
    | some pn => throw ("policy: tag " ++ codec.quote entry.1 ++ " references unknown peer " ++
        codec.quote pn)
    | none => pure (tags.insert entry.1 entry.2)) ∅

/-- One rule of the file, at its index. -/
def validateRule (codec : Codec) (peers : AList fun _ : String => PeerID)
    (tags : AList fun _ : String => List String) (rr : RawRule) (i : Nat) :
    Except String Rule := do
  let rule := "policy: rule " ++ toString i ++ ": "
  if rr.fromSubject = "" ∨ rr.toSubject = "" then throw (rule ++ "from and to are required")
  if rr.ports.isEmpty then throw (rule ++ "at least one port is required")
  (validateSubject codec rr.fromSubject peers tags).mapError (rule ++ "from: " ++ ·)
  (validateSubject codec rr.toSubject peers tags).mapError (rule ++ "to: " ++ ·)
  let ports ← rr.ports.mapM fun portStr =>
    (parsePortRange codec portStr).mapError (rule ++ "port " ++ codec.quote portStr ++ ": " ++ ·)
  pure ⟨rr.fromSubject, rr.toSubject, ports⟩

/-- The warning about a rule that can never match. -/
def ruleWarning (codec : Codec) (peers : AList fun _ : String => PeerID)
    (tags : AList fun _ : String => List String) (rule : Rule) (i : Nat) : Option String :=
  if isUnmatchable rule peers tags then
    some ("policy: rule " ++ toString i ++ ": can never match (from=" ++
      codec.quote rule.fromSubject ++ " to=" ++ codec.quote rule.toSubject ++ ")")
  else none

/-- `validateAndCompile`. -/
def validateAndCompile (codec : Codec) (r : RawPolicy) : Except String Policy := do
  if r.version ≤ 0 then throw "policy: version must be a positive integer"
  if r.default = "" then throw "policy: default is required (allow or deny)"
  let default ← (parseDefaultAction codec r.default).mapError ("policy: " ++ ·)
  if r.peers.entries.isEmpty then throw "policy: at least one peer is required"
  let peers ← r.validatePeers codec
  let tags ← r.validateTags codec peers
  let rules ← r.rules.zipIdx.mapM fun (rr, i) => validateRule codec peers tags rr i
  match r.outboundOnlyPeers.find? fun name => (peers.lookup name).isNone with
  | some name => throw ("policy: outbound_only.peers: unknown peer " ++ codec.quote name)
  | none => pure ()
  let warnings := rules.zipIdx.filterMap fun (rule, i) => ruleWarning codec peers tags rule i
  pure ⟨r.version, default, peers, tags, rules, r.outboundOnlyPeers, warnings⟩

end RawPolicy

/-- `ParsePolicy`; the warnings are those of the policy it returns. -/
def parsePolicy (codec : Codec) (src : String) : Except String Policy := do
  let (raw, undecoded) ← (codec.decode src).mapError ("parse policy: " ++ ·)
  if !undecoded.isEmpty then
    throw ("unknown policy fields: " ++ ", ".intercalate (undecoded.map (".".intercalate ·)))
  raw.validateAndCompile codec

/-- A rule with its subjects resolved to keys. -/
structure CompiledRule where
  srcPeers : Finset PeerID
  dstPeers : Finset PeerID
  srcAny : Bool
  dstAny : Bool
  ports : List PortRange
  ruleIndex : Int
  deriving DecidableEq

/-- A policy ready for `Decide`. -/
structure CompiledPolicy where
  rules : List CompiledRule
  defaultAction : Action
  outboundOnly : Finset PeerID
  knownPeers : Finset PeerID
  deriving DecidableEq

/-- `Compile`. -/
def Policy.compile (p : Policy) : CompiledPolicy where
  rules := p.rules.zipIdx.map fun (rule, i) =>
    { srcPeers := resolveSubjectToPeers rule.fromSubject p.peers p.tags
      dstPeers := resolveSubjectToPeers rule.toSubject p.peers p.tags
      srcAny := rule.fromSubject == "*"
      dstAny := rule.toSubject == "*"
      ports := rule.ports
      ruleIndex := i }
  defaultAction := p.default
  outboundOnly := (p.outboundOnly.filterMap p.peers.lookup).toFinset
  knownPeers := (p.peers.entries.map Sigma.snd).toFinset

/-- The tests of `Decide` on one rule. -/
def CompiledRule.covers (rule : CompiledRule) (src dst : PeerID) (proto : Proto)
    (port : UInt16) : Bool :=
  (rule.dstAny || dst ∈ rule.dstPeers) && (rule.srcAny || src ∈ rule.srcPeers) &&
    rule.ports.any fun pr => pr.matchesProto proto && pr.containsPort port

/-- `Decide`: the first matching rule, then the default; an outbound-only
destination is refused either way. -/
def CompiledPolicy.decide (cp : CompiledPolicy) : Decider := fun src dst proto port =>
  match cp.rules.find? fun rule => rule.covers src dst proto port with
  | some rule =>
    if dst ∈ cp.outboundOnly then ⟨.deny, -1, true⟩ else ⟨.allow, rule.ruleIndex, false⟩
  | none =>
    if dst ∉ cp.knownPeers then ⟨cp.defaultAction, -1, false⟩
    else if dst ∈ cp.outboundOnly then ⟨.deny, -1, true⟩
    else ⟨cp.defaultAction, -1, false⟩

/-- `combinedPolicy.Decide`: both must allow, and a local rule's index is preferred. -/
def combined (localPolicy network : Decider) : Decider := fun src dst proto port =>
  let localDec := localPolicy src dst proto port
  if localDec.action = .deny then localDec
  else
    let netDec := network src dst proto port
    if netDec.action = .deny then netDec
    else if localDec.ruleIndex ≥ 0 then localDec
    else netDec

/-- `Combine`: an absent decider defers to the other one. -/
def combine : Option Decider → Option Decider → Option Decider
  | none, network => network
  | some localPolicy, none => some localPolicy
  | some localPolicy, some network => some (combined localPolicy network)

/-- `PolicySwap.Decide` with what the pointer holds now. -/
def swapDecide (swap : Option CompiledPolicy) : Decider := fun src dst proto port =>
  match swap with
  | none => ⟨.deny, -1, false⟩
  | some cp => cp.decide src dst proto port

/-- The combined decision allows exactly when both do. -/
theorem combined_allow_iff (localPolicy network : Decider) (src dst : PeerID) (proto : Proto)
    (port : UInt16) :
    (combined localPolicy network src dst proto port).action = .allow ↔
      (localPolicy src dst proto port).action = .allow ∧
        (network src dst proto port).action = .allow := by
  unfold combined
  cases hl : (localPolicy src dst proto port).action with
  | deny => simp [hl]
  | allow =>
    cases hn : (network src dst proto port).action with
    | deny => simp [hl, hn]
    | allow =>
      by_cases hr : (localPolicy src dst proto port).ruleIndex ≥ 0 <;> simp [hr, hl, hn]

end Veld.Acl
