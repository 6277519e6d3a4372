import Veld.Core.NetipText
import Veld.Core.Trim
import Veld.Coord.Server
import Veld.Crypto.Messages

/-!
# What the daemon advertises

`advertisedPeerName` and `advertisedEndpoint` of `internal/daemon/daemon.go` against the
checks of `Register`. Names and addresses are arbitrary byte strings, as they come from
the configuration and from the host. The name is always accepted. The endpoint is, unless
the daemon listens on a multicast address, which the server refuses to announce.
-/

namespace Veld

open Netip Coord Crypto

namespace Daemon

/-- The longest peer name the server accepts. -/
def peerNameMaxLen : Nat := 63

/-- A byte of the advertised name: a lower-case letter, a digit or a hyphen. -/
def nameByte (c : UInt8) : UInt8 :=
  if 65 ≤ c ∧ c ≤ 90 then c + 32
  else if (97 ≤ c ∧ c ≤ 122) ∨ (48 ≤ c ∧ c ≤ 57) then c
  else 45

/-- `advertisedPeerName`. -/
def advertisedPeerName (configured hostname : Bytes) : Bytes :=
  let name := if configured = [] then hostname else configured
  let s := trim 45 (name.map nameByte)
  let s := if s.length > peerNameMaxLen then trimRight 45 (s.take peerNameMaxLen) else s
  if s = [] then [110, 111, 100, 101] else s

/-- `ParseAddrPort` of a Go string, byte by byte. -/
def parseAddrPort (s : Bytes) : Option AddrPort :=
  Netip.parseAddrPort (s.map fun c => Char.ofNat c.toNat)

/-- `advertisedEndpoint`. -/
def advertisedEndpoint (listenAddr : Bytes) : Bytes :=
  match parseAddrPort listenAddr with
  | none => []
  | some ep => if ep.port = 0 || ep.addr.isUnspecified then [] else listenAddr

end Daemon

namespace Coord

/-- The check of the name in `Register`, on the bytes of the name. -/
def acceptsName (name : Bytes) : Bool :=
  if name = [] then true
  else if name.length > 63 || name.head? = some 45 || name.getLast? = some 45 then false
  else name.all fun c =>
    (97 ≤ c && c ≤ 122) || (65 ≤ c && c ≤ 90) || (48 ≤ c && c ≤ 57) || c = 45

theorem validPeerName_eq (name : String) : validPeerName name = acceptsName (utf8 name) := rfl

/-- The check of the endpoint, on its bytes. -/
def acceptsEndpoint (endpoint : Bytes) : Bool :=
  endpoint = [] || (Daemon.parseAddrPort endpoint).any fun ep =>
    ep.port ≠ 0 && !ep.addr.isUnspecified && !ep.addr.isMulticast

theorem utf8_eq_nil {s : String} : utf8 s = [] ↔ s = "" := by
  rw [utf8_eq, List.flatMap_eq_nil_iff]
  constructor
  · intro h
    cases hs : s.toList with
    | nil => exact String.toList_inj.mp hs
    | cons c cs => exact absurd (h c (by rw [hs]; exact List.mem_cons_self)) String.utf8EncodeChar_ne_nil
  · rintro rfl
    exact nofun

/-- The server checks the bytes of the endpoint. -/
theorem validEndpoint_eq {δ : Type} {sv : Services δ}
    (hsv : sv.parseAddrPort = fun s => Daemon.parseAddrPort (utf8 s)) (endpoint : String) :
    sv.validEndpoint endpoint = acceptsEndpoint (utf8 endpoint) := by
  simp only [Services.validEndpoint, acceptsEndpoint, hsv, utf8_eq_nil]

end Coord

namespace Daemon

section Name

/-- The bytes of an advertised name. -/
def IsNameByte (c : UInt8) : Prop := (97 ≤ c ∧ c ≤ 122) ∨ (48 ≤ c ∧ c ≤ 57) ∨ c = 45

instance (c : UInt8) : Decidable (IsNameByte c) := inferInstanceAs (Decidable (_ ∨ _ ∨ _))

theorem isNameByte_nameByte (c : UInt8) : IsNameByte (nameByte c) := by
  unfold nameByte
  split
  · next hupper =>
    left
    simp only [UInt8.le_iff_toNat_le, UInt8.toNat_add, UInt8.reduceToNat] at hupper ⊢
    omega
  · split
    · next hother =>
      rcases hother with hlower | hdigit
      · exact .inl hlower
      · exact .inr (.inl hdigit)
    · exact .inr (.inr rfl)

theorem nameByte_of_isNameByte {c : UInt8} (h : IsNameByte c) : nameByte c = c := by
  have hupper : ¬(65 ≤ c ∧ c ≤ 90) := by
    rcases h with h | h | rfl
    · simp only [UInt8.le_iff_toNat_le, UInt8.reduceToNat] at h ⊢
      omega
    · simp only [UInt8.le_iff_toNat_le, UInt8.reduceToNat] at h ⊢
      omega
    · decide
  rw [nameByte, if_neg hupper]
  split
  · rfl
  · next hother =>
    rcases h with h | h | rfl
    · exact absurd (.inl h) hother
    · exact absurd (.inr h) hother
    · rfl

/-- A label of lower-case letters, digits and hyphens, without a hyphen at either end. -/
structure IsLabel (s : Bytes) : Prop where
  nonempty : s ≠ []
  length_le : s.length ≤ 63
  head : s.head? ≠ some 45
  last : s.getLast? ≠ some 45
  bytes : ∀ c ∈ s, IsNameByte c

theorem IsLabel.acceptsName {s : Bytes} (h : IsLabel s) : acceptsName s = true := by
  have hshape : (s.length > 63 || s.head? = some 45 || s.getLast? = some 45) = false := by
    simp only [h.head, h.last, decide_false, Bool.or_false, decide_eq_false_iff_not]
    exact not_lt.mpr h.length_le
  rw [Coord.acceptsName, if_neg h.nonempty, hshape, if_neg Bool.false_ne_true, List.all_eq_true]
  intro c hc
  simp only [Bool.or_eq_true, Bool.and_eq_true, decide_eq_true_eq]
  rcases h.bytes c hc with hlower | hdigit | hhyphen
  · exact .inl (.inl (.inl hlower))
  · exact .inl (.inr hdigit)
  · exact .inr hhyphen

/-- What is left after a second trim of a text that began with another character. -/
theorem head?_trimRight_take {c : UInt8} {s : Bytes} {n : Nat} (hs : s ≠ []) (hn : 0 < n)
    (hhead : s.head? ≠ some c) :
    trimRight c (s.take n) ≠ [] ∧ (trimRight c (s.take n)).head? = s.head? := by
  cases s with
  | nil => exact absurd rfl hs
  | cons x s =>
    obtain ⟨n, rfl⟩ := Nat.exists_eq_add_one_of_ne_zero (Nat.ne_of_gt hn)
    have hne : trimRight c ((x :: s).take (n + 1)) ≠ [] :=
      trimRight_ne_nil ⟨x, List.mem_cons_self, fun he => hhead (by rw [he]; rfl)⟩
    refine ⟨hne, ?_⟩
    rw [head?_of_isPrefix (trimRight_isPrefix c _) hne]
    rfl

/-- The advertised name is a label. -/
theorem isLabel_advertisedPeerName (configured hostname : Bytes) :
    IsLabel (advertisedPeerName configured hostname) := by
  unfold advertisedPeerName
  dsimp only
  generalize (if configured = [] then hostname else configured) = name
  have hbytes : ∀ c ∈ trim 45 (name.map nameByte), IsNameByte c := by
    intro c hc
    obtain ⟨b, -, rfl⟩ := List.mem_map.mp (mem_of_mem_trim hc)
    exact isNameByte_nameByte b
  have hhead : (trim 45 (name.map nameByte)).head? ≠ some 45 := head?_trim_ne
  have hlast : (trim 45 (name.map nameByte)).getLast? ≠ some 45 := getLast?_trimRight_ne
  generalize trim 45 (name.map nameByte) = s at hbytes hhead hlast ⊢
  by_cases hs : s = []
  · subst hs
    exact ⟨by decide, by decide, by decide, by decide, by decide +kernel⟩
  · by_cases hlong : s.length > peerNameMaxLen
    · obtain ⟨hne, hfirst⟩ := head?_trimRight_take hs (n := peerNameMaxLen) (by decide) hhead
      rw [if_pos hlong, if_neg hne]
      refine ⟨hne, ?_, by rwa [hfirst], getLast?_trimRight_ne, fun c hc => ?_⟩
      · exact (trimRight_isPrefix 45 _).length_le.trans (List.length_take_le _ _)
      · exact hbytes c (List.mem_of_mem_take ((trimRight_isPrefix 45 _).subset hc))
    · rw [if_neg hlong, if_neg hs]
      exact ⟨hs, not_lt.mp hlong, hhead, hlast, hbytes⟩

/-- A label is advertised as it is. -/
theorem advertisedPeerName_of_isLabel {configured : Bytes} (h : IsLabel configured)
    (hostname : Bytes) : advertisedPeerName configured hostname = configured := by
  have hmap : configured.map nameByte = configured :=
    (List.map_congr_left fun c hc => nameByte_of_isNameByte (h.bytes c hc)).trans configured.map_id
  have hlen : ¬configured.length > peerNameMaxLen := not_lt.mpr h.length_le
  simp [advertisedPeerName, h.nonempty, hmap, trim_eq_self h.head h.last, hlen]

end Name

section Endpoint

variable {listenAddr : Bytes}

theorem not_isUnspecified_of_isMulticast {a : Addr} (h : a.isMulticast = true) :
    a.isUnspecified = false := by
  by_contra hunspec
  rw [Bool.not_eq_false] at hunspec
  cases a with
  | zero => cases hunspec
  | v4 b =>
    obtain rfl : b = 0 := of_decide_eq_true hunspec
    cases h
  | v6 b z =>
    obtain ⟨hb, -⟩ := Bool.and_eq_true_iff.mp hunspec
    obtain rfl : b = 0 := of_decide_eq_true hb
    cases h

/-- The server refuses the advertised endpoint exactly if the daemon listens on a multicast
address. -/
theorem acceptsEndpoint_advertisedEndpoint_iff :
    acceptsEndpoint (advertisedEndpoint listenAddr) = true ↔
      ∀ ep, parseAddrPort listenAddr = some ep → ep.port ≠ 0 → ep.addr.isMulticast = false := by
  unfold advertisedEndpoint
  cases hparse : parseAddrPort listenAddr with
  | none => exact iff_of_true rfl nofun
  | some ep =>
    have hne : listenAddr ≠ [] := by
      rintro rfl
      cases hparse
    simp only [Option.some.injEq, forall_eq']
    by_cases hport : ep.port = 0
    · rw [if_pos (by rw [hport]; rfl)]
      exact iff_of_true rfl fun h => absurd hport h
    · by_cases hunspec : ep.addr.isUnspecified = true
      · rw [if_pos (by rw [hunspec, Bool.or_true])]
        refine iff_of_true rfl fun _ => ?_
        by_contra hmulti
        rw [not_isUnspecified_of_isMulticast (by rwa [Bool.not_eq_false] at hmulti)] at hunspec
        cases hunspec
      · rw [if_neg (by simp [hport, hunspec]), acceptsEndpoint, hparse]
        simp [hne, hport, hunspec]

end Endpoint

/-- Whatever is configured, the server accepts the advertised name, which is the configured one if
this is a lower-case label. It accepts the advertised endpoint exactly if the daemon does not listen
on a multicast address, and then a registration can fail on its routes only. -/
theorem advertised_accepted (configured hostname listenAddr : Bytes) :
    (acceptsName (advertisedPeerName configured hostname) = true ∧
      advertisedPeerName configured hostname ≠ []) ∧
    (IsLabel configured → advertisedPeerName configured hostname = configured) ∧
    (acceptsEndpoint (advertisedEndpoint listenAddr) = true ↔
      ∀ ep, parseAddrPort listenAddr = some ep → ep.port ≠ 0 → ep.addr.isMulticast = false) ∧
    ∀ {δ : Type} (sv : Services δ) (req : RegisterRequest),
      sv.parseAddrPort = (fun s => parseAddrPort (utf8 s)) →
      utf8 req.name = advertisedPeerName configured hostname →
      utf8 req.endpoint = advertisedEndpoint listenAddr →
      acceptsEndpoint (advertisedEndpoint listenAddr) = true →
      sv.validate req = req.subnetRoutes.forM (sv.checkRoute req.networkId) := by
  have hlabel := isLabel_advertisedPeerName configured hostname
  refine ⟨⟨hlabel.acceptsName, hlabel.nonempty⟩,
    fun h => advertisedPeerName_of_isLabel h hostname, acceptsEndpoint_advertisedEndpoint_iff, ?_⟩
  intro δ sv req hsv hname hendpoint haccept
  have hvalid : validPeerName req.name = true := by
    rw [validPeerName_eq, hname]
    exact hlabel.acceptsName
  have hdial : sv.validEndpoint req.endpoint = true := by
    rw [validEndpoint_eq hsv, hendpoint]
    exact haccept
  rw [Services.validate, hvalid, hdial]
  rfl

namespace Sample

/-- `node-1`. -/
def label : Bytes := [110, 111, 100, 101, 45, 49]

/-- `192.0.2.1:51820`. -/
def unicastAddr : Bytes := [49, 57, 50, 46, 48, 46, 50, 46, 49, 58, 53, 49, 56, 50, 48]

/-- `224.0.0.1:51820`. -/
def multicastAddr : Bytes := [50, 50, 52, 46, 48, 46, 48, 46, 49, 58, 53, 49, 56, 50, 48]

theorem isLabel_label : IsLabel label :=
  ⟨by decide, by decide, by decide, by decide, by decide +kernel⟩

end Sample

theorem advertised_accepted_label :
    advertisedPeerName Sample.label [] = Sample.label ∧
      acceptsEndpoint (advertisedEndpoint Sample.unicastAddr) = true := by
  obtain ⟨-, hname, hendpoint, -⟩ := advertised_accepted Sample.label [] Sample.unicastAddr
  refine ⟨hname Sample.isLabel_label, hendpoint.mpr fun ep hep _ => ?_⟩
  have hparse : parseAddrPort Sample.unicastAddr = some ⟨.v4 0xc0000201, 51820⟩ := by decide
  rw [hparse] at hep
  cases hep
  decide

/-- The endpoint of a daemon that listens on a multicast address is advertised and refused. -/
theorem multicast_endpoint_refused :
    advertisedEndpoint Sample.multicastAddr = Sample.multicastAddr ∧
      acceptsEndpoint (advertisedEndpoint Sample.multicastAddr) = false := by
  decide

end Daemon

end Veld
