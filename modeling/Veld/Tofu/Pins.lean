import Mathlib.Tactic.Tauto
import Veld.Core.Recency
import Veld.Tofu.Store

/-!
# The pins and their index

`Genuine` says that the index leads to pins only, `Exact` that it has exactly the
addresses of every pin. Every operation of the store keeps both. A pin's addresses
are the last ones its key was pinned at, most recent first, at most seventeen.
-/

namespace Veld.Tofu

variable {sha256 : Bytes → Digest} {s : Store} {v stored : PinValue} {a x : Bytes} {pub : PublicKey}
  {p pubStr : String}

namespace PinValue

theorem mem_left (hx : x ≠ a) : x ∈ v.left a ↔ x ∈ v.addresses := by
  rw [left, addresses, List.mem_cons, List.mem_cons, List.mem_filter, decide_eq_true_eq]
  tauto

theorem ne_of_mem_left (ha : v.vpnAddr ≠ a) (hx : x ∈ v.left a) : x ≠ a := by
  rcases List.mem_cons.mp hx with rfl | hx
  · exact ha
  · exact (of_decide_eq_true (List.mem_filter.mp hx).2).1

/-- An address of the pin stays or is released. -/
theorem mem_moveTo (hx : x ≠ a) (hmem : x ∈ v.addresses)
    (hkept : x ∉ (v.left a).drop maxPrevVPNAddrs) : x ∈ (v.moveTo a).addresses := by
  have hleft := (mem_left hx).mpr hmem
  rw [← List.take_append_drop maxPrevVPNAddrs (v.left a)] at hleft
  exact List.mem_cons_of_mem _ ((List.mem_append.mp hleft).resolve_right hkept)

/-- A move is a touch of the new address. -/
theorem addresses_moveTo (hnodup : v.addresses.Nodup) (ha : v.vpnAddr ≠ a) :
    (v.moveTo a).addresses = touch (maxPrevVPNAddrs + 1) a v.addresses := by
  have hfilter : (v.prevVPNAddrs.filter fun b => b ≠ a ∧ b ≠ v.vpnAddr) =
      v.prevVPNAddrs.filter (· ≠ a) := by
    refine List.filter_congr fun b hb => ?_
    have hne : b ≠ v.vpnAddr := by
      rintro rfl
      exact (List.nodup_cons.mp hnodup).1 hb
    simp [hne]
  rw [touch, List.take_succ_cons, addresses, addresses, List.filter_cons_of_pos (by simpa using ha)]
  show a :: (v.left a).take maxPrevVPNAddrs = _
  rw [left, hfilter]

end PinValue

namespace Store

variable {r : Store × Bool}

/-- What a successful check did. -/
theorem check_eq_some (h : s.check sha256 a pub = some r) :
    (∃ stored, s.pins.lookup (pubKeyString pub) = some stored ∧ stored.vpnAddr = a ∧
      r = (s, false)) ∨
    (∃ stored, s.pins.lookup (pubKeyString pub) = some stored ∧ stored.vpnAddr ≠ a ∧
      s.taken a (pubKeyString pub) = false ∧ r = (s.move stored a (pubKeyString pub), true)) ∨
    (s.pins.lookup (pubKeyString pub) = none ∧ s.taken a (pubKeyString pub) = false ∧
      r = (s.pin (sha256 pub.val) a (pubKeyString pub), true)) := by
  unfold check at h
  cases hp : s.pins.lookup (pubKeyString pub) with
  | some stored =>
    simp only [hp] at h
    split at h
    · cases h
    split at h
    · rename_i ha
      split at h
      · cases h
      · rename_i hfree
        exact .inr (.inl ⟨stored, rfl, ha, by simpa using hfree, (Option.some.inj h).symm⟩)
    · rename_i ha
      exact .inl ⟨stored, rfl, not_not.mp ha, (Option.some.inj h).symm⟩
  | none =>
    simp only [hp] at h
    split at h
    · cases h
    · rename_i hfree
      exact .inr (.inr ⟨rfl, by simpa using hfree, (Option.some.inj h).symm⟩)

/-- An address that is not taken has no owner but the key. -/
theorem owner_of_not_taken (h : s.taken a pubStr = false) (hp : s.vpnToPub.lookup a = some p) :
    p = pubStr := by
  rw [taken, hp] at h
  simpa using h

/-- The index leads to pins, and the pins are of the keys whose fingerprints they have. -/
structure Genuine (sha256 : Bytes → Digest) (s : Store) : Prop where
  pinned : ∀ p v, s.pins.lookup p = some v →
    ∃ pub, p = pubKeyString pub ∧ v.ed25519Pub = p ∧ v.fingerprint = sha256 pub.val
  owner : ∀ a p, s.vpnToPub.lookup a = some p →
    ∃ v, s.pins.lookup p = some v ∧ a ∈ v.addresses

theorem genuine_new : Genuine sha256 {} := ⟨nofun, nofun⟩

theorem lookup_move : (s.move stored a pubStr).vpnToPub.lookup x = some p ↔
    (x = a ∧ p = pubStr) ∨ (x ≠ a ∧ x ∉ (stored.left a).drop maxPrevVPNAddrs ∧
      s.vpnToPub.lookup x = some p) := by
  rw [move, lookup_insert_eq_some, lookup_eraseAll_eq_some]

namespace Genuine

theorem move (h : s.Genuine sha256) (hp : s.pins.lookup pubStr = some stored) :
    (s.move stored a pubStr).Genuine sha256 where
  pinned p v hv := by
    rcases lookup_insert_eq_some.mp hv with ⟨rfl, rfl⟩ | ⟨-, hv⟩
    · exact h.pinned p stored hp
    · exact h.pinned p v hv
  owner x p hx := by
    rcases lookup_move.mp hx with ⟨rfl, rfl⟩ | ⟨hne, hkept, hx⟩
    · exact ⟨_, AList.lookup_insert _, List.mem_cons_self⟩
    · obtain ⟨v, hv, hmem⟩ := h.owner x p hx
      by_cases hpub : p = pubStr
      · subst hpub
        obtain rfl := Option.mem_unique hp hv
        exact ⟨_, AList.lookup_insert _, PinValue.mem_moveTo hne hmem hkept⟩
      · exact ⟨v, (AList.lookup_insert_ne hpub).trans hv, hmem⟩

theorem pin (h : s.Genuine sha256) (hp : s.pins.lookup (pubKeyString pub) = none) :
    (s.pin (sha256 pub.val) a (pubKeyString pub)).Genuine sha256 where
  pinned p v hv := by
    rcases lookup_insert_eq_some.mp hv with ⟨rfl, rfl⟩ | ⟨-, hv⟩
    · exact ⟨pub, rfl, rfl, rfl⟩
    · exact h.pinned p v hv
  owner x p hx := by
    rcases lookup_insert_eq_some.mp hx with ⟨rfl, rfl⟩ | ⟨-, hx⟩
    · exact ⟨_, AList.lookup_insert _, List.mem_cons_self⟩
    · obtain ⟨v, hv, hmem⟩ := h.owner x p hx
      have hne : p ≠ pubKeyString pub := by
        rintro rfl
        rw [hp] at hv
        cases hv
      exact ⟨v, (AList.lookup_insert_ne hne).trans hv, hmem⟩

theorem unpin (h : s.Genuine sha256) (hp : s.pins.lookup p = some v) :
    (s.unpin v).Genuine sha256 where
  pinned q w hw := h.pinned q w (lookup_erase_eq_some.mp hw).2
  owner x q hx := by
    obtain ⟨hx, hne⟩ := lookup_unreserve.mp hx
    obtain ⟨w, hw, hmem⟩ := h.owner x q hx
    obtain ⟨-, -, hpub, -⟩ := h.pinned p v hp
    refine ⟨w, lookup_erase_eq_some.mpr ⟨?_, hw⟩, hmem⟩
    rintro rfl
    rw [hpub, hp] at hw
    obtain rfl := Option.some.inj hw
    exact hne ⟨hmem, rfl⟩

theorem check (h : s.Genuine sha256) {r : Store × Bool} (hr : s.check sha256 a pub = some r) :
    r.1.Genuine sha256 := by
  rcases check_eq_some hr with ⟨_, -, -, rfl⟩ | ⟨stored, hp, -, -, rfl⟩ | ⟨hp, -, rfl⟩
  · exact h
  · exact h.move hp
  · exact h.pin hp

theorem forget (h : s.Genuine sha256) (pub : PublicKey) : (s.forget pub).Genuine sha256 := by
  unfold Store.forget
  split
  · rename_i v hv
    exact h.unpin hv
  · exact h

/-- `ForgetByVPNAddr` forgets the pin that owns the address, if any. -/
theorem forgetByVPNAddr_eq (h : s.Genuine sha256) (a : Bytes) :
    (s.vpnToPub.lookup a = none ∧ s.forgetByVPNAddr a = s) ∨
      ∃ p v, s.vpnToPub.lookup a = some p ∧ s.pins.lookup p = some v ∧ a ∈ v.addresses ∧
        s.forgetByVPNAddr a = s.unpin v := by
  unfold Store.forgetByVPNAddr
  cases ha : s.vpnToPub.lookup a with
  | none => exact .inl ⟨rfl, rfl⟩
  | some p =>
    obtain ⟨v, hv, hmem⟩ := h.owner a p ha
    exact .inr ⟨p, v, rfl, hv, hmem, by simp only [hv]⟩

theorem forgetByVPNAddr (h : s.Genuine sha256) (a : Bytes) :
    (s.forgetByVPNAddr a).Genuine sha256 := by
  rcases h.forgetByVPNAddr_eq a with ⟨-, he⟩ | ⟨p, v, -, hv, -, he⟩
  · rw [he]
    exact h
  · rw [he]
    exact h.unpin hv

/-- A check fails only because another pin has the address. -/
theorem check_isSome (h : s.Genuine sha256)
    (hfree : ∀ p v, s.pins.lookup p = some v → a ∈ v.addresses → p = pubKeyString pub) :
    (s.check sha256 a pub).isSome = true := by
  have htaken : s.taken a (pubKeyString pub) = false := by
    rw [taken]
    cases ha : s.vpnToPub.lookup a with
    | none => rfl
    | some p =>
      obtain ⟨v, hv, hmem⟩ := h.owner a p ha
      simp [hfree p v hv hmem]
  unfold Store.check
  cases hp : s.pins.lookup (pubKeyString pub) with
  | none => simp [hp, htaken]
  | some stored =>
    obtain ⟨pub', hpub, -, hfp⟩ := h.pinned _ stored hp
    obtain rfl := pubKeyString_inj hpub
    by_cases ha : stored.vpnAddr = a <;> simp [hp, hfp, htaken, ha]

end Genuine

/-- The index has exactly the addresses of every pin. -/
structure Exact (sha256 : Bytes → Digest) (s : Store) : Prop extends Genuine sha256 s where
  distinct : ∀ p v, s.pins.lookup p = some v → v.addresses.Nodup
  bounded : ∀ p v, s.pins.lookup p = some v → v.prevVPNAddrs.length ≤ maxPrevVPNAddrs
  reserved : ∀ p v a, s.pins.lookup p = some v → a ∈ v.addresses → s.vpnToPub.lookup a = some p

theorem exact_new : Exact sha256 {} := ⟨genuine_new, nofun, nofun, nofun⟩

namespace Exact

theorem move (h : s.Exact sha256) (hp : s.pins.lookup pubStr = some stored)
    (ha : stored.vpnAddr ≠ a) (hfree : s.taken a pubStr = false) :
    (s.move stored a pubStr).Exact sha256 := by
  have hnodup := h.distinct pubStr stored hp
  have htouch := PinValue.addresses_moveTo hnodup ha
  have hleft : (stored.left a).Nodup := by
    refine List.nodup_cons.mpr ⟨?_, (List.nodup_cons.mp hnodup).2.filter _⟩
    simp
  refine ⟨h.toGenuine.move hp, ?_, ?_, ?_⟩
  · intro p v hv
    rcases lookup_insert_eq_some.mp hv with ⟨rfl, rfl⟩ | ⟨-, hv⟩
    · rw [htouch]
      exact nodup_touch hnodup
    · exact h.distinct p v hv
  · intro p v hv
    rcases lookup_insert_eq_some.mp hv with ⟨rfl, rfl⟩ | ⟨-, hv⟩
    · exact List.length_take_le _ _
    · exact h.bounded p v hv
  · intro p v x hv hx
    rw [lookup_move]
    rcases lookup_insert_eq_some.mp hv with ⟨rfl, rfl⟩ | ⟨hne, hv⟩
    · rcases List.mem_cons.mp hx with rfl | hx
      · exact .inl ⟨rfl, rfl⟩
      · have hmem := List.mem_of_mem_take hx
        have hxa := PinValue.ne_of_mem_left ha hmem
        refine .inr ⟨hxa, ?_, h.reserved p stored x hp ((PinValue.mem_left hxa).mp hmem)⟩
        exact fun hdrop => (List.disjoint_take_drop hleft le_rfl) hx hdrop
    · have hown := h.reserved p v x hv hx
      have hxa : x ≠ a := by
        rintro rfl
        exact hne (owner_of_not_taken hfree hown)
      refine .inr ⟨hxa, fun hdrop => hne ?_, hown⟩
      have hmem := (PinValue.mem_left hxa).mp (List.mem_of_mem_drop hdrop)
      have hstored := h.reserved pubStr stored x hp hmem
      exact Option.mem_unique hown hstored

theorem pin (h : s.Exact sha256) (hp : s.pins.lookup (pubKeyString pub) = none)
    (hfree : s.taken a (pubKeyString pub) = false) :
    (s.pin (sha256 pub.val) a (pubKeyString pub)).Exact sha256 := by
  refine ⟨h.toGenuine.pin hp, ?_, ?_, ?_⟩
  · intro p v hv
    rcases lookup_insert_eq_some.mp hv with ⟨rfl, rfl⟩ | ⟨-, hv⟩
    · exact List.nodup_singleton a
    · exact h.distinct p v hv
  · intro p v hv
    rcases lookup_insert_eq_some.mp hv with ⟨rfl, rfl⟩ | ⟨-, hv⟩
    · exact Nat.zero_le _
    · exact h.bounded p v hv
  · intro p v x hv hx
    refine lookup_insert_eq_some.mpr ?_
    rcases lookup_insert_eq_some.mp hv with ⟨rfl, rfl⟩ | ⟨hne, hv⟩
    · exact .inl ⟨List.mem_singleton.mp hx, rfl⟩
    · have hown := h.reserved p v x hv hx
      refine .inr ⟨?_, hown⟩
      rintro rfl
      exact hne (owner_of_not_taken hfree hown)

theorem unpin (h : s.Exact sha256) (hp : s.pins.lookup p = some v) :
    (s.unpin v).Exact sha256 := by
  refine ⟨h.toGenuine.unpin hp, ?_, ?_, ?_⟩
  · exact fun q w hw => h.distinct q w (lookup_erase_eq_some.mp hw).2
  · exact fun q w hw => h.bounded q w (lookup_erase_eq_some.mp hw).2
  · intro q w x hw hx
    obtain ⟨hne, hw⟩ := lookup_erase_eq_some.mp hw
    exact lookup_unreserve.mpr ⟨h.reserved q w x hw hx, fun he => hne he.2⟩

theorem check (h : s.Exact sha256) {r : Store × Bool} (hr : s.check sha256 a pub = some r) :
    r.1.Exact sha256 := by
  rcases check_eq_some hr with ⟨_, -, -, rfl⟩ | ⟨stored, hp, ha, hfree, rfl⟩ | ⟨hp, hfree, rfl⟩
  · exact h
  · exact h.move hp ha hfree
  · exact h.pin hp hfree

theorem forget (h : s.Exact sha256) (pub : PublicKey) : (s.forget pub).Exact sha256 := by
  unfold Store.forget
  split
  · rename_i v hv
    exact h.unpin hv
  · exact h

theorem forgetByVPNAddr (h : s.Exact sha256) (a : Bytes) :
    (s.forgetByVPNAddr a).Exact sha256 := by
  rcases h.forgetByVPNAddr_eq a with ⟨-, he⟩ | ⟨p, v, -, hv, -, he⟩
  · rw [he]
    exact h
  · rw [he]
    exact h.unpin hv

/-- A check succeeds exactly if no other key owns the address. -/
theorem check_isSome_iff (h : s.Exact sha256) :
    (s.check sha256 a pub).isSome = true ↔
      ∀ p v, s.pins.lookup p = some v → a ∈ v.addresses → p = pubKeyString pub := by
  refine ⟨?_, h.check_isSome⟩
  intro hsome p v hv hmem
  obtain ⟨r, hr⟩ := Option.isSome_iff_exists.mp hsome
  have hown := h.reserved p v a hv hmem
  rcases check_eq_some hr with ⟨stored, hp, rfl, -⟩ | ⟨_, -, -, hfree, -⟩ | ⟨-, hfree, -⟩
  · have hself := h.reserved _ stored _ hp List.mem_cons_self
    exact Option.mem_unique hown hself
  · exact owner_of_not_taken hfree hown
  · exact owner_of_not_taken hfree hown

end Exact

/-- Forgetting leaves no pin that was not there. -/
theorem lookup_of_forget (hv : (s.forget pub).pins.lookup p = some v) :
    s.pins.lookup p = some v := by
  unfold forget at hv
  split at hv
  · exact (lookup_erase_eq_some.mp hv).2
  · exact hv

theorem lookup_of_forgetByVPNAddr (hv : (s.forgetByVPNAddr a).pins.lookup p = some v) :
    s.pins.lookup p = some v := by
  unfold forgetByVPNAddr at hv
  split at hv
  · exact hv
  · split at hv
    · exact (lookup_erase_eq_some.mp hv).2
    · exact hv

theorem fingerprint_of_check (hr : s.check sha256 a pub = some r)
    (hp : s.pins.lookup (pubKeyString pub) = some stored) :
    stored.fingerprint = sha256 pub.val := by
  by_contra hne
  simp only [check, hp, ne_eq, hne, not_false_eq_true, if_true] at hr
  cases hr

/-- After a successful check the key is pinned at the address. -/
theorem pinned_of_check (hr : s.check sha256 a pub = some r) :
    ∃ v, r.1.pins.lookup (pubKeyString pub) = some v ∧ v.vpnAddr = a ∧
      v.fingerprint = sha256 pub.val := by
  rcases check_eq_some hr with ⟨stored, hp, ha, rfl⟩ | ⟨stored, hp, -, -, rfl⟩ | ⟨-, -, rfl⟩
  · exact ⟨stored, hp, ha, fingerprint_of_check hr hp⟩
  · have hfp := fingerprint_of_check hr hp
    exact ⟨_, AList.lookup_insert _, rfl, hfp⟩
  · exact ⟨_, AList.lookup_insert _, rfl, rfl⟩

end Store

end Veld.Tofu
