import Veld.Tofu.Pins

/-!
# The file of the store

A saved file lists every pin once. Loading any such file gives a store whose index
leads to pins only. If all addresses are UTF-8 the file lists the pins as they are,
and a store with an exact index is read back with the same pins and the same
index, whatever the order of the list.
-/

namespace Veld.Tofu

variable {sha256 : Bytes → Digest} {s t : Store} {v : PinValue} {e : PinEntry} {f : List PinEntry}
  {fp : Digest} {pub : PublicKey} {p : String} {past rest : List PinEntry}

/-- The pin of an entry whose fingerprint was read. -/
def PinEntry.value (e : PinEntry) (fp : Digest) : PinValue :=
  ⟨fp, e.ed25519Pub, e.vpnAddr, e.prevVPNAddrs⟩

namespace Store

/-- A pin becomes part of a store. -/
def addPin (s : Store) (v : PinValue) : Store where
  pins := s.pins.insert v.ed25519Pub v
  vpnToPub := v.prevVPNAddrs.foldl (reserve v.ed25519Pub)
    (s.vpnToPub.insert v.vpnAddr v.ed25519Pub)

theorem pubKeyString_ne_empty (pub : PublicKey) : pubKeyString pub ≠ "" :=
  encodeToString_ne_empty pub.property

theorem loadPin_eq (hkey : e.ed25519Pub ≠ "")
    (hfp : e.fingerprint = Hex.encodeToString fp.val) : s.loadPin e = s.addPin (e.value fp) := by
  have hcomplete : e.complete = true := by
    simp [PinEntry.complete, hkey, hfp, encodeToString_ne_empty fp.property]
  have hdecode := Hex.decodeString_encodeToString fp.val
  rw [← hfp] at hdecode
  rw [loadPin, if_pos hcomplete]
  simp only [hdecode, fp.property, dif_pos]
  rfl

theorem load_some (f : List PinEntry) : load (some f) = f.foldl loadPin {} := by
  rw [load]
  split
  · rfl
  · rename_i hnone
    symm
    have hskip : ∀ e ∈ f, e.complete = false := by simpa using hnone
    clear hnone
    induction f with
    | nil => rfl
    | cons e f ih =>
      have he : loadPin {} e = {} := by
        rw [loadPin, hskip e List.mem_cons_self]
        rfl
      rw [List.foldl_cons, he]
      exact ih fun d hd => hskip d (List.mem_cons_of_mem e hd)

theorem mem_addresses_of_lookup {a : Bytes}
    (h : (s.addPin v).vpnToPub.lookup a = some p) :
    (p = v.ed25519Pub ∧ a ∈ v.addresses) ∨ s.vpnToPub.lookup a = some p := by
  rcases lookup_reserve.mp h with h | ⟨-, hmem, rfl⟩
  · rcases lookup_insert_eq_some.mp h with ⟨rfl, rfl⟩ | ⟨-, h⟩
    · exact .inl ⟨rfl, List.mem_cons_self⟩
    · exact .inr h
  · exact .inl ⟨rfl, List.mem_cons_of_mem _ hmem⟩

theorem Genuine.addPin (h : s.Genuine sha256) (hpub : v.ed25519Pub = pubKeyString pub)
    (hfp : v.fingerprint = sha256 pub.val) (hnew : s.pins.lookup v.ed25519Pub = none) :
    (s.addPin v).Genuine sha256 where
  pinned p w hw := by
    rcases lookup_insert_eq_some.mp hw with ⟨rfl, rfl⟩ | ⟨-, hw⟩
    · exact ⟨pub, hpub, rfl, hfp⟩
    · exact h.pinned p w hw
  owner a p ha := by
    rcases mem_addresses_of_lookup ha with ⟨rfl, hmem⟩ | ha
    · exact ⟨v, AList.lookup_insert _, hmem⟩
    · obtain ⟨w, hw, hmem⟩ := h.owner a p ha
      have hne : p ≠ v.ed25519Pub := by
        rintro rfl
        rw [hnew] at hw
        cases hw
      exact ⟨w, (AList.lookup_insert_ne hne).trans hw, hmem⟩

end Store

/-- A list of pins as the store writes it: every key once, with its fingerprint. -/
structure Authentic (sha256 : Bytes → Digest) (f : List PinEntry) : Prop where
  distinct : (f.map PinEntry.ed25519Pub).Nodup
  genuine : ∀ e ∈ f, ∃ pub, e.ed25519Pub = pubKeyString pub ∧
    e.fingerprint = Hex.encodeToString (sha256 pub.val).val

/-- The list has the pins of a store. -/
def Describes (f : List PinEntry) (s : Store) : Prop :=
  ∀ e, e ∈ f ↔ ∃ p v, s.pins.lookup p = some v ∧ v.entry = e

/-- Every pin is stored under its own key, which is not empty. -/
def Store.Keyed (s : Store) : Prop :=
  ∀ p v, s.pins.lookup p = some v → v.ed25519Pub = p ∧ p ≠ ""

theorem Store.Genuine.keyed (h : s.Genuine sha256) : s.Keyed := by
  intro p v hv
  obtain ⟨pub, rfl, hkey, -⟩ := h.pinned p v hv
  exact ⟨hkey, pubKeyString_ne_empty pub⟩

theorem Store.Keyed.describes_save (h : s.Keyed) (order : Order) :
    ∃ f, s.save order = some f ∧ (f.map PinEntry.ed25519Pub).Nodup ∧ Describes f s := by
  have hperm := order.perm ((values s.pins).map PinValue.entry)
  have hmem (e : PinEntry) : e ∈ order.arrange ((values s.pins).map PinValue.entry) ↔
      ∃ p v, s.pins.lookup p = some v ∧ v.entry = e := by
    rw [hperm.mem_iff, List.mem_map]
    constructor
    · rintro ⟨v, hv, rfl⟩
      obtain ⟨p, hp⟩ := mem_values.mp hv
      exact ⟨p, v, hp, rfl⟩
    · rintro ⟨p, v, hp, rfl⟩
      exact ⟨v, mem_values.mpr ⟨p, hp⟩, rfl⟩
  refine ⟨_, rfl, ?_, hmem⟩
  -- The keys of the entries are the keys of the map.
  have hkeys : ((values s.pins).map PinValue.entry).map PinEntry.ed25519Pub = s.pins.keys := by
    rw [values, List.map_map, List.map_map]
    refine List.map_congr_left fun x hx => ?_
    exact (h x.1 x.2 (AList.mem_lookup_iff.mpr hx)).1
  rw [(hperm.map _).nodup_iff, hkeys]
  exact s.pins.keys_nodup

theorem Store.Genuine.describes_save (h : s.Genuine sha256) (order : Order) :
    ∃ f, s.save order = some f ∧ Authentic sha256 f ∧ Describes f s := by
  obtain ⟨f, hf, hdistinct, hd⟩ := h.keyed.describes_save order
  refine ⟨f, hf, ⟨hdistinct, fun e he => ?_⟩, hd⟩
  obtain ⟨p, v, hv, rfl⟩ := (hd e).mp he
  obtain ⟨pub, rfl, hpub, hfp⟩ := h.pinned p v hv
  refine ⟨pub, hpub, ?_⟩
  rw [PinValue.entry, hfp]

theorem Store.lookup_loadPin (h : (s.loadPin e).pins.lookup p = some v) :
    (e.ed25519Pub = p ∧ p ≠ "" ∧ ∃ fp, e.value fp = v) ∨ s.pins.lookup p = some v := by
  unfold loadPin at h
  split at h
  · rename_i hcomplete
    split at h
    · exact .inr h
    · split at h
      · rcases lookup_insert_eq_some.mp h with ⟨rfl, rfl⟩ | ⟨-, h⟩
        · have hne : e.ed25519Pub ≠ "" := by
            simp only [PinEntry.complete, Bool.and_eq_true, decide_eq_true_eq] at hcomplete
            exact hcomplete.1
          exact .inl ⟨rfl, hne, _, rfl⟩
        · exact .inr h
      · exact .inr h
  · exact .inr h

/-- A store that was loaded has only pins of the file. -/
theorem Store.mem_of_lookup_foldl (h : (f.foldl Store.loadPin s).pins.lookup p = some v) :
    (∃ e ∈ f, e.ed25519Pub = p ∧ p ≠ "" ∧ ∃ fp, e.value fp = v) ∨ s.pins.lookup p = some v := by
  induction f generalizing s with
  | nil => exact .inr h
  | cons e f ih =>
    rcases ih h with ⟨d, hd, hp⟩ | h
    · exact .inl ⟨d, List.mem_cons_of_mem e hd, hp⟩
    · rcases lookup_loadPin h with hp | h
      · exact .inl ⟨e, List.mem_cons_self, hp⟩
      · exact .inr h

/-- Loading adds the pins of a file one after another to a store that has none of them. -/
theorem Store.Genuine.foldl_loadPin (hs : s.Genuine sha256) (hf : Authentic sha256 f)
    (hnew : ∀ e ∈ f, s.pins.lookup e.ed25519Pub = none) :
    (f.foldl Store.loadPin s).Genuine sha256 := by
  induction f generalizing s with
  | nil => exact hs
  | cons e f ih =>
    obtain ⟨hnot, hdistinct⟩ := List.nodup_cons.mp hf.distinct
    obtain ⟨pub, hpub, hfp⟩ := hf.genuine e List.mem_cons_self
    rw [List.foldl_cons, loadPin_eq (hpub ▸ pubKeyString_ne_empty pub) hfp]
    refine ih (hs.addPin hpub rfl (hnew e List.mem_cons_self))
      ⟨hdistinct, fun d hd => hf.genuine d (List.mem_cons_of_mem e hd)⟩ ?_
    intro d hd
    have hne : d.ed25519Pub ≠ e.ed25519Pub := by
      intro heq
      exact hnot (heq ▸ List.mem_map_of_mem hd)
    exact (AList.lookup_insert_ne hne).trans (hnew d (List.mem_cons_of_mem e hd))

theorem Authentic.genuine_load (h : Authentic sha256 f) :
    (Store.load (some f)).Genuine sha256 := by
  rw [Store.load_some]
  exact Store.genuine_new.foldl_loadPin h fun _ _ => rfl

/-- All addresses of the pins are UTF-8. -/
def Store.Readable (s : Store) : Prop :=
  ∀ p v a, s.pins.lookup p = some v → a ∈ v.addresses → Utf8.valid a = true

/-- A pin with UTF-8 addresses is read back as it was. -/
theorem value_entry (h : ∀ a ∈ v.addresses, Utf8.valid a = true) :
    v.entry.value v.fingerprint = v := by
  have hcur := Utf8.coerce_of_valid (h _ List.mem_cons_self)
  have hprev : v.prevVPNAddrs.map Utf8.coerce = v.prevVPNAddrs.map id :=
    List.map_congr_left fun a ha => Utf8.coerce_of_valid (h a (List.mem_cons_of_mem _ ha))
  rw [PinEntry.value, PinValue.entry, hcur, hprev, List.map_id]

theorem Store.loadPin_entry (hkey : v.ed25519Pub ≠ "")
    (h : ∀ a ∈ v.addresses, Utf8.valid a = true) : t.loadPin v.entry = t.addPin v := by
  rw [loadPin_eq hkey rfl, value_entry h]

/-- The pins of the first entries of a store's file are loaded. -/
def LoadedPins (s : Store) (past : List PinEntry) (t : Store) : Prop :=
  ∀ p v, t.pins.lookup p = some v ↔ s.pins.lookup p = some v ∧ v.entry ∈ past

theorem LoadedPins.addPin (h : LoadedPins s past t) (hs : s.Keyed)
    (hv : s.pins.lookup p = some v) : LoadedPins s (past ++ [v.entry]) (t.addPin v) := by
  obtain ⟨rfl, -⟩ := hs p v hv
  intro q w
  rw [Store.addPin, lookup_insert_eq_some, h, List.mem_append, List.mem_singleton]
  constructor
  · rintro (⟨rfl, rfl⟩ | ⟨-, hw, hmem⟩)
    · exact ⟨hv, .inr rfl⟩
    · exact ⟨hw, .inl hmem⟩
  · rintro ⟨hw, hmem⟩
    by_cases hq : q = v.ed25519Pub
    · subst hq
      exact .inl ⟨rfl, Option.mem_unique hw hv⟩
    · refine .inr ⟨hq, hw, hmem.resolve_right fun he => hq ?_⟩
      exact (hs q w hw).1.symm.trans (congrArg PinEntry.ed25519Pub he)

theorem LoadedPins.foldl (h : LoadedPins s past t) (hs : s.Keyed)
    (hread : s.Readable) (hrest : ∀ e ∈ rest, ∃ p v, s.pins.lookup p = some v ∧ v.entry = e) :
    LoadedPins s (past ++ rest) (rest.foldl Store.loadPin t) := by
  induction rest generalizing past t with
  | nil =>
    rw [List.append_nil]
    exact h
  | cons e rest ih =>
    obtain ⟨p, v, hv, rfl⟩ := hrest e List.mem_cons_self
    obtain ⟨hkey, hne⟩ := hs p v hv
    rw [List.append_cons, List.foldl_cons,
      Store.loadPin_entry (hkey ▸ hne) fun a => hread p v a hv]
    exact ih (h.addPin hs hv) fun d hd => hrest d (List.mem_cons_of_mem _ hd)

/-- The pins of a store are read back from its file, whatever its index. -/
theorem Store.Keyed.lookup_load (hs : s.Keyed) (hread : s.Readable) (hd : Describes f s)
    (p : String) : (Store.load (some f)).pins.lookup p = s.pins.lookup p := by
  have hstart : LoadedPins s [] {} := fun _ _ => by simp
  have hend := hstart.foldl hs hread fun e => (hd e).mp
  rw [Store.load_some]
  refine Option.ext fun v => (hend p v).trans ?_
  exact and_iff_left_of_imp fun hv => (hd _).mpr ⟨p, v, hv, rfl⟩

/-- The state of a load of a store's file: the pins of the first entries are there, and the index
has their addresses. -/
structure Loading (s : Store) (past : List PinEntry) (t : Store) : Prop where
  pins : ∀ p v, t.pins.lookup p = some v ↔ s.pins.lookup p = some v ∧ v.entry ∈ past
  index : ∀ a p, t.vpnToPub.lookup a = some p ↔ ∃ v, t.pins.lookup p = some v ∧ a ∈ v.addresses

/-- The next pin has no address of an earlier one, so it gets all of its own. -/
theorem Loading.loadPin (h : Loading s past t) (hs : s.Exact sha256)
    (hread : s.Readable) (hv : s.pins.lookup p = some v)
    (hnew : p ∉ past.map PinEntry.ed25519Pub) :
    Loading s (past ++ [v.entry]) (t.loadPin v.entry) := by
  obtain ⟨hkey, hne⟩ := hs.keyed p v hv
  have hloaded : t.loadPin v.entry = t.addPin v :=
    Store.loadPin_entry (hkey ▸ hne) fun a => hread p v a hv
  have hadded : LoadedPins s (past ++ [v.entry]) (t.addPin v) :=
    LoadedPins.addPin h.pins hs.keyed hv
  subst hkey
  have hold {q : String} {w : PinValue} (hw : t.pins.lookup q = some w) : q ≠ v.ed25519Pub := by
    rintro rfl
    obtain ⟨hw, hmem⟩ := (h.pins _ w).mp hw
    obtain ⟨-, -, hwkey, -⟩ := hs.pinned _ w hw
    exact hnew (hwkey ▸ List.mem_map_of_mem (f := PinEntry.ed25519Pub) hmem)
  have hpins (q : String) (w : PinValue) : (t.addPin v).pins.lookup q = some w ↔
      (q = v.ed25519Pub ∧ w = v) ∨ t.pins.lookup q = some w := by
    rw [Store.addPin, lookup_insert_eq_some]
    exact or_congr_right (and_iff_right_of_imp hold)
  rw [hloaded]
  refine ⟨hadded, fun a q => ?_⟩
  constructor
  · intro ha
    rcases Store.mem_addresses_of_lookup ha with ⟨rfl, hmem⟩ | ha
    · exact ⟨v, (hpins _ v).mpr (.inl ⟨rfl, rfl⟩), hmem⟩
    · obtain ⟨w, hw, hmem⟩ := (h.index a q).mp ha
      exact ⟨w, (hpins q w).mpr (.inr hw), hmem⟩
  · rintro ⟨w, hw, hmem⟩
    rw [Store.addPin, lookup_reserve, lookup_insert_eq_some]
    rcases (hpins q w).mp hw with ⟨rfl, rfl⟩ | hw
    · -- An address of the new pin is not in the index yet.
      have hfree : t.vpnToPub.lookup a = none := by
        rw [Option.eq_none_iff_forall_ne_some]
        intro q hq
        obtain ⟨w', hw', hmem'⟩ := (h.index a q).mp hq
        have hother := hs.reserved q w' a ((h.pins q w').mp hw').1 hmem'
        exact hold hw' (Option.mem_unique hother (hs.reserved _ w a hv hmem))
      by_cases ha : a = w.vpnAddr
      · exact .inl (.inl ⟨ha, rfl⟩)
      · refine .inr ⟨(AList.lookup_insert_ne ha).trans hfree, ?_, rfl⟩
        exact (List.mem_cons.mp hmem).resolve_left ha
    · have hown := hs.reserved q w a ((h.pins q w).mp hw).1 hmem
      refine .inl (.inr ⟨?_, (h.index a q).mpr ⟨w, hw, hmem⟩⟩)
      rintro rfl
      have hself := hs.reserved _ v _ hv List.mem_cons_self
      exact hold hw (Option.mem_unique hown hself)

theorem Loading.foldl (h : Loading s past t) (hs : s.Exact sha256)
    (hread : s.Readable) (hf : Authentic sha256 (past ++ rest)) (hd : Describes (past ++ rest) s) :
    Loading s (past ++ rest) (rest.foldl Store.loadPin t) := by
  induction rest generalizing past t with
  | nil =>
    rw [List.append_nil]
    exact h
  | cons e rest ih =>
    obtain ⟨p, v, hv, rfl⟩ := (hd e).mp (List.mem_append_right _ List.mem_cons_self)
    obtain ⟨-, -, hkey, -⟩ := hs.pinned p v hv
    have hnew : p ∉ past.map PinEntry.ed25519Pub := by
      have hnodup := hf.distinct
      rw [List.map_append, List.map_cons] at hnodup
      intro hmem
      refine (List.disjoint_of_nodup_append hnodup) hmem ?_
      rw [← hkey]
      exact List.mem_cons_self
    rw [List.append_cons] at hf hd ⊢
    exact ih (h.loadPin hs hread hv hnew) hf hd

/-- The same pins and the same index. -/
structure Store.Same (s t : Store) : Prop where
  pins : ∀ p, t.pins.lookup p = s.pins.lookup p
  index : ∀ a, t.vpnToPub.lookup a = s.vpnToPub.lookup a

/-- A store is read back from its file. -/
theorem Store.Exact.same_load (hs : s.Exact sha256) (hread : s.Readable)
    (hf : Authentic sha256 f) (hd : Describes f s) : s.Same (Store.load (some f)) := by
  have hstart : Loading s [] {} := ⟨fun _ _ => by simp, fun _ _ => by simp⟩
  have hend := hstart.foldl hs hread hf hd
  rw [List.nil_append] at hend
  have hpins (p : String) (v : PinValue) :
      (f.foldl Store.loadPin {}).pins.lookup p = some v ↔ s.pins.lookup p = some v := by
    rw [hend.pins]
    exact and_iff_left_of_imp fun hv => (hd _).mpr ⟨p, v, hv, rfl⟩
  rw [Store.load_some]
  constructor
  · intro p
    exact Option.ext fun v => hpins p v
  · intro a
    refine Option.ext fun p => ?_
    rw [hend.index]
    constructor
    · rintro ⟨v, hv, hmem⟩
      exact hs.reserved p v a ((hpins p v).mp hv) hmem
    · intro ha
      obtain ⟨v, hv, hmem⟩ := hs.owner a p ha
      exact ⟨v, (hpins p v).mpr hv, hmem⟩

end Veld.Tofu
