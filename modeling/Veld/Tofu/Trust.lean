import Veld.Core.Run
import Veld.Tofu.File

/-!
# Trust on first use over moves and restarts

Runs of one store that saves after every change and is reloaded from its file now
and then. While the addresses are UTF-8 the file always describes the store, so a
reload changes nothing. A key keeps the last seventeen addresses it was pinned at:
what was once its own passes to another key only after it was forgotten or has
been pinned at more than sixteen others.
-/

namespace Veld.Tofu

/-- A store and its file. -/
structure Kept where
  store : Store := {}
  file : File := none

inductive StoreOp
  | check (vpnAddr : Bytes) (pub : PublicKey) (order : Order)
  | forget (pub : PublicKey) (order : Order)
  | forgetByVPNAddr (vpnAddr : Bytes) (order : Order)
  | reload

/-- A key is pinned only at addresses that are UTF-8. -/
def StoreOp.Readable : StoreOp → Prop
  | .check vpnAddr _ _ => Utf8.valid vpnAddr = true
  | _ => True

instance : (op : StoreOp) → Decidable op.Readable
  | .check .. => inferInstanceAs (Decidable (_ = true))
  | .forget .. | .forgetByVPNAddr .. | .reload => inferInstanceAs (Decidable True)

/-- The store is saved after a change. -/
def Store.keep (s : Store) (order : Order) : Kept := ⟨s, s.save order⟩

section Same

variable {sha256 : Bytes → Digest} {s t : Store} {f : List PinEntry}

theorem Store.Same.exact (h : s.Same t) (hs : s.Exact sha256) : t.Exact sha256 where
  pinned p v hv := hs.pinned p v ((h.pins p).symm.trans hv)
  owner a p ha := by
    obtain ⟨v, hv, hmem⟩ := hs.owner a p ((h.index a).symm.trans ha)
    exact ⟨v, (h.pins p).trans hv, hmem⟩
  distinct p v hv := hs.distinct p v ((h.pins p).symm.trans hv)
  bounded p v hv := hs.bounded p v ((h.pins p).symm.trans hv)
  reserved p v a hv hmem := (h.index a).trans (hs.reserved p v a ((h.pins p).symm.trans hv) hmem)

theorem Store.Same.readable (h : s.Same t) (hs : s.Readable) : t.Readable :=
  fun p v a hv => hs p v a ((h.pins p).symm.trans hv)

theorem Store.Same.describes (h : s.Same t) (hs : Describes f s) : Describes f t := by
  intro e
  rw [hs e]
  simp only [h.pins]

end Same

namespace Kept

variable (sha256 : Bytes → Digest)

def next (k : Kept) : StoreOp → Kept
  | .check vpnAddr pub order =>
    match k.store.check sha256 vpnAddr pub with
    | some (s, true) => s.keep order
    | some (s, false) => { k with store := s }
    | none => k
  | .forget pub order => (k.store.forget pub).keep order
  | .forgetByVPNAddr vpnAddr order => (k.store.forgetByVPNAddr vpnAddr).keep order
  | .reload => { k with store := Store.load k.file }

/-- The file has the pins of the store. -/
def Synced (k : Kept) : Prop :=
  match k.file with
  | none => ∀ p, k.store.pins.lookup p = none
  | some f => Authentic sha256 f ∧ Describes f k.store

structure Sound (k : Kept) : Prop where
  exact : k.store.Exact sha256
  readable : k.store.Readable
  synced : k.Synced sha256

variable {sha256} {k : Kept} {op : StoreOp}

/-- What is loaded is what was in the store. -/
theorem Sound.same_load (h : k.Sound sha256) : k.store.Same (Store.load k.file) := by
  have hsynced := h.synced
  unfold Synced at hsynced
  cases hf : k.file with
  | none =>
    simp only [hf] at hsynced
    refine ⟨fun p => (hsynced p).symm, fun a => ?_⟩
    refine (Option.eq_none_iff_forall_ne_some.mpr fun p hp => ?_).symm
    obtain ⟨v, hv, -⟩ := h.exact.owner a p hp
    rw [hsynced p] at hv
    cases hv
  | some f =>
    simp only [hf] at hsynced
    exact h.exact.same_load h.readable hsynced.1 hsynced.2

theorem sound_keep {s : Store} (hs : s.Exact sha256) (hread : s.Readable) (order : Order) :
    (s.keep order).Sound sha256 := by
  obtain ⟨f, hf, hauthentic, hd⟩ := hs.describes_save order
  refine ⟨hs, hread, ?_⟩
  rw [Store.keep, hf]
  exact ⟨hauthentic, hd⟩

end Kept

section Readable

variable {sha256 : Bytes → Digest} {s : Store} {v stored : PinValue} {a : Bytes} {pub : PublicKey}
  {p pubStr : String}

theorem Store.Readable.check (h : s.Readable) (ha : Utf8.valid a = true) {r : Store × Bool}
    (hr : s.check sha256 a pub = some r) : r.1.Readable := by
  rcases Store.check_eq_some hr with ⟨_, -, -, rfl⟩ | ⟨stored, hp, -, -, rfl⟩ | ⟨-, -, rfl⟩
  · exact h
  · intro p v x hv hx
    rcases lookup_insert_eq_some.mp hv with ⟨rfl, rfl⟩ | ⟨-, hv⟩
    · by_cases hxa : x = a
      · exact hxa ▸ ha
      · have hleft := List.mem_of_mem_take ((List.mem_cons.mp hx).resolve_left hxa)
        exact h _ stored x hp ((PinValue.mem_left hxa).mp hleft)
    · exact h p v x hv hx
  · intro p v x hv hx
    rcases lookup_insert_eq_some.mp hv with ⟨rfl, rfl⟩ | ⟨-, hv⟩
    · obtain rfl := List.mem_singleton.mp hx
      exact ha
    · exact h p v x hv hx

theorem Store.Readable.forget (h : s.Readable) (pub : PublicKey) : (s.forget pub).Readable :=
  fun p v x hv => h p v x (Store.lookup_of_forget hv)

theorem Store.Readable.forgetByVPNAddr (h : s.Readable) (a : Bytes) :
    (s.forgetByVPNAddr a).Readable :=
  fun p v x hv => h p v x (Store.lookup_of_forgetByVPNAddr hv)

end Readable

namespace Kept

variable {sha256 : Bytes → Digest} {k : Kept} {op : StoreOp}

theorem Sound.next (h : k.Sound sha256) (hop : op.Readable) : (k.next sha256 op).Sound sha256 := by
  cases op with
  | check a pub order =>
    simp only [Kept.next]
    split
    · rename_i s hr
      exact sound_keep (h.exact.check hr) (h.readable.check hop hr) order
    · rename_i s hr
      rcases Store.check_eq_some hr with ⟨_, -, -, he⟩ | ⟨_, -, -, -, he⟩ | ⟨-, -, he⟩
      · obtain ⟨rfl, -⟩ := Prod.mk.inj he
        exact h
      · cases he
      · cases he
    · exact h
  | forget pub order => exact sound_keep (h.exact.forget pub) (h.readable.forget pub) order
  | forgetByVPNAddr a order =>
    exact sound_keep (h.exact.forgetByVPNAddr a) (h.readable.forgetByVPNAddr a) order
  | reload =>
    have hsame := h.same_load
    refine ⟨hsame.exact h.exact, hsame.readable h.readable, ?_⟩
    have hsynced := h.synced
    unfold Synced at hsynced ⊢
    simp only [Kept.next]
    cases hf : k.file with
    | none => exact fun _ => rfl
    | some f =>
      simp only [hf] at hsynced hsame ⊢
      exact ⟨hsynced.1, hsame.describes hsynced.2⟩

theorem sound_new : Sound sha256 {} := ⟨Store.exact_new, nofun, fun _ => rfl⟩

/-- The address at which a step pins a key. -/
def pinnedAt (sha256 : Bytes → Digest) (pub : PublicKey) (x : Kept × StoreOp) : Option Bytes :=
  match x.2 with
  | .check vpnAddr pub' _ =>
    if pub' = pub ∧ (x.1.store.check sha256 vpnAddr pub').isSome then some vpnAddr else none
  | _ => none

/-- A step forgets the pin of a key. -/
def forgets (pub : PublicKey) (x : Kept × StoreOp) : Bool :=
  match x.2 with
  | .forget pub' _ => pub' = pub
  | .forgetByVPNAddr vpnAddr _ => x.1.store.vpnToPub.lookup vpnAddr = some (pubKeyString pub)
  | _ => false

/-- The addresses at which a key was pinned in some steps. -/
def pinnedIn (sha256 : Bytes → Digest) (pub : PublicKey) (past : List (Kept × StoreOp)) :
    Finset Bytes :=
  (past.filterMap (pinnedAt sha256 pub)).toFinset

/-- A key that was pinned at an address has been forgotten since, or its pin tells how many other
addresses it has been pinned at since. -/
def Remembers (sha256 : Bytes → Digest) (pub : PublicKey) (a : Bytes)
    (past : List (Kept × StoreOp)) (k : Kept) : Prop :=
  (∃ x ∈ past, forgets pub x = true) ∨
    ∃ v, k.store.pins.lookup (pubKeyString pub) = some v ∧
      Since (maxPrevVPNAddrs + 1) a v.addresses (pinnedIn sha256 pub past)

variable {pub : PublicKey} {a : Bytes} {past : List (Kept × StoreOp)}

/-- A step that does not touch the pin of the key. -/
theorem Remembers.keep (h : Remembers sha256 pub a past k) {k' : Kept}
    (hpins : forgets pub (k, op) = false → ∀ v,
      k.store.pins.lookup (pubKeyString pub) = some v →
      k'.store.pins.lookup (pubKeyString pub) = some v) :
    Remembers sha256 pub a (past ++ [(k, op)]) k' := by
  rcases h with ⟨x, hx, hforgets⟩ | ⟨v, hv, hsince⟩
  · exact .inl ⟨x, List.mem_append_left _ hx, hforgets⟩
  cases hforgets : forgets pub (k, op) with
  | true => exact .inl ⟨_, List.mem_concat_self, hforgets⟩
  | false =>
    refine .inr ⟨v, hpins hforgets v hv, hsince.mono ?_⟩
    rw [pinnedIn, pinnedIn, List.filterMap_append, List.toFinset_append]
    exact Finset.subset_union_left

/-- A step in which the key moves. -/
theorem Remembers.move (h : Remembers sha256 pub a past k) {k' : Kept} {b : Bytes}
    {stored : PinValue} (hstored : k.store.pins.lookup (pubKeyString pub) = some stored)
    (hnodup : stored.addresses.Nodup) (hb : stored.vpnAddr ≠ b)
    (hpinned : pinnedAt sha256 pub (k, op) = some b)
    (hk' : k'.store.pins.lookup (pubKeyString pub) = some (stored.moveTo b)) :
    Remembers sha256 pub a (past ++ [(k, op)]) k' := by
  rcases h with ⟨x, hx, hforgets⟩ | ⟨v, hv, hsince⟩
  · exact .inl ⟨x, List.mem_append_left _ hx, hforgets⟩
  obtain rfl := Option.mem_unique hstored hv
  refine .inr ⟨_, hk', ?_⟩
  have hseen : insert b (pinnedIn sha256 pub past) = pinnedIn sha256 pub (past ++ [(k, op)]) := by
    rw [pinnedIn, pinnedIn, List.filterMap_append, List.toFinset_append,
      List.filterMap_cons_some hpinned, List.filterMap_nil, Finset.union_comm]
    rfl
  rw [PinValue.addresses_moveTo hnodup hb, ← hseen]
  exact hsince.touch (Nat.succ_pos _) hnodup b

theorem lookup_unpin {s : Store} {v w : PinValue} {p : String}
    (hv : s.pins.lookup p = some v) (hne : p ≠ w.ed25519Pub) :
    (s.unpin w).pins.lookup p = some v :=
  lookup_erase_eq_some.mpr ⟨hne, hv⟩

theorem Remembers.check {b : Bytes} {pub' : PublicKey} {order : Order}
    (h : Remembers sha256 pub a past k) (hk : k.Sound sha256) :
    Remembers sha256 pub a (past ++ [(k, .check b pub' order)])
      (k.next sha256 (.check b pub' order)) := by
  simp only [Kept.next]
  cases hr : k.store.check sha256 b pub' with
  | none => exact h.keep fun _ _ => id
  | some r =>
    rcases Store.check_eq_some hr with ⟨_, -, -, rfl⟩ | ⟨stored, hp, hb, -, rfl⟩ | ⟨hp, -, rfl⟩
    · exact h.keep fun _ _ => id
    · by_cases hpub : pub' = pub
      · subst hpub
        refine h.move hp (hk.exact.distinct _ _ hp) hb ?_ (AList.lookup_insert _)
        simp [pinnedAt, hr]
      · have hne : pubKeyString pub ≠ pubKeyString pub' := fun he =>
          hpub (pubKeyString_inj he).symm
        exact h.keep fun _ v hv => (AList.lookup_insert_ne hne).trans hv
    · refine h.keep fun _ v hv => ?_
      have hne : pubKeyString pub ≠ pubKeyString pub' := by
        intro he
        rw [he, hp] at hv
        cases hv
      exact (AList.lookup_insert_ne hne).trans hv

theorem Remembers.next (h : Remembers sha256 pub a past k) (hk : k.Sound sha256) (op : StoreOp) :
    Remembers sha256 pub a (past ++ [(k, op)]) (k.next sha256 op) := by
  cases op with
  | check b pub' order => exact h.check hk
  | forget pub' order =>
    refine h.keep fun hforgets v hv => ?_
    have hne : pub' ≠ pub := of_decide_eq_false hforgets
    show (k.store.forget pub').pins.lookup _ = some v
    unfold Store.forget
    split
    · rename_i w hw
      obtain ⟨-, -, hkey, -⟩ := hk.exact.pinned _ w hw
      refine lookup_unpin hv ?_
      rw [hkey]
      exact fun he => hne (pubKeyString_inj he).symm
    · exact hv
  | forgetByVPNAddr b order =>
    refine h.keep fun hforgets v hv => ?_
    have hother := of_decide_eq_false hforgets
    show (k.store.forgetByVPNAddr b).pins.lookup _ = some v
    rcases hk.exact.forgetByVPNAddr_eq b with ⟨-, he⟩ | ⟨p, w, hp, hw, -, he⟩
    · rw [he]
      exact hv
    · rw [he]
      obtain ⟨-, -, hkey, -⟩ := hk.exact.pinned p w hw
      refine lookup_unpin hv ?_
      rw [hkey]
      rintro rfl
      exact hother hp
  | reload => exact h.keep fun _ v hv => (hk.same_load.pins _).trans hv

/-- The state after some steps from an empty store. -/
def reached (sha256 : Bytes → Digest) (ops : List StoreOp) : Kept := run (next sha256) {} ops

theorem sound_run {ops : List StoreOp} (hk : k.Sound sha256) (h : ∀ op ∈ ops, op.Readable) :
    (run (next sha256) k ops).Sound sha256 := by
  induction ops generalizing k with
  | nil => exact hk
  | cons op ops ih =>
    exact ih (hk.next (h op List.mem_cons_self)) fun o ho => h o (List.mem_cons_of_mem op ho)

theorem remembers_run {ops : List StoreOp} (hk : k.Sound sha256) (h : ∀ op ∈ ops, op.Readable)
    (hstart : Remembers sha256 pub a [] k) :
    Remembers sha256 pub a (trail (next sha256) k ops) (run (next sha256) k ops) := by
  induction ops using List.reverseRecOn with
  | nil => exact hstart
  | append_singleton ops op ih =>
    have hpast : ∀ o ∈ ops, o.Readable := fun o ho => h o (List.mem_append_left _ ho)
    rw [trail_snoc, run_snoc]
    exact (ih hpast).next (sound_run hk hpast) op

theorem next_check {r : Store × Bool} (hr : k.store.check sha256 a pub = some r) (order : Order) :
    (k.next sha256 (.check a pub order)).store = r.1 := by
  obtain ⟨s, saved⟩ := r
  cases saved with
  | false => simp only [Kept.next, hr]
  | true =>
    simp only [Kept.next, hr]
    rfl

/-- The address of a key is accepted for another one only after the key was forgotten or pinned at
more than sixteen other addresses. -/
theorem released {pub' : PublicKey} {order : Order} {mid : List StoreOp} (hk : k.Sound sha256)
    (hmid : ∀ op ∈ StoreOp.check a pub order :: mid, op.Readable)
    (hfirst : (k.store.check sha256 a pub).isSome = true) (hne : pub' ≠ pub)
    (hsecond : ((run (next sha256) k (.check a pub order :: mid)).store.check sha256 a pub').isSome =
      true) :
    (∃ x ∈ trail (next sha256) (k.next sha256 (.check a pub order)) mid, forgets pub x = true) ∨
      16 < ((pinnedIn sha256 pub
        (trail (next sha256) (k.next sha256 (.check a pub order)) mid)).erase a).card := by
  obtain ⟨r, hr⟩ := Option.isSome_iff_exists.mp hfirst
  obtain ⟨v, hv, rfl, -⟩ := Store.pinned_of_check hr
  rw [← next_check hr order] at hv
  obtain ⟨hcheck, hmid⟩ := List.forall_mem_cons.mp hmid
  have hstart : Remembers sha256 pub v.vpnAddr [] (k.next sha256 (.check v.vpnAddr pub order)) :=
    .inr ⟨v, hv, since_cons v.prevVPNAddrs⟩
  have hk' := hk.next hcheck
  rcases remembers_run hk' hmid hstart with hforgets | ⟨w, hw, hsince⟩
  · exact .inl hforgets
  · refine .inr (hsince.le_card fun hmem => hne ?_)
    have howner := (sound_run hk' hmid).exact.check_isSome_iff.mp hsecond _ w hw hmem
    exact (pubKeyString_inj howner).symm

/-- In every run in which keys are pinned at UTF-8 addresses: the index has exactly the current
address and the at most sixteen previous ones of every pin; no two pins share one; a check succeeds
exactly if no other key has the address, and then pins the key there; an address is accepted for
another key only after its own was forgotten or pinned at more than sixteen others; and the file is
read back as the store. -/
theorem trust_holds {ops : List StoreOp} (h : ∀ op ∈ ops, op.Readable) :
    let k := reached sha256 ops
    (∀ a p, k.store.vpnToPub.lookup a = some p ↔
      ∃ v, k.store.pins.lookup p = some v ∧ (a = v.vpnAddr ∨ a ∈ v.prevVPNAddrs)) ∧
    (∀ p v, k.store.pins.lookup p = some v → v.prevVPNAddrs.length ≤ 16) ∧
    (∀ p q v w a, k.store.pins.lookup p = some v → k.store.pins.lookup q = some w →
      a ∈ v.addresses → a ∈ w.addresses → p = q) ∧
    (∀ a pub, (k.store.check sha256 a pub).isSome = true ↔
      ∀ p v, k.store.pins.lookup p = some v → a ∈ v.addresses → p = pubKeyString pub) ∧
    (∀ a pub order, (k.store.check sha256 a pub).isSome = true →
      ∃ v, (k.next sha256 (.check a pub order)).store.pins.lookup (pubKeyString pub) = some v ∧
        v.vpnAddr = a) ∧
    (∀ past a pub order mid pub', ops = past ++ .check a pub order :: mid →
      ((reached sha256 past).store.check sha256 a pub).isSome = true → pub' ≠ pub →
      (k.store.check sha256 a pub').isSome = true →
      let since := trail (next sha256) (reached sha256 (past ++ [.check a pub order])) mid
      (∃ x ∈ since, forgets pub x = true) ∨ 16 < ((pinnedIn sha256 pub since).erase a).card) ∧
    k.store.Same (Store.load k.file) := by
  intro k
  have hk : k.Sound sha256 := sound_run sound_new h
  refine ⟨?_, hk.exact.bounded, ?_, ?_, ?_, ?_, hk.same_load⟩
  · intro a p
    constructor
    · intro ha
      obtain ⟨v, hv, hmem⟩ := hk.exact.owner a p ha
      exact ⟨v, hv, List.mem_cons.mp hmem⟩
    · rintro ⟨v, hv, hmem⟩
      exact hk.exact.reserved p v a hv (List.mem_cons.mpr hmem)
  · intro p q v w a hv hw ha ha'
    have hp := hk.exact.reserved p v a hv ha
    exact Option.mem_unique hp (hk.exact.reserved q w a hw ha')
  · exact fun a pub => hk.exact.check_isSome_iff
  · intro a pub order hsome
    obtain ⟨r, hr⟩ := Option.isSome_iff_exists.mp hsome
    rw [next_check hr order]
    obtain ⟨v, hv, ha, -⟩ := Store.pinned_of_check hr
    exact ⟨v, hv, ha⟩
  · rintro past a pub order mid pub' rfl hfirst hne hsecond
    obtain ⟨hpast, hrest⟩ := List.forall_mem_append.mp h
    have hsecond : ((run (next sha256) (reached sha256 past) (.check a pub order :: mid)).store.check
        sha256 a pub').isSome = true := by
      rw [reached, ← run_append]
      exact hsecond
    rw [reached, run_snoc]
    exact released (sound_run sound_new hpast) hrest hfirst hne hsecond

end Kept

namespace Sample

/-- A digest for samples. -/
def digest (b : Bytes) : Digest :=
  ⟨(b ++ List.replicate 32 0).take 32, by rw [List.length_take, List.length_append]; simp⟩

def alice : PublicKey := ⟨List.replicate 32 0xA1, rfl⟩

def bob : PublicKey := ⟨List.replicate 32 0xB0, rfl⟩

/-- The map is iterated in the order of its entries. -/
def inOrder : Order := ⟨id, fun _ => .refl _⟩

/-- A key is pinned at an address, and the store is reloaded. -/
def restarted (vpnAddr : Bytes) : List StoreOp := [.check vpnAddr alice inOrder, .reload]

end Sample

namespace Kept

/-- An address is still its key's after a restart. -/
theorem trust_holds_restarted :
    let k := reached Sample.digest (Sample.restarted [0x31, 0x30])
    (k.store.check Sample.digest [0x31, 0x30] Sample.bob).isSome = false ∧
      k.store.Same (Store.load k.file) :=
  ⟨by decide +kernel, (trust_holds (by decide +kernel)).2.2.2.2.2.2⟩

/-- An address that is not UTF-8 is not read back, and after a restart it is accepted for another
key, although its own was neither forgotten nor pinned elsewhere. -/
theorem unreadable_address_released :
    let k := reached Sample.digest [.check [0xFF] Sample.alice Sample.inOrder]
    let k' := reached Sample.digest (Sample.restarted [0xFF])
    (k.store.check Sample.digest [0xFF] Sample.bob).isSome = false ∧
      (k'.store.check Sample.digest [0xFF] Sample.bob).isSome = true ∧
      ¬k.store.Same (Store.load k.file) := by
  refine ⟨by decide +kernel, by decide +kernel, fun h => ?_⟩
  exact absurd (h.index [0xFF]) (by decide +kernel)

end Kept

end Veld.Tofu
