import Veld.Core.Encoding

/-!
# Frames on a byte stream

A sender writes frames, each after its length, onto a byte stream in parts of any
size; a receiver reads the length and then the frame, in parts of any size, and
never beyond the end of the frame. Wherever the parts end, the bytes that are
read, on the way and not yet written are those of the frames in their order, so
a frame that was read completely is the next one that was sent.
-/

namespace Veld

namespace Bytes

theorem beNat_concat (b : Bytes) (x : UInt8) : beNat (b ++ [x]) = beNat b * 256 + x.toNat := by
  rw [beNat, List.foldl_append, List.foldl_cons, List.foldl_nil, ← beNat]

theorem beNat_ofNatBE {k n : Nat} (h : n < 256 ^ k) : beNat (ofNatBE k n) = n := by
  induction k generalizing n with
  | zero =>
    rw [Nat.pow_zero, Nat.lt_one_iff] at h
    rw [h]
    rfl
  | succ k ih =>
    have hdiv : n / 256 < 256 ^ k := Nat.div_lt_of_lt_mul (by rwa [← Nat.pow_succ'])
    rw [ofNatBE, beNat_concat, ih hdiv, UInt8.toNat_ofNat']
    omega

theorem getElem?_behind (before b : Bytes) (i : Nat) : (before ++ b)[before.length + i]? = b[i]? := by
  rw [List.getElem?_append_right (Nat.le_add_right _ _), Nat.add_sub_cancel_left]

theorem uint16At_behind (before b : Bytes) (i : Nat) :
    (before ++ b).uint16At (before.length + i) = b.uint16At i := by
  have hlen : before.length + i + 2 ≤ (before ++ b).length ↔ i + 2 ≤ b.length := by
    rw [List.length_append]
    omega
  have hsub : before.length + i + 2 - (before.length + i) = i + 2 - i := by omega
  simp only [uint16At, slice, hlen, hsub, List.drop_length_add_append, Nat.le_add_right, true_and]

theorem slice_append (before mid after : Bytes) {i j : Nat} (hi : before.length = i)
    (hj : i + mid.length = j) : (before ++ (mid ++ after)).slice i j = some mid := by
  subst hi hj
  have hle : before.length + mid.length ≤ (before ++ (mid ++ after)).length := by
    rw [List.length_append, List.length_append]
    omega
  rw [slice, if_pos ⟨Nat.le_add_right _ _, hle⟩, Nat.add_sub_cancel_left, List.drop_left,
    List.take_left]

theorem sliceFrom_append (before after : Bytes) {i : Nat} (hi : before.length = i) :
    (before ++ after).sliceFrom i = some after := by
  subst hi
  have hle : before.length ≤ (before ++ after).length := by
    rw [List.length_append]
    exact Nat.le_add_right _ _
  rw [sliceFrom, if_pos hle, List.drop_left]

theorem uint16At_ofNatBE {n : Nat} (h : n < 2 ^ 16) (rest : Bytes) :
    (ofNatBE 2 n ++ rest).uint16At 0 = some (UInt16.ofNat n) := by
  have hslice : (ofNatBE 2 n ++ rest).slice 0 2 = some (ofNatBE 2 n) := rfl
  have hread : beNat (ofNatBE 2 n) = n := beNat_ofNatBE h
  rw [uint16At, hslice, Option.map_some, hread]

theorem beNat_lt (b : Bytes) : beNat b < 256 ^ b.length := by
  induction b using List.reverseRecOn with
  | nil => exact Nat.one_pos
  | append_singleton b x ih =>
    have hx : x.toNat < 256 := x.toNat_lt
    rw [beNat_concat, List.length_append, List.length_singleton, Nat.pow_succ]
    omega

/-- Bytes are the number they write. -/
theorem ofNatBE_beNat (b : Bytes) : ofNatBE b.length (beNat b) = b := by
  induction b using List.reverseRecOn with
  | nil => rfl
  | append_singleton b x ih =>
    have hx : x.toNat < 256 := x.toNat_lt
    have hdiv : (beNat b * 256 + x.toNat) / 256 = beNat b := by omega
    have hmod : UInt8.ofNat (beNat b * 256 + x.toNat) = x := by
      rw [← UInt8.toNat_inj, UInt8.toNat_ofNat']
      omega
    rw [beNat_concat, List.length_append, List.length_singleton, ofNatBE, hdiv, ih, hmod]

/-- Only the last bytes of a number are written. -/
theorem ofNatBE_mod (k n : Nat) : ofNatBE k (n % 256 ^ k) = ofNatBE k n := by
  induction k generalizing n with
  | zero => rfl
  | succ k ih =>
    have hlast : UInt8.ofNat (n % (256 ^ k * 256)) = UInt8.ofNat n := by
      rw [← UInt8.toNat_inj, UInt8.toNat_ofNat', UInt8.toNat_ofNat']
      exact Nat.mod_mul_left_mod n _ 256
    rw [ofNatBE, ofNatBE, Nat.pow_succ, Nat.mod_mul_left_div_self, ih, hlast]

@[simp] theorem length_prefixed (k : Nat) (b : Bytes) : (prefixed k b).length = k + b.length := by
  rw [prefixed, List.length_append, length_ofNatBE]

theorem take_prefixed (k : Nat) (b : Bytes) : (prefixed k b).take k = ofNatBE k b.length :=
  List.take_left' (length_ofNatBE k b.length)

theorem drop_prefixed (k : Nat) (b : Bytes) : (prefixed k b).drop k = b :=
  List.drop_left' (length_ofNatBE k b.length)

end Bytes

/-- One direction of a connection that carries frames. -/
structure Link where
  /-- What the sender has not written yet. -/
  left : Bytes := []
  /-- What was written and not read yet. -/
  wire : Bytes := []
  /-- What the receiver has of the frame it reads. -/
  got : Bytes := []
  deriving DecidableEq

namespace Link

/-- How many bytes a receiver asks for: the rest of the length, then the rest of the frame. -/
def need (k : Nat) (got : Bytes) : Nat :=
  if got.length < k then k - got.length else k + Bytes.beNat (got.take k) - got.length

/-- The sender gets rid of some bytes. -/
def write (n : Nat) (l : Link) : Link :=
  { l with left := l.left.drop n, wire := l.wire ++ l.left.take n }

/-- The receiver gets some of the bytes that it asks for. -/
def read (k n : Nat) (l : Link) : Link :=
  { l with
    wire := l.wire.drop (min n (need k l.got))
    got := l.got ++ l.wire.take (min n (need k l.got)) }

/-- The receiver has not read beyond a frame. -/
def InFrame (k : Nat) (l : Link) : Prop :=
  l.got.length ≤ k ∨ l.got.length ≤ k + Bytes.beNat (l.got.take k)

/-- All that is on its way. -/
def content (l : Link) : Bytes := l.got ++ l.wire ++ l.left

variable {k n : Nat} {l : Link} {m rest : Bytes}

@[simp] theorem content_write : (l.write n).content = l.content := by
  simp [content, write]

@[simp] theorem content_read : (l.read k n).content = l.content := by
  simp only [content, read, List.append_assoc]
  rw [← List.append_assoc (l.wire.take _), List.take_append_drop]

theorem inFrame_read (h : l.InFrame k) : (l.read k n).InFrame k := by
  have hlen : (l.read k n).got.length ≤ l.got.length + need k l.got := by
    simp only [read, List.length_append, List.length_take]
    omega
  rw [need] at hlen
  split at hlen
  · exact .inl (by omega)
  · rename_i hk
    -- the length was read before and stays as it is
    have htake : (l.read k n).got.take k = l.got.take k :=
      List.take_append_of_le_length (by omega)
    rw [InFrame, htake]
    rcases h with h | h
    · exact .inr (by omega)
    · exact .inr (by omega)

theorem le_length_of_need_eq_zero (h : need k l.got = 0) : k ≤ l.got.length := by
  unfold need at h
  split at h <;> omega

/-- A frame that was read completely is the first one on the way. -/
theorem got_eq_of_need_eq_zero (hin : l.InFrame k) (h : need k l.got = 0)
    (hm : m.length < 256 ^ k) (hc : l.content = Bytes.prefixed k m ++ rest) :
    l.got = Bytes.prefixed k m ∧ l.wire ++ l.left = rest := by
  have hk := le_length_of_need_eq_zero h
  have htake : l.got.take k = Bytes.ofNatBE k m.length := by
    have hc' := congrArg (List.take k) hc
    rw [content, List.append_assoc, List.take_append_of_le_length hk,
      List.take_append_of_le_length (by simp), Bytes.take_prefixed] at hc'
    exact hc'
  have hlen : l.got.length = (Bytes.prefixed k m).length := by
    rw [need, if_neg (by omega), htake, Bytes.beNat_ofNatBE hm] at h
    rw [InFrame, htake, Bytes.beNat_ofNatBE hm] at hin
    rw [Bytes.length_prefixed]
    omega
  rw [content, List.append_assoc] at hc
  exact List.append_inj hc hlen

/-- While a frame is incomplete there is more of it to come. -/
theorem ne_nil_of_need_ne_zero (h : need k l.got ≠ 0) (hm : m.length < 256 ^ k)
    (hc : l.content = Bytes.prefixed k m ++ rest) : l.wire ++ l.left ≠ [] := by
  intro hnil
  rw [content, List.append_assoc, hnil, List.append_nil] at hc
  apply h
  have hlen : l.got.length = k + m.length + rest.length := by
    rw [hc, List.length_append, Bytes.length_prefixed]
  rw [need, if_neg (by omega), hc, List.take_append_of_le_length (by simp), Bytes.take_prefixed,
    Bytes.beNat_ofNatBE hm, ← hc]
  omega

/-- What is still to be done, at a price for each byte in each place. -/
def weight (a b c : Nat) (l : Link) : Nat :=
  a * l.left.length + b * l.wire.length + c * l.got.length

private theorem moved_lt {a b : Nat} (hab : b < a) (x y : Nat) {j : Nat} (hj : 0 < j) :
    a * x + b * (y + j) < a * (x + j) + b * y := by
  have hmul : b * j < a * j := Nat.mul_lt_mul_of_pos_right hab hj
  rw [Nat.mul_add, Nat.mul_add]
  omega

theorem weight_write_lt {a b c : Nat} (hab : b < a) (h : l.write n ≠ l) :
    (l.write n).weight a b c < l.weight a b c := by
  have hpos : 0 < min n l.left.length := by
    rw [Nat.pos_iff_ne_zero]
    intro hzero
    apply h
    rcases Nat.min_eq_zero_iff.mp hzero with hn | hl
    · simp [write, hn]
    · rw [List.length_eq_zero_iff] at hl
      obtain ⟨left, wire, got⟩ := l
      subst hl
      simp [write]
  have hsum : l.left.length = (l.left.length - n) + min n l.left.length := by omega
  have hlt := moved_lt hab (l.left.length - n) l.wire.length hpos
  rw [← hsum] at hlt
  simp only [weight, write, List.length_drop, List.length_append, List.length_take]
  omega

theorem weight_read_lt {a b c : Nat} (hbc : c < b) (h : l.read k n ≠ l) :
    (l.read k n).weight a b c < l.weight a b c := by
  have hpos : 0 < min (min n (need k l.got)) l.wire.length := by
    rw [Nat.pos_iff_ne_zero]
    intro hzero
    apply h
    rcases Nat.min_eq_zero_iff.mp hzero with hn | hl
    · simp [read, hn]
    · rw [List.length_eq_zero_iff] at hl
      obtain ⟨left, wire, got⟩ := l
      subst hl
      simp [read]
  have hsum : l.wire.length = (l.wire.length - min n (need k l.got)) +
      min (min n (need k l.got)) l.wire.length := by omega
  have hlt := moved_lt hbc (l.wire.length - min n (need k l.got)) l.got.length hpos
  rw [← hsum] at hlt
  simp only [weight, read, List.length_drop, List.length_append, List.length_take]
  omega

/-- Something can be written. -/
theorem write_one_ne (h : l.left ≠ []) : l.write 1 ≠ l := by
  intro he
  have hlen := congrArg (fun l : Link => l.left.length) he
  simp only [write, List.length_drop] at hlen
  have := List.length_pos_of_ne_nil h
  omega

/-- Something can be read. -/
theorem read_one_ne (hwire : l.wire ≠ []) (hneed : need k l.got ≠ 0) : l.read k 1 ≠ l := by
  intro he
  have hlen := congrArg (fun l : Link => l.wire.length) he
  simp only [read, List.length_drop] at hlen
  have := List.length_pos_of_ne_nil hwire
  omega

end Link

end Veld
