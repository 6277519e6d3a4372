import Veld.Core.Framing
import Veld.Core.Overlap
import Veld.Core.Run

/-!
# The relay path

Datagrams from one data-plane socket to the other: `udpToStream` and
`WriteMessage` at the sending proxy, `splice` at the relay, `ReadMessage` and
`streamToUDP` at the receiving proxy. Each goroutine takes its steps at any time,
TCP hands over any number of bytes, a cipher state is an ideal channel and the
loopback loses nothing. What is on the way is at every moment the next part of
what was sent, and every step brings it closer to the end.
-/

namespace Veld.Relay

open Netip

/-- A pair of Noise cipher states, one at each end, as an ideal channel: only what was encrypted as
the message of a number decrypts as this message. -/
structure Cipher where
  encrypt : Nat → Bytes → Bytes
  decrypt : Nat → Bytes → Option Bytes
  length_encrypt : ∀ n m, (encrypt n m).length = m.length + 16
  decrypt_eq_some : ∀ n c m, decrypt n c = some m ↔ c = encrypt n m

/-- `maxMessage`. -/
def maxMessage : Nat := 0xFFFF - 16

/-- A datagram with the address it comes from. -/
structure Datagram where
  src : AddrPort
  payload : Bytes

/-- A datagram of the daemon's own socket. -/
def fromDaemon (target src : AddrPort) : Bool :=
  src.port = target.port && (src.addr.unmap = target.addr.unmap || src.addr.isLoopback)

/-- One direction of an encrypted connection. -/
structure Channel extends Link where
  /-- The nonce of the sender. -/
  sent : Nat := 0
  /-- The nonce of the receiver. -/
  received : Nat := 0
  /-- The frames that were to be written so far. -/
  frames : List Bytes := []

/-- `WriteFrame`, and whether it accepts the frame. The writer gets rid of the bytes later. -/
def writeFrame (c : Channel) (msg : Bytes) : Channel × Bool :=
  let c := { c with frames := c.frames ++ [msg] }
  if msg.length > 0xFFFF then (c, false) else ({ c with left := msg.prefixed 2 }, true)

/-- `WriteMessage`. -/
def writeMessage (cipher : Cipher) (c : Channel) (b : Bytes) : Channel × Bool :=
  if b.length > maxMessage then (c, false)
  else writeFrame { c with sent := c.sent + 1 } (cipher.encrypt c.sent b)

/-- `ReadFrame` has returned: the frame, and the reader is at the next one. -/
def readFrame (c : Channel) : Option (Bytes × Channel) :=
  if Link.need 2 c.got = 0 then some (c.got.drop 2, { c with got := [] }) else none

/-- `Decrypt` with the nonce of the receiver, which counts on success. -/
def decrypt (cipher : Cipher) (c : Channel) (frame : Bytes) : Option (Bytes × Channel) :=
  (cipher.decrypt c.received frame).map fun plain => (plain, { c with received := c.received + 1 })

/-- The two connections of a spliced channel in one direction, with the sockets at the ends. -/
structure Path where
  /-- The datagrams the sending proxy has not read yet. -/
  udp : List Datagram
  /-- From the sending proxy to the relay. -/
  up : Channel := {}
  /-- From the relay to the receiving proxy. -/
  down : Channel := {}
  /-- What the data-plane socket at the other end has received. -/
  out : List Bytes := []
  /-- A proxy or the relay has closed the channel. -/
  closed : Bool := false

namespace Path

variable {frame : Bytes} {c' : Channel} {r : Bytes × Channel}

/-- One iteration of `udpToStream`, once the last frame is written. -/
def udpToStream (target : AddrPort) (cipher : Cipher) (s : Path) : Path :=
  match s.udp with
  | [] => s
  | d :: udp =>
    if s.up.left = [] then
      let buf := d.payload.take 65535
      if !fromDaemon target d.src then { s with udp }
      else if buf.length + 2 > maxMessage then { s with udp }
      else
        let (up, ok) := writeMessage cipher s.up (Bytes.ofNatBE 2 buf.length ++ buf)
        { s with udp, up, closed := !ok }
    else s

/-- One iteration of `splice`, after `ReadFrame` returned and the last frame is written. -/
def splice (cipherUp cipherDown : Cipher) (s : Path) : Path :=
  if s.down.left = [] then
    match readFrame s.up with
    | none => s
    | some (frame, up) =>
      match decrypt cipherUp up frame with
      | none => { s with up, closed := true }
      | some (plain, up) =>
        let (down, ok) := writeFrame { s.down with sent := s.down.sent + 1 }
          (cipherDown.encrypt s.down.sent plain)
        { s with up, down, closed := !ok }
  else s

/-- One iteration of `streamToUDP`, after `ReadFrame` returned. -/
def streamToUDP (cipher : Cipher) (s : Path) : Path :=
  match readFrame s.down with
  | none => s
  | some (frame, down) =>
    match decrypt cipher down frame with
    | none => { s with down, closed := true }
    | some (frame, down) =>
      if frame.length < 2 then { s with down }
      else if Bytes.beNat (frame.take 2) ≠ frame.length - 2 then { s with down }
      else { s with down, out := s.out ++ [frame.drop 2] }

/-- What may happen next. -/
inductive Move
  | udpToStream
  | splice
  | streamToUDP
  /-- Bytes of the sending proxy get onto the wire. -/
  | writeUp (n : Nat)
  /-- The relay gets bytes of the sending proxy. -/
  | readUp (n : Nat)
  /-- Bytes of the relay get onto the wire. -/
  | writeDown (n : Nat)
  /-- The receiving proxy gets bytes of the relay. -/
  | readDown (n : Nat)

variable (target : AddrPort) (cipherUp cipherDown : Cipher)

/-- One step of an open path. The relay reads only after it has written its last frame. -/
def move (s : Path) : Move → Path
  | .udpToStream => s.udpToStream target cipherUp
  | .splice => s.splice cipherUp cipherDown
  | .streamToUDP => s.streamToUDP cipherDown
  | .writeUp n => { s with up := { s.up with toLink := s.up.write n } }
  | .readUp n =>
    if s.down.left = [] then { s with up := { s.up with toLink := s.up.read 2 n } } else s
  | .writeDown n => { s with down := { s.down with toLink := s.down.write n } }
  | .readDown n => { s with down := { s.down with toLink := s.down.read 2 n } }

/-- One step of the path; nothing happens on a closed one. -/
def next (s : Path) (i : Move) : Path :=
  if s.closed then s else s.move target cipherUp cipherDown i

/-- The datagrams of the daemon that a frame has room for. -/
def carried (ds : List Datagram) : List Bytes :=
  (ds.filter fun d => fromDaemon target d.src && d.payload.length ≤ 65517).map (·.payload)

/-- The bytes of some datagrams on an encrypted connection, from some nonce on. -/
def sealed (cipher : Cipher) : Nat → List Bytes → Bytes
  | _, [] => []
  | n, d :: ds => (cipher.encrypt n (d.prefixed 2)).prefixed 2 ++ sealed cipher (n + 1) ds

/-- A connection carries some datagrams. -/
structure Holds (cipher : Cipher) (c : Channel) (ds : List Bytes) : Prop where
  content : c.content = sealed cipher c.received ds
  sent : c.sent = c.received + ds.length
  inFrame : c.InFrame 2
  fits : ∀ d ∈ ds, d.length ≤ 65517
  frames : ∀ f ∈ c.frames, f.length ≤ 0xFFFF

/-- The path carries what was sent and has not arrived. -/
def Carries (all : List Bytes) (s : Path) : Prop :=
  s.closed = false ∧ ∃ ups downs, Holds cipherUp s.up ups ∧ Holds cipherDown s.down downs ∧
    all = s.out ++ downs ++ ups ++ carried target s.udp

/-- What is left to do: every byte has six places to pass. -/
def work (s : Path) : Nat :=
  (s.udp.map fun d => 6 * (d.payload.length + 20) + 1).sum + s.up.weight 6 5 4 + s.down.weight 3 2 1

variable {target cipherUp cipherDown} {cipher : Cipher} {c : Channel} {d : Bytes} {ds : List Bytes}
  {s : Path}

theorem sealed_concat (n : Nat) (ds : List Bytes) (d : Bytes) :
    sealed cipher n (ds ++ [d]) =
      sealed cipher n ds ++ (cipher.encrypt (n + ds.length) (d.prefixed 2)).prefixed 2 := by
  induction ds generalizing n with
  | nil => simp [sealed]
  | cons e ds ih =>
    have hn : n + 1 + ds.length = n + (e :: ds).length := by
      rw [List.length_cons]
      omega
    rw [List.cons_append, sealed, ih, hn, sealed, List.append_assoc]

theorem length_encrypt_prefixed (cipher : Cipher) (n : Nat) (d : Bytes) :
    (cipher.encrypt n (d.prefixed 2)).length = d.length + 18 := by
  rw [cipher.length_encrypt, Bytes.length_prefixed]
  omega

theorem Holds.nil (cipher : Cipher) : Holds cipher {} [] where
  content := rfl
  sent := rfl
  inFrame := .inl (Nat.zero_le _)
  fits := nofun
  frames := nofun

theorem Holds.write (h : Holds cipher c ds) (n : Nat) :
    Holds cipher { c with toLink := c.write n } ds :=
  { h with content := Link.content_write.trans h.content, inFrame := h.inFrame }

theorem Holds.read (h : Holds cipher c ds) (n : Nat) :
    Holds cipher { c with toLink := c.read 2 n } ds :=
  { h with content := Link.content_read.trans h.content, inFrame := Link.inFrame_read h.inFrame }

/-- A frame for a datagram fits and goes to the end of the connection. -/
theorem Holds.writeFrame (h : Holds cipher c ds) (hleft : c.left = []) (hd : d.length ≤ 65517) :
    (writeFrame { c with sent := c.sent + 1 } (cipher.encrypt c.sent (d.prefixed 2))).2 = true ∧
      Holds cipher (writeFrame { c with sent := c.sent + 1 }
        (cipher.encrypt c.sent (d.prefixed 2))).1 (ds ++ [d]) := by
  have hlen := length_encrypt_prefixed cipher c.sent d
  have hfits : ¬(cipher.encrypt c.sent (d.prefixed 2)).length > 0xFFFF := by omega
  simp only [Relay.writeFrame, hfits, ite_false, true_and]
  constructor
  · have hold := h.content
    rw [Link.content, hleft, List.append_nil] at hold
    rw [Link.content, hold, sealed_concat, h.sent]
  · rw [List.length_append, List.length_singleton, h.sent]
    rfl
  · exact h.inFrame
  · intro e he
    rcases List.mem_append.mp he with he | he
    · exact h.fits e he
    · rw [List.mem_singleton.mp he]
      exact hd
  · intro f hf
    rcases List.mem_append.mp hf with hf | hf
    · exact h.frames f hf
    · rw [List.mem_singleton.mp hf]
      omega

/-- A frame that was read is that of the first datagram. -/
theorem Holds.readFrame (h : Holds cipher c ds) (hread : readFrame c = some (frame, c')) :
    ∃ d ds', ds = d :: ds' ∧ decrypt cipher c' frame =
        some (d.prefixed 2, { c' with received := c.received + 1 }) ∧
      Holds cipher { c' with received := c.received + 1 } ds' := by
  unfold Relay.readFrame at hread
  split at hread
  · rename_i hneed
    obtain ⟨rfl, rfl⟩ := Prod.mk.inj (Option.some.inj hread)
    cases ds with
    | nil =>
      have hgot : c.got = [] := by
        have hnil := h.content
        rw [sealed, Link.content, List.append_assoc] at hnil
        exact (List.append_eq_nil_iff.mp hnil).1
      rw [hgot] at hneed
      cases hneed
    | cons d ds =>
      have hd := h.fits d List.mem_cons_self
      have hlen := length_encrypt_prefixed cipher c.received d
      obtain ⟨hgot, hrest⟩ := Link.got_eq_of_need_eq_zero h.inFrame hneed (by omega) h.content
      refine ⟨d, ds, rfl, ?_, ?_⟩
      · have hplain : cipher.decrypt c.received (cipher.encrypt c.received (d.prefixed 2)) =
            some (d.prefixed 2) := (cipher.decrypt_eq_some _ _ _).mpr rfl
        simp [Relay.decrypt, hgot, Bytes.drop_prefixed, hplain]
      · constructor
        · exact hrest
        · have hsent := h.sent
          rw [List.length_cons] at hsent
          show c.sent = c.received + 1 + ds.length
          omega
        · exact .inl (Nat.zero_le _)
        · exact fun e he => h.fits e (List.mem_cons_of_mem _ he)
        · exact h.frames
  · cases hread

theorem carried_cons (x : Datagram) (xs : List Datagram) :
    carried target (x :: xs) =
      (if fromDaemon target x.src && x.payload.length ≤ 65517 then [x.payload] else []) ++
        carried target xs := by
  rw [carried, List.filter_cons]
  split
  · rfl
  · rfl

variable {all : List Bytes}

/-- The sending proxy passes on a datagram that fits and drops any other. -/
theorem Carries.udpToStream (h : Carries target cipherUp cipherDown all s) :
    Carries target cipherUp cipherDown all (s.udpToStream target cipherUp) := by
  obtain ⟨hopen, ups, downs, hup, hdown, hall⟩ := h
  unfold Path.udpToStream
  split
  · exact ⟨hopen, ups, downs, hup, hdown, hall⟩
  · rename_i x udp hudp
    rw [hudp, carried_cons] at hall
    split
    · rename_i hleft
      by_cases hsrc : fromDaemon target x.src = true
      · by_cases hsize : x.payload.length ≤ 65517
        · have hbuf : x.payload.take 65535 = x.payload := List.take_of_length_le (by omega)
          have hmax : ¬x.payload.length + 2 > maxMessage := by
            rw [maxMessage]
            omega
          have hmsg : ¬(Bytes.ofNatBE 2 x.payload.length ++ x.payload).length > maxMessage := by
            rw [List.length_append, Bytes.length_ofNatBE]
            omega
          obtain ⟨hok, hput⟩ := hup.writeFrame hleft hsize
          simp only [hsrc, hbuf, hmax, writeMessage, hmsg, Bool.not_true, Bool.false_eq_true,
            ite_false]
          refine ⟨?_, ups ++ [x.payload], downs, hput, hdown, ?_⟩
          · exact congrArg (!·) hok
          · simpa [hsrc, hsize] using hall
        · have hmax : (x.payload.take 65535).length + 2 > maxMessage := by
            rw [List.length_take, maxMessage]
            omega
          simp only [hsrc, hmax, Bool.not_true, Bool.false_eq_true, ite_false, ite_true]
          exact ⟨hopen, ups, downs, hup, hdown, by simpa [hsize] using hall⟩
      · simp only [hsrc, Bool.not_false, ite_true]
        exact ⟨hopen, ups, downs, hup, hdown, by simpa [hsrc] using hall⟩
    · exact ⟨hopen, ups, downs, hup, hdown, by rw [hudp, carried_cons]; exact hall⟩

/-- The relay passes on the first datagram of the one connection as the last of the other. -/
theorem Carries.splice (h : Carries target cipherUp cipherDown all s) :
    Carries target cipherUp cipherDown all (s.splice cipherUp cipherDown) := by
  obtain ⟨hopen, ups, downs, hup, hdown, hall⟩ := h
  unfold Path.splice
  split
  · rename_i hleft
    cases hread : readFrame s.up with
    | none => exact ⟨hopen, ups, downs, hup, hdown, hall⟩
    | some r =>
      obtain ⟨frame, up⟩ := r
      obtain ⟨d, ups', rfl, hdec, hup'⟩ := hup.readFrame hread
      obtain ⟨hok, hput⟩ := hdown.writeFrame hleft (hup.fits d List.mem_cons_self)
      simp only [hdec]
      refine ⟨congrArg (!·) hok, ups', downs ++ [d], hup', hput, ?_⟩
      simpa using hall
  · exact ⟨hopen, ups, downs, hup, hdown, hall⟩

/-- The receiving proxy hands over the first datagram. -/
theorem Carries.streamToUDP (h : Carries target cipherUp cipherDown all s) :
    Carries target cipherUp cipherDown all (s.streamToUDP cipherDown) := by
  obtain ⟨hopen, ups, downs, hup, hdown, hall⟩ := h
  unfold Path.streamToUDP
  cases hread : readFrame s.down with
  | none => exact ⟨hopen, ups, downs, hup, hdown, hall⟩
  | some r =>
    obtain ⟨frame, down⟩ := r
    obtain ⟨d, downs', rfl, hdec, hdown'⟩ := hdown.readFrame hread
    have hd := hdown.fits d List.mem_cons_self
    have hshort : ¬(d.prefixed 2).length < 2 := by
      rw [Bytes.length_prefixed]
      omega
    have hn : ¬Bytes.beNat ((d.prefixed 2).take 2) ≠ (d.prefixed 2).length - 2 := by
      rw [not_not, Bytes.take_prefixed, Bytes.beNat_ofNatBE (by omega), Bytes.length_prefixed]
      omega
    simp only [hdec, hshort, hn, ite_false, Bytes.drop_prefixed]
    refine ⟨hopen, ups, downs', hup, hdown', ?_⟩
    simpa using hall

theorem next_of_open (h : s.closed = false) (i : Move) :
    s.next target cipherUp cipherDown i = s.move target cipherUp cipherDown i := by
  rw [next, h, if_neg Bool.false_ne_true]

/-- Every step keeps what was sent on its way. -/
theorem Carries.next (h : Carries target cipherUp cipherDown all s) (i : Move) :
    Carries target cipherUp cipherDown all (s.next target cipherUp cipherDown i) := by
  obtain ⟨hopen, ups, downs, hup, hdown, hall⟩ := id h
  rw [next_of_open hopen]
  cases i with
  | udpToStream => exact h.udpToStream
  | splice => exact h.splice
  | streamToUDP => exact h.streamToUDP
  | writeUp n => exact ⟨hopen, ups, downs, hup.write n, hdown, hall⟩
  | readUp n =>
    simp only [Path.move]
    split
    · exact ⟨hopen, ups, downs, hup.read n, hdown, hall⟩
    · exact h
  | writeDown n => exact ⟨hopen, ups, downs, hup, hdown.write n, hall⟩
  | readDown n => exact ⟨hopen, ups, downs, hup, hdown.read n, hall⟩

theorem readFrame_eq_some : readFrame c = some (frame, c') ↔
      Link.need 2 c.got = 0 ∧ c.got.drop 2 = frame ∧ { c with got := [] } = c' := by
  unfold readFrame
  split
  · rename_i h
    simp [h]
  · rename_i h
    simp [h]

/-- A frame that was read gives its bytes back. -/
theorem weight_readFrame (h : readFrame c = some (frame, c'))
    (a b p : Nat) : c.weight a b p = c'.weight a b p + p * (frame.length + 2) := by
  obtain ⟨hneed, rfl, rfl⟩ := readFrame_eq_some.mp h
  have hlen := Link.le_length_of_need_eq_zero hneed
  have hgot : (c.got.drop 2).length + 2 = c.got.length := by
    rw [List.length_drop]
    omega
  rw [hgot]
  simp [Link.weight]

/-- A frame costs its bytes and those of its length. -/
theorem weight_writeFrame_le (hleft : c.left = []) (msg : Bytes) (a b p : Nat) :
    (writeFrame c msg).1.weight a b p ≤ c.weight a b p + a * (msg.length + 2) := by
  unfold writeFrame
  simp only
  split
  · exact Nat.le_add_right _ _
  · simp only [Link.weight, hleft, List.length_nil, Bytes.length_prefixed, Nat.add_comm 2]
    omega

theorem weight_decrypt {frame plain : Bytes} (h : decrypt cipher c frame = some (plain, c')) :
    c'.toLink = c.toLink ∧ frame.length = plain.length + 16 := by
  obtain ⟨m, hm, heq⟩ := Option.map_eq_some_iff.mp h
  obtain ⟨rfl, rfl⟩ := Prod.mk.inj heq
  rw [(cipher.decrypt_eq_some _ _ _).mp hm, cipher.length_encrypt]
  exact ⟨rfl, rfl⟩

theorem work_udpToStream_lt (h : s.udpToStream target cipher ≠ s) :
    (s.udpToStream target cipher).work < s.work := by
  cases hudp : s.udp with
  | nil =>
    simp only [Path.udpToStream, hudp, ne_eq, not_true_eq_false] at h
  | cons x udp =>
    by_cases hleft : s.up.left = []
    · have hwork : s.work = 6 * (x.payload.length + 20) + 1 +
          (udp.map fun d => 6 * (d.payload.length + 20) + 1).sum + s.up.weight 6 5 4 +
            s.down.weight 3 2 1 := by
        rw [work, hudp, List.map_cons, List.sum_cons]
      have hdrop : ({ s with udp } : Path).work < s.work := by
        rw [hwork]
        simp only [work]
        omega
      simp only [Path.udpToStream, hudp, hleft, ite_true]
      split
      · exact hdrop
      · split
        · exact hdrop
        · unfold writeMessage
          split
          · exact hdrop
          · have hbuf : (Bytes.ofNatBE 2 (x.payload.take 65535).length ++
                x.payload.take 65535).length ≤ x.payload.length + 2 := by
              rw [List.length_append, Bytes.length_ofNatBE, List.length_take]
              omega
            have hle := weight_writeFrame_le (c := { s.up with sent := s.up.sent + 1 }) hleft
              (cipher.encrypt s.up.sent (Bytes.ofNatBE 2 (x.payload.take 65535).length ++
                x.payload.take 65535)) 6 5 4
            rw [cipher.length_encrypt] at hle
            rw [hwork]
            simp only [work] at hle ⊢
            omega
    · simp only [Path.udpToStream, hudp, hleft, ite_false, ne_eq, not_true_eq_false] at h

theorem work_splice_lt (h : s.splice cipherUp cipherDown ≠ s) :
    (s.splice cipherUp cipherDown).work < s.work := by
  by_cases hleft : s.down.left = []
  · cases hread : readFrame s.up with
    | none => simp only [Path.splice, hleft, ite_true, hread, ne_eq, not_true_eq_false] at h
    | some r =>
      obtain ⟨frame, up⟩ := r
      have hup := weight_readFrame hread 6 5 4
      simp only [Path.splice, hleft, ite_true, hread]
      cases hdec : decrypt cipherUp up frame with
      | none =>
        simp only [work]
        omega
      | some r =>
        obtain ⟨plain, up'⟩ := r
        obtain ⟨hlink, hlen⟩ := weight_decrypt hdec
        -- a byte that is passed on has three places to go instead of four
        have hdown := weight_writeFrame_le (c := { s.down with sent := s.down.sent + 1 }) hleft
          (cipherDown.encrypt s.down.sent plain) 3 2 1
        rw [cipherDown.length_encrypt] at hdown
        simp only [work, hlink] at hdown ⊢
        omega
  · simp only [Path.splice, hleft, ite_false, ne_eq, not_true_eq_false] at h

theorem work_streamToUDP_lt (h : s.streamToUDP cipher ≠ s) :
    (s.streamToUDP cipher).work < s.work := by
  cases hread : readFrame s.down with
  | none => simp only [Path.streamToUDP, hread, ne_eq, not_true_eq_false] at h
  | some r =>
    obtain ⟨frame, down⟩ := r
    have hdown := weight_readFrame hread 3 2 1
    simp only [Path.streamToUDP, hread]
    cases hdec : decrypt cipher down frame with
    | none =>
      simp only [work]
      omega
    | some r =>
      obtain ⟨plain, down'⟩ := r
      obtain ⟨hlink, -⟩ := weight_decrypt hdec
      simp only
      split
      · simp only [work, hlink]
        omega
      · split
        · simp only [work, hlink]
          omega
        · simp only [work, hlink]
          omega

/-- Every step that does something leaves less to do. -/
theorem work_next_lt {i : Move} (h : s.next target cipherUp cipherDown i ≠ s) :
    (s.next target cipherUp cipherDown i).work < s.work := by
  cases hclosed : s.closed with
  | true => exact absurd (by rw [next, hclosed, if_pos rfl]) h
  | false =>
    rw [next_of_open hclosed] at h ⊢
    cases i with
    | udpToStream => exact work_udpToStream_lt h
    | splice => exact work_splice_lt h
    | streamToUDP => exact work_streamToUDP_lt h
    | writeUp n =>
      have hne : s.up.write n ≠ s.up.toLink := fun he => h (by simp only [move, he])
      have hlt := Link.weight_write_lt (a := 6) (b := 5) (c := 4) (by decide) hne
      simp only [move, work]
      omega
    | readUp n =>
      simp only [move] at h ⊢
      split at h
      · rename_i hleft
        have hne : s.up.read 2 n ≠ s.up.toLink := fun he => h (by rw [he])
        have hlt := Link.weight_read_lt (a := 6) (b := 5) (c := 4) (by decide) hne
        simp only [hleft, ite_true, work]
        omega
      · exact absurd rfl h
    | writeDown n =>
      have hne : s.down.write n ≠ s.down.toLink := fun he => h (by simp only [move, he])
      have hlt := Link.weight_write_lt (a := 3) (b := 2) (c := 1) (by decide) hne
      simp only [move, work]
      omega
    | readDown n =>
      have hne : s.down.read 2 n ≠ s.down.toLink := fun he => h (by simp only [move, he])
      have hlt := Link.weight_read_lt (a := 3) (b := 2) (c := 1) (by decide) hne
      simp only [move, work]
      omega

/-- A connection that neither side can do anything about is empty. -/
theorem Holds.eq_nil (h : Holds cipher c ds) (hleft : c.left = [])
    (hread : c.read 2 1 = c.toLink) (hframe : Relay.readFrame c = none) : ds = [] := by
  have hneed : Link.need 2 c.got ≠ 0 := by
    intro hzero
    rw [Relay.readFrame, if_pos hzero] at hframe
    cases hframe
  cases ds with
  | nil => rfl
  | cons d ds =>
    have hd := h.fits d List.mem_cons_self
    have hlen := length_encrypt_prefixed cipher c.received d
    have hmore := Link.ne_nil_of_need_ne_zero hneed (by omega) h.content
    rw [hleft, List.append_nil] at hmore
    exact absurd hread (Link.read_one_ne hmore hneed)

theorem udp_udpToStream (target : AddrPort) (cipher : Cipher) {x : Datagram} {udp : List Datagram}
    (hudp : s.udp = x :: udp) (hleft : s.up.left = []) :
    (s.udpToStream target cipher).udp = udp := by
  simp only [Path.udpToStream, hudp, hleft, ite_true]
  split
  · rfl
  · split <;> rfl

theorem got_splice (hleft : s.down.left = [])
    (hread : readFrame s.up = some r) : (s.splice cipherUp cipherDown).up.got = [] := by
  obtain ⟨frame, up⟩ := r
  obtain ⟨-, -, rfl⟩ := readFrame_eq_some.mp hread
  simp only [Path.splice, hleft, ite_true, hread]
  cases hdec : decrypt cipherUp { s.up with got := [] } frame with
  | none => rfl
  | some r => exact congrArg Link.got (weight_decrypt hdec).1

theorem got_streamToUDP (hread : readFrame s.down = some r) :
    (s.streamToUDP cipher).down.got = [] := by
  obtain ⟨frame, down⟩ := r
  obtain ⟨-, -, rfl⟩ := readFrame_eq_some.mp hread
  simp only [Path.streamToUDP, hread]
  cases hdec : decrypt cipher { s.down with got := [] } frame with
  | none => rfl
  | some r =>
    have hgot := congrArg Link.got (weight_decrypt hdec).1
    simp only
    split
    · exact hgot
    · split <;> exact hgot

theorem got_ne_nil (hread : readFrame c = some r) : c.got ≠ [] := by
  intro hnil
  have hlen := Link.le_length_of_need_eq_zero (readFrame_eq_some.mp hread).1
  rw [hnil] at hlen
  exact absurd hlen (by decide)

/-- Where nothing can happen any more, everything has arrived. -/
theorem Carries.out_eq (h : Carries target cipherUp cipherDown all s)
    (hquiet : ∀ i, s.next target cipherUp cipherDown i = s) : s.out = all := by
  obtain ⟨hopen, ups, downs, hup, hdown, hall⟩ := h
  have hmove (i : Move) : s.move target cipherUp cipherDown i = s :=
    (next_of_open hopen i).symm.trans (hquiet i)
  have hdownLeft : s.down.left = [] := by
    by_contra hne
    exact Link.write_one_ne hne (congrArg (·.down.toLink) (hmove (.writeDown 1)))
  have hupLeft : s.up.left = [] := by
    by_contra hne
    exact Link.write_one_ne hne (congrArg (·.up.toLink) (hmove (.writeUp 1)))
  have hudp : s.udp = [] := by
    cases hudp : s.udp with
    | nil => rfl
    | cons x udp =>
      have hrest := udp_udpToStream target cipherUp hudp hupLeft
      have hsame := congrArg (·.udp) (hmove .udpToStream)
      rw [show (s.move target cipherUp cipherDown .udpToStream).udp = udp from hrest, hudp] at hsame
      exact absurd hsame (List.ne_cons_self)
  have hdowns : downs = [] := by
    refine hdown.eq_nil hdownLeft (congrArg (·.down.toLink) (hmove (.readDown 1))) ?_
    cases hread : readFrame s.down with
    | none => rfl
    | some r =>
      have hgot : (s.move target cipherUp cipherDown .streamToUDP).down.got = [] :=
        got_streamToUDP hread
      rw [hmove] at hgot
      exact absurd hgot (got_ne_nil hread)
  have hups : ups = [] := by
    have hreadUp := hmove (.readUp 1)
    simp only [move, hdownLeft, ite_true] at hreadUp
    refine hup.eq_nil hupLeft (congrArg (·.up.toLink) hreadUp) ?_
    cases hread : readFrame s.up with
    | none => rfl
    | some r =>
      have hgot : (s.move target cipherUp cipherDown .splice).up.got = [] :=
        got_splice hdownLeft hread
      rw [hmove] at hgot
      exact absurd hgot (got_ne_nil hread)
  rw [hall, hdowns, hups, hudp, List.append_nil, List.append_nil]
  exact (List.append_nil _).symm

end Path

end Veld.Relay
