import PaxosWasm.Core.Changelog

/-!
# The framing loop

The loop by which a server cuts what it has buffered of a connection into messages. There are three
copies of it: in the network server and in the client server, components with a `usize` of 32 bits,
and in the native server with one of 64 bits. They ask in different words whether the next frame is
complete, and the sums in these words wrap. Where no sum wraps and no frame is rejected, a loop gives
the messages of the complete frames and leaves the unfinished rest (`receive_eq_ok_iff`).

The three copies are one definition with parameters (`Reader`): the width of `usize`, the form of the
question, and what is made of a frame. A run of the loop keeps the sums it computes (`Scan`), so that
"no sum wraps" is a statement about the run (`Scan.Safe`) and not about the bytes. A length that is too
large gets past the question, and the range behind it stops the component (`loop_of_overlong`).
-/

namespace PaxosWasm

open Library Changelog

/-- What a component stops at. -/
inductive Trap where
  /-- A range that is reversed or leaves the buffer. -/
  | slice (start stop length : Nat)
  /-- The `panic!` of `deserialize`. -/
  | deserialize (e : String)
  /-- The `expect` of `serialize`. -/
  | serialize (e : String)
  /-- An `unwrap` of `None`. -/
  | unwrap
  /-- A `Vec` of more than `isize::MAX` bytes. -/
  | capacity
  /-- A borrow of a `RefCell` that conflicts with a live one. -/
  | borrow
deriving DecidableEq, Repr

/-- `serializer::serialize`, which stops on a message that is too long. -/
def NetworkMessage.serialize (message : NetworkMessage) : Except Trap (List UInt8) :=
  (Serializer.serialize message).mapError .serialize

/-- `buf[start..stop]`. -/
def slice (buf : List UInt8) (start stop : Nat) : Except Trap (List UInt8) :=
  if start ≤ stop ∧ stop ≤ buf.length then .ok ((buf.drop start).take (stop - start))
  else .error (.slice start stop buf.length)

/-! ## The source of the loop -/

/-- How a loop asks what is there. -/
inductive Form where
  /-- `buf.len() - offset >= 4`, then `buf.len() < offset + 4 + len`. -/
  | absolute
  /-- `buf.len() - offset >= 4`, then `buf.len() - offset < 4 + len`. -/
  | relative
  /-- `b.len() >= offset + 4`, then `b.len() < offset + 4 + len`. -/
  | native
deriving DecidableEq, Repr

/-- A copy of the loop: the width of `usize`, its questions, and what it makes of a frame. -/
structure Reader (β : Type) where
  width : Nat
  le_width : 32 ≤ width
  form : Form
  /-- The message of a frame, if it is one the loop hands out; an error stops the component. -/
  decode : List UInt8 → Except String (Option β)

namespace Reader

variable {β : Type} (R : Reader β)

/-- Arithmetic of `usize` in a release build. -/
def usize (n : Nat) : Nat := n % 2 ^ R.width

/-- Less than a header is left. -/
def atEnd (length offset : Nat) : Bool :=
  match R.form with
  | .absolute => length - offset < 4
  | .relative => length - offset < 4
  | .native => length < R.usize (offset + 4)

/-- The sum in the question for the payload. -/
def sum (offset len : Nat) : Nat :=
  match R.form with
  | .absolute => offset + 4 + len
  | .relative => 4 + len
  | .native => offset + 4 + len

/-- The payload is not complete. -/
def short (length offset len : Nat) : Bool :=
  match R.form with
  | .absolute => length < R.usize (R.sum offset len)
  | .relative => length - offset < R.usize (R.sum offset len)
  | .native => length < R.usize (R.sum offset len)

/-- What one turn of the loop comes to. -/
inductive Turn (β : Type) where
  | stop
  | trap (t : Trap)
  | frame (msg : Option β) (offset : Nat)

/-- One turn of the loop at `offset`, and the sums with the length that it computes, not yet
reduced to the width. -/
def turn (buf : List UInt8) (offset : Nat) : List Nat × Turn β :=
  if R.atEnd buf.length offset then ([], .stop)
  else
    match slice buf offset (R.usize (offset + 4)) with
    | .error t => ([], .trap t)
    | .ok header =>
        let len := Serializer.fromBeBytes header
        if R.short buf.length offset len then ([R.sum offset len], .stop)
        else
          let sums := [R.sum offset len, offset + 4 + len]
          match slice buf (R.usize (offset + 4)) (R.usize (offset + 4 + len)) with
          | .error t => (sums, .trap t)
          | .ok payload =>
              -- the header is put back, so that the deserializer finds a whole frame
              let frame := Serializer.toBeBytes len ++ payload
              let sums := sums ++ [4 + len]
              match R.decode frame with
              | .error e => (sums, .trap (.deserialize e))
              | .ok msg => (sums, .frame msg (R.usize (offset + R.usize (4 + len))))

/-- A run of the loop: the sums it computes, its messages, and the offset it ends at. -/
structure Scan (β : Type) where
  sums : List Nat
  result : Except Trap (List β × Nat)

/-- The run, after turns with these sums and messages. -/
def Scan.behind (sums : List Nat) (msgs : List β) (rest : Scan β) : Scan β :=
  ⟨sums ++ rest.sums, rest.result.map (fun (more, stop) => (msgs ++ more, stop))⟩

def scan (buf : List UInt8) : Nat → Nat → Scan β
  | 0, offset => ⟨[], .ok ([], offset)⟩
  | fuel + 1, offset =>
      match R.turn buf offset with
      | (sums, .stop) => ⟨sums, .ok ([], offset)⟩
      | (sums, .trap t) => ⟨sums, .error t⟩
      | (sums, .frame msg offset) => (scan buf fuel offset).behind sums msg.toList

/-- The loop over a buffer; each turn but the last takes a header out of it. -/
def loop (buf : List UInt8) : Scan β := R.scan buf (buf.length + 1) 0

/-- `extend_from_slice`. -/
def extend (buf chunk : List UInt8) : Except Trap (List UInt8) :=
  if buf.length + chunk.length < 2 ^ (R.width - 1) then .ok (buf ++ chunk) else .error .capacity

/-- Take in a chunk that has been read: the messages, and the new buffer. -/
def receive (buf chunk : List UInt8) : Except Trap (List β × List UInt8) := do
  let buf ← R.extend buf chunk
  let (msgs, offset) ← (R.loop buf).result
  .ok (msgs, if offset > 0 then buf.drop offset else buf)

/-! ## One turn

A turn looks at the bytes behind its offset. A complete frame goes to the decoder; an unfinished one
ends the loop, unless the length it announces makes a sum wrap. -/

variable {R}

theorem usize_of_lt {n : Nat} (h : n < 2 ^ R.width) : R.usize n = n := Nat.mod_eq_of_lt h

variable (R) in
/-- The unfinished frame behind `offset` announces a length that makes a sum wrap. -/
def Overlong (offset : Nat) (tail : List UInt8) : Prop :=
  4 ≤ tail.length ∧ 2 ^ R.width ≤ R.sum offset (Serializer.fromBeBytes (tail.take 4))

instance (offset : Nat) (tail : List UInt8) : Decidable (R.Overlong offset tail) :=
  inferInstanceAs (Decidable (_ ∧ _))

section Turn

variable {buf : List UInt8} {offset : Nat}

theorem two_mul_half (R : Reader β) : 2 * 2 ^ (R.width - 1) = 2 ^ R.width ∧ 2 ^ 32 ≤ 2 ^ R.width := by
  have hle := R.le_width
  refine ⟨?_, Nat.pow_le_pow_right (by decide) hle⟩
  rw [← Nat.pow_succ', Nat.succ_eq_add_one, Nat.sub_add_cancel (by omega)]

theorem atEnd_iff (hbuf : buf.length < 2 ^ (R.width - 1)) (hoffset : offset ≤ buf.length) :
    R.atEnd buf.length offset = true ↔ (buf.drop offset).length < 4 := by
  obtain ⟨hhalf, hpow⟩ := R.two_mul_half
  have hwrap : R.usize (offset + 4) = offset + 4 := usize_of_lt (by omega)
  unfold atEnd
  rw [hwrap, List.length_drop]
  cases R.form <;> simp
  omega

/-- Both questions come to the same where no sum wraps. -/
theorem short_iff (hoffset : offset ≤ buf.length) {len : Nat} (hsum : R.sum offset len < 2 ^ R.width) :
    R.short buf.length offset len = true ↔ (buf.drop offset).length < 4 + len := by
  unfold short
  rw [usize_of_lt hsum]
  unfold sum
  rw [List.length_drop]
  cases R.form <;> simp <;> omega

theorem slice_eq_ok {start stop : Nat} (h : start ≤ stop) (h' : stop ≤ buf.length) :
    slice buf start stop = .ok ((buf.drop start).take (stop - start)) := if_pos ⟨h, h'⟩

theorem slice_header (hbuf : buf.length < 2 ^ (R.width - 1)) (hoffset : offset ≤ buf.length)
    (hheader : 4 ≤ (buf.drop offset).length) :
    slice buf offset (R.usize (offset + 4)) = .ok ((buf.drop offset).take 4) := by
  obtain ⟨hhalf, hpow⟩ := R.two_mul_half
  rw [List.length_drop] at hheader
  rw [usize_of_lt (by omega), slice_eq_ok (by omega) (by omega), Nat.add_sub_cancel_left]

/-- An unfinished frame ends the loop. -/
theorem turn_of_incomplete (hbuf : buf.length < 2 ^ (R.width - 1)) (hoffset : offset ≤ buf.length)
    (h : u32Frames.Incomplete (buf.drop offset)) (hover : ¬ R.Overlong offset (buf.drop offset)) :
    ∃ sums, (∀ n ∈ sums, n < 2 ^ R.width) ∧ R.turn buf offset = (sums, .stop) := by
  unfold turn
  by_cases hend : R.atEnd buf.length offset = true
  · exact ⟨[], by simp, if_pos hend⟩
  · rw [if_neg hend]
    have hheader := Nat.le_of_not_lt (fun hlt => hend ((atEnd_iff hbuf hoffset).mpr hlt))
    rw [slice_header hbuf hoffset hheader]
    dsimp only
    have hsum := Nat.lt_of_not_le (fun hle => hover ⟨hheader, hle⟩)
    have hcut : (buf.drop offset).length <
        4 + Serializer.fromBeBytes ((buf.drop offset).take 4) := by
      have hlt : ((buf.drop offset).drop 4).length <
          Serializer.fromBeBytes ((buf.drop offset).take 4) := h hheader
      rw [List.length_drop] at hlt
      omega
    rw [if_pos ((short_iff hoffset hsum).mpr hcut)]
    exact ⟨_, by simpa using hsum, rfl⟩

/-- A length that makes a sum wrap gets past the question, and the range ends before it starts. -/
theorem turn_of_overlong (hbuf : buf.length < 2 ^ (R.width - 1)) (hoffset : offset ≤ buf.length)
    (hover : R.Overlong offset (buf.drop offset)) :
    ∃ sums start stop, (∃ n ∈ sums, 2 ^ R.width ≤ n) ∧
      R.turn buf offset = (sums, .trap (.slice start stop buf.length)) := by
  obtain ⟨hhalf, hpow⟩ := R.two_mul_half
  obtain ⟨hheader, hsum⟩ := hover
  have hend : ¬ R.atEnd buf.length offset = true :=
    fun hlt => absurd ((atEnd_iff hbuf hoffset).mp hlt) (Nat.not_lt.mpr hheader)
  have hlen : Serializer.fromBeBytes ((buf.drop offset).take 4) < 2 ^ 32 :=
    u32Frames.value_lt _ (List.length_take_of_le hheader)
  unfold turn
  rw [if_neg hend, slice_header hbuf hoffset hheader]
  dsimp only
  generalize Serializer.fromBeBytes ((buf.drop offset).take 4) = len at hsum hlen
  rw [List.length_drop] at hheader
  have hle : R.sum offset len ≤ offset + 4 + len := by
    unfold sum
    cases R.form <;> simp
  have hwrap : ∀ n, 2 ^ R.width ≤ n → n < 2 * 2 ^ R.width → R.usize n = n - 2 ^ R.width := by
    intro n hn hn'
    rw [usize, Nat.mod_eq_sub_mod hn, Nat.mod_eq_of_lt (by omega)]
  have hshort : ¬ R.short buf.length offset len = true := by
    unfold short
    rw [hwrap _ hsum (by omega)]
    unfold sum at hsum ⊢
    cases hform : R.form <;> simp [hform] at hsum ⊢ <;> omega
  rw [if_neg hshort, hwrap (offset + 4 + len) (by omega) (by omega), usize_of_lt (by omega), slice,
    if_neg (by omega)]
  exact ⟨_, _, _, ⟨R.sum offset len, by simp, hsum⟩, rfl⟩

/-- A complete frame goes to the decoder, header and all. -/
theorem turn_of_frame (hbuf : buf.length < 2 ^ (R.width - 1)) (hoffset : offset ≤ buf.length)
    {p : Change} {more : List UInt8} (h : buf.drop offset = Framing.frame p ++ more) :
    ∃ sums, (∀ n ∈ sums, n < 2 ^ R.width) ∧
      R.turn buf offset = (sums,
        match R.decode (Framing.frame p) with
        | .error e => .trap (.deserialize e)
        | .ok msg => .frame msg (offset + (Framing.frame p).length)) := by
  obtain ⟨hhalf, hpow⟩ := R.two_mul_half
  have hlength : (buf.drop offset).length = (Framing.frame p).length + more.length := by
    rw [h, List.length_append]
  rw [Framing.length_frame] at hlength
  change _ = 4 + p.1.length + _ at hlength
  have hheader : 4 ≤ (buf.drop offset).length := by omega
  have hend : ¬ R.atEnd buf.length offset = true :=
    fun hlt => absurd ((atEnd_iff hbuf hoffset).mp hlt) (Nat.not_lt.mpr hheader)
  -- the header is there, and is the length of the payload
  have hhead : (buf.drop offset).take 4 = Serializer.toBeBytes p.1.length := by
    rw [h, Framing.frame, List.append_assoc]
    exact List.take_left' rfl
  have hvalue := Serializer.fromBeBytes_toBeBytes p.2
  have hlen : (buf.drop offset).length = buf.length - offset := List.length_drop
  -- neither form of the sum wraps
  have hsum : R.sum offset p.1.length < 2 ^ R.width := by
    unfold sum
    cases R.form <;> simp <;> omega
  have hshort : ¬ R.short buf.length offset p.1.length = true :=
    fun hcut => absurd ((short_iff hoffset hsum).mp hcut) (by omega)
  -- the payload is there
  have hpayload : slice buf (offset + 4) (offset + 4 + p.1.length) = .ok p.1 := by
    rw [slice_eq_ok (by omega) (by omega), ← List.drop_drop, h, Framing.frame, List.append_assoc,
      Nat.add_sub_cancel_left]
    congr 1
    exact List.take_left
  unfold turn
  rw [if_neg hend, slice_header hbuf hoffset hheader]
  dsimp only
  rw [hhead, hvalue, if_neg hshort, usize_of_lt (by omega : offset + 4 < _),
    usize_of_lt (by omega : offset + 4 + p.1.length < _), hpayload]
  dsimp only
  rw [usize_of_lt (by omega : 4 + p.1.length < _), usize_of_lt (by omega)]
  have hframe : Serializer.toBeBytes p.1.length ++ p.1 = Framing.frame p := rfl
  rw [hframe, Framing.length_frame]
  refine ⟨[R.sum offset p.1.length, offset + 4 + p.1.length] ++ [4 + p.1.length], ?_, ?_⟩
  · simp only [List.cons_append, List.nil_append, List.mem_cons, List.not_mem_nil, or_false]
    omega
  · cases R.decode (Framing.frame p) <;> rfl

end Turn

/-! ## The loop

A buffer consists of frames and of something behind them that is none: a part of a frame, or the start of
an overlong one. The loop makes one turn for each frame, and how it ends depends on the first frame that
its decoder rejects and on what is behind the last one. -/

variable (R) in
/-- The decoder does not stop at the frame. -/
def Accepts (p : Change) : Prop := (R.decode (Framing.frame p)).isOk = true

instance (p : Change) : Decidable (R.Accepts p) := inferInstanceAs (Decidable (_ = _))

variable (R) in
/-- The message of a frame, if the loop hands one out. -/
def message (p : Change) : Option β := (R.decode (Framing.frame p)).toOption.join

variable (R) in
def messages (ps : List Change) : List β := ps.filterMap R.message

@[simp] theorem messages_nil : R.messages [] = [] := rfl

theorem messages_cons (p : Change) (ps : List Change) :
    R.messages (p :: ps) = (R.message p).toList ++ R.messages ps := by
  unfold messages
  rw [List.filterMap_cons]
  cases R.message p <;> rfl

@[simp] theorem messages_append (ps qs : List Change) :
    R.messages (ps ++ qs) = R.messages ps ++ R.messages qs := List.filterMap_append

theorem decode_eq_ok {p : Change} (h : R.Accepts p) :
    R.decode (Framing.frame p) = .ok (R.message p) := by
  unfold Accepts at h
  unfold message
  cases he : R.decode (Framing.frame p) with
  | ok msg => rfl
  | error e => rw [he] at h; cases h

theorem decode_eq_error {p : Change} (h : ¬ R.Accepts p) :
    ∃ e, R.decode (Framing.frame p) = .error e := by
  unfold Accepts at h
  cases he : R.decode (Framing.frame p) with
  | ok msg => rw [he] at h; exact absurd rfl h
  | error e => exact ⟨e, rfl⟩

/-! ### Sums and ranges

The sums are those of the machine, and wrap around at its width. -/

/-- No sum of the run leaves the width, and no range is reversed or leaves the buffer. -/
def Scan.Safe (s : Scan β) (width : Nat) : Prop :=
  (∀ n ∈ s.sums, n < 2 ^ width) ∧ ∀ start stop length, s.result ≠ .error (.slice start stop length)

theorem Scan.behind_nil (s : Scan β) : s.behind [] [] = s := by
  obtain ⟨sums, result⟩ := s
  cases result <;> rfl

theorem Scan.behind_behind (s : Scan β) (sums sums' : List Nat) (msgs msgs' : List β) :
    (s.behind sums' msgs').behind sums msgs = s.behind (sums ++ sums') (msgs ++ msgs') := by
  obtain ⟨_, result⟩ := s
  cases result <;> simp [behind, Except.map]

section Loop

variable {buf tail : List UInt8} {offset : Nat} {ps : List Change}

/-- The loop passes over the frames its decoder accepts, one turn for each. -/
theorem scan_frames (hbuf : buf.length < 2 ^ (R.width - 1)) (hoffset : offset ≤ buf.length)
    (h : buf.drop offset = Framing.frames ps ++ tail) (hps : ∀ p ∈ ps, R.Accepts p) (fuel : Nat) :
    ∃ sums, (∀ n ∈ sums, n < 2 ^ R.width) ∧
      R.scan buf (fuel + ps.length) offset =
        (R.scan buf fuel (offset + (Framing.frames ps).length)).behind sums (R.messages ps) := by
  induction ps generalizing offset with
  | nil => exact ⟨[], by simp, (Scan.behind_nil _).symm⟩
  | cons p ps ih =>
      rw [Framing.frames_cons, List.append_assoc] at h
      obtain ⟨sums, hsums, hturn⟩ := turn_of_frame hbuf hoffset h
      rw [decode_eq_ok (hps p (List.mem_cons_self ..))] at hturn
      have hnext : buf.drop (offset + (Framing.frame p).length) = Framing.frames ps ++ tail := by
        rw [← List.drop_drop, h, List.drop_left]
      have hlength : buf.length - offset = (Framing.frame p ++ (Framing.frames ps ++ tail)).length := by
        rw [← h, List.length_drop]
      rw [List.length_append] at hlength
      obtain ⟨sums', hsums', hscan⟩ := ih (by omega) hnext
        (fun q hq => hps q (List.mem_cons_of_mem _ hq))
      refine ⟨sums ++ sums', ?_, ?_⟩
      · intro n hn
        exact (List.mem_append.mp hn).elim (hsums n) (hsums' n)
      · rw [List.length_cons, ← Nat.add_assoc, scan, hturn]
        dsimp only
        rw [hscan, Scan.behind_behind, messages_cons, Framing.frames_cons, List.length_append,
          Nat.add_assoc]

/-- The run of the loop up to the frame or the rest behind the frames `ps`. -/
theorem loop_eq (hbuf : buf.length < 2 ^ (R.width - 1)) (h : buf = Framing.frames ps ++ tail)
    (hps : ∀ p ∈ ps, R.Accepts p) :
    ∃ sums fuel, (∀ n ∈ sums, n < 2 ^ R.width) ∧
      R.loop buf = (R.scan buf (fuel + 1) (Framing.frames ps).length).behind sums (R.messages ps) := by
  have hlength : buf.length = (Framing.frames ps).length + tail.length := by
    rw [h, List.length_append]
  have hle := Framing.length_le_length_frames ps
  obtain ⟨sums, hsums, hscan⟩ := scan_frames hbuf (Nat.zero_le _) h hps (buf.length - ps.length + 1)
  refine ⟨sums, buf.length - ps.length, hsums, ?_⟩
  rw [Nat.zero_add] at hscan
  rw [loop, ← hscan]
  congr 1
  omega

/-- **The loop on accepted frames**: their messages, and the offset behind them. -/
theorem loop_of_accepted (hbuf : buf.length < 2 ^ (R.width - 1))
    (h : buf = Framing.frames ps ++ tail) (htail : u32Frames.Incomplete tail)
    (hps : ∀ p ∈ ps, R.Accepts p) (hover : ¬ R.Overlong (Framing.frames ps).length tail) :
    (R.loop buf).result = .ok (R.messages ps, (Framing.frames ps).length) ∧
      (R.loop buf).Safe R.width := by
  obtain ⟨sums, fuel, hsums, hloop⟩ := loop_eq hbuf h hps
  have hdrop : buf.drop (Framing.frames ps).length = tail := by rw [h, List.drop_left]
  have hle : (Framing.frames ps).length ≤ buf.length := by
    rw [h, List.length_append]
    exact Nat.le_add_right _ _
  obtain ⟨sums', hsums', hturn⟩ := turn_of_incomplete hbuf hle (hdrop ▸ htail) (hdrop ▸ hover)
  have hresult : (R.loop buf).result = .ok (R.messages ps, (Framing.frames ps).length) := by
    rw [hloop, scan, hturn]
    simp [Scan.behind, Except.map]
  refine ⟨hresult, ?_, ?_⟩
  · intro n hn
    rw [hloop, scan, hturn] at hn
    exact (List.mem_append.mp hn).elim (hsums n) (hsums' n)
  · intro start stop length he
    rw [hresult] at he
    cases he

/-- **The loop on a length that is too large** for the width. -/
theorem loop_of_overlong (hbuf : buf.length < 2 ^ (R.width - 1))
    (h : buf = Framing.frames ps ++ tail) (hps : ∀ p ∈ ps, R.Accepts p)
    (hover : R.Overlong (Framing.frames ps).length tail) :
    (∃ t, (R.loop buf).result = .error t) ∧ ¬ (R.loop buf).Safe R.width := by
  obtain ⟨sums, fuel, hsums, hloop⟩ := loop_eq hbuf h hps
  have hdrop : buf.drop (Framing.frames ps).length = tail := by rw [h, List.drop_left]
  have hle : (Framing.frames ps).length ≤ buf.length := by
    rw [h, List.length_append]
    exact Nat.le_add_right _ _
  obtain ⟨sums', start, stop, -, hturn⟩ := turn_of_overlong hbuf hle (hdrop ▸ hover)
  have hresult : (R.loop buf).result = .error (.slice start stop buf.length) := by
    rw [hloop, scan, hturn]
    rfl
  exact ⟨⟨_, hresult⟩, fun hsafe => hsafe.2 _ _ _ hresult⟩

/-- **The loop on a rejected frame** stops there. -/
theorem loop_of_rejected (hbuf : buf.length < 2 ^ (R.width - 1))
    (h : buf = Framing.frames ps ++ tail) (hps : ∃ p ∈ ps, ¬ R.Accepts p) :
    (∃ t, (R.loop buf).result = .error t) ∧ (R.loop buf).Safe R.width := by
  -- the first rejected frame
  obtain ⟨p, hfind⟩ : ∃ p, ps.find? (fun p => ¬ R.Accepts p) = some p := by
    rw [← Option.isSome_iff_exists, List.find?_isSome]
    simpa using hps
  obtain ⟨hp, before, behind, rfl, hbefore⟩ := List.find?_eq_some_iff_append.mp hfind
  rw [Framing.frames_append, Framing.frames_cons, List.append_assoc, List.append_assoc] at h
  obtain ⟨e, he⟩ := decode_eq_error (of_decide_eq_true hp)
  obtain ⟨sums, fuel, hsums, hloop⟩ := loop_eq hbuf h (fun q hq => by simpa using hbefore q hq)
  have hdrop : buf.drop (Framing.frames before).length =
      Framing.frame p ++ (Framing.frames behind ++ tail) := by
    rw [h, List.drop_left]
  have hle : (Framing.frames before).length ≤ buf.length := by
    rw [h, List.length_append]
    exact Nat.le_add_right _ _
  obtain ⟨sums', hsums', hturn⟩ := turn_of_frame hbuf hle hdrop
  rw [he] at hturn
  have hresult : (R.loop buf).result = .error (.deserialize e) := by
    rw [hloop, scan, hturn]
    rfl
  refine ⟨⟨_, hresult⟩, ?_, ?_⟩
  · intro n hn
    rw [hloop, scan, hturn] at hn
    exact (List.mem_append.mp hn).elim (hsums n) (hsums' n)
  · intro start stop length hslice
    rw [hresult] at hslice
    cases hslice

end Loop

/-- **When the arithmetic is safe**: a frame before is rejected, or no sum wraps behind them all. -/
theorem safe_loop_iff {buf : List UInt8} (hbuf : buf.length < 2 ^ (R.width - 1)) :
    (R.loop buf).Safe R.width ↔
      (∃ p ∈ (u32Frames.split buf).1, ¬ R.Accepts p) ∨
        ¬ R.Overlong (Framing.frames (u32Frames.split buf).1).length (u32Frames.split buf).2 := by
  obtain ⟨hsplit, hrest⟩ := Framing.split_spec (F := u32Frames) buf
  by_cases hps : ∃ p ∈ (u32Frames.split buf).1, ¬ R.Accepts p
  · exact iff_of_true (loop_of_rejected hbuf hsplit hps).2 (Or.inl hps)
  · by_cases hover : R.Overlong (Framing.frames (u32Frames.split buf).1).length (u32Frames.split buf).2
    · have hunsafe := (loop_of_overlong hbuf hsplit (by simpa using hps) hover).2
      exact iff_of_false hunsafe (by simp [hps, hover])
    · exact iff_of_true (loop_of_accepted hbuf hsplit hrest (by simpa using hps) hover).2 (Or.inr hover)

/-! ## A chunk

A chunk is put behind what is in the buffer, and what the loop has passed over is taken out of it. -/

variable (R) in
/-- The loop gets through the bytes: they fit in a `Vec`, the decoder accepts their complete frames,
and the rest does not announce a length that makes a sum wrap. -/
structure Digests (bytes : List UInt8) : Prop where
  fits : bytes.length < 2 ^ (R.width - 1)
  accepts : ∀ p ∈ (u32Frames.split bytes).1, R.Accepts p
  inRange : ¬ R.Overlong (Framing.frames (u32Frames.split bytes).1).length (u32Frames.split bytes).2

/-- **What a chunk does**: if the loop gets through, it gives the messages of the complete frames, and
leaves the unfinished rest in the buffer. -/
theorem receive_eq_ok_iff {buf chunk : List UInt8} {r : List β × List UInt8} :
    R.receive buf chunk = .ok r ↔ R.Digests (buf ++ chunk) ∧
      r = (R.messages (u32Frames.split (buf ++ chunk)).1, (u32Frames.split (buf ++ chunk)).2) := by
  obtain ⟨hsplit, hrest⟩ := Framing.split_spec (F := u32Frames) (buf ++ chunk)
  unfold receive extend
  by_cases hfits : buf.length + chunk.length < 2 ^ (R.width - 1)
  · rw [if_pos hfits]
    rw [← List.length_append] at hfits
    simp only [bind, Except.bind]
    by_cases hps : ∀ p ∈ (u32Frames.split (buf ++ chunk)).1, R.Accepts p
    · by_cases hover : R.Overlong (Framing.frames (u32Frames.split (buf ++ chunk)).1).length
          (u32Frames.split (buf ++ chunk)).2
      · obtain ⟨t, ht⟩ := (loop_of_overlong hfits hsplit hps hover).1
        rw [ht]
        exact iff_of_false (by simp) (fun h => h.1.inRange hover)
      · rw [(loop_of_accepted hfits hsplit hrest hps hover).1]
        have hdrop := Framing.drop_split (F := u32Frames) (buf ++ chunk)
        have hleft : (if (Framing.frames (u32Frames.split (buf ++ chunk)).1).length > 0 then
            (buf ++ chunk).drop (Framing.frames (u32Frames.split (buf ++ chunk)).1).length
            else buf ++ chunk) = (u32Frames.split (buf ++ chunk)).2 := by
          split
          · exact hdrop
          · next hzero => rwa [Nat.eq_zero_of_not_pos hzero, List.drop_zero] at hdrop
        dsimp only
        rw [hleft, Except.ok.injEq]
        exact ⟨fun h => ⟨⟨hfits, hps, hover⟩, h.symm⟩, fun h => h.2.symm⟩
    · obtain ⟨t, ht⟩ := (loop_of_rejected hfits hsplit (by simpa using hps)).1
      rw [ht]
      exact iff_of_false (by simp) (fun h => hps h.1.accepts)
  · rw [if_neg hfits]
    exact iff_of_false (by simp [bind, Except.bind])
      (fun h => hfits (List.length_append ▸ h.1.fits))

end Reader

/-! ## The three copies

The copies differ in the width of `usize`, in how they ask for the payload, and in what they make of a
frame. -/

/-- The loop of the network server: every frame is a message. -/
def networkReader : Reader NetworkMessage where
  width := 32
  le_width := by decide
  form := .absolute
  decode frame := (Serializer.tryDeserialize frame).map some

/-- The request of a message from a client. -/
def NetworkMessage.request? (msg : NetworkMessage) : Option Value :=
  match msg.payload with
  | .clientRequest v => some v
  | _ => none

/-- The loop of the client server: of the messages, it hands out the requests. -/
def clientReader : Reader Value where
  width := 32
  le_width := by decide
  form := .relative
  decode frame := (Serializer.tryDeserialize frame).map NetworkMessage.request?

/-- The loop of the native server, which skips what cannot be deserialized. -/
def nativeReader : Reader NetworkMessage where
  width := 64
  le_width := by decide
  form := .native
  decode frame := .ok (Serializer.tryDeserialize frame).toOption

/-- The deserializer reads the frame. -/
def Readable (p : Change) : Prop := (Serializer.tryDeserialize (Framing.frame p)).isOk = true

instance (p : Change) : Decidable (Readable p) := inferInstanceAs (Decidable (_ = _))

theorem isOk_map {ε α α' : Type} (f : α → α') (x : Except ε α) : (x.map f).isOk = x.isOk := by
  cases x <;> rfl

@[simp] theorem accepts_networkReader (p : Change) : networkReader.Accepts p ↔ Readable p := by
  show (Except.map some _).isOk = true ↔ _
  rw [isOk_map, Readable]

@[simp] theorem accepts_clientReader (p : Change) : clientReader.Accepts p ↔ Readable p := by
  show (Except.map NetworkMessage.request? _).isOk = true ↔ _
  rw [isOk_map, Readable]

@[simp] theorem accepts_nativeReader (p : Change) : nativeReader.Accepts p := rfl

/-- **The arithmetic of the two components** on a buffer is safe if and only if the deserializer stops
them at a complete frame, or no whole header comes behind the complete frames, or the end of the frame
it announces is an offset of 32 bits. -/
theorem frame_arithmetic_safe_iff {buf : List UInt8} (hbuf : buf.length < 2 ^ 31) :
    ((networkReader.loop buf).Safe 32 ∧ (clientReader.loop buf).Safe 32) ↔
      (∃ p ∈ (u32Frames.split buf).1, ¬ Readable p) ∨ (u32Frames.split buf).2.length < 4 ∨
        (Framing.frames (u32Frames.split buf).1).length + 4 +
          Serializer.fromBeBytes ((u32Frames.split buf).2.take 4) < 2 ^ 32 := by
  have hnetwork := Reader.safe_loop_iff (R := networkReader) hbuf
  have hclient := Reader.safe_loop_iff (R := clientReader) hbuf
  simp only [accepts_networkReader, accepts_clientReader] at hnetwork hclient
  change (networkReader.loop buf).Safe 32 ↔ _ at hnetwork
  change (clientReader.loop buf).Safe 32 ↔ _ at hclient
  rw [hnetwork, hclient, ← or_and_left]
  refine or_congr_right ?_
  unfold Reader.Overlong
  generalize Serializer.fromBeBytes ((u32Frames.split buf).2.take 4) = len
  generalize (Framing.frames (u32Frames.split buf).1).length = offset
  generalize (u32Frames.split buf).2.length = left
  have hsum : networkReader.sum offset len = offset + 4 + len := rfl
  have hsum' : clientReader.sum offset len = 4 + len := rfl
  have hwidth : networkReader.width = 32 := rfl
  have hwidth' : clientReader.width = 32 := rfl
  rw [hsum, hsum', hwidth, hwidth']
  omega

/-- The start of a frame of five bytes. -/
theorem frame_arithmetic_safe_five :
    (networkReader.loop [0, 0, 0, 5, 115]).Safe 32 ∧ (clientReader.loop [0, 0, 0, 5, 115]).Safe 32 := by
  refine (frame_arithmetic_safe_iff (by decide)).mpr (Or.inr (Or.inr ?_))
  rw [Framing.split_of_incomplete (by decide)]
  decide

/-- **The greatest length**: behind four bytes `ff` the sums wrap, and the range ends before it
starts. -/
theorem greatest_length_wraps :
    ¬ ∀ buf : List UInt8, buf.length < 2 ^ 31 →
      (networkReader.loop buf).Safe 32 ∧ (clientReader.loop buf).Safe 32 := by
  intro h
  have hsafe := (h [255, 255, 255, 255] (by decide)).1.1 (2 ^ 32 + 3) (by decide)
  exact absurd hsafe (by decide)

end PaxosWasm
