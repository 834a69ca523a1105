import Mathlib

/-!
# Length-prefixed frames

A stream of payloads, each behind a header of fixed width that tells its length. A reader takes frame
after frame until too little is left for a header, and gives up on a payload that is cut short. What
it reads is characterised by what was written (`read_eq_some_iff`): the frames of the payloads, and
less than a header after them. A reader of a stream that is still coming takes the complete frames
and keeps the unfinished rest (`split_eq_iff`); what has come can be split before the rest comes
(`split_append`).
-/

namespace Library

/-- Headers of width `width` for the lengths below `limit`. -/
structure Framing (β : Type) where
  width : Nat
  limit : Nat
  header : Nat → List β
  value : List β → Nat
  width_pos : 0 < width
  length_header : ∀ n, (header n).length = width
  value_header : ∀ n, n < limit → value (header n) = n
  header_value : ∀ h, h.length = width → header (value h) = h
  value_lt : ∀ h, h.length = width → value h < limit

namespace Framing

variable {β : Type} (F : Framing β)

/-- A payload short enough for its header. -/
abbrev Payload : Type := { p : List β // p.length < F.limit }

variable {F}

def frame (p : F.Payload) : List β := F.header p.1.length ++ p.1

def frames (ps : List F.Payload) : List β := ps.flatMap frame

@[simp] theorem frames_nil : frames ([] : List F.Payload) = [] := rfl

@[simp] theorem frames_cons (p : F.Payload) (ps : List F.Payload) :
    frames (p :: ps) = frame p ++ frames ps := rfl

@[simp] theorem frames_append (ps qs : List F.Payload) :
    frames (ps ++ qs) = frames ps ++ frames qs := List.flatMap_append

theorem length_frame (p : F.Payload) : (frame p).length = F.width + p.1.length := by
  rw [frame, List.length_append, F.length_header]

theorem length_le_length_frames (ps : List F.Payload) : ps.length ≤ (frames ps).length := by
  induction ps with
  | nil => exact Nat.le_refl _
  | cons p ps ih =>
      have hpos := F.width_pos
      rw [frames_cons, List.length_append, length_frame, List.length_cons]
      omega

theorem take_frame_append (p : F.Payload) (bs : List β) :
    (frame p ++ bs).take F.width = F.header p.1.length := by
  rw [frame, List.append_assoc, ← F.length_header p.1.length, List.take_left]

theorem drop_frame_append (p : F.Payload) (bs : List β) :
    (frame p ++ bs).drop F.width = p.1 ++ bs := by
  rw [frame, List.append_assoc, ← F.length_header p.1.length, List.drop_left]

theorem not_length_frame_append_lt (p : F.Payload) (bs : List β) :
    ¬ (frame p ++ bs).length < F.width := by
  rw [List.length_append, length_frame]
  omega

/-! ## Reading

The reader wants all frames to be complete. What is left behind them has to be shorter than a header. -/

variable (F) in
/-- Frame after frame, until less than a header is left; `none` if a payload is cut short. -/
def read (bs : List β) : Option (List F.Payload) :=
  if h : bs.length < F.width then some []
  else
    let n := F.value (bs.take F.width)
    let rest := bs.drop F.width
    if rest.length < n then none
    else (read (rest.drop n)).map (⟨rest.take n, by
      have hn := F.value_lt (bs.take F.width) (List.length_take_of_le (Nat.le_of_not_lt h))
      exact (List.length_take_le ..).trans_lt hn⟩ :: ·)
termination_by bs.length
decreasing_by
  have hpos := F.width_pos
  simp only [List.length_drop]
  omega

theorem read_of_short {bs : List β} (h : bs.length < F.width) : F.read bs = some [] := by
  rw [read, dif_pos h]

theorem read_frame_append (p : F.Payload) (bs : List β) :
    F.read (frame p ++ bs) = (F.read bs).map (p :: ·) := by
  have hwhole : ¬ (p.1 ++ bs).length < p.1.length := by
    rw [List.length_append]
    omega
  rw [read, dif_neg (not_length_frame_append_lt p bs)]
  simp only [take_frame_append, drop_frame_append, F.value_header _ p.2, if_neg hwhole,
    List.take_left, List.drop_left]

theorem read_frames_append (ps : List F.Payload) (bs : List β) :
    F.read (frames ps ++ bs) = (F.read bs).map (ps ++ ·) := by
  induction ps with
  | nil => simp
  | cons p ps ih =>
      rw [frames_cons, List.append_assoc, read_frame_append, ih, Option.map_map]
      rfl

/-- What is read has been written as frames. -/
theorem eq_frames_of_read {bs : List β} {ps : List F.Payload} (h : F.read bs = some ps) :
    ∃ tail, tail.length < F.width ∧ bs = frames ps ++ tail := by
  induction hn : bs.length using Nat.strong_induction_on generalizing bs ps with
  | h n ih =>
    subst hn
    rw [read] at h
    split at h
    · next hshort =>
      obtain rfl := Option.some.inj h
      exact ⟨bs, hshort, rfl⟩
    · next hlong =>
      have hlen : (bs.take F.width).length = F.width :=
        List.length_take_of_le (Nat.le_of_not_lt hlong)
      dsimp only at h
      split at h
      · cases h
      · next hwhole =>
        obtain ⟨qs, hqs, rfl⟩ := Option.map_eq_some_iff.mp h
        have hless : ((bs.drop F.width).drop (F.value (bs.take F.width))).length < bs.length := by
          have hpos := F.width_pos
          simp only [List.length_drop]
          omega
        obtain ⟨tail, htail, hbs⟩ := ih _ hless hqs rfl
        refine ⟨tail, htail, ?_⟩
        rw [frames_cons, frame, List.length_take_of_le (Nat.le_of_not_lt hwhole),
          F.header_value _ hlen, List.append_assoc, List.append_assoc, ← hbs,
          List.take_append_drop, List.take_append_drop]

/-- **The reader**: it gives the payloads whose frames were written, if less than a header comes after
them. -/
theorem read_eq_some_iff {bs : List β} {ps : List F.Payload} :
    F.read bs = some ps ↔ ∃ tail, tail.length < F.width ∧ bs = frames ps ++ tail := by
  constructor
  · exact eq_frames_of_read
  · rintro ⟨tail, htail, rfl⟩
    rw [read_frames_append, read_of_short htail]
    simp

/-! ## A stream cut short

After `k` items some frames are whole and the next one is torn. -/

/-- The payloads whose frames are complete in the first `k` items. -/
def whole : List F.Payload → Nat → List F.Payload
  | [], _ => []
  | p :: ps, k => if (frame p).length ≤ k then p :: whole ps (k - (frame p).length) else []

/-- What of the first `k` items comes after the complete frames. -/
def torn : List F.Payload → Nat → List β
  | [], _ => []
  | p :: ps, k =>
      if (frame p).length ≤ k then torn ps (k - (frame p).length) else (frame p).take k

theorem take_frames (ps : List F.Payload) (k : Nat) :
    (frames ps).take k = frames (whole ps k) ++ torn ps k := by
  induction ps generalizing k with
  | nil => simp [whole, torn]
  | cons p ps ih =>
      rw [frames_cons, List.take_append, whole, torn]
      split
      · next hle => rw [List.take_of_length_le hle, ih, frames_cons, List.append_assoc]
      · next hgt =>
        rw [Nat.sub_eq_zero_of_le (Nat.le_of_not_le hgt), List.take_zero, List.append_nil]
        rfl

theorem read_take (ps : List F.Payload) (k : Nat) :
    F.read ((frames ps).take k) = some (whole ps k) ↔ (torn ps k).length < F.width := by
  rw [take_frames, read_eq_some_iff]
  constructor
  · rintro ⟨tail, htail, he⟩
    rw [List.append_cancel_left he]
    exact htail
  · intro h
    exact ⟨torn ps k, h, rfl⟩

/-- Frames written behind a torn one are read back only if they look the same shifted. -/
theorem read_torn_append {tail : List β} {ps qs : List F.Payload}
    (h : F.read (frames ps ++ tail ++ frames qs) = some (ps ++ qs)) :
    frames qs <+: tail ++ frames qs := by
  obtain ⟨tail', _, he⟩ := read_eq_some_iff.mp h
  rw [frames_append, List.append_assoc, List.append_assoc] at he
  exact ⟨tail', (List.append_cancel_left he).symm⟩

/-! ## A stream that is still coming

The splitter takes the whole frames off and keeps the rest for what comes later. -/

variable (F) in
/-- The next frame is not there yet: its header or its payload is cut short. -/
def Incomplete (bs : List β) : Prop :=
  F.width ≤ bs.length → (bs.drop F.width).length < F.value (bs.take F.width)

instance (bs : List β) : Decidable (F.Incomplete bs) := inferInstanceAs (Decidable (_ → _))

variable (F) in
/-- The payloads of the complete frames at the front, and the unfinished rest. -/
def split (bs : List β) : List F.Payload × List β :=
  if h : bs.length < F.width then ([], bs)
  else
    let n := F.value (bs.take F.width)
    let rest := bs.drop F.width
    if rest.length < n then ([], bs)
    else
      let more := split (rest.drop n)
      (⟨rest.take n, by
        have hn := F.value_lt (bs.take F.width) (List.length_take_of_le (Nat.le_of_not_lt h))
        exact (List.length_take_le ..).trans_lt hn⟩ :: more.1, more.2)
termination_by bs.length
decreasing_by
  have hpos := F.width_pos
  simp only [List.length_drop]
  omega

theorem incomplete_nil : F.Incomplete [] := by
  intro hwidth
  have hpos := F.width_pos
  rw [List.length_nil] at hwidth
  omega

theorem split_of_incomplete {bs : List β} (h : F.Incomplete bs) : F.split bs = ([], bs) := by
  rw [split]
  by_cases hshort : bs.length < F.width
  · rw [dif_pos hshort]
  · rw [dif_neg hshort]
    exact if_pos (h (Nat.le_of_not_lt hshort))

theorem split_frame_append (p : F.Payload) (bs : List β) :
    F.split (frame p ++ bs) = (p :: (F.split bs).1, (F.split bs).2) := by
  have hwhole : ¬ (p.1 ++ bs).length < p.1.length := by
    rw [List.length_append]
    omega
  rw [split, dif_neg (not_length_frame_append_lt p bs)]
  simp only [take_frame_append, drop_frame_append, F.value_header _ p.2, if_neg hwhole,
    List.take_left, List.drop_left]

theorem split_frames_append (ps : List F.Payload) (bs : List β) :
    F.split (frames ps ++ bs) = (ps ++ (F.split bs).1, (F.split bs).2) := by
  induction ps with
  | nil => simp
  | cons p ps ih => rw [frames_cons, List.append_assoc, split_frame_append, ih, List.cons_append]

/-- The stream is its complete frames and the rest. -/
theorem split_spec (bs : List β) :
    bs = frames (F.split bs).1 ++ (F.split bs).2 ∧ F.Incomplete (F.split bs).2 := by
  induction hn : bs.length using Nat.strong_induction_on generalizing bs with
  | h n ih =>
    subst hn
    rw [split]
    by_cases hshort : bs.length < F.width
    · rw [dif_pos hshort]
      exact ⟨rfl, fun hwidth => absurd hshort (Nat.not_lt.mpr hwidth)⟩
    · rw [dif_neg hshort]
      have hlen : (bs.take F.width).length = F.width :=
        List.length_take_of_le (Nat.le_of_not_lt hshort)
      dsimp only
      split
      · next hcut => exact ⟨rfl, fun _ => hcut⟩
      · next hwhole =>
        have hless : ((bs.drop F.width).drop (F.value (bs.take F.width))).length < bs.length := by
          have hpos := F.width_pos
          simp only [List.length_drop]
          omega
        obtain ⟨hbs, hrest⟩ := ih _ hless _ rfl
        refine ⟨?_, hrest⟩
        rw [frames_cons, frame, List.length_take_of_le (Nat.le_of_not_lt hwhole),
          F.header_value _ hlen, List.append_assoc, List.append_assoc, ← hbs,
          List.take_append_drop, List.take_append_drop]

theorem length_split (bs : List β) :
    (frames (F.split bs).1).length + (F.split bs).2.length = bs.length := by
  rw [← List.length_append, ← (split_spec bs).1]

theorem drop_split (bs : List β) : bs.drop (frames (F.split bs).1).length = (F.split bs).2 := by
  have hspec := (split_spec (F := F) bs).1
  generalize F.split bs = r at hspec ⊢
  rw [hspec, List.drop_left]

/-- **The splitter**: it gives the payloads whose frames were written, and the rest if that is not a
frame yet. -/
theorem split_eq_iff {bs rest : List β} {ps : List F.Payload} :
    F.split bs = (ps, rest) ↔ bs = frames ps ++ rest ∧ F.Incomplete rest := by
  constructor
  · intro h
    have hspec := split_spec (F := F) bs
    rw [h] at hspec
    exact hspec
  · rintro ⟨rfl, hrest⟩
    rw [split_frames_append, split_of_incomplete hrest, List.append_nil]

theorem incomplete_take_frame (p : F.Payload) {k : Nat} (h : k < (frame p).length) :
    F.Incomplete ((frame p).take k) := by
  intro hwidth
  rw [List.length_take, Nat.min_eq_left h.le] at hwidth
  have hhead : ((frame p).take k).take F.width = F.header p.1.length := by
    rw [List.take_take, Nat.min_eq_left hwidth, frame, ← F.length_header p.1.length, List.take_left]
  rw [hhead, F.value_header _ p.2, List.length_drop, List.length_take, Nat.min_eq_left h.le]
  rw [length_frame] at h
  omega

theorem incomplete_torn (ps : List F.Payload) (k : Nat) : F.Incomplete (torn ps k) := by
  induction ps generalizing k with
  | nil => exact incomplete_nil
  | cons p ps ih =>
      rw [torn]
      split
      · exact ih _
      · next h => exact incomplete_take_frame p (Nat.lt_of_not_le h)

theorem whole_prefix (ps : List F.Payload) (k : Nat) : whole ps k <+: ps := by
  induction ps generalizing k with
  | nil => exact List.prefix_rfl
  | cons p ps ih =>
      rw [whole]
      split
      · exact (List.prefix_cons_inj p).mpr (ih _)
      · exact List.nil_prefix

/-- A header that is there tells the length of a frame of the stream. -/
theorem header_torn (ps : List F.Payload) (k : Nat) (h : F.width ≤ (torn ps k).length) :
    (frames (whole ps k)).length + F.width + F.value ((torn ps k).take F.width) ≤
      (frames ps).length := by
  induction ps generalizing k with
  | nil =>
      have hpos := F.width_pos
      rw [torn, List.length_nil] at h
      omega
  | cons p ps ih =>
      rw [torn] at h
      rw [whole, torn, frames_cons, List.length_append]
      by_cases hle : (frame p).length ≤ k
      · rw [if_pos hle] at h
        rw [if_pos hle, if_pos hle, frames_cons, List.length_append]
        have := ih _ h
        omega
      · rw [if_neg hle, List.length_take] at h
        rw [if_neg hle, if_neg hle, List.take_take, Nat.min_eq_left (by omega), frame,
          ← F.length_header p.1.length, List.take_left, F.value_header _ p.2, frames_nil,
          List.length_nil, List.length_append]
        omega

/-- The first `k` items of a stream of frames. -/
theorem split_take (ps : List F.Payload) (k : Nat) :
    F.split ((frames ps).take k) = (whole ps k, torn ps k) :=
  split_eq_iff.mpr ⟨take_frames ps k, incomplete_torn ps k⟩

theorem split_frames (ps : List F.Payload) : F.split (frames ps) = (ps, []) := by
  have h := split_frames_append ps []
  rwa [List.append_nil, split_of_incomplete incomplete_nil, List.append_nil] at h

/-- Whole frames are not the start of one. -/
theorem eq_nil_of_incomplete_frames {ps : List F.Payload} (h : F.Incomplete (frames ps)) : ps = [] := by
  have hsplit := split_frames ps
  rw [split_of_incomplete h] at hsplit
  exact (congrArg Prod.fst hsplit).symm

/-- The rest is all that matters of a stream for what comes behind it. -/
theorem split_append (bs cs : List β) :
    F.split (bs ++ cs) =
      ((F.split bs).1 ++ (F.split ((F.split bs).2 ++ cs)).1, (F.split ((F.split bs).2 ++ cs)).2) := by
  conv_lhs => rw [(split_spec (F := F) bs).1, List.append_assoc]
  exact split_frames_append _ _

end Framing

end Library
