import PaxosWasm.Library.Framing
import PaxosWasm.Network.Serializer

/-!
# The bytes of the changelog

`save_change` writes a record as a frame, its length in four bytes and then its bytes, through a
buffered writer opened for appending. A crash can cut the file anywhere. The reader takes a cut inside
a length for the end of the file, a cut inside a record for an error, and a writer that reopens the
file appends behind whatever is there: only a file cut between two records goes on as it was.
-/

namespace PaxosWasm

open Library

namespace Changelog

/-- The frames of the file: `write_u32::<BigEndian>` before each record. -/
def u32Frames : Framing UInt8 where
  width := 4
  limit := 2 ^ 32
  header := Serializer.toBeBytes
  value := Serializer.fromBeBytes
  width_pos := by decide
  length_header _ := rfl
  value_header _ h := Serializer.fromBeBytes_toBeBytes h
  header_value _ h := (Serializer.toBeBytes_fromBeBytes h).1
  value_lt _ h := (Serializer.toBeBytes_fromBeBytes h).2

/-- A change-record: a `list<u8>`, whose length is a `u32`. -/
abbrev Change := u32Frames.Payload

/-! ## The buffered writer

A record is written as its length and its bytes, one after the other, and a buffer that is full is written in
between. -/

/-- `BufWriter<File>` over a file opened with `append(true)`. -/
structure BufWriter where
  file : List UInt8
  buffer : List UInt8
deriving DecidableEq, Repr

namespace BufWriter

/-- The default capacity of a `BufWriter`. -/
def capacity : Nat := 8 * 1024

def new (file : List UInt8) : BufWriter := { file, buffer := [] }

def flush (w : BufWriter) : BufWriter := { file := w.file ++ w.buffer, buffer := [] }

/-- What does not fit into the buffer drives the buffer out first; what is as large as the buffer goes
straight to the file. -/
def writeAll (w : BufWriter) (data : List UInt8) : BufWriter :=
  if data.length < capacity - w.buffer.length then { w with buffer := w.buffer ++ data }
  else
    let w := if data.length > capacity - w.buffer.length then w.flush else w
    if data.length ≥ capacity then { w with file := w.file ++ data }
    else { w with buffer := w.buffer ++ data }

/-- Append one change-record. -/
def saveChange (w : BufWriter) (change : Change) : BufWriter :=
  (w.writeAll (u32Frames.header change.1.length)).writeAll change.1

/-- What has been written, in the file or not. -/
def written (w : BufWriter) : List UInt8 := w.file ++ w.buffer

@[simp] theorem written_flush (w : BufWriter) : w.flush.written = w.written := by
  simp [written, flush]

theorem written_writeAll (w : BufWriter) (data : List UInt8) :
    (w.writeAll data).written = w.written ++ data := by
  unfold writeAll
  split
  · simp [written]
  · next hfit =>
    split
    · split <;> simp [written, flush]
    · next hroom =>
      split
      · next hlarge =>
        -- as large as the buffer and no larger than its room: the buffer is empty
        have hempty : w.buffer.length = 0 := by
          unfold capacity at hroom hlarge
          omega
        rw [written, written, List.length_eq_zero_iff.mp hempty]
        simp
      · simp [written]

theorem written_saveChange (w : BufWriter) (change : Change) :
    (w.saveChange change).written = w.written ++ Framing.frame change := by
  rw [saveChange, written_writeAll, written_writeAll, List.append_assoc]
  rfl

end BufWriter

/-- The file after a storage resource opened on `file` has saved the changes and flushed. -/
def saved (file : List UInt8) (changes : List Change) : List UInt8 :=
  (changes.foldl BufWriter.saveChange (.new file)).flush.file

/-- The changelog loop of `load_state_and_changes`: `read_u32` and `read_exact`, until `read_u32`
finds less than four bytes. -/
def load (file : List UInt8) : Except String (List Change) :=
  match u32Frames.read file with
  | some changes => .ok changes
  | none => .error "failed to fill whole buffer"

theorem saved_eq (file : List UInt8) (changes : List Change) :
    saved file changes = file ++ Framing.frames changes := by
  have hwritten : ∀ w : BufWriter, (changes.foldl BufWriter.saveChange w).written =
      w.written ++ Framing.frames changes := by
    induction changes with
    | nil => simp
    | cons c cs ih =>
        intro w
        rw [List.foldl_cons, ih, BufWriter.written_saveChange, List.append_assoc]
        rfl
  show (changes.foldl BufWriter.saveChange (.new file)).written = _
  rw [hwritten]
  simp [BufWriter.written, BufWriter.new]

theorem load_eq_ok_iff {file : List UInt8} {changes : List Change} :
    load file = .ok changes ↔ u32Frames.read file = some changes := by
  unfold load
  split
  · next h => simp [h]
  · next h => simp [h]

/-- **What is flushed is read back.** -/
theorem load_saved (changes : List Change) : load (saved [] changes) = .ok changes := by
  rw [load_eq_ok_iff, saved_eq, Framing.read_eq_some_iff]
  exact ⟨[], by decide, by simp⟩

/-! ## A file cut by a crash

Appending goes on behind the torn record, so what is saved later is read from the wrong place. -/

/-- **Reading a file cut by a crash**: the complete records come back if the cut leaves less than a
length behind them. -/
theorem load_cut_iff (changes : List Change) (k : Nat) :
    load ((saved [] changes).take k) = .ok (Framing.whole changes k) ↔
      (Framing.torn changes k).length < 4 := by
  rw [load_eq_ok_iff, saved_eq, List.nil_append]
  exact Framing.read_take changes k

/-- One record of one byte. -/
def oneByte : Change := ⟨[120], by decide⟩

/-- A record of one byte written behind one, two or three bytes looks different shifted. -/
theorem eq_nil_of_shifted {tail : List UInt8} (hshort : tail.length < 4)
    (h : Framing.frames [oneByte] <+: tail ++ Framing.frames [oneByte]) : tail = [] := by
  have hframes : Framing.frames [oneByte] = [0, 0, 0, 1, 120] := by decide
  rw [hframes] at h
  obtain ⟨rest, hrest⟩ := h
  match tail, hshort with
  | [], _ => rfl
  | [a], _ => simp at hrest
  | [a, b], _ => simp at hrest
  | [a, b, c], _ => simp at hrest

/-- **A changelog cut by a crash** gives back exactly its complete records, and goes on from there with
the records that are saved later, whatever they are, if and only if it was cut behind a complete
record. -/
theorem cut_continues_iff (changes : List Change) (k : Nat) :
    let cut := (saved [] changes).take k
    (load cut = .ok (Framing.whole changes k) ∧
        ∀ later, load (saved cut later) = .ok (Framing.whole changes k ++ later)) ↔
      cut = Framing.frames (Framing.whole changes k) := by
  intro cut
  have hcut : cut = Framing.frames (Framing.whole changes k) ++ Framing.torn changes k := by
    show (saved [] changes).take k = _
    rw [saved_eq, List.nil_append, Framing.take_frames]
  constructor
  · rintro ⟨hload, hlater⟩
    have hshort := (load_cut_iff changes k).mp hload
    have hone := load_eq_ok_iff.mp (hlater [oneByte])
    rw [saved_eq, hcut] at hone
    rw [hcut, eq_nil_of_shifted hshort (Framing.read_torn_append hone), List.append_nil]
  · intro hwhole
    constructor
    · rw [hwhole, load_eq_ok_iff, Framing.read_eq_some_iff]
      exact ⟨[], by decide, by simp⟩
    · intro later
      rw [saved_eq, hwhole, load_eq_ok_iff, Framing.read_eq_some_iff]
      exact ⟨[], by decide, by simp⟩

/-- **A record behind a torn one**: the file is cut after the length of its only record, so that it
cannot be read at all. -/
theorem load_cut_in_record :
    ¬ (load ((saved [] [oneByte]).take 4) = .ok (Framing.whole [oneByte] 4) ∧
      ∀ later, load (saved ((saved [] [oneByte]).take 4) later) =
        .ok (Framing.whole [oneByte] 4 ++ later)) := by
  rintro ⟨hload, _⟩
  have hshort := (load_cut_iff [oneByte] 4).mp hload
  revert hshort
  decide

end Changelog

end PaxosWasm
