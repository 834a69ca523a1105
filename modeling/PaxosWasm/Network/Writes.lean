import PaxosWasm.Network.FrameLoop

/-!
# Writing to a stream

A call of `blocking_write_and_flush` takes at most `MAX_WASI_CHUNK` bytes. A message is written in
pieces of that length by `write_all_in_chunks`, and in one piece elsewhere, which keeps to the limit
exactly if the message does (`respects_writeWhole_iff`).
-/

namespace PaxosWasm

/-- `MAX_WASI_CHUNK`: the bytes that one `blocking_write_and_flush` takes. -/
def maxWasiChunk : Nat := 4096

/-! ## Two ways to write

One call that takes all of it, and a loop of calls of at most `maxWasiChunk` bytes. -/

/-- What has been passed to `blocking_write_and_flush` for one destination, and whether all of it has
been written. -/
structure Written where
  calls : List (List UInt8)
  ok : Bool
deriving DecidableEq, Repr

/-- Nothing could be written. -/
def Written.nothing : Written := { calls := [], ok := false }

/-- One write of everything; `outcome` says which calls succeed. -/
def writeWhole (outcome : Nat → Bool) (bytes : List UInt8) : Written :=
  { calls := [bytes], ok := outcome 0 }

/-- `write_all_in_chunks`. -/
def writeAllInChunks (outcome : Nat → Bool) (bytes : List UInt8) : Written :=
  if bytes = [] then { calls := [], ok := true }
  else
    let chunk := bytes.take maxWasiChunk
    if outcome 0 then
      let rest := writeAllInChunks (fun k => outcome (k + 1)) (bytes.drop chunk.length)
      { calls := chunk :: rest.calls, ok := rest.ok }
    else { calls := [chunk], ok := false }
termination_by bytes.length
decreasing_by
  next hne _ =>
    have hpos := List.length_pos_iff.mpr hne
    simp only [List.length_drop, List.length_take, maxWasiChunk]
    omega

/-- No call is given too much, and if they all succeed, they carry the message. -/
def Written.Respects (w : Written) (message : NetworkMessage) : Prop :=
  (∀ call ∈ w.calls, call.length ≤ maxWasiChunk) ∧
    (w.ok = true → message.serialize = .ok w.calls.flatten)

variable {message : NetworkMessage} {bytes : List UInt8}

theorem respects_nothing : Written.nothing.Respects message :=
  ⟨fun _ hcall => (by cases hcall), fun hok => (by cases hok)⟩

/-- **One write keeps to the limit exactly if the message does.** -/
theorem respects_writeWhole_iff (h : message.serialize = .ok bytes) (outcome : Nat → Bool) :
    (writeWhole outcome bytes).Respects message ↔ bytes.length ≤ maxWasiChunk := by
  constructor
  · exact fun hw => hw.1 bytes (List.mem_singleton.mpr rfl)
  · intro hle
    refine ⟨fun call hcall => List.mem_singleton.mp hcall ▸ hle, fun _ => ?_⟩
    rw [writeWhole, List.flatten_singleton]
    exact h

/-- The pieces are short, and without a failure they are all of the bytes. -/
theorem writeAllInChunks_spec (outcome : Nat → Bool) (bytes : List UInt8) :
    (∀ call ∈ (writeAllInChunks outcome bytes).calls, call.length ≤ maxWasiChunk) ∧
      ((writeAllInChunks outcome bytes).ok = true →
        (writeAllInChunks outcome bytes).calls.flatten = bytes) := by
  induction hn : bytes.length using Nat.strong_induction_on generalizing outcome bytes with
  | h n ih =>
    subst hn
    rw [writeAllInChunks]
    split
    · next hempty => exact ⟨fun _ hcall => (by cases hcall), fun _ => hempty.symm⟩
    · next hne =>
      have hshort : (bytes.take maxWasiChunk).length ≤ maxWasiChunk := List.length_take_le ..
      have hcut : bytes.drop (bytes.take maxWasiChunk).length = bytes.drop maxWasiChunk := by
        rw [List.length_take]
        rcases Nat.le_total maxWasiChunk bytes.length with hle | hle
        · rw [Nat.min_eq_left hle]
        · rw [Nat.min_eq_right hle, List.drop_length, List.drop_eq_nil_of_le hle]
      dsimp only
      split
      · have hpos := List.length_pos_iff.mpr hne
        obtain ⟨hcalls, hall⟩ := ih (bytes.drop (bytes.take maxWasiChunk).length).length
          (by
            simp only [List.length_drop, List.length_take, maxWasiChunk]
            omega)
          (fun k => outcome (k + 1)) _ rfl
        refine ⟨fun call hcall => ?_, fun hok => ?_⟩
        · rcases List.mem_cons.mp hcall with rfl | hcall
          · exact hshort
          · exact hcalls call hcall
        · rw [List.flatten_cons, hall hok, hcut, List.take_append_drop]
      · exact ⟨fun call hcall => List.mem_singleton.mp hcall ▸ hshort, fun hok => (by cases hok)⟩

/-- **Writing in pieces keeps to the limit**, whatever the length of the message. -/
theorem respects_writeAllInChunks (h : message.serialize = .ok bytes) (outcome : Nat → Bool) :
    (writeAllInChunks outcome bytes).Respects message := by
  obtain ⟨hcalls, hall⟩ := writeAllInChunks_spec outcome bytes
  exact ⟨hcalls, fun hok => by rw [hall hok, h]⟩

end PaxosWasm
