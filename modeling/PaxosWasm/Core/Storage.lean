import PaxosWasm.Types

/-!
# The storage resource, as its clients see it

The `storage` interface keeps, per key, one overwritten current state, an append-only changelog and
a rotation of snapshots. The core components read and write encoded blobs; encoding then decoding
a blob gives it back, so the model keeps the decoded contents and is generic in them. What stays
visible of the encoding is the one blob that no encoder wrote: `current-state.bin` is created empty,
and an empty file does not decode (`state = none`).

A changelog record first sits in the writer's buffer and reaches the file when it is flushed.
Snapshots are listed by file name, that is by the timestamp in it.

Every writing call can fail. Which of the coming calls do is part of the directory (`script`, in
call order; calls beyond its end succeed), so that a run over an arbitrary directory is a run under
an arbitrary failure pattern.
-/

namespace PaxosWasm

open Library

/-- The contents of `state/<key>/`, and the failures its file system has in store. -/
structure Directory (σ κ χ : Type) where
  /-- `current-state.bin`; `none` while it is empty. -/
  state : Option σ
  /-- `snapshots/snapshot-<timestamp>.bin`. -/
  snapshots : OrdMap Nat κ
  /-- The records of `changelog.bin`. -/
  changelog : List χ
  /-- The outcomes of the coming calls: `some e` fails with `e`. -/
  script : List (Option String)

/-- A directory before its first use, on a file system that does not fail. -/
def Directory.empty {σ κ χ : Type} : Directory σ κ χ :=
  { state := none, snapshots := ∅, changelog := [], script := [] }

structure StorageResource (σ κ χ : Type) where
  dir : Directory σ κ χ
  maxSnapshots : Nat
  /-- Records in the changelog writer's buffer. -/
  writer : List χ

namespace StorageResource

variable {σ κ χ : Type}

/-- Opens the files of an existing or fresh directory. -/
def new (dir : Directory σ κ χ) (maxSnapshots : Nat) : StorageResource σ κ χ :=
  { dir, maxSnapshots, writer := [] }

/-- One file-system call: take the next outcome, and act only if it is a success. -/
def attempt (r : StorageResource σ κ χ) (act : StorageResource σ κ χ → StorageResource σ κ χ) :
    Except String Unit × StorageResource σ κ χ :=
  match r.dir.script with
  | [] => (.ok (), act r)
  | none :: rest => (.ok (), act { r with dir := { r.dir with script := rest } })
  | some e :: rest => (.error e, { r with dir := { r.dir with script := rest } })

/-- Overwrite the current state. -/
def saveState (r : StorageResource σ κ χ) (state : σ) :
    Except String Unit × StorageResource σ κ χ :=
  r.attempt (fun r => { r with dir := { r.dir with state := some state } })

/-- Read the current state. -/
def loadState (r : StorageResource σ κ χ) : Option σ := r.dir.state

/-- Force the current state to disk; the file already holds it. -/
def flushState (r : StorageResource σ κ χ) : Except String Unit × StorageResource σ κ χ :=
  r.attempt id

/-- Append one record to the changelog. -/
def saveChange (r : StorageResource σ κ χ) (change : χ) :
    Except String Unit × StorageResource σ κ χ :=
  r.attempt (fun r => { r with writer := r.writer ++ [change] })

/-- Write the buffered records out. -/
def flush (r : StorageResource σ κ χ) : StorageResource σ κ χ :=
  { r with dir := { r.dir with changelog := r.dir.changelog ++ r.writer }, writer := [] }

def flushChanges (r : StorageResource σ κ χ) : Except String Unit × StorageResource σ κ χ :=
  r.attempt flush

/-- Delete the oldest snapshots until at most `retain` are left. -/
def pruneSnapshots (r : StorageResource σ κ χ) (retain : Nat) : StorageResource σ κ χ :=
  { r with dir := { r.dir with snapshots := r.dir.snapshots.takeLast retain } }

/-- Write a new snapshot, truncate the changelog, rotate the snapshots. -/
def checkpoint (r : StorageResource σ κ χ) (state : κ) (timestamp : Nat) :
    Except String Unit × StorageResource σ κ χ :=
  r.attempt (fun r =>
    let r := { r with dir := { r.dir with snapshots := r.dir.snapshots.insert timestamp state } }
    let r := r.flush
    let r := { r with dir := { r.dir with changelog := [] } }
    r.pruneSnapshots r.maxSnapshots)

/-- The latest `numSnapshots` snapshots, oldest first, and the changelog. -/
def loadStateAndChanges (r : StorageResource σ κ χ) (numSnapshots : Nat) : List κ × List χ :=
  ((r.dir.snapshots.takeLast (asUsize numSnapshots)).values, r.dir.changelog)

/-- The files left when the process is stopped: `k` of the buffered records have got there. -/
def stopped (r : StorageResource σ κ χ) (k : Nat) : Directory σ κ χ :=
  { r.dir with changelog := r.dir.changelog ++ r.writer.take k }

/-! ## What the calls leave behind

A call either fails, and only uses up its outcome, or does its work. -/

theorem attempt_cases (r : StorageResource σ κ χ)
    (act : StorageResource σ κ χ → StorageResource σ κ χ) :
    ∃ script, let r' := { r with dir := { r.dir with script := script } }
      ((r.attempt act).1 = .ok () ∧ (r.attempt act).2 = act r') ∨
      ((∃ e, (r.attempt act).1 = .error e) ∧ (r.attempt act).2 = r') := by
  rw [attempt]
  split
  · next h => exact ⟨[], Or.inl ⟨rfl, by rw [← h]⟩⟩
  · next rest h => exact ⟨rest, Or.inl ⟨rfl, rfl⟩⟩
  · next e rest h => exact ⟨rest, Or.inr ⟨⟨e, rfl⟩, rfl⟩⟩

/-- The coming call succeeds. -/
def Succeeds (r : StorageResource σ κ χ) : Prop := r.dir.script.head?.join = none

instance (r : StorageResource σ κ χ) : Decidable r.Succeeds := inferInstanceAs (Decidable (_ = _))

theorem attempt_ok_iff (r : StorageResource σ κ χ)
    (act : StorageResource σ κ χ → StorageResource σ κ χ) :
    (r.attempt act).1 = .ok () ↔ r.Succeeds := by
  rw [attempt, Succeeds]
  split
  · next h => simp [h]
  · next h => simp [h]
  · next h => simp [h]

/-- Without failures in store, a call does its work. -/
@[simp] theorem attempt_of_script_nil {r : StorageResource σ κ χ} (h : r.dir.script = [])
    (act : StorageResource σ κ χ → StorageResource σ κ χ) : r.attempt act = (.ok (), act r) := by
  rw [attempt, h]

/-! ## What a flush cannot change

Whether a record is still in the buffer makes no difference once everything has been flushed. -/

/-- The resource with every buffered record counted as written. -/
structure Contents (σ κ χ : Type) where
  state : Option σ
  snapshots : OrdMap Nat κ
  log : List χ
  script : List (Option String)
  maxSnapshots : Nat

def contents (r : StorageResource σ κ χ) : Contents σ κ χ :=
  { state := r.dir.state
    snapshots := r.dir.snapshots
    log := r.dir.changelog ++ r.writer
    script := r.dir.script
    maxSnapshots := r.maxSnapshots }

@[simp] theorem contents_flush (r : StorageResource σ κ χ) : r.flush.contents = r.contents := by
  simp [flush, contents]

/-- **A checkpoint** replaces the log by a snapshot and rotates the snapshots. -/
theorem contents_checkpoint {r : StorageResource σ κ χ} (h : r.dir.script = []) (state : κ)
    (timestamp : Nat) :
    (r.checkpoint state timestamp).1 = .ok () ∧
      (r.checkpoint state timestamp).2.contents =
        { r.contents with
          snapshots := (r.contents.snapshots.insert timestamp state).takeLast r.maxSnapshots
          log := [] } := by
  rw [checkpoint, attempt_of_script_nil h]
  exact ⟨rfl, by simp [contents, flush, pruneSnapshots]⟩

/-! ## What holds of everything in the files -/

/-- Everything in the files, the buffer included: `P` of the snapshots, `Q` of the changes. -/
def All (P : κ → Prop) (Q : χ → Prop) (r : StorageResource σ κ χ) : Prop :=
  (∀ snap ∈ r.contents.snapshots.values, P snap) ∧ ∀ change ∈ r.contents.log, Q change

section All

variable {P P' : κ → Prop} {Q Q' : χ → Prop} {r : StorageResource σ κ χ}

theorem All.mono (hP : ∀ snap, P snap → P' snap) (hQ : ∀ change, Q change → Q' change)
    (h : r.All P Q) : r.All P' Q' :=
  ⟨fun snap hsnap => hP snap (h.1 snap hsnap), fun change hchange => hQ change (h.2 change hchange)⟩

/-- A file-system call keeps the files if its action does: a failing one does nothing. -/
theorem All.attempt (h : r.All P Q) {act : StorageResource σ κ χ → StorageResource σ κ χ}
    (hact : ∀ s, s.All P Q → (act s).All P Q) : (r.attempt act).2.All P Q := by
  obtain ⟨script, ⟨_, he⟩ | ⟨_, he⟩⟩ := r.attempt_cases act
  · rw [he]
    exact hact _ h
  · rw [he]
    exact h

theorem All.saveState (h : r.All P Q) (state : σ) : (r.saveState state).2.All P Q :=
  h.attempt (fun _ hs => hs)

theorem All.flushState (h : r.All P Q) : r.flushState.2.All P Q := h.attempt (fun _ hs => hs)

theorem All.flushChanges (h : r.All P Q) : r.flushChanges.2.All P Q :=
  h.attempt (fun s hs => by
    rw [All, contents_flush]
    exact hs)

theorem All.saveChange (h : r.All P Q) {change : χ} (hchange : Q change) :
    (r.saveChange change).2.All P Q :=
  h.attempt (fun s hs => ⟨hs.1, fun c hc => by
    have hc' : c ∈ s.contents.log ++ [change] := by
      simpa [contents, List.append_assoc] using hc
    rcases List.mem_append.mp hc' with hc' | hc'
    · exact hs.2 c hc'
    · rw [List.mem_singleton.mp hc']
      exact hchange⟩)

/-- A checkpoint adds its snapshot and empties the log. -/
theorem All.checkpoint (h : r.All P Q) {state : κ} (hstate : P state) (timestamp : Nat) :
    (r.checkpoint state timestamp).2.All P Q := by
  refine h.attempt (fun s hs => ⟨fun snap hsnap => ?_, fun c hc => ?_⟩)
  · obtain ⟨t, ht⟩ := OrdMap.mem_values.mp hsnap
    have hmem : (s.contents.snapshots.insert timestamp state).get? t = some snap :=
      OrdMap.get?_of_takeLast ht
    rw [OrdMap.get?_insert] at hmem
    split at hmem
    · rw [← Option.some.inj hmem]
      exact hstate
    · exact hs.1 snap (OrdMap.mem_values.mpr ⟨t, hmem⟩)
  · simp [contents, flush, pruneSnapshots] at hc

/-- What is read back was in the files. -/
theorem All.load (h : r.All P Q) (n : Nat) :
    (∀ snap ∈ (r.loadStateAndChanges n).1, P snap) ∧ ∀ c ∈ (r.loadStateAndChanges n).2, Q c := by
  refine ⟨fun snap hsnap => ?_, fun c hc => h.2 c (List.mem_append_left _ hc)⟩
  obtain ⟨t, ht⟩ := OrdMap.mem_values.mp hsnap
  exact h.1 snap (OrdMap.mem_values.mpr ⟨t, OrdMap.get?_of_takeLast ht⟩)

/-- The files of a stopped process are among the files it had. -/
theorem All.stopped (h : r.All P Q) (k maxSnapshots : Nat) :
    (new (r.stopped k) maxSnapshots).All P Q := by
  refine ⟨h.1, fun c hc => h.2 c ?_⟩
  have hc' : c ∈ r.dir.changelog ++ r.writer.take k := by
    simpa [contents, new, StorageResource.stopped] using hc
  rcases List.mem_append.mp hc' with hc' | hc'
  · exact List.mem_append_left _ hc'
  · exact List.mem_append_right _ (List.mem_of_mem_take hc')

end All

end StorageResource

/-! ## Pruning the memory

After a checkpoint the acceptor and the learner drop the slots that lie further back than the
`R × S` slots their snapshots span. -/

/-- `checkpoint_snapshot` keeps the slots above this threshold. -/
def pruneThreshold (c : RunConfig) (maxSlot : Slot) : Slot :=
  maxSlot - saturatingMul c.storageSnapshotSlotInterval c.storageMaxSnapshots

/-- Prune an in-memory map to the last `R × S` slots. -/
def prune {α : Type} (c : RunConfig) (m : OrdMap Slot α) : OrdMap Slot α :=
  if c.storageMaxSnapshots > 0 ∧ c.storageSnapshotSlotInterval > 0 then
    match m.lastKey? with
    | some maxSlot => m.retain (fun slot => decide (slot > pruneThreshold c maxSlot))
    | none => m
  else m

/-- The number of snapshots a recovery reads: rotation keeps `storageMaxSnapshots`, loading takes
`storageLoadSnapshots as usize` of them. -/
def loadable (c : RunConfig) : Nat := min c.storageMaxSnapshots (asUsize c.storageLoadSnapshots)

namespace StorageResource

/-- **After a checkpoint stamped later than all others** a recovery reads the new snapshot, and
before it the latest of the earlier ones. -/
theorem loaded_after_checkpoint {κ : Type} {config : RunConfig} {snapshots : OrdMap Nat κ}
    {timestamp : Nat} (snap : κ) (hlater : ∀ t ∈ snapshots.keys, t < timestamp) :
    (((snapshots.insert timestamp snap).takeLast config.storageMaxSnapshots).takeLast
        (asUsize config.storageLoadSnapshots)).values =
      if loadable config = 0 then []
      else (snapshots.takeLast (loadable config - 1)).values ++ [snap] := by
  rw [OrdMap.takeLast_takeLast, ← loadable]
  cases hload : loadable config with
  | zero => simp [OrdMap.takeLast, OrdMap.values]
  | succ k =>
      rw [if_neg (Nat.succ_ne_zero k), OrdMap.values,
        OrdMap.entries_takeLast_insert_of_lt snap hlater, List.map_append]
      rfl

/-- What some loaded snapshot has after such a checkpoint. -/
theorem exists_loaded_after_checkpoint {κ : Type} {config : RunConfig} {snapshots : OrdMap Nat κ}
    {timestamp : Nat} (snap : κ) (hlater : ∀ t ∈ snapshots.keys, t < timestamp) (P : κ → Prop) :
    (∃ x ∈ (((snapshots.insert timestamp snap).takeLast config.storageMaxSnapshots).takeLast
        (asUsize config.storageLoadSnapshots)).values, P x) ↔
      0 < loadable config ∧
        (P snap ∨ ∃ x ∈ (snapshots.takeLast (loadable config - 1)).values, P x) := by
  rw [loaded_after_checkpoint snap hlater]
  by_cases hload : loadable config = 0
  · simp [hload]
  · rw [if_neg hload]
    constructor
    · rintro ⟨x, hx, hP⟩
      rcases List.mem_append.mp hx with hx | hx
      · exact ⟨Nat.pos_of_ne_zero hload, Or.inr ⟨x, hx, hP⟩⟩
      · exact ⟨Nat.pos_of_ne_zero hload, Or.inl (List.mem_singleton.mp hx ▸ hP)⟩
    · rintro ⟨_, hP | ⟨x, hx, hP⟩⟩
      · exact ⟨snap, by simp, hP⟩
      · exact ⟨x, List.mem_append_left _ hx, hP⟩

end StorageResource

variable {α : Type} {c : RunConfig} {m : OrdMap Slot α}

/-- What `prune` keeps was there. -/
theorem get?_of_prune {slot : Slot} {v : α} (h : (prune c m).get? slot = some v) :
    m.get? slot = some v := by
  unfold prune at h
  split at h
  · split at h
    · rw [OrdMap.get?_retain] at h
      split at h
      · exact h
      · cases h
    · exact h
  · exact h

/-- `prune` keeps what is above the threshold. -/
theorem get?_prune_of_lt {slot : Slot}
    (hslot : 0 < c.storageMaxSnapshots →
      ∀ maxSlot, m.lastKey? = some maxSlot → pruneThreshold c maxSlot < slot) :
    (prune c m).get? slot = m.get? slot := by
  unfold prune
  split
  · next hon =>
    split
    · next maxSlot hm =>
      rw [OrdMap.get?_retain, if_pos (by simpa using hslot hon.1 maxSlot hm)]
    · rfl
  · rfl

/-- With a positive span, `prune` keeps exactly what is above the threshold. -/
theorem get?_prune (hint : 1 ≤ c.storageSnapshotSlotInterval) (hmax : 1 ≤ c.storageMaxSnapshots)
    {maxSlot : Slot} (hm : m.lastKey? = some maxSlot) (s : Slot) :
    (prune c m).get? s = if pruneThreshold c maxSlot < s then m.get? s else none := by
  rw [prune, if_pos ⟨hmax, hint⟩, hm]
  simp

/-- A positive span: the threshold is below the greatest slot. -/
theorem pruneThreshold_lt (hint : 1 ≤ c.storageSnapshotSlotInterval)
    (hmax : 1 ≤ c.storageMaxSnapshots) {maxSlot : Slot} (hm : 0 < maxSlot) :
    pruneThreshold c maxSlot < maxSlot := by
  have hmul : 1 ≤ c.storageSnapshotSlotInterval * c.storageMaxSnapshots := Nat.mul_pos hint hmax
  have hspan : 1 ≤ saturatingMul c.storageSnapshotSlotInterval c.storageMaxSnapshots := by
    unfold saturatingMul
    omega
  exact Nat.sub_lt hm hspan

theorem pruneThreshold_mono (c : RunConfig) {maxSlot maxSlot' : Slot} (h : maxSlot ≤ maxSlot') :
    pruneThreshold c maxSlot ≤ pruneThreshold c maxSlot' :=
  Nat.sub_le_sub_right h _

end PaxosWasm
