import PaxosWasm.Storage.Resource

/-!
# Runs of the store

Any sequence of calls without a failure leaves the last checkpoints in the directory, and the records
since the last one in the changelog, with what is still in the buffer (`Holds`). Ended by a flush, it is
read back as that. The order of the snapshots is that of their names, which end in `.bin` behind the
timestamp: a timestamp that goes on with a character below the dot is listed before the shorter one.
-/

namespace PaxosWasm

open Library Changelog SnapshotsDir

/-! ## The calls

What a run of calls has saved is said by its list alone. -/

/-- A call of the store; `reopen` closes it and opens it again. -/
inductive StoreOp where
  | saveChange (change : Change)
  | flushChanges
  | checkpoint (state : Bytes) (timestamp : String)
  | reopen

namespace StoreOp

/-- The record that a call saves, after the records before it. -/
def savedAfter (changes : List Change) : StoreOp → List Change
  | .saveChange change => changes ++ [change]
  | .flushChanges => changes
  | .checkpoint _ _ => []
  | .reopen => changes

/-- The records saved since the last checkpoint. -/
def savedSince (ops : List StoreOp) : List Change := ops.foldl savedAfter []

def blob? : StoreOp → Option Bytes
  | .checkpoint state _ => some state
  | _ => none

def timestamp? : StoreOp → Option String
  | .checkpoint _ timestamp => some timestamp
  | _ => none

def file? (op : StoreOp) : Option String := op.timestamp?.map snapshotFile

/-- The blobs of the checkpoints. -/
def blobs (ops : List StoreOp) : List Bytes := ops.filterMap blob?

/-- The names of their files. -/
def files (ops : List StoreOp) : List String := ops.filterMap file?

end StoreOp

open StoreOp

/-- The last `n` of a list. -/
def lastOf {α : Type} (n : Nat) (l : List α) : List α := l.drop (l.length - n)

namespace MyStorageResource

/-- One call, without a failure. -/
def run (r : MyStorageResource) : StoreOp → Ending Unit × MyStorageResource
  | .saveChange change => (.returned (), r.saveChange change)
  | .flushChanges => (.returned (), r.flushChanges)
  | .checkpoint state timestamp => (checkpoint state timestamp).run Calls.allDone r
  | .reopen => (.returned (), r.reopen)

/-- Call after call, as long as they return. -/
def runAll (r : MyStorageResource) : List StoreOp → Ending Unit × MyStorageResource
  | [] => (.returned (), r)
  | op :: ops =>
      match r.run op with
      | (.returned _, r) => runAll r ops
      | (e, r) => (e, r)

/-- A resource over new files. -/
def fresh (maxSnapshots : Nat) : MyStorageResource := .new ∅ [] [] maxSnapshots

/-! ## What a run leaves

The files and the buffer hold the frames of the records since the last checkpoint, whether they are
flushed or not, and the directory the last snapshots in the order of their names. Where these are in the
order of the checkpoints, a call keeps it so. -/

/-- What the calls `ops` have left: the last checkpoints in the directory, and in the changelog, with
what is still in the buffer, the records since. -/
structure Holds (r : MyStorageResource) (ops : List StoreOp) : Prop where
  snapshots : (visible r.snapshotsDir).values = lastOf r.maxSnapshots (blobs ops)
  names : ∀ name ∈ (visible r.snapshotsDir).keys, name ∈ files ops
  written : r.writer.written = Framing.frames (savedSince ops)

theorem lastOf_lastOf_append {α : Type} (n : Nat) (l : List α) (a : α) :
    lastOf n (lastOf n l ++ [a]) = lastOf n (l ++ [a]) := by
  unfold lastOf
  rw [List.length_append, List.length_append, List.length_drop, List.length_singleton]
  rcases Nat.le_total l.length n with hle | hle
  · rw [Nat.sub_eq_zero_of_le hle, List.drop_zero, Nat.sub_zero]
  · cases n with
    | zero => simp
    | succ n =>
        rw [show l.length - (l.length - (n + 1)) + 1 - (n + 1) = 1 by omega,
          show l.length + 1 - (n + 1) = (l.length - (n + 1)) + 1 by omega]
        rw [List.drop_append_of_le_length (by rw [List.length_drop]; omega), List.drop_drop,
          List.drop_append_of_le_length (by omega)]

theorem lastOf_lastOf {α : Type} (m n : Nat) (l : List α) :
    lastOf m (lastOf n l) = lastOf (min m n) l := by
  unfold lastOf
  rw [List.drop_drop, List.length_drop]
  congr 1
  omega

theorem values_takeLast (dir : SnapshotsDir) (n : Nat) :
    (dir.takeLast n).values = lastOf n dir.values := by
  rw [lastOf, OrdMap.values, OrdMap.values, List.length_map, ← List.map_drop]
  rfl

variable {r : MyStorageResource} {ops : List StoreOp} {op : StoreOp}

theorem savedSince_append (ops : List StoreOp) (op : StoreOp) :
    savedSince (ops ++ [op]) = op.savedAfter (savedSince ops) := by
  simp [savedSince]

/-- A call other than a checkpoint leaves the directory as it is. -/
theorem Holds.keep (h : r.Holds ops) {r' : MyStorageResource} (hblob : op.blob? = none)
    (hfile : op.file? = none) (hdir : r'.snapshotsDir = r.snapshotsDir)
    (hmax : r'.maxSnapshots = r.maxSnapshots)
    (hwritten : r'.writer.written = Framing.frames (op.savedAfter (savedSince ops))) :
    r'.Holds (ops ++ [op]) := by
  have hblobs : blobs (ops ++ [op]) = blobs ops := by
    rw [blobs, List.filterMap_append, List.filterMap_cons_none hblob, List.filterMap_nil,
      List.append_nil]
    rfl
  have hfiles : files (ops ++ [op]) = files ops := by
    rw [files, List.filterMap_append, List.filterMap_cons_none hfile, List.filterMap_nil,
      List.append_nil]
    rfl
  refine ⟨?_, ?_, ?_⟩
  · rw [hdir, hmax, hblobs]
    exact h.snapshots
  · rw [hdir, hfiles]
    exact h.names
  · rw [hwritten, savedSince_append]

/-- **A call**: it returns, and the resource holds what the calls with it leave, if a new file comes
behind all earlier ones. -/
theorem Holds.run (h : r.Holds ops)
    (hname : ∀ name, op.file? = some name → ∀ earlier ∈ files ops, earlier < name) :
    ∃ r', r.run op = (.returned (), r') ∧ r'.maxSnapshots = r.maxSnapshots ∧
      r'.Holds (ops ++ [op]) := by
  cases op with
  | saveChange change =>
      refine ⟨_, rfl, rfl, h.keep rfl rfl rfl rfl ?_⟩
      rw [saveChange, BufWriter.written_saveChange, h.written, savedAfter, Framing.frames_append,
        Framing.frames_cons, Framing.frames_nil, List.append_nil]
  | flushChanges =>
      refine ⟨_, rfl, rfl, h.keep rfl rfl rfl rfl ?_⟩
      rw [flushChanges, BufWriter.written_flush, h.written, savedAfter]
  | reopen =>
      refine ⟨_, rfl, rfl, h.keep rfl rfl rfl rfl ?_⟩
      rw [savedAfter, ← h.written]
      exact List.append_nil _
  | checkpoint state timestamp =>
      -- the new name comes last, so the new snapshot is the last of the listing
      obtain ⟨dir, hrun, hdir⟩ := run_checkpoint r state timestamp
      have hlater : ∀ name ∈ (visible r.snapshotsDir).keys, name < snapshotFile timestamp :=
        fun name hmem => hname _ rfl name (h.names name hmem)
      refine ⟨_, hrun, rfl, ?_, ?_, ?_⟩
      · show (visible dir).values = lastOf r.maxSnapshots (blobs (ops ++ [.checkpoint state timestamp]))
        rw [hdir, values_takeLast, OrdMap.values, OrdMap.entries_insert_of_lt state hlater,
          List.map_append]
        show lastOf r.maxSnapshots ((visible r.snapshotsDir).values ++ [state]) = _
        rw [h.snapshots, lastOf_lastOf_append]
        simp [blobs, blob?]
      · intro name hmem
        have hmem : name ∈ (visible dir).keys := hmem
        rw [hdir, keys_takeLast] at hmem
        obtain ⟨bytes, hget⟩ := OrdMap.mem_keys.mp (List.mem_of_mem_drop hmem)
        rw [OrdMap.get?_insert] at hget
        rw [files, List.filterMap_append]
        -- a file that is left is the new one or was there before
        by_cases hnew : name = snapshotFile timestamp
        · exact List.mem_append_right _ (by simp [file?, timestamp?, hnew])
        · rw [if_neg hnew] at hget
          exact List.mem_append_left _ (h.names name (OrdMap.mem_keys.mpr ⟨bytes, hget⟩))
      · rw [savedSince_append]
        rfl

theorem holds_fresh (maxSnapshots : Nat) : (fresh maxSnapshots).Holds [] :=
  ⟨by simp [fresh, new, lastOf, blobs, visible, OrdMap.values, OrdMap.retain],
    fun name hmem => by simp [fresh, new, visible, OrdMap.keys, OrdMap.retain] at hmem, rfl⟩

/-- **A run**: all calls return, and the resource holds what they leave, if the files come in order. -/
theorem Holds.runAll {before : List StoreOp} (h : r.Holds before)
    (hnames : (files (before ++ ops)).Pairwise (· < ·)) :
    ∃ r', r.runAll ops = (.returned (), r') ∧ r'.maxSnapshots = r.maxSnapshots ∧
      r'.Holds (before ++ ops) := by
  induction ops generalizing r before with
  | nil => exact ⟨r, rfl, rfl, by rwa [List.append_nil]⟩
  | cons op ops ih =>
      have hsplit : before ++ op :: ops = (before ++ [op]) ++ ops := by simp
      have hname : ∀ name, op.file? = some name → ∀ earlier ∈ files before, earlier < name := by
        intro name hname earlier hmem
        rw [files, List.filterMap_append, List.filterMap_cons_some hname] at hnames
        exact (List.pairwise_append.mp hnames).2.2 earlier hmem name (List.mem_cons_self ..)
      obtain ⟨r₁, hrun, hmax, h₁⟩ := h.run hname
      rw [hsplit] at hnames ⊢
      obtain ⟨r', hall, hmax', h'⟩ := ih h₁ hnames
      refine ⟨r', ?_, hmax'.trans hmax, h'⟩
      rw [MyStorageResource.runAll, hrun]
      exact hall

theorem runAll_append {r' : MyStorageResource} {more : List StoreOp}
    (h : r.runAll ops = (.returned (), r')) : r.runAll (ops ++ more) = r'.runAll more := by
  induction ops generalizing r with
  | nil =>
      obtain rfl := (Prod.mk.inj h).2
      rfl
  | cons op ops ih =>
      rw [MyStorageResource.runAll] at h
      rw [List.cons_append, MyStorageResource.runAll]
      generalize r.run op = result at h ⊢
      obtain ⟨_ | _ | _, r₁⟩ := result
      · exact ih h
      · cases h
      · cases h

/-! ## What is read back -/

/-- What is flushed is read back. -/
theorem Holds.load_flushChanges (h : r.Holds ops) {n : Nat} (hn : n < 2 ^ 32) :
    r.flushChanges.loadStateAndChanges n =
      .ok (lastOf (min n r.maxSnapshots) (blobs ops), savedSince ops) := by
  have hload : Changelog.load r.writer.flush.file = .ok (savedSince ops) := by
    rw [Changelog.load_eq_ok_iff, Framing.read_eq_some_iff]
    exact ⟨[], by decide, by rw [List.append_nil]; exact h.written⟩
  rw [loadStateAndChanges_eq, asUsize_of_lt hn]
  show (Changelog.load r.writer.flush.file).map _ = _
  rw [hload, values_takeLast]
  show Except.ok (lastOf n (visible r.snapshotsDir).values, savedSince ops) = _
  rw [h.snapshots, lastOf_lastOf]

theorem lastOf_min_length {α : Type} (n : Nat) (l : List α) : lastOf (min n l.length) l = lastOf n l := by
  unfold lastOf
  congr 1
  omega

/-- **The store returns what was saved**: after any calls that end in a flush, with the files of the
checkpoints in the order of their names, the records since the last checkpoint and the last
checkpoints are read back. -/
theorem load_after_run (maxSnapshots : Nat) (ops : List StoreOp)
    (hnames : (files ops).Pairwise (· < ·)) {n : Nat} (hn : n < 2 ^ 32) :
    ∃ r, (fresh maxSnapshots).runAll (ops ++ [.flushChanges]) = (.returned (), r) ∧
      r.loadStateAndChanges n =
        .ok (lastOf (min n (min maxSnapshots (blobs ops).length)) (blobs ops), savedSince ops) := by
  obtain ⟨r, hrun, hmax, h⟩ := (holds_fresh maxSnapshots).runAll hnames
  refine ⟨r.flushChanges, ?_, ?_⟩
  · rw [runAll_append hrun]
    rfl
  · rw [h.load_flushChanges hn, hmax, ← Nat.min_assoc, lastOf_min_length]
    rfl

/-! ## Timestamps and the names of files

The listing sorts names, and a name goes on with `.bin` behind its timestamp. -/

/-- **Timestamps in order**, of which none goes on with an earlier one, name files in order. -/
theorem files_in_order
    (h : (ops.filterMap StoreOp.timestamp?).Pairwise (fun t t' => t < t' ∧ ¬ t.toList <+: t'.toList)) :
    (files ops).Pairwise (· < ·) := by
  have hfiles : files ops = (ops.filterMap StoreOp.timestamp?).map snapshotFile :=
    (List.map_filterMap ..).symm
  rw [hfiles]
  exact List.pairwise_map.mpr (h.imp (fun ht => snapshotFile_lt ht.1 ht.2))

def noBytes : Change := ⟨[], by decide⟩

/-- Three checkpoints, with changes before, between and behind them. -/
def threeCheckpoints : List StoreOp :=
  [.saveChange oneByte, .checkpoint [1] "1", .saveChange noBytes, .checkpoint [2] "2", .flushChanges,
    .saveChange oneByte, .checkpoint [3] "3", .saveChange noBytes, .reopen, .saveChange oneByte]

set_option maxRecDepth 8000 in
theorem load_after_run_three_checkpoints :
    ∃ r, (fresh 2).runAll (threeCheckpoints ++ [.flushChanges]) = (.returned (), r) ∧
      r.loadStateAndChanges 5 = .ok ([[2], [3]], [noBytes, oneByte]) :=
  load_after_run 2 threeCheckpoints (by decide) (by decide)

/-- Two checkpoints, the second with a timestamp that goes on behind the first. -/
def longerTimestamp : List StoreOp := [.checkpoint [1] "1", .checkpoint [2] "1-"]

set_option maxRecDepth 8000 in
/-- **A longer timestamp** is listed first if it goes on with a character below the dot: the snapshots
come back in the wrong order. -/
theorem longer_timestamp_comes_first :
    ¬ ∀ maxSnapshots ops n, (ops.filterMap StoreOp.timestamp?).Pairwise (· < ·) → n < 2 ^ 32 →
      ∃ r, (fresh maxSnapshots).runAll (ops ++ [.flushChanges]) = (.returned (), r) ∧
        r.loadStateAndChanges n =
          .ok (lastOf (min n (min maxSnapshots (blobs ops).length)) (blobs ops), savedSince ops) := by
  intro h
  obtain ⟨r, hrun, hload⟩ := h 2 longerTimestamp 2 (by decide) (by decide)
  have hlisted : (visible ((fresh 2).runAll (longerTimestamp ++ [.flushChanges])).2.snapshotsDir).entries =
      [("snapshot-1-.bin", [2]), ("snapshot-1.bin", [1])] := by decide
  rw [hrun] at hlisted
  have hsnaps := (loadStateAndChanges_eq_ok_iff.mp hload).1
  rw [values_takeLast, OrdMap.values, hlisted] at hsnaps
  exact absurd hsnaps (by decide)

end MyStorageResource

end PaxosWasm
