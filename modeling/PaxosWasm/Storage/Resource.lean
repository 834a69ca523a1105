import PaxosWasm.Library.Calls
import PaxosWasm.Storage.Files

/-!
# The storage resource on its files

`core/storage`: an overwritten current state, a changelog behind a buffered writer, and snapshots. A
checkpoint writes the new snapshot under a temporary name, renames it, truncates the changelog and
removes the oldest snapshots; each of its calls can fail, and the process can stop before it. Without
a failure it adds its snapshot, keeps the last ones and empties the changelog (`run_checkpoint`).
-/

namespace PaxosWasm

open Library Changelog SnapshotsDir

/-- `MyStorageResource`, with the files it has open. -/
structure MyStorageResource where
  snapshotsDir : SnapshotsDir
  /-- `current-state.bin`. -/
  stateFile : Bytes
  /-- The writer of `changelog.bin`. -/
  writer : BufWriter
  maxSnapshots : Nat

/-- The calls of the file system that a checkpoint makes. -/
inductive StorageCall where
  | createTmp
  | writeTmp
  | syncTmp
  | rename
  | flushChangelog
  | truncateChangelog
  | seekChangelog
  | syncChangelog
  | readDir
  | removeFile (name : String)
deriving DecidableEq, Repr

namespace MyStorageResource

/-- Opens the files, or creates them empty. -/
def new (snapshotsDir : SnapshotsDir) (stateFile changelog : Bytes) (maxSnapshots : Nat) :
    MyStorageResource :=
  { snapshotsDir, stateFile, writer := .new changelog, maxSnapshots }

/-! ## The interface -/

/-- Overwrite the current state. -/
def saveState (r : MyStorageResource) (state : Bytes) : MyStorageResource :=
  { r with stateFile := state }

def loadState (r : MyStorageResource) : Bytes := r.stateFile

/-- Append one change-record to the changelog. -/
def saveChange (r : MyStorageResource) (change : Change) : MyStorageResource :=
  { r with writer := r.writer.saveChange change }

/-- Write any buffered changes out. -/
def flushChanges (r : MyStorageResource) : MyStorageResource := { r with writer := r.writer.flush }

/-- `drop` writes the buffer out, and `new` opens the files again. -/
def reopen (r : MyStorageResource) : MyStorageResource :=
  .new r.snapshotsDir r.stateFile r.writer.flush.file r.maxSnapshots

/-! ## A checkpoint, call by call -/

abbrev Fs : Type → Type := Calls StorageCall MyStorageResource

/-- A call that changes the directory of the snapshots. -/
def onDir (c : StorageCall) (act : SnapshotsDir → SnapshotsDir) : Fs Unit :=
  Calls.call c (fun r => { r with snapshotsDir := act r.snapshotsDir })

/-- A call that changes the writer or its file. -/
def onWriter (c : StorageCall) (act : BufWriter → BufWriter) : Fs Unit :=
  Calls.call c (fun r => { r with writer := act r.writer })

/-- `list_snapshots`; a directory that cannot be read counts as empty. -/
def listSnapshots : Fs (List String) :=
  (do
    onDir .readDir id
    Calls.read (fun r => SnapshotsDir.listSnapshots r.snapshotsDir)).orElse []

/-- The loop of `prune_snapshots`. -/
def removeOldest (retain : Nat) : List String → Fs Unit
  | [] => pure ()
  | oldest :: snaps =>
      if snaps.length + 1 > retain then do
        onDir (.removeFile oldest) (fun dir => dir.remove oldest)
        removeOldest retain snaps
      else pure ()

/-- Delete the oldest until at most `retain` are left. -/
def pruneSnapshots (retain : Nat) : Fs Unit := do
  let snaps ← listSnapshots
  removeOldest retain snaps

/-- The name under which a snapshot is written. -/
def tmpFile (timestamp : String) : String := snapshotFile timestamp ++ ".tmp"

/-- Write the snapshot to a temporary file, and give it its name. -/
def writeSnapshot (state : Bytes) (timestamp : String) : Fs Unit := do
  onDir .createTmp (fun dir => dir.insert (tmpFile timestamp) [])
  onDir .writeTmp (fun dir => dir.insert (tmpFile timestamp) state)
  onDir .syncTmp id
  onDir .rename (fun dir => dir.rename (tmpFile timestamp) (snapshotFile timestamp))

/-- Write the buffered changes out, and drop all of them. -/
def truncateChangelog : Fs Unit := do
  onWriter .flushChangelog BufWriter.flush
  onWriter .truncateChangelog (fun w => { w with file := [] })
  onWriter .seekChangelog id
  onWriter .syncChangelog id

/-- Create and rotate a snapshot, and truncate the changelog. -/
def checkpoint (state : Bytes) (timestamp : String) : Fs Unit := do
  writeSnapshot state timestamp
  truncateChangelog
  let maxSnapshots ← Calls.read MyStorageResource.maxSnapshots
  pruneSnapshots maxSnapshots

/-! ## Recovery -/

/-- Read back the latest `numSnapshots` snapshots and the changelog, from the files. -/
def loadStateAndChanges (r : MyStorageResource) (numSnapshots : Nat) :
    Except String (List Bytes × List Change) :=
  loadFiles r.snapshotsDir (some r.writer.file) (asUsize numSnapshots)

variable {r : MyStorageResource} {state : Bytes} {timestamp : String}

theorem loadStateAndChanges_eq (r : MyStorageResource) (n : Nat) :
    r.loadStateAndChanges n = (Changelog.load r.writer.file).map
      (fun changes => (((visible r.snapshotsDir).takeLast (asUsize n)).values, changes)) :=
  loadFiles_eq ..

theorem loadStateAndChanges_eq_ok_iff {n : Nat} {snaps : List Bytes} {changes : List Change} :
    r.loadStateAndChanges n = .ok (snaps, changes) ↔
      snaps = ((visible r.snapshotsDir).takeLast (asUsize n)).values ∧
        Changelog.load r.writer.file = .ok changes := by
  rw [loadStateAndChanges_eq]
  cases Changelog.load r.writer.file with
  | error e =>
      constructor
      · intro h
        cases h
      · rintro ⟨-, h⟩
        cases h
  | ok changes' =>
      constructor
      · intro h
        obtain ⟨hsnaps, hchanges⟩ := Prod.mk.inj (Except.ok.inj h)
        exact ⟨hsnaps.symm, congrArg Except.ok hchanges⟩
      · rintro ⟨rfl, h⟩
        rw [Except.ok.inj h]
        rfl

/-! ## A checkpoint without a failure

The file gets its name when all of it has been written, so it is seen with its contents or not at all. -/

theorem run_listSnapshots (r : MyStorageResource) :
    listSnapshots.run Calls.allDone r = (.returned (visible r.snapshotsDir).keys, r) := by
  simp [listSnapshots, onDir, listSnapshots_eq]

/-- The removals leave the last `retain` snapshots. -/
theorem run_removeOldest (retain : Nat) (r : MyStorageResource) :
    ∃ dir, (removeOldest retain (visible r.snapshotsDir).keys).run Calls.allDone r =
        (.returned (), { r with snapshotsDir := dir }) ∧
      visible dir = (visible r.snapshotsDir).takeLast retain := by
  generalize hnames : (visible r.snapshotsDir).keys = names
  induction names generalizing r with
  | nil =>
      refine ⟨r.snapshotsDir, rfl, (OrdMap.takeLast_of_size_le ?_).symm⟩
      rw [← OrdMap.length_keys, hnames]
      exact Nat.zero_le _
  | cons oldest names ih =>
      rw [removeOldest]
      split
      · next hmore =>
        have hfirst : visible (remove r.snapshotsDir oldest) =
            (visible r.snapshotsDir).takeLast names.length := by
          rw [visible_remove, remove_first hnames]
        obtain ⟨dir, hrun, hdir⟩ := ih { r with snapshotsDir := remove r.snapshotsDir oldest } (by
          rw [hfirst, keys_takeLast, hnames, List.length_cons, Nat.add_sub_cancel_left]
          rfl)
        refine ⟨dir, ?_, ?_⟩
        · rw [Calls.bind_run, onDir, Calls.call_run_allDone]
          exact hrun
        · rw [hdir, hfirst, OrdMap.takeLast_takeLast, Nat.min_eq_right (by omega)]
      · next hfew =>
        refine ⟨r.snapshotsDir, rfl, (OrdMap.takeLast_of_size_le ?_).symm⟩
        rw [← OrdMap.length_keys, hnames, List.length_cons]
        omega

/-- Once a snapshot is written under its temporary name, the rename makes it visible. -/
theorem visible_rename_tmp {dir : SnapshotsDir}
    (h : dir.get? (tmpFile timestamp) = some state) :
    visible (dir.rename (tmpFile timestamp) (snapshotFile timestamp)) =
      (visible dir).insert (snapshotFile timestamp) state :=
  visible_rename h (isSnapshot_tmp _) (isSnapshot_snapshotFile _)

theorem visible_insert_tmp (dir : SnapshotsDir) (bytes : Bytes) (timestamp : String) :
    visible (dir.insert (tmpFile timestamp) bytes) = visible dir :=
  visible_insert_of_not (isSnapshot_tmp _)

theorem run_writeSnapshot (r : MyStorageResource) (state : Bytes) (timestamp : String) :
    ∃ dir,
      (writeSnapshot state timestamp).run Calls.allDone r = (.returned (), { r with snapshotsDir := dir }) ∧
      visible dir = (visible r.snapshotsDir).insert (snapshotFile timestamp) state := by
  refine ⟨rename ((r.snapshotsDir.insert (tmpFile timestamp) []).insert (tmpFile timestamp) state)
    (tmpFile timestamp) (snapshotFile timestamp), rfl, ?_⟩
  rw [visible_rename_tmp (OrdMap.get?_insert_self ..), visible_insert_tmp, visible_insert_tmp]

/-- **A checkpoint** adds its snapshot, keeps the last ones, and empties the changelog. -/
theorem run_checkpoint (r : MyStorageResource) (state : Bytes) (timestamp : String) :
    ∃ dir, (checkpoint state timestamp).run Calls.allDone r =
        (.returned (), { r with snapshotsDir := dir, writer := .new [] }) ∧
      visible dir = ((visible r.snapshotsDir).insert (snapshotFile timestamp) state).takeLast
        r.maxSnapshots := by
  obtain ⟨dir, hwrite, hdir⟩ := run_writeSnapshot r state timestamp
  obtain ⟨dir', hprune, hdir'⟩ := run_removeOldest r.maxSnapshots
    { r with snapshotsDir := dir, writer := .new [] }
  refine ⟨dir', ?_, hdir'.trans (by rw [hdir])⟩
  unfold checkpoint pruneSnapshots
  rw [Calls.bind_run, hwrite]
  show (do
    let maxSnapshots ← Calls.read MyStorageResource.maxSnapshots
    let snaps ← listSnapshots
    removeOldest maxSnapshots snaps : Fs Unit).run Calls.allDone
      { r with snapshotsDir := dir, writer := .new [] } = _
  rw [Calls.bind_run, Calls.read_run]
  dsimp only
  rw [Calls.bind_run, run_listSnapshots]
  exact hprune

end MyStorageResource

end PaxosWasm
