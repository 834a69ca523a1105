import PaxosWasm.Storage.Runs

/-!
# A checkpoint that fails

Wherever a call of a checkpoint fails, or the process stops before it, a recovery finds one of two
things. Either the snapshots and the changes are what they were, or the new snapshot is there, behind the
earlier ones, of which only those beyond the limit can be missing: the changelog is truncated when the
snapshot has its name, and a removal comes last. That asks for a changelog that can be read, with and
without what is in the buffer, and for a file that comes behind the earlier ones.
-/

namespace PaxosWasm

open Library Changelog SnapshotsDir

namespace MyStorageResource

variable {r s : MyStorageResource} {state : Bytes} {timestamp : String}

/-- What a recovery over all snapshots finds in `r'`, after a checkpoint of `r`: what it found before, or
the new snapshot behind the earlier ones; the changes are dropped only in the second case. -/
def Recovers (r : MyStorageResource) (state : Bytes) (r' : MyStorageResource) : Prop :=
  ∀ n, (SnapshotsDir.listSnapshots r.snapshotsDir).length ≤ n →
    (SnapshotsDir.listSnapshots r'.snapshotsDir).length ≤ n → n < 2 ^ 32 →
    ∃ snaps changes, r.loadStateAndChanges n = .ok (snaps, changes) ∧
      (r'.loadStateAndChanges n = .ok (snaps, changes) ∨
        ∃ k changes', r'.loadStateAndChanges n = .ok (snaps.drop k ++ [state], changes') ∧
          (0 < k → r.maxSnapshots ≤ (snaps.drop k ++ [state]).length))

/-! ## What each part leaves behind -/

/-- The snapshot is not visible yet: nothing has changed. -/
def Before (r s : MyStorageResource) : Prop :=
  visible s.snapshotsDir = visible r.snapshotsDir ∧ s.writer = r.writer ∧
    s.maxSnapshots = r.maxSnapshots

/-- The file of the changelog as it was, with the buffer behind it, or empty. -/
def ChangelogOf (r : MyStorageResource) (file : Bytes) : Prop :=
  file = r.writer.file ∨ file = r.writer.flush.file ∨ file = []

/-- The directory with the new snapshot. -/
def withSnapshot (r : MyStorageResource) (state : Bytes) (timestamp : String) : SnapshotsDir :=
  (visible r.snapshotsDir).insert (snapshotFile timestamp) state

/-- The snapshot is visible, and the last `m` are left. -/
def After (r : MyStorageResource) (state : Bytes) (timestamp : String) (m : Nat)
    (s : MyStorageResource) : Prop :=
  visible s.snapshotsDir = (r.withSnapshot state timestamp).takeLast m ∧
    1 ≤ m ∧ (m < (r.withSnapshot state timestamp).size → r.maxSnapshots ≤ m) ∧
    r.ChangelogOf s.writer.file ∧ s.maxSnapshots = r.maxSnapshots

/-- However the checkpoint ends, one of the two. -/
def Survives (r : MyStorageResource) (state : Bytes) (timestamp : String) (s : MyStorageResource) :
    Prop :=
  r.Before s ∨ ∃ m, r.After state timestamp m s

theorem After.survives {m : Nat} (h : r.After state timestamp m s) : r.Survives state timestamp s :=
  Or.inr ⟨m, h⟩

section Rules

variable {P : MyStorageResource → Prop} {Q : Unit → MyStorageResource → Prop}
  {C : MyStorageResource → Prop} {c : StorageCall}

theorem triple_onDir {act : SnapshotsDir → SnapshotsDir}
    (hact : ∀ s, P s → Q () { s with snapshotsDir := act s.snapshotsDir }) (hend : ∀ s, P s → C s) :
    Calls.Triple P (onDir c act) Q C :=
  Calls.Triple.call hact hend

theorem triple_onWriter {act : BufWriter → BufWriter}
    (hact : ∀ s, P s → Q () { s with writer := act s.writer }) (hend : ∀ s, P s → C s) :
    Calls.Triple P (onWriter c act) Q C :=
  Calls.Triple.call hact hend

end Rules

/-! ### The pieces in their order

Temporary file, rename, changelog, old snapshots. Up to the rename nothing has changed for a recovery. -/

/-- The snapshot is written under its temporary name. -/
def Written (r : MyStorageResource) (state : Bytes) (timestamp : String) (s : MyStorageResource) :
    Prop :=
  r.Before s ∧ s.snapshotsDir.get? (tmpFile timestamp) = some state

/-- The snapshot has its name. -/
def Renamed (r : MyStorageResource) (state : Bytes) (timestamp : String) (s : MyStorageResource) :
    Prop :=
  visible s.snapshotsDir = r.withSnapshot state timestamp ∧ s.writer = r.writer ∧
    s.maxSnapshots = r.maxSnapshots

/-- Until the rename, nothing that is listed changes. -/
theorem triple_writeSnapshot (r : MyStorageResource) (state : Bytes) (timestamp : String) :
    Calls.Triple (· = r) (writeSnapshot state timestamp) (fun _ => r.Renamed state timestamp)
      r.Before := by
  refine Calls.Triple.bind (Q := fun _ => r.Before) (triple_onDir ?_ ?_) (fun _ => ?_)
  · rintro s rfl
    exact ⟨visible_insert_tmp .., rfl, rfl⟩
  · rintro s rfl
    exact ⟨rfl, rfl, rfl⟩
  refine Calls.Triple.bind (Q := fun _ => r.Written state timestamp) (triple_onDir ?_ ?_) (fun _ => ?_)
  · intro s h
    exact ⟨⟨(visible_insert_tmp ..).trans h.1, h.2⟩, OrdMap.get?_insert_self ..⟩
  · exact fun s h => h
  refine Calls.Triple.bind (Q := fun _ => r.Written state timestamp)
    (triple_onDir (fun s h => h) (fun s h => h.1)) (fun _ => ?_)
  refine triple_onDir ?_ (fun s h => h.1)
  rintro s ⟨⟨hdir, hrest⟩, htmp⟩
  refine ⟨(visible_rename_tmp htmp).trans ?_, hrest⟩
  rw [hdir]
  rfl

theorem one_le_size_withSnapshot (r : MyStorageResource) (state : Bytes) (timestamp : String) :
    1 ≤ (r.withSnapshot state timestamp).size := by
  have hmem := OrdMap.mem_entries.mp
    (OrdMap.get?_insert_self (visible r.snapshotsDir) (snapshotFile timestamp) state)
  exact List.length_pos_of_mem hmem

/-- With all snapshots in the directory. -/
theorem after_all (hdir : visible s.snapshotsDir = r.withSnapshot state timestamp)
    (hfile : r.ChangelogOf s.writer.file) (hmax : s.maxSnapshots = r.maxSnapshots) :
    r.After state timestamp (r.withSnapshot state timestamp).size s :=
  ⟨hdir.trans (OrdMap.takeLast_of_size_le (Nat.le_refl _)).symm, one_le_size_withSnapshot ..,
    fun h => absurd h (Nat.lt_irrefl _), hfile, hmax⟩

/-- From the rename on, the snapshot is visible, and the changelog may go. -/
theorem triple_truncateChangelog (r : MyStorageResource) (state : Bytes) (timestamp : String) :
    Calls.Triple (r.Renamed state timestamp) truncateChangelog
      (fun _ => r.After state timestamp (r.withSnapshot state timestamp).size)
      (r.Survives state timestamp) := by
  have hempty : ∀ s, r.After state timestamp (r.withSnapshot state timestamp).size s →
      r.After state timestamp (r.withSnapshot state timestamp).size
        { s with writer := { s.writer with file := [] } } :=
    fun s h => ⟨h.1, h.2.1, h.2.2.1, Or.inr (Or.inr rfl), h.2.2.2.2⟩
  refine Calls.Triple.bind
    (Q := fun _ => r.After state timestamp (r.withSnapshot state timestamp).size)
    (triple_onWriter ?_ ?_) (fun _ => ?_)
  · rintro s ⟨hdir, hwriter, hmax⟩
    refine after_all hdir (Or.inr (Or.inl ?_)) hmax
    rw [hwriter]
  · rintro s ⟨hdir, hwriter, hmax⟩
    refine (after_all hdir (Or.inl ?_) hmax).survives
    rw [hwriter]
  refine Calls.Triple.bind
    (Q := fun _ => r.After state timestamp (r.withSnapshot state timestamp).size)
    (triple_onWriter hempty (fun s h => h.survives)) (fun _ => ?_)
  refine Calls.Triple.bind
    (Q := fun _ => r.After state timestamp (r.withSnapshot state timestamp).size)
    (triple_onWriter (fun s h => h) (fun s h => h.survives)) (fun _ => ?_)
  exact triple_onWriter (fun s h => h) (fun s h => h.survives)

/-- Some of the snapshots are left, and the loop goes through all of them or none. -/
def Pruning (r : MyStorageResource) (state : Bytes) (timestamp : String) (names : List String)
    (s : MyStorageResource) : Prop :=
  ∃ m, r.After state timestamp m s ∧ (names = [] ∨ names = (visible s.snapshotsDir).keys)

/-- A removal leaves the last ones, and never fewer than the limit. -/
theorem triple_removeOldest (hmax : 1 ≤ r.maxSnapshots) (names : List String) :
    Calls.Triple (r.Pruning state timestamp names) (removeOldest r.maxSnapshots names)
      (fun _ => r.Survives state timestamp) (r.Survives state timestamp) := by
  have hsurvives : ∀ names s, r.Pruning state timestamp names s → r.Survives state timestamp s :=
    fun _ _ ⟨m, h, _⟩ => h.survives
  induction names with
  | nil => exact Calls.Triple.pure (hsurvives _)
  | cons oldest names ih =>
      rw [removeOldest]
      split
      · next hmore =>
        refine Calls.Triple.bind (Q := fun _ => r.Pruning state timestamp names)
          (triple_onDir ?_ (hsurvives _)) (fun _ => ih)
        rintro s ⟨m, ⟨hdir, hrest⟩, hnames | hnames⟩
        · cases hnames
        · have hleft : visible (remove s.snapshotsDir oldest) =
              (visible s.snapshotsDir).takeLast names.length := by
            rw [visible_remove, remove_first hnames.symm]
          refine ⟨min m names.length, ⟨?_, ?_, ?_, hrest.2.2⟩, Or.inr ?_⟩
          · show visible (remove s.snapshotsDir oldest) = _
            rw [hleft, hdir, OrdMap.takeLast_takeLast]
          · have := hrest.1
            omega
          · have := hrest.2.1
            omega
          · show names = (visible (remove s.snapshotsDir oldest)).keys
            rw [hleft, keys_takeLast, ← hnames, List.length_cons, Nat.add_sub_cancel_left]
            rfl
      · exact Calls.Triple.pure (hsurvives _)

/-- The listing shows all that is visible, or nothing. -/
theorem triple_listSnapshots (r : MyStorageResource) (state : Bytes) (timestamp : String) (m : Nat) :
    Calls.Triple (r.After state timestamp m) listSnapshots (r.Pruning state timestamp)
      (r.After state timestamp m) := by
  refine Calls.Triple.orElse ?_ (fun s h => ⟨m, h, Or.inl rfl⟩)
  refine Calls.Triple.bind (Q := fun _ => r.After state timestamp m)
    (triple_onDir (fun s h => h) (fun s h => h)) (fun _ => ?_)
  exact Calls.Triple.read (fun s h => ⟨m, h, Or.inr (listSnapshots_eq _)⟩)

/-- **A checkpoint**, however it ends, leaves what was there, or its snapshot. -/
theorem triple_checkpoint (hmax : 1 ≤ r.maxSnapshots) (state : Bytes) (timestamp : String) :
    Calls.Triple (· = r) (checkpoint state timestamp) (fun _ => r.Survives state timestamp)
      (r.Survives state timestamp) := by
  have hwrite := (triple_writeSnapshot r state timestamp).conseq (fun _ => id) (fun _ _ => id)
    (fun s h => (Or.inl h : r.Survives state timestamp s))
  refine hwrite.bind (fun _ => ?_)
  refine (triple_truncateChangelog r state timestamp).bind (fun _ => ?_)
  refine Calls.Triple.bind (Q := fun retain s => retain = r.maxSnapshots ∧
    r.After state timestamp (r.withSnapshot state timestamp).size s)
    (Calls.Triple.read (fun s h => ⟨h.2.2.2.2, h⟩)) (fun retain => ?_)
  intro outcome s ⟨hretain, h⟩
  subst hretain
  have hlist := (triple_listSnapshots r state timestamp (r.withSnapshot state timestamp).size).conseq
    (fun _ => id) (fun _ _ => id) (fun s => After.survives)
  exact hlist.bind (triple_removeOldest hmax) outcome s h

/-! ## What a recovery finds

However a checkpoint ends, a recovery finds what was there before, or the new snapshot. -/

/-- A read of the changelog does not fail, whatever the checkpoint has made of it. -/
theorem ChangelogOf.load {file : Bytes} (h : r.ChangelogOf file)
    (hread : ∃ changes, Changelog.load r.writer.file = .ok changes)
    (hflushed : ∃ changes, Changelog.load r.writer.flush.file = .ok changes) :
    ∃ changes, Changelog.load file = .ok changes := by
  rcases h with rfl | rfl | rfl
  · exact hread
  · exact hflushed
  · exact ⟨[], Changelog.load_eq_ok_iff.mpr (Framing.read_of_short (by decide))⟩

/-- A read of at least as many snapshots as there are gets all of them. -/
theorem load_all (r : MyStorageResource) {n : Nat} {changes : List Change}
    (hn : (SnapshotsDir.listSnapshots r.snapshotsDir).length ≤ n) (hlt : n < 2 ^ 32)
    (hload : Changelog.load r.writer.file = .ok changes) :
    r.loadStateAndChanges n = .ok ((visible r.snapshotsDir).values, changes) := by
  rw [listSnapshots_eq, OrdMap.length_keys] at hn
  rw [loadStateAndChanges_eq_ok_iff, asUsize_of_lt hlt, OrdMap.takeLast_of_size_le hn]
  exact ⟨rfl, hload⟩

/-- **A checkpoint that fails or is cut off** loses nothing: a recovery finds what it would have found
before, or the new snapshot. -/
theorem checkpoint_recovers (hmax : 1 ≤ r.maxSnapshots)
    (hread : ∃ changes, Changelog.load r.writer.file = .ok changes)
    (hflushed : ∃ changes, Changelog.load r.writer.flush.file = .ok changes)
    (hname : ∀ name ∈ SnapshotsDir.listSnapshots r.snapshotsDir, name < snapshotFile timestamp)
    (state : Bytes) (outcome : StorageCall → Outcome) :
    r.Recovers state ((checkpoint state timestamp).run outcome r).2 := by
  have hend : r.Survives state timestamp ((checkpoint state timestamp).run outcome r).2 :=
    (triple_checkpoint hmax state timestamp).snd outcome rfl
  generalize ((checkpoint state timestamp).run outcome r).2 = r' at hend ⊢
  intro n hn hn' hlt
  obtain ⟨changes, hchanges⟩ := hread
  refine ⟨_, _, load_all r hn hlt hchanges, ?_⟩
  rcases hend with ⟨hdir, hwriter, -⟩ | ⟨m, hdir, hone, hleft, hfile, -⟩
  · refine Or.inl ?_
    rw [load_all r' hn' hlt (hwriter ▸ hchanges), hdir]
  · obtain ⟨changes', hchanges'⟩ := hfile.load ⟨changes, hchanges⟩ hflushed
    have hvalues : (r.withSnapshot state timestamp).values =
        (visible r.snapshotsDir).values ++ [state] := by
      rw [withSnapshot, OrdMap.values, OrdMap.entries_insert_of_lt state (by
        rw [← listSnapshots_eq]
        exact hname), List.map_append]
      rfl
    have hsize : (r.withSnapshot state timestamp).size = (visible r.snapshotsDir).values.length + 1 := by
      have hlength := congrArg List.length hvalues
      rwa [OrdMap.values, List.length_map, List.length_append, List.length_singleton] at hlength
    generalize (visible r.snapshotsDir).values = snaps at hvalues hsize ⊢
    -- what is missing are the oldest ones
    have hsnaps : (visible r'.snapshotsDir).values = snaps.drop (snaps.length + 1 - m) ++ [state] := by
      rw [hdir, values_takeLast, hvalues, lastOf, List.length_append, List.length_singleton,
        List.drop_append_of_le_length (by omega)]
    refine Or.inr ⟨snaps.length + 1 - m, changes', ?_, ?_⟩
    · rw [load_all r' hn' hlt hchanges', hsnaps]
    · intro hmissing
      rw [List.length_append, List.length_drop, List.length_singleton]
      have := hleft (by omega)
      omega

/-- A snapshot, a change that has been flushed, and one in the buffer. -/
def busy : MyStorageResource :=
  ((fresh 1).runAll
    [.checkpoint [1] "1", .saveChange oneByte, .flushChanges, .saveChange noBytes]).2

/-- The changelog cannot be truncated. -/
def truncateFails (c : StorageCall) : Outcome :=
  if c = .truncateChangelog then .failed "set_len" else .done

set_option maxRecDepth 8000 in
/-- A checkpoint that returns the error has written its snapshot, and flushed the change in the buffer. -/
theorem checkpoint_recovers_truncate_fails :
    busy.Recovers [2] ((checkpoint [2] "2").run truncateFails busy).2 :=
  checkpoint_recovers (by decide)
    ⟨[oneByte], Changelog.load_eq_ok_iff.mpr (Framing.read_eq_some_iff.mpr ⟨[], by decide, by decide⟩)⟩
    ⟨[oneByte, noBytes],
      Changelog.load_eq_ok_iff.mpr (Framing.read_eq_some_iff.mpr ⟨[], by decide, by decide⟩)⟩
    (by decide) [2] truncateFails

/-! ## Where a checkpoint loses what was there -/

/-- A snapshot, and a change that has been flushed. -/
def changedOnce : List StoreOp := [.checkpoint [1] "1", .saveChange oneByte, .flushChanges]

def checkpointed : MyStorageResource := ((fresh 1).runAll changedOnce).2

/-- A record that fills the buffer but for two bytes. -/
def largeChange : Change := ⟨List.replicate 8190 0, by rw [List.length_replicate]; decide⟩

/-- The record has driven its length out of the buffer. -/
def halfWritten : MyStorageResource := (fresh 1).saveChange largeChange

theorem file_halfWritten : halfWritten.writer.file = u32Frames.header 8190 := by
  have hlen : largeChange.1.length = 8190 := List.length_replicate
  show ((BufWriter.new []).saveChange largeChange).file = _
  unfold BufWriter.saveChange
  rw [hlen]
  have hheader : (BufWriter.new []).writeAll (u32Frames.header 8190) =
      { file := [], buffer := u32Frames.header 8190 } := by decide
  rw [hheader, BufWriter.writeAll, hlen]
  decide

/-- A length without its record cannot be read. -/
theorem load_header {n : Nat} (hn : 0 < n) (hlt : n < 2 ^ 32) (changes : List Change) :
    Changelog.load (u32Frames.header n) ≠ .ok changes := by
  intro h
  obtain ⟨tail, htail, he⟩ := Framing.read_eq_some_iff.mp (Changelog.load_eq_ok_iff.mp h)
  have hlength : 4 = (Framing.frames changes).length + tail.length := by
    rw [← List.length_append, ← he]
    rfl
  cases changes with
  | nil =>
      have htail : tail.length < 4 := htail
      rw [Framing.frames_nil, List.length_nil] at hlength
      omega
  | cons change changes =>
      rw [Framing.frames_cons, List.length_append, Framing.length_frame] at hlength
      have hwidth : u32Frames.width = 4 := rfl
      -- the length would be that of an empty record
      have hempty : change.1.length = 0 := by omega
      have htake : ∀ n rest, (u32Frames.header n ++ rest).take 4 = u32Frames.header n :=
        fun n rest => List.take_left' (u32Frames.length_header n)
      have hheader := congrArg (List.take 4) he
      rw [Framing.frames_cons, Framing.frame, hempty, List.append_assoc, List.append_assoc, htake,
        ← List.append_nil (u32Frames.header n), htake] at hheader
      have hvalue := congrArg u32Frames.value hheader
      rw [u32Frames.value_header _ hlt, u32Frames.value_header _ (by decide)] at hvalue
      omega

set_option maxRecDepth 8000 in
/-- **What was there is lost** when the file of the new snapshot is listed before the one there is: the
new one is removed, and the changes are gone. **And nothing is read** while a part of a record is on the
disk: a checkpoint that stops at its first call leaves it there. -/
theorem checkpoint_may_lose :
    ("1" < "1-" ∧ (fresh 1).runAll changedOnce = (.returned (), checkpointed) ∧
        ¬ checkpointed.Recovers [2] ((checkpoint [2] "1-").run Calls.allDone checkpointed).2) ∧
      (fresh 1).runAll [.saveChange largeChange] = (.returned (), halfWritten) ∧
        ¬ halfWritten.Recovers [2] ((checkpoint [2] "1").run (fun _ => .stopped) halfWritten).2 := by
  refine ⟨⟨by decide, rfl, ?_⟩, rfl, ?_⟩
  · intro h
    obtain ⟨snaps, changes, hbefore, hafter⟩ := h 2 (by decide) (by decide) (by decide)
    have hchanges := (loadStateAndChanges_eq_ok_iff.mp hbefore).2
    have hlisted : (visible ((checkpoint [2] "1-").run Calls.allDone checkpointed).2.snapshotsDir).values =
        [[1]] := by decide
    have hfile : ((checkpoint [2] "1-").run Calls.allDone checkpointed).2.writer.file = [] := by decide
    rcases hafter with hafter | ⟨k, changes', hafter, -⟩
    · -- the file is empty, and there was a change in it
      have hempty := (loadStateAndChanges_eq_ok_iff.mp hafter).2
      rw [hfile, Changelog.load_eq_ok_iff, Framing.read_of_short (by decide)] at hempty
      obtain rfl := Option.some.inj hempty
      obtain ⟨tail, htail, he⟩ := Framing.read_eq_some_iff.mp (Changelog.load_eq_ok_iff.mp hchanges)
      have hlength : checkpointed.writer.file.length = 5 := by decide
      rw [he, Framing.frames_nil, List.nil_append] at hlength
      have htail : tail.length < 4 := htail
      omega
    · -- the new snapshot is not listed
      have hsnaps := (loadStateAndChanges_eq_ok_iff.mp hafter).1
      rw [values_takeLast, hlisted] at hsnaps
      have hlast := congrArg List.getLast? hsnaps
      rw [List.getLast?_concat] at hlast
      exact absurd hlast (by decide)
  · intro h
    obtain ⟨snaps, changes, hbefore, -⟩ := h 0 (by decide) (by decide) (by decide)
    have hchanges := (loadStateAndChanges_eq_ok_iff.mp hbefore).2
    rw [file_halfWritten] at hchanges
    exact load_header (by decide) (by decide) changes hchanges

end MyStorageResource

end PaxosWasm
