import PaxosWasm.Library.Calls
import PaxosWasm.Storage.Files

/-!
# The store of the native host

`runner-ws/host_storage`: a task that takes requests and ignores what their calls come to. A checkpoint
writes the snapshot under a temporary name, renames it, creates the changelog anew and removes the oldest
snapshots, each whether or not the calls before it have failed. The changes survive a snapshot that could
not be written only if the changelog could not be created either, or held none.

Each request is handled to its end, whatever its calls come to, so a directory after a request is a
function of the directory before it and of the calls that fail. The condition on a checkpoint is found by
going through its calls: a changelog that is created anew takes the changes along, whether or not the
snapshot that should replace them is there.
-/

namespace PaxosWasm

open Library Changelog SnapshotsDir

/-- The files under one key. -/
structure HostFiles where
  /-- `current-state.bin`. -/
  stateFile : Option Bytes
  /-- `changelog.bin`. -/
  changelog : Option Bytes
  snapshotsDir : SnapshotsDir

inductive StorageRequest where
  | saveState (data : Bytes)
  | saveChange (data : Change)
  | checkpoint (data : Bytes) (timestamp : String) (maxSnapshots : Nat)

/-- The calls of the file system that a request makes. -/
inductive HostCall where
  | createDirAll
  | writeState
  | openChangelog
  | writeLength
  | writeChange
  | createTmp
  | writeTmp
  | syncTmp
  | rename
  | createChangelog
  | readDir
  | removeFile (name : String)
deriving DecidableEq, Repr

/-! ## Failures

Every call on the file system may fail, and the host ignores it. The model is told beforehand which do. -/

/-- The calls that fail while a request is handled. -/
structure Failures where
  fails : HostCall → Bool
  /-- A write that fails has written as many bytes. -/
  written : Nat
  /-- A read of the directory that fails has given these names. -/
  seen : String → Bool

namespace Failures

def outcome (o : Failures) (c : HostCall) : Outcome := if o.fails c then .failed "" else .done

/-- The snapshot gets its name. -/
def Names (o : Failures) : Prop := ¬ o.fails .createTmp ∧ ¬ o.fails .rename

instance (o : Failures) : Decidable o.Names := inferInstanceAs (Decidable (_ ∧ _))

/-- What is written of a snapshot. -/
def content (o : Failures) (data : Bytes) : Bytes :=
  if o.fails .writeTmp then data.take o.written else data

/-- The reads of the directory give this name. -/
def sees (o : Failures) (name : String) : Bool := !o.fails .readDir || o.seen name

end Failures

namespace HostFiles

abbrev Host : Type → Type := Calls HostCall HostFiles

/-- `if let Ok(_) = …`. -/
def succeeds (p : Host Unit) : Host Bool := (do
  p
  pure true).orElse false

/-! ## The requests -/

def onDir (c : HostCall) (act : SnapshotsDir → SnapshotsDir) : Host Unit :=
  Calls.call c (fun f => { f with snapshotsDir := act f.snapshotsDir })

def onChangelog (c : HostCall) (act : Option Bytes → Option Bytes) : Host Unit :=
  Calls.call c (fun f => { f with changelog := act f.changelog })

/-- Append to the changelog; a write that fails appends the first bytes. -/
def append (o : Failures) (c : HostCall) (data : Bytes) : Host Unit :=
  Calls.callElse c (fun f => { f with changelog := f.changelog.map (· ++ data) })
    (fun f => { f with changelog := f.changelog.map (· ++ data.take o.written) })

def listSnapshots (o : Failures) : Host (List String) := do
  if ← succeeds (onDir .readDir id) then
    Calls.read (fun f => SnapshotsDir.listSnapshots f.snapshotsDir)
  else
    Calls.read (fun f => (SnapshotsDir.listSnapshots f.snapshotsDir).filter o.seen)

/-- The loop of `prune_snapshots`. -/
def removeOldest (retain : Nat) : List String → Host Unit
  | [] => pure ()
  | oldest :: files =>
      if files.length + 1 > retain then do
        (onDir (.removeFile oldest) (fun dir => dir.remove oldest)).orElse ()
        removeOldest retain files
      else pure ()

def pruneSnapshots (o : Failures) (retain : Nat) : Host Unit := do
  let files ← listSnapshots o
  removeOldest retain files

/-- The name under which a snapshot is written. -/
def tmpFile (timestamp : String) : String := "snapshot-" ++ timestamp ++ ".tmp"

/-- Write the snapshot to a temporary file, and rename it, if the file can be created. -/
def writeSnapshot (o : Failures) (data : Bytes) (timestamp : String) : Host Unit := do
  if ← succeeds (onDir .createTmp (fun dir => dir.insert (tmpFile timestamp) [])) then
    (Calls.callElse .writeTmp
      (fun f => { f with snapshotsDir := f.snapshotsDir.insert (tmpFile timestamp) data })
      (fun f => { f with
        snapshotsDir := f.snapshotsDir.insert (tmpFile timestamp) (data.take o.written) })).orElse ()
    (onDir .syncTmp id).orElse ()
    (onDir .rename (fun dir => dir.rename (tmpFile timestamp) (snapshotFile timestamp))).orElse ()

def handleRequest (o : Failures) : StorageRequest → Host Unit
  | .saveState data => do
      (Calls.call .createDirAll id).orElse ()
      (Calls.callElse .writeState (fun f => { f with stateFile := some data })
        (fun f => { f with stateFile := some (data.take o.written) })).orElse ()
  | .saveChange data => do
      (Calls.call .createDirAll id).orElse ()
      if ← succeeds (onChangelog .openChangelog (fun file => some (file.getD []))) then
        (append o .writeLength (u32Frames.header data.1.length)).orElse ()
        (append o .writeChange data.1).orElse ()
  | .checkpoint data timestamp maxSnapshots => do
      (Calls.call .createDirAll id).orElse ()
      writeSnapshot o data timestamp
      (onChangelog .createChangelog (fun _ => some [])).orElse ()
      pruneSnapshots o maxSnapshots

/-- The files after a request. -/
def handled (f : HostFiles) (o : Failures) (request : StorageRequest) : HostFiles :=
  ((handleRequest o request).run o.outcome f).2

/-- Read back the latest `numSnapshots` snapshots and the changelog. -/
def loadStateAndChanges (f : HostFiles) (numSnapshots : Nat) :
    Except String (List Bytes × List Change) :=
  loadFiles f.snapshotsDir f.changelog numSnapshots

variable {f : HostFiles} {o : Failures}

/-! ## Calls whose failure is ignored

A request goes on behind a call that has failed, and the result says nothing of it. -/

theorem orElse_callElse_run (c : HostCall) (act broken : HostFiles → HostFiles) :
    ((Calls.callElse c act broken).orElse ()).run o.outcome f =
      (.returned (), if o.fails c then broken f else act f) := by
  by_cases hc : o.fails c
  · have houtcome : o.outcome c = .failed "" := if_pos hc
    rw [Calls.orElse_run, Calls.callElse_run_failed act broken houtcome, if_pos hc]
  · have houtcome : o.outcome c = .done := if_neg hc
    rw [Calls.orElse_run, Calls.callElse_run_done act broken houtcome, if_neg hc]

theorem orElse_call_run (c : HostCall) (act : HostFiles → HostFiles) :
    ((Calls.call c act).orElse ()).run o.outcome f = (.returned (), if o.fails c then f else act f) :=
  orElse_callElse_run c act id

theorem succeeds_call_run (c : HostCall) (act : HostFiles → HostFiles) :
    (succeeds (Calls.call c act)).run o.outcome f =
      (.returned (!o.fails c), if o.fails c then f else act f) := by
  unfold succeeds
  by_cases hc : o.fails c
  · have houtcome : o.outcome c = .failed "" := if_pos hc
    rw [Calls.orElse_run, Calls.bind_run, Calls.call_run_failed act houtcome, if_pos hc, hc]
    rfl
  · have houtcome : o.outcome c = .done := if_neg hc
    rw [Calls.orElse_run, Calls.bind_run, Calls.call_run_done act houtcome, if_neg hc,
      Bool.eq_false_of_not_eq_true hc]
    rfl

/-! ## What a checkpoint leaves

A checkpoint writes the snapshot under a temporary name, renames it, creates the changelog anew and
removes the oldest snapshots. Each part is described for any failures; together they are the files after
a checkpoint (`handled_checkpoint`). -/

/-- The temporary file is written and not listed. -/
def Written (dir : SnapshotsDir) (bytes : Bytes) (timestamp : String) (f : HostFiles) : Prop :=
  f.snapshotsDir.get? (tmpFile timestamp) = some bytes ∧ visible f.snapshotsDir = visible dir

theorem written_insert {dir dir' : SnapshotsDir} (hdir : visible dir' = visible dir) (bytes : Bytes)
    (timestamp : String) :
    Written dir bytes timestamp { f with snapshotsDir := dir'.insert (tmpFile timestamp) bytes } :=
  ⟨OrdMap.get?_insert_self .., (visible_insert_of_not (isSnapshot_tmp _)).trans hdir⟩

/-- The rename makes visible what has been written. -/
theorem visible_renamed {dir : SnapshotsDir} {bytes : Bytes} {timestamp : String}
    (h : Written dir bytes timestamp f) :
    visible (rename f.snapshotsDir (tmpFile timestamp) (snapshotFile timestamp)) =
      (visible dir).insert (snapshotFile timestamp) bytes := by
  rw [visible_rename h.1 (isSnapshot_tmp _) (isSnapshot_snapshotFile _), h.2]

/-- **The new snapshot** is visible with what was written of it, if it gets its name. -/
theorem run_writeSnapshot (o : Failures) (f : HostFiles) (data : Bytes) (timestamp : String) :
    ∃ dir, (writeSnapshot o data timestamp).run o.outcome f =
        (.returned (), { f with snapshotsDir := dir }) ∧
      visible dir = if o.Names then
        (visible f.snapshotsDir).insert (snapshotFile timestamp) (o.content data)
      else visible f.snapshotsDir := by
  unfold writeSnapshot onDir
  rw [Calls.bind_run, succeeds_call_run]
  by_cases hcreate : o.fails .createTmp
  · rw [if_pos hcreate, hcreate, if_neg (fun h => h.1 hcreate)]
    exact ⟨_, rfl, rfl⟩
  · have hfalse := Bool.eq_false_of_not_eq_true hcreate
    rw [if_neg hcreate, hfalse]
    dsimp only
    rw [Bool.not_false, if_pos rfl, Calls.bind_run, orElse_callElse_run]
    dsimp only
    generalize hcreated : f.snapshotsDir.insert (tmpFile timestamp) [] = dir
    -- the temporary file is not listed
    have hvisible : visible dir = visible f.snapshotsDir :=
      hcreated ▸ visible_insert_of_not (isSnapshot_tmp _)
    obtain ⟨dir', hdir, hwritten⟩ : ∃ dir',
        (if o.fails .writeTmp = true then
          { f with snapshotsDir := dir.insert (tmpFile timestamp) (data.take o.written) }
        else { f with snapshotsDir := dir.insert (tmpFile timestamp) data }) =
          { f with snapshotsDir := dir' } ∧
        Written f.snapshotsDir (o.content data) timestamp { f with snapshotsDir := dir' } := by
      unfold Failures.content
      by_cases hwrite : o.fails .writeTmp
      · rw [if_pos hwrite, if_pos hwrite]
        exact ⟨_, rfl, written_insert (f := f) hvisible _ _⟩
      · rw [if_neg hwrite, if_neg hwrite]
        exact ⟨_, rfl, written_insert (f := f) hvisible _ _⟩
    rw [hdir, Calls.bind_run, orElse_call_run]
    dsimp only
    rw [orElse_call_run]
    simp only [id, ite_self]
    -- the rename is what makes the snapshot visible
    by_cases hrename : o.fails .rename
    · rw [if_pos hrename, if_neg (fun h => h.2 hrename)]
      exact ⟨dir', rfl, hwritten.2⟩
    · rw [if_neg hrename, if_pos ⟨hcreate, hrename⟩]
      exact ⟨_, rfl, visible_renamed hwritten⟩

/-- A removal whose failure is ignored. -/
theorem get?_removed (dir : SnapshotsDir) (fails : Bool) (oldest name : String) :
    (if fails then dir else remove dir oldest).get? name =
      if name = oldest ∧ ¬ fails then none else dir.get? name := by
  cases fails with
  | true => simp
  | false =>
      simp only [Bool.false_eq_true, if_false, not_false_eq_true, and_true, remove,
        OrdMap.get?_retain, decide_eq_true_eq, ne_eq]
      split <;> simp_all

/-- **The removals** take the first files away, but for those that cannot be removed. -/
theorem run_removeOldest (o : Failures) (retain : Nat) (files : List String) (f : HostFiles) :
    ∃ dir, (removeOldest retain files).run o.outcome f = (.returned (), { f with snapshotsDir := dir }) ∧
      ∀ name, dir.get? name =
        if name ∈ files.take (files.length - retain) ∧ ¬ o.fails (.removeFile name) then none
        else f.snapshotsDir.get? name := by
  induction files generalizing f with
  | nil => exact ⟨f.snapshotsDir, rfl, fun name => by simp⟩
  | cons oldest files ih =>
      rw [removeOldest]
      split
      · next hmore =>
        -- one more file than may be left, so the first one goes
        have hcount : (oldest :: files).length - retain = (files.length - retain) + 1 := by
          rw [List.length_cons]
          omega
        obtain ⟨dir, hrun, hdir⟩ := ih { f with
          snapshotsDir := if o.fails (.removeFile oldest) then f.snapshotsDir
            else remove f.snapshotsDir oldest }
        refine ⟨dir, ?_, fun name => ?_⟩
        · rw [Calls.bind_run, onDir, orElse_call_run]
          dsimp only
          rw [← hrun]
          congr 1
          split <;> rfl
        · rw [hdir, hcount, List.take_succ_cons]
          dsimp only
          rw [get?_removed]
          by_cases hlater : name ∈ files.take (files.length - retain) ∧ ¬ o.fails (.removeFile name)
          · rw [if_pos hlater, if_pos ⟨List.mem_cons_of_mem _ hlater.1, hlater.2⟩]
          · rw [if_neg hlater]
            by_cases hfirst : name = oldest ∧ ¬ o.fails (.removeFile oldest)
            · rw [if_pos hfirst, if_pos ⟨hfirst.1 ▸ List.mem_cons_self .., hfirst.1 ▸ hfirst.2⟩]
            · rw [if_neg hfirst, if_neg]
              -- it is neither the first nor among the others that go
              rintro ⟨hmem, hdone⟩
              rcases List.mem_cons.mp hmem with rfl | hmem
              · exact hfirst ⟨rfl, hdone⟩
              · exact hlater ⟨hmem, hdone⟩
      · next hfew =>
        refine ⟨f.snapshotsDir, rfl, fun name => ?_⟩
        rw [List.length_cons, Nat.sub_eq_zero_of_le (by omega), List.take_zero]
        simp

theorem run_listSnapshots (o : Failures) (f : HostFiles) :
    (listSnapshots o).run o.outcome f =
      (.returned ((visible f.snapshotsDir).keys.filter o.sees), f) := by
  unfold listSnapshots onDir
  rw [Calls.bind_run, succeeds_call_run, ← listSnapshots_eq]
  by_cases hread : o.fails .readDir
  · have hsees : o.sees = o.seen := by
      funext name
      rw [Failures.sees, hread, Bool.not_true, Bool.false_or]
    rw [if_pos hread, hread, hsees]
    rfl
  · have hfalse := Bool.eq_false_of_not_eq_true hread
    have hsees : o.sees = fun _ => true := by
      funext name
      rw [Failures.sees, hfalse, Bool.not_false, Bool.true_or]
    rw [if_neg hread, hfalse, hsees, List.filter_true]
    rfl

/-- Of an ascending list, the first ones but for the last `m` are those with at least `m` behind
them. -/
theorem mem_take_iff {l : List String} (hl : l.Pairwise (· < ·)) {x : String} (m : Nat) :
    x ∈ l.take (l.length - m) ↔ x ∈ l ∧ m ≤ (l.filter (fun y => decide (x < y))).length := by
  constructor
  · intro hx
    have hmem := List.mem_of_mem_take hx
    refine ⟨hmem, ?_⟩
    have hsplit := List.take_append_drop (l.length - m) l
    rw [← hsplit] at hl
    have hbehind := (List.pairwise_append.mp hl).2.2 x hx
    have hpos : 0 < l.length - m := by
      by_contra h
      rw [Nat.eq_zero_of_not_pos h] at hx
      cases hx
    have hle : ((l.drop (l.length - m)).filter (fun y => decide (x < y))).length ≤
        (l.filter (fun y => decide (x < y))).length :=
      ((List.drop_sublist _ _).filter _).length_le
    rw [List.filter_eq_self.mpr (fun y hy => decide_eq_true (hbehind y hy)), List.length_drop] at hle
    omega
  · rintro ⟨hmem, hcount⟩
    by_contra hout
    have hdrop : x ∈ l.drop (l.length - m) := by
      rw [← List.take_append_drop (l.length - m) l] at hmem
      exact (List.mem_append.mp hmem).resolve_left hout
    -- only what comes behind `x` is greater, and that is less than the last `m`
    have hfront : (l.take (l.length - m)).filter (fun y => decide (x < y)) = [] := by
      rw [List.filter_eq_nil_iff]
      rw [← List.take_append_drop (l.length - m) l] at hl
      intro y hy hlt
      exact absurd (of_decide_eq_true hlt) (lt_asymm ((List.pairwise_append.mp hl).2.2 y hy x hdrop))
    have hless : ((l.drop (l.length - m)).filter (fun y => decide (x < y))).length <
        (l.drop (l.length - m)).length :=
      List.length_filter_lt_length_iff_exists.mpr ⟨x, hdrop, by simp⟩
    rw [← List.take_append_drop (l.length - m) l, List.filter_append, hfront, List.nil_append] at hcount
    rw [List.length_drop] at hless
    omega

variable {data : Bytes} {timestamp : String} {maxSnapshots : Nat}

/-! ### All parts together -/

/-- The visible files once the snapshot has been written. -/
def withSnapshot (f : HostFiles) (o : Failures) (data : Bytes) (timestamp : String) : SnapshotsDir :=
  if o.Names then (visible f.snapshotsDir).insert (snapshotFile timestamp) (o.content data)
  else visible f.snapshotsDir

/-- **A checkpoint** writes its snapshot, creates the changelog anew, and removes the first of the files
it sees. -/
theorem handled_checkpoint (f : HostFiles) (o : Failures) (data : Bytes) (timestamp : String)
    (maxSnapshots : Nat) :
    let f' := f.handled o (.checkpoint data timestamp maxSnapshots)
    let files := (f.withSnapshot o data timestamp).keys.filter o.sees
    f'.changelog = (if o.fails .createChangelog then f.changelog else some []) ∧
      ∀ name, (visible f'.snapshotsDir).get? name =
        if name ∈ files.take (files.length - maxSnapshots) ∧ ¬ o.fails (.removeFile name) then none
        else (f.withSnapshot o data timestamp).get? name := by
  intro f' files
  obtain ⟨dir, hwrite, hdir⟩ := run_writeSnapshot o f data timestamp
  have hdir : visible dir = f.withSnapshot o data timestamp := hdir
  obtain ⟨dir', hprune, hdir'⟩ := run_removeOldest o maxSnapshots files
    { f with snapshotsDir := dir,
             changelog := if o.fails .createChangelog then f.changelog else some [] }
  have hrun : f' = { f with
      snapshotsDir := dir'
      changelog := if o.fails .createChangelog then f.changelog else some [] } := by
    show ((handleRequest o (.checkpoint data timestamp maxSnapshots)).run o.outcome f).2 = _
    unfold handleRequest onChangelog pruneSnapshots
    rw [Calls.bind_run, orElse_call_run]
    simp only [id, ite_self]
    rw [Calls.bind_run, hwrite]
    dsimp only
    rw [Calls.bind_run, orElse_call_run]
    dsimp only
    have hchangelog : (if o.fails .createChangelog = true then { f with snapshotsDir := dir }
        else { f with snapshotsDir := dir, changelog := some [] }) =
        { f with
          snapshotsDir := dir
          changelog := if o.fails .createChangelog then f.changelog else some [] } := by
      split <;> rfl
    rw [hchangelog, Calls.bind_run, run_listSnapshots]
    dsimp only
    rw [hdir]
    exact congrArg Prod.snd hprune
  rw [hrun]
  refine ⟨rfl, fun name => ?_⟩
  have hshown := get?_visible dir name
  rw [hdir] at hshown
  rw [hshown, get?_visible, hdir' name]
  by_cases hname : isSnapshot name
  · rw [if_pos hname, if_pos hname]
  · rw [if_neg hname, if_neg hname, ite_self]

/-! ## When the changes are lost

The changelog is created anew whether or not the snapshot has been written. So the changes are there
after a checkpoint, in the one form or the other, if the new snapshot is, or if there were none. -/

/-- The new snapshot is listed with its full contents. -/
def Lists (f : HostFiles) (data : Bytes) (timestamp : String) : Prop :=
  snapshotFile timestamp ∈ SnapshotsDir.listSnapshots f.snapshotsDir ∧
    f.snapshotsDir.get? (snapshotFile timestamp) = some data

/-- If the new snapshot is not there, all changes are still read. -/
def KeepsChanges (f : HostFiles) (data : Bytes) (timestamp : String) (f' : HostFiles) : Prop :=
  ¬ f'.Lists data timestamp → ∀ n snaps changes, f.loadStateAndChanges n = .ok (snaps, changes) →
    ∃ snaps', f'.loadStateAndChanges n = .ok (snaps', changes)

/-- The file of the snapshot gets its full contents, or has had them. -/
def Completes (f : HostFiles) (o : Failures) (data : Bytes) (timestamp : String) : Prop :=
  (o.Names ∧ o.content data = data) ∨
    (¬ o.Names ∧ f.snapshotsDir.get? (snapshotFile timestamp) = some data)

/-- The new snapshot is among those that are removed: it is seen, and so are as many later ones as are to
be retained. -/
def Prunes (f : HostFiles) (o : Failures) (timestamp : String) (maxSnapshots : Nat) : Prop :=
  o.sees (snapshotFile timestamp) = true ∧ ¬ o.fails (.removeFile (snapshotFile timestamp)) ∧
    maxSnapshots ≤ ((SnapshotsDir.listSnapshots f.snapshotsDir).filter
      (fun name => decide (snapshotFile timestamp < name) && o.sees name)).length

/-- The changelog cannot be read, or holds no change. -/
def NoChanges (f : HostFiles) : Prop :=
  ∀ changes, f.changelog.elim (.ok []) Changelog.load = .ok changes → changes = []

theorem lists_iff : f.Lists data timestamp ↔
    (visible f.snapshotsDir).get? (snapshotFile timestamp) = some data := by
  rw [Lists, listSnapshots_eq, OrdMap.mem_keys, get?_visible, if_pos (isSnapshot_snapshotFile _)]
  constructor
  · exact And.right
  · exact fun h => ⟨⟨data, h⟩, h⟩

/-- Behind the new snapshot nothing changes. -/
theorem filter_keys_withSnapshot (f : HostFiles) (o : Failures) (data : Bytes) (timestamp : String)
    (p : String → Bool) :
    (f.withSnapshot o data timestamp).keys.filter
        (fun name => decide (snapshotFile timestamp < name) && p name) =
      (SnapshotsDir.listSnapshots f.snapshotsDir).filter
        (fun name => decide (snapshotFile timestamp < name) && p name) := by
  rw [listSnapshots_eq, withSnapshot]
  split
  · have hkeys : ∀ dir : SnapshotsDir, dir.keys.filter
        (fun name => decide (snapshotFile timestamp < name) && p name) =
        (dir.retain (fun name => decide (snapshotFile timestamp < name) && p name)).keys := by
      intro dir
      rw [OrdMap.keys, OrdMap.keys, List.filter_map]
      rfl
    rw [hkeys, hkeys]
    congr 1
    apply OrdMap.ext_get?
    intro name
    rw [OrdMap.get?_retain, OrdMap.get?_retain, OrdMap.get?_insert]
    by_cases hname : name = snapshotFile timestamp
    · subst hname
      simp
    · rw [if_neg hname]
  · rfl

/-- **The new snapshot is there** after a checkpoint exactly if its file gets its full contents and is
not removed. -/
theorem lists_handled_iff (f : HostFiles) (o : Failures) (data : Bytes) (timestamp : String)
    (maxSnapshots : Nat) :
    (f.handled o (.checkpoint data timestamp maxSnapshots)).Lists data timestamp ↔
      f.Completes o data timestamp ∧ ¬ f.Prunes o timestamp maxSnapshots := by
  obtain ⟨-, hdir⟩ := handled_checkpoint f o data timestamp maxSnapshots
  have hcompletes : (f.withSnapshot o data timestamp).get? (snapshotFile timestamp) = some data ↔
      f.Completes o data timestamp := by
    unfold withSnapshot Completes
    by_cases hnames : o.Names
    · rw [if_pos hnames, OrdMap.get?_insert_self, Option.some_inj]
      exact ⟨fun h => Or.inl ⟨hnames, h⟩, fun h => (h.resolve_right (fun h => h.1 hnames)).2⟩
    · rw [if_neg hnames, get?_visible, if_pos (isSnapshot_snapshotFile _)]
      exact ⟨fun h => Or.inr ⟨hnames, h⟩, fun h => (h.resolve_left (fun h => hnames h.1)).2⟩
  have hsorted := (f.withSnapshot o data timestamp).keys_sorted.filter o.sees
  rw [lists_iff, hdir, ← hcompletes]
  simp only [mem_take_iff hsorted, List.filter_filter, List.mem_filter,
    filter_keys_withSnapshot f o data timestamp o.sees]
  unfold Prunes
  by_cases hget : (f.withSnapshot o data timestamp).get? (snapshotFile timestamp) = some data
  · have hmem := OrdMap.mem_keys.mpr ⟨data, hget⟩
    rw [hget]
    simp only [hmem, true_and]
    split
    · next hgone => exact iff_of_false (fun h => by cases h) (fun h => h ⟨hgone.1.1, hgone.2, hgone.1.2⟩)
    · next hleft => exact iff_of_true rfl (fun h => hleft ⟨⟨h.1, h.2.2⟩, h.2.1⟩)
  · refine iff_of_false (fun h => ?_) (fun h => hget h.1)
    split at h
    · cases h
    · exact hget h

/-! ### What is read back

Snapshots and changes are read apart from each other, and a checkpoint changes both. -/

theorem loadStateAndChanges_eq (f : HostFiles) (n : Nat) :
    f.loadStateAndChanges n = (f.changelog.elim (.ok []) Changelog.load).map
      (fun changes => (((visible f.snapshotsDir).takeLast n).values, changes)) :=
  loadFiles_eq ..

theorem load_nil : Changelog.load [] = .ok [] :=
  Changelog.load_eq_ok_iff.mpr (Framing.read_of_short (by decide))

/-- What is read of the changes does not depend on the snapshots. -/
theorem loads_changes_iff {changes : List Change} (n : Nat) :
    (∃ snaps, f.loadStateAndChanges n = .ok (snaps, changes)) ↔
      f.changelog.elim (.ok []) Changelog.load = .ok changes := by
  rw [loadStateAndChanges_eq]
  cases f.changelog.elim (.ok []) Changelog.load with
  | error e => exact iff_of_false (fun ⟨_, h⟩ => by cases h) (fun h => by cases h)
  | ok changes' =>
      constructor
      · rintro ⟨snaps, h⟩
        rw [(Prod.mk.inj (Except.ok.inj h)).2]
      · intro h
        rw [Except.ok.inj h]
        exact ⟨_, rfl⟩

/-- **The changes survive** a checkpoint without its snapshot if and only if the snapshot is there after
all, the changelog could not be created anew, or there were no changes in it. -/
theorem checkpoint_keeps_iff (f : HostFiles) (o : Failures) (data : Bytes) (timestamp : String)
    (maxSnapshots : Nat) :
    f.KeepsChanges data timestamp (f.handled o (.checkpoint data timestamp maxSnapshots)) ↔
      (f.Completes o data timestamp ∧ ¬ f.Prunes o timestamp maxSnapshots) ∨
        o.fails .createChangelog ∨ f.NoChanges := by
  obtain ⟨hchangelog, -⟩ := handled_checkpoint f o data timestamp maxSnapshots
  rw [KeepsChanges, lists_handled_iff]
  generalize f.handled o (.checkpoint data timestamp maxSnapshots) = f' at hchangelog ⊢
  constructor
  · intro h
    by_cases hlists : f.Completes o data timestamp ∧ ¬ f.Prunes o timestamp maxSnapshots
    · exact Or.inl hlists
    · by_cases hfails : o.fails .createChangelog
      · exact Or.inr (Or.inl hfails)
      · refine Or.inr (Or.inr (fun changes hchanges => ?_))
        obtain ⟨snaps, hload⟩ := (loads_changes_iff 0).mpr hchanges
        have hload' := (loads_changes_iff 0).mp (h hlists 0 snaps changes hload)
        rw [hchangelog, if_neg hfails] at hload'
        exact (Except.ok.inj (load_nil.symm.trans hload')).symm
  · rintro h hlists n snaps changes hload
    have hchanges := (loads_changes_iff n).mp ⟨snaps, hload⟩
    rw [loads_changes_iff, hchangelog]
    by_cases hfails : o.fails .createChangelog
    · rw [if_pos hfails]
      exact hchanges
    · rw [if_neg hfails, ((h.resolve_left hlists).resolve_left hfails) changes hchanges]
      exact load_nil

/-- A file system where no file can be created for the snapshot. -/
def noTmp : Failures := { fails := fun c => decide (c = .createTmp), written := 0, seen := fun _ => true }

/-- A changelog of one change. -/
def oneChange : HostFiles :=
  { stateFile := none, changelog := some (Framing.frames [oneByte]), snapshotsDir := ∅ }

/-- **The changes are lost** with the snapshot if its file cannot be created. -/
theorem changes_lost_with_snapshot :
    ¬ ∀ (f : HostFiles) o data timestamp maxSnapshots, 1 ≤ maxSnapshots →
      f.KeepsChanges data timestamp (f.handled o (.checkpoint data timestamp maxSnapshots)) := by
  intro h
  have hkeeps := h oneChange noTmp [1] "1" 1 (by decide)
  have hlost : ¬ (oneChange.handled noTmp (.checkpoint [1] "1" 1)).Lists [1] "1" := by
    rw [lists_handled_iff]
    rintro ⟨hcompletes | ⟨-, hbefore⟩, -⟩
    · exact absurd hcompletes.1.1 (by decide)
    · cases hbefore
  have hload : Changelog.load (Framing.frames [oneByte]) = .ok [oneByte] := by
    rw [Changelog.load_eq_ok_iff, Framing.read_eq_some_iff]
    exact ⟨[], by decide, (List.append_nil _).symm⟩
  obtain ⟨snaps, hsnaps⟩ := (loads_changes_iff (f := oneChange) 0).mpr hload
  have hafter := (loads_changes_iff 0).mp (hkeeps hlost 0 snaps _ hsnaps)
  rw [(handled_checkpoint oneChange noTmp [1] "1" 1).1] at hafter
  have hempty := load_nil.symm.trans hafter
  cases hempty

end HostFiles

end PaxosWasm
