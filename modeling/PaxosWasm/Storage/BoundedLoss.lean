import PaxosWasm.Core.StoreCalls
import PaxosWasm.Storage.Resource

/-!
# What a lost buffer can take along

The calls that an acceptor or a learner makes reach the files through a buffered writer, which writes
out what does not fit. The records not yet in the changelog are the last ones saved since the last
checkpoint. There are at most as many as the store counts in its buffer, so fewer than the flush
count.
-/

namespace PaxosWasm

open Library Changelog SnapshotsDir

variable {σ κ χ : Type}

/-! ## The calls on the files

The files hold bytes, and the store has counted records; each call is made on both. -/

/-- The blobs of states, snapshots and changes, and the texts of timestamps. -/
structure Encoding (σ κ χ : Type) where
  state : σ → Bytes
  snapshot : κ → Bytes
  change : χ → Change
  timestamp : Nat → String

namespace MyStorageResource

/-- A writing call, without a failure. -/
def perform (enc : Encoding σ κ χ) (m : MyStorageResource) : StoreCall σ κ χ → MyStorageResource
  | .saveState state => m.saveState (enc.state state)
  | .flushState => m
  | .saveChange change => m.saveChange (enc.change change)
  | .flushChanges => m.flushChanges
  | .checkpoint state timestamp =>
      ((checkpoint (enc.snapshot state) (enc.timestamp timestamp)).run Calls.allDone m).2

/-- **The writer against the store**: it has been given all records of the store, and those that the
store counts as flushed are in the file. -/
structure Mirrors (enc : Encoding σ κ χ) (r : StorageResource σ κ χ) (m : MyStorageResource) :
    Prop where
  written : m.writer.written = Framing.frames (r.contents.log.map enc.change)
  flushed : Framing.frames (r.dir.changelog.map enc.change) <+: m.writer.file

/-- What is in the file stays there. -/
theorem file_prefix_writeAll (w : BufWriter) (data : List UInt8) :
    w.file <+: (w.writeAll data).file := by
  unfold BufWriter.writeAll
  split
  · exact List.prefix_rfl
  · split
    · split
      · exact (List.prefix_append ..).trans (List.prefix_append ..)
      · exact List.prefix_append ..
    · split
      · exact List.prefix_append ..
      · exact List.prefix_rfl

theorem file_prefix_saveChange (w : BufWriter) (change : Change) :
    w.file <+: (w.saveChange change).file :=
  (file_prefix_writeAll w _).trans (file_prefix_writeAll _ _)

variable {enc : Encoding σ κ χ} {r : StorageResource σ κ χ} {m : MyStorageResource}

/-- A call does to the files what it does to the store. -/
theorem Mirrors.perform (h : Mirrors enc r m) (hok : r.dir.script = []) (call : StoreCall σ κ χ) :
    Mirrors enc (r.perform call) (m.perform enc call) := by
  have hlog := StorageResource.log_perform hok call
  cases call with
  | saveState state =>
      rw [StorageResource.perform, StorageResource.saveState,
        StorageResource.attempt_of_script_nil hok]
      exact ⟨h.written, h.flushed⟩
  | flushState =>
      rw [StorageResource.perform, StorageResource.flushState,
        StorageResource.attempt_of_script_nil hok]
      exact ⟨h.written, h.flushed⟩
  | saveChange change =>
      constructor
      · rw [hlog]
        show (m.writer.saveChange (enc.change change)).written = Framing.frames (List.map enc.change
          (r.contents.log ++ [change]))
        rw [BufWriter.written_saveChange, h.written, List.map_append, Framing.frames_append]
        simp
      · rw [StorageResource.perform, StorageResource.saveChange,
          StorageResource.attempt_of_script_nil hok]
        exact h.flushed.trans (file_prefix_saveChange ..)
  | flushChanges =>
      constructor
      · rw [hlog]
        exact (BufWriter.written_flush _).trans h.written
      · rw [StorageResource.perform, StorageResource.flushChanges,
          StorageResource.attempt_of_script_nil hok]
        exact ⟨[], (List.append_nil _).trans h.written.symm⟩
  | checkpoint state timestamp =>
      -- a checkpoint leaves an empty changelog and an empty buffer
      obtain ⟨dir, hrun, _⟩ := run_checkpoint m (enc.snapshot state) (enc.timestamp timestamp)
      have hwriter : (m.perform enc (.checkpoint state timestamp)).writer = .new [] := by
        rw [MyStorageResource.perform, hrun]
      constructor
      · rw [hlog, hwriter]
        rfl
      · rw [StorageResource.perform, StorageResource.checkpoint,
          StorageResource.attempt_of_script_nil hok]
        exact List.nil_prefix

theorem Mirrors.run (h : Mirrors enc r m) (hok : r.dir.script = []) (log : List (StoreCall σ κ χ)) :
    Mirrors enc (run StorageResource.perform r log) (Library.run (MyStorageResource.perform enc) m log) := by
  induction log generalizing r m with
  | nil => exact h
  | cons call log ih => exact ih (h.perform hok call) (StorageResource.script_perform hok call)

end MyStorageResource

/-! ## The records that are not flushed

They are counted and flushed at the limit, so fewer are missing. -/

/-- **Fewer than `c` records are missing**: the records in the file are the first ones saved, and those
not in the file, or not completely, the last ones. -/
def MissesFewer (c : Nat) (saved : List Change) (file : Bytes) : Prop :=
  ∃ unflushed, saved = (u32Frames.split file).1 ++ unflushed ∧ unflushed.length < c

/-- Whatever store the calls `log` are made on that holds the records `opened`, and however its blobs are
encoded, fewer than `c` of the records saved since the last checkpoint are missing in its changelog. -/
def LossBound (c : Nat) (opened : List χ) (log : List (StoreCall σ κ χ)) : Prop :=
  ∀ (enc : Encoding σ κ χ) (m : MyStorageResource),
    m.writer = .new (Framing.frames (opened.map enc.change)) →
      MissesFewer c ((StoreCall.savedSince opened log).map enc.change)
        (run (MyStorageResource.perform enc) m log).writer.file

theorem missesFewer_of_mirrors {enc : Encoding σ κ χ} {r : StorageResource σ κ χ}
    {m : MyStorageResource} {c pending : Nat} (h : m.Mirrors enc r) (hp : r.Paced c pending) :
    MissesFewer c (r.contents.log.map enc.change) m.writer.file := by
  -- the file is cut out of the frames of the log
  have htake : m.writer.file =
      (Framing.frames (r.contents.log.map enc.change)).take m.writer.file.length := by
    rw [← h.written, BufWriter.written, List.take_left]
  obtain ⟨unflushed, hunflushed⟩ := Framing.whole_prefix (F := u32Frames)
    (r.contents.log.map enc.change) m.writer.file.length
  have hsplit : (u32Frames.split m.writer.file).1 =
      Framing.whole (r.contents.log.map enc.change) m.writer.file.length := by
    rw [htake, Framing.split_take, ← htake]
  refine ⟨unflushed, by rw [hsplit, hunflushed], ?_⟩
  -- it has at least the records that the store counts as flushed
  obtain ⟨rest, hrest⟩ := h.flushed
  have hlength : (r.dir.changelog.map enc.change).length ≤ (u32Frames.split m.writer.file).1.length := by
    rw [← hrest, Framing.split_frames_append, List.length_append]
    exact Nat.le_add_right ..
  have htotal := congrArg List.length hunflushed
  rw [← hsplit, List.length_append] at htotal
  rw [List.length_map] at hlength
  have hlog : (r.contents.log.map enc.change).length = r.dir.changelog.length + r.writer.length := by
    rw [List.length_map]
    exact List.length_append
  have hbuffered := hp.buffered
  have hpending := hp.pending
  omega

/-- A helper that is in step after the calls `log` on a store opened with `opened`. -/
theorem lossBound_of_performs {config : RunConfig} {p p' : Pacer σ κ χ}
    {log : List (StoreCall σ κ χ)} (h : Pacer.Performs config p p' log)
    (hok : p.store.dir.script = []) (hwriter : p.store.writer = []) :
    LossBound config.storageFlushChangeCount p.store.dir.changelog log := by
  intro enc m hm
  have hopened : p.store.contents.log = p.store.dir.changelog := by
    show p.store.dir.changelog ++ p.store.writer = _
    rw [hwriter, List.append_nil]
  have hstart : m.Mirrors enc p.store := by
    refine ⟨?_, ?_⟩
    · rw [hm, hopened]
      exact List.append_nil _
    · rw [hm]
      exact List.prefix_rfl
  have hend := hstart.run hok log
  rw [← h.store] at hend
  have hmisses := missesFewer_of_mirrors hend h.paced.store
  rw [h.store, (StorageResource.log_run hok log).2, hopened] at hmisses
  exact hmisses

/-- **Bounded loss**: after any operations of an acceptor or a learner with storage, the calls it has made
leave fewer records unflushed than the flush count. -/
theorem unflushed_fewer_than_count :
    (∀ (hash : String → Nat) (dir : Acceptor.Dir) (env : Env) (nodeId : String) (config : RunConfig)
      (es : List (Env × Acceptor.Request)), config.persistentStorage = true →
      1 ≤ config.storageFlushChangeCount → dir.script = [] →
      let a := Acceptor.new hash dir env nodeId config
      (run Acceptor.serve a es).storage.store =
          run StorageResource.perform a.storage.store (a.storeLog es) ∧
        LossBound config.storageFlushChangeCount dir.changelog (a.storeLog es)) ∧
    ∀ (hash : String → Nat) (dir : Learner.Dir) (env : Env) (numAcceptors : Nat) (nodeId : String)
      (config : RunConfig) (es : List (Env × Learner.Request)), config.persistentStorage = true →
      1 ≤ config.storageFlushChangeCount → dir.script = [] →
      let l := Learner.new hash dir env numAcceptors nodeId config
      (run Learner.serve l es).storage.store =
          run StorageResource.perform l.storage.store (l.storeLog es) ∧
        LossBound config.storageFlushChangeCount dir.changelog (l.storeLog es) := by
  refine ⟨fun hash dir env nodeId config es hon hc hok => ?_,
    fun hash dir env numAcceptors nodeId config es hon hc hok => ?_⟩
  · have hrun := Acceptor.performs_run hc (a := Acceptor.new hash dir env nodeId config)
      ⟨hon, rfl, StorageResource.paced_new hc hok _⟩ es
    exact ⟨hrun.store, lossBound_of_performs hrun hok rfl⟩
  · have hrun := Learner.performs_run hc (l := Learner.new hash dir env numAcceptors nodeId config)
      ⟨hon, rfl, StorageResource.paced_new hc hok _⟩ es
    exact ⟨hrun.store, lossBound_of_performs hrun hok rfl⟩

/-- Two changes to a flush, or a long time. -/
def flushEverySecond : RunConfig :=
  { RunConfig.shipped with
    storageFlushChangeCount := 2
    storageFlushChangeIntervalMs := 1000 }

/-- One of two accepted values is in the buffer when the second one drives both out. -/
theorem unflushed_fewer_than_two :
    let a := Acceptor.new (fun _ => 0) Directory.empty Env.quiet "1" flushEverySecond
    LossBound 2 [] (a.storeLog [(Env.quiet, .accept 1 1 (setX "a")), (Env.quiet, .accept 2 1 (setX "b"))]) :=
  (unflushed_fewer_than_count.1 (fun _ => 0) Directory.empty Env.quiet "1" flushEverySecond
    [(Env.quiet, .accept 1 1 (setX "a")), (Env.quiet, .accept 2 1 (setX "b"))] rfl (by decide) rfl).2

end PaxosWasm
