import PaxosWasm.Core.Learner
import PaxosWasm.Library.Run

/-!
# Recovery of the core learner

A learned entry goes to the changelog; a checkpoint, taken when the cursor lands on the trigger
slot, replaces the whole changelog by the cursor and the `interval` greatest learned slots. The
entries a learner still waits to execute lie above the cursor, but with a gap in between they need
not be among the greatest ones: such an entry is in no file any more. The recovered cursor never falls
behind as long as every checkpoint is one a recovery reads and leaves no entry above the cursor behind.

`Recorded` ties the files to the memory: a slot behind the last snapshot is in the changelog, or in a
snapshot that a recovery reads. Learning a value adds a record, moving the cursor may take a checkpoint,
and both keep the two in step if the call is recoverable (`Recorded.call`). If it is not, a restart right
after it falls back (`Recorded.not_keepsUp`), so that the condition is exact.
-/

namespace PaxosWasm

open Library

namespace Learner

/-! ## Replay

A replay builds one map out of the snapshots and the changelog, and moves the cursor of the last snapshot
over what follows in it without a gap. -/

namespace StorageHelper

/-- The map the replay builds: the entries of the snapshots, oldest first, then the changelog. -/
def replayed (snapshots : List PersistentSnapshotState) (changes : List LearnedEntry) :
    OrdMap Slot Value :=
  OrdMap.insertAll ∅ (snapshots.flatMap (fun snap => snap.learned.entries)
    ++ changes.map (fun entry => (entry.slot, entry.value)))

/-- The cursor of the last snapshot. -/
def latestAdu (adu : Slot) (snapshots : List PersistentSnapshotState) : Slot :=
  snapshots.getLast?.elim adu PersistentSnapshotState.adu

/-- The loop over the snapshots, as one list of insertions and the cursor of the last snapshot. -/
theorem replaySnapshots_eq (adu : Slot) (snapshots : List PersistentSnapshotState) :
    replaySnapshots adu snapshots =
      (OrdMap.insertAll ∅ (snapshots.flatMap (fun snap => snap.learned.entries)),
        latestAdu adu snapshots) := by
  have hfold : ∀ x : OrdMap Slot Value × Slot,
      snapshots.foldl (fun x s => (OrdMap.insertAll x.1 s.learned.entries, s.adu)) x =
        (x.1.insertAll (snapshots.flatMap (fun snap => snap.learned.entries)),
          latestAdu x.2 snapshots) := by
    induction snapshots with
    | nil => exact fun _ => rfl
    | cons snap snapshots ih =>
        intro x
        rw [List.foldl_cons, ih, List.flatMap_cons, OrdMap.insertAll_append]
        cases snapshots with
        | nil => rfl
        | cons snap' snapshots => rw [latestAdu, latestAdu, List.getLast?_cons_cons]; rfl
  exact hfold (∅, adu)

/-- What a replay gives: the map, and the cursor moved over all that follows the last snapshot's. -/
theorem loadAndReplayState_eq {h : StorageHelper} (hon : h.enabled = true)
    (learned : OrdMap Slot Value) (adu : Slot) {snapshots : List PersistentSnapshotState}
    {changes : List LearnedEntry}
    (hfiles : h.store.loadStateAndChanges h.runConfig.storageLoadSnapshots = (snapshots, changes)) :
    h.loadAndReplayState learned adu = (.ok (), replayed snapshots changes,
      contiguousTail (latestAdu adu snapshots + 1) ((replayed snapshots changes).keys.dropWhile
        (fun s => decide (s ≤ latestAdu adu snapshots))) - 1) := by
  rw [loadAndReplayState, if_neg (by simp [hon]), hfiles]
  dsimp only
  rw [replaySnapshots_eq, replayed, OrdMap.insertAll_append]

/-- What the replayed files say about a slot. -/
theorem mem_replayed {snapshots : List PersistentSnapshotState} {changes : List LearnedEntry}
    {s : Slot} {v : Value} :
    (s, v) ∈ snapshots.flatMap (fun snap => snap.learned.entries)
        ++ changes.map (fun entry => (entry.slot, entry.value)) ↔
      (∃ snap ∈ snapshots, snap.learned.get? s = some v) ∨ { slot := s, value := v } ∈ changes := by
  rw [List.mem_append, List.mem_flatMap, List.mem_map]
  simp only [OrdMap.mem_entries, Prod.mk.injEq]
  constructor
  · rintro (h | ⟨entry, hentry, rfl, rfl⟩)
    · exact Or.inl h
    · exact Or.inr hentry
  · rintro (h | h)
    · exact Or.inl h
    · exact Or.inr ⟨_, h, rfl, rfl⟩

/-- The keys past the cursor, as the loop skips to them. -/
theorem mem_dropWhile {keys : List Slot} (hsorted : keys.Pairwise (· < ·)) (adu s : Slot) :
    s ∈ keys.dropWhile (fun k => decide (k ≤ adu)) ↔ s ∈ keys ∧ adu < s := by
  induction keys with
  | nil => simp
  | cons k keys ih =>
      obtain ⟨hk, hkeys⟩ := List.pairwise_cons.mp hsorted
      by_cases hle : k ≤ adu
      · rw [List.dropWhile_cons_of_pos (by simpa using hle), ih hkeys, List.mem_cons]
        constructor
        · exact fun h => ⟨Or.inr h.1, h.2⟩
        · rintro ⟨rfl | hs, hlt⟩
          · exact absurd hle (Nat.not_le_of_lt hlt)
          · exact ⟨hs, hlt⟩
      · -- the first key past the cursor: all others are greater
        rw [List.dropWhile_cons_of_neg (by simpa using hle)]
        refine ⟨fun hs => ⟨hs, ?_⟩, fun h => h.1⟩
        rcases List.mem_cons.mp hs with rfl | hs
        · exact Nat.lt_of_not_le hle
        · exact lt_trans (Nat.lt_of_not_le hle) (hk s hs)

theorem le_contiguousTail (next : Slot) (keys : List Slot) : next ≤ contiguousTail next keys := by
  induction keys generalizing next with
  | nil => exact le_refl _
  | cons k keys ih =>
      rw [contiguousTail]
      split
      · exact le_trans (Nat.le_succ next) (ih (next + 1))
      · exact le_refl _

/-- The cursor moves over every slot up to the first one missing. -/
theorem lt_contiguousTail {keys : List Slot} (hsorted : keys.Pairwise (· < ·)) {next last : Slot}
    (hfrom : ∀ k ∈ keys, next ≤ k) (hall : ∀ s, next ≤ s → s ≤ last → s ∈ keys) :
    last < contiguousTail next keys := by
  by_cases hpast : last < next
  · exact lt_of_lt_of_le hpast (le_contiguousTail next keys)
  · -- `next` is a key, and then it is the least one
    have hnext := hall next (le_refl _) (Nat.le_of_not_lt hpast)
    induction keys generalizing next with
    | nil => exact absurd hnext List.not_mem_nil
    | cons k keys ih =>
        obtain ⟨hk, hkeys⟩ := List.pairwise_cons.mp hsorted
        obtain rfl : k = next := by
          rcases List.mem_cons.mp hnext with heq | hmem
          · exact heq.symm
          · exact absurd (hk next hmem) (Nat.not_lt_of_le (hfrom k (List.mem_cons_self ..)))
        rw [contiguousTail, if_pos rfl]
        have hrest : ∀ s, k + 1 ≤ s → s ≤ last → s ∈ keys := by
          intro s hs hlast
          rcases List.mem_cons.mp (hall s (Nat.le_of_succ_le hs) hlast) with rfl | hmem
          · exact absurd hs (Nat.not_succ_le_self s)
          · exact hmem
        by_cases hpast' : last < k + 1
        · exact lt_of_lt_of_le hpast' (le_contiguousTail (k + 1) keys)
        · exact ih hkeys (fun k' hk' => hk k' hk') hrest hpast'
            (hrest (k + 1) (le_refl _) (Nat.le_of_not_lt hpast'))

/-! ## The helper on a file system that does not fail

A save is in the changelog or in its buffer, and a checkpoint writes a snapshot and empties both. Whether one
is taken depends on the new cursor and on that of the last one (`Settings.Triggers`). -/

/-- What a helper is created with, and its snapshot cursor. -/
structure Settings where
  enabled : Bool
  runConfig : RunConfig
  snapshotSlotOffset : Nat
  lastSnapshotSlot : Slot

def settings (h : StorageHelper) : Settings :=
  ⟨h.enabled, h.runConfig, h.snapshotSlotOffset, h.lastSnapshotSlot⟩

/-- A cursor that advances to `newAdu` triggers a checkpoint. -/
def Settings.Triggers (c : Settings) (newAdu : Slot) : Prop :=
  c.enabled = true ∧ c.runConfig.storageSnapshotSlotInterval ≠ 0 ∧
    newAdu % c.runConfig.storageSnapshotSlotInterval = c.snapshotSlotOffset ∧
    newAdu > c.lastSnapshotSlot

instance (c : Settings) (newAdu : Slot) : Decidable (c.Triggers newAdu) :=
  inferInstanceAs (Decidable (_ ∧ _ ∧ _ ∧ _))

variable {h : StorageHelper} (env : Env) (hon : h.enabled = true) (hok : h.store.dir.script = [])

include hon hok

theorem flushChanges_of_ok :
    (h.flushChanges env).1 = .ok () ∧ (h.flushChanges env).2.store = h.store.flush ∧
      (h.flushChanges env).2.settings = h.settings := by
  simp [flushChanges, hon, StorageResource.flushChanges, hok, settings]

theorem maybeFlushChanges_of_ok :
    (h.maybeFlushChanges env).2.store.contents = h.store.contents ∧
      (h.maybeFlushChanges env).2.settings = h.settings := by
  unfold maybeFlushChanges
  rw [if_neg (by simp [hon])]
  split
  · exact ⟨rfl, rfl⟩
  · split
    · simp [flushChanges, hon, StorageResource.flushChanges, hok, settings]
    · exact ⟨rfl, rfl⟩

theorem saveChange_of_ok (entry : LearnedEntry) :
    (h.saveChange env entry).2.store.contents =
        { h.store.contents with log := h.store.contents.log ++ [entry] } ∧
      (h.saveChange env entry).2.settings = h.settings := by
  unfold saveChange
  rw [if_neg (by simp [hon]), StorageResource.saveChange, StorageResource.attempt_of_script_nil hok]
  obtain ⟨hcontents, hset⟩ := maybeFlushChanges_of_ok (h :=
    { h with
      store := { h.store with writer := h.store.writer ++ [entry] }
      changePending := h.changePending + 1 }) env hon hok
  exact ⟨hcontents.trans (by simp [StorageResource.contents]), hset⟩

/-- **A triggered snapshot** checkpoints the cursor with the greatest entries and prunes the map. -/
theorem maybeSnapshot_of_triggers {newAdu : Slot} (htrig : h.settings.Triggers newAdu)
    (learned : OrdMap Slot Value) :
    (h.maybeSnapshot env newAdu learned).2.1.store.contents =
        { h.store.contents with
          snapshots := (h.store.contents.snapshots.insert env.utc
            ⟨newAdu, learned.takeLast (asUsize h.runConfig.storageSnapshotSlotInterval)⟩).takeLast
              h.store.maxSnapshots
          log := [] } ∧
      (h.maybeSnapshot env newAdu learned).2.1.settings =
        { h.settings with lastSnapshotSlot := newAdu } ∧
      (h.maybeSnapshot env newAdu learned).2.2 = prune h.runConfig learned := by
  have hint : h.runConfig.storageSnapshotSlotInterval ≠ 0 := htrig.2.1
  have hslot : newAdu % h.runConfig.storageSnapshotSlotInterval = h.snapshotSlotOffset ∧
      newAdu > h.lastSnapshotSlot := htrig.2.2
  have hflush := flushChanges_of_ok env hon hok
  unfold maybeSnapshot
  rw [if_neg (by simpa [hon] using hint), if_pos hslot]
  generalize h.flushChanges env = flushed at hflush ⊢
  obtain ⟨res, h₁⟩ := flushed
  obtain ⟨rfl, hstore, hset⟩ := hflush
  have hcfg : h₁.runConfig = h.runConfig := congrArg Settings.runConfig hset
  have hok₁ : h₁.store.dir.script = [] := by
    rw [show h₁.store = h.store.flush from hstore]
    exact hok
  -- the checkpoint takes the greatest entries and empties the changelog
  have hcheck := StorageResource.contents_checkpoint hok₁
    ⟨newAdu, learned.takeLast (asUsize h.runConfig.storageSnapshotSlotInterval)⟩ env.utc
  dsimp only
  unfold checkpointSnapshot
  dsimp only
  rw [hcfg]
  generalize h₁.store.checkpoint _ _ = checked at hcheck ⊢
  obtain ⟨res, store⟩ := checked
  obtain ⟨rfl, hcontents⟩ := hcheck
  refine ⟨?_, ?_, rfl⟩
  · show store.contents = _
    rw [show store.contents = _ from hcontents, show h₁.store = h.store.flush from hstore,
      StorageResource.contents_flush]
    rfl
  · show (⟨h₁.enabled, h.runConfig, h₁.snapshotSlotOffset, newAdu⟩ : Settings) = _
    rw [← hcfg]
    exact congrArg (fun c : Settings => { c with lastSnapshotSlot := newAdu }) hset

omit hok in
theorem maybeSnapshot_of_not_triggers {newAdu : Slot} (htrig : ¬ h.settings.Triggers newAdu)
    (learned : OrdMap Slot Value) :
    h.maybeSnapshot env newAdu learned = (.ok (), h, learned) := by
  unfold maybeSnapshot
  by_cases hint : h.runConfig.storageSnapshotSlotInterval = 0
  · rw [if_pos (Or.inr hint)]
  · have hslot : ¬ (newAdu % h.runConfig.storageSnapshotSlotInterval = h.snapshotSlotOffset ∧
        newAdu > h.lastSnapshotSlot) := fun hslot => htrig ⟨hon, hint, hslot⟩
    rw [if_neg (by simpa [hon] using hint), if_neg hslot]

end StorageHelper

/-! ## Calls and restarts

What counts is the cursor and what can be executed behind it: a reloaded learner has to be as far, and
to hold what it held past its cursor. -/

/-- The calls of a learner that change what has to be recovered. -/
inductive Call where
  | learn (slot : Slot) (value : Value)
  | toBeExecuted
deriving DecidableEq, Repr

def call (l : Learner) (c : Env × Call) : Learner :=
  match c.2 with
  | .learn slot value => (l.learn c.1 slot value).2
  | .toBeExecuted => (l.toBeExecuted c.1).2

/-- The cursor after a `toBeExecuted`: past every learned slot up to the first gap. -/
def nextAdu (l : Learner) : Slot :=
  l.adu + (contiguousFrom l.learned l.learned.size (l.adu + 1)).length

/-- A fresh learner over the flushed directory of `l`, after `loadState`. -/
def reload (hash : String → Nat) (nodeId : String) (config : RunConfig) (flushEnv newEnv : Env)
    (l : Learner) : Learner :=
  (new hash (l.storage.flushChanges flushEnv).2.store.dir newEnv l.numAcceptors nodeId
    config).loadState.2

/-! ### What a call may do

Whether a restart behind a call is as far can be said before the call, from the cursor and the slots that
the checkpoint it takes, if any, would retain. -/

/-- **The reloaded learner has not moved backwards**: its cursor is not behind the old one, and it
holds every entry the old one still waits to execute. -/
def KeepsUp (hash : String → Nat) (nodeId : String) (config : RunConfig) (flushEnv newEnv : Env)
    (l : Learner) : Prop :=
  l.adu ≤ (l.reload hash nodeId config flushEnv newEnv).adu ∧
    ∀ s v, l.adu < s → l.learned.get? s = some v →
      (l.reload hash nodeId config flushEnv newEnv).learned.get? s = some v

/-- After a checkpoint of `l.learned` one of the snapshots that recovery reads has an entry for
`s`: the new one, which holds the greatest `interval` entries, or one of the earlier ones. -/
def Covered (l : Learner) (s : Slot) : Prop :=
  (l.learned.takeLast (asUsize l.storage.runConfig.storageSnapshotSlotInterval)).contains s ∨
    ∃ snap ∈ (l.storage.store.contents.snapshots.takeLast
      (loadable l.storage.runConfig - 1)).values, snap.learned.contains s

/-- **When a call keeps the learner recoverable**: if it takes a checkpoint, recovery reads it, and
every slot above the new cursor that the pruning retains is covered. -/
def Recoverable (l : Learner) (c : Env × Call) : Prop :=
  match c.2 with
  | .learn _ _ => True
  | .toBeExecuted =>
      l.adu < l.nextAdu → l.storage.settings.Triggers l.nextAdu →
        0 < loadable l.storage.runConfig ∧
          ∀ s ∈ l.learned.keys, l.nextAdu < s →
            pruneThreshold l.storage.runConfig l.getHighestLearned < s → l.Covered s

/-- A checkpoint is stamped later than every snapshot still in rotation. -/
def Stamped (l : Learner) (c : Env × Call) : Prop :=
  match c.2 with
  | .learn _ _ => True
  | .toBeExecuted =>
      l.storage.settings.Triggers l.nextAdu →
        ∀ timestamp ∈ l.storage.store.contents.snapshots.keys, timestamp < c.1.utc

instance (l : Learner) (s : Slot) : Decidable (l.Covered s) :=
  inferInstanceAs (Decidable (_ ∨ _))

instance (l : Learner) : ∀ c : Env × Call, Decidable (l.Recoverable c)
  | (_, .learn _ _) => isTrue trivial
  | (_, .toBeExecuted) => inferInstanceAs (Decidable (_ → _ → _ ∧ ∀ s ∈ _, _))

instance (l : Learner) : ∀ c : Env × Call, Decidable (l.Stamped c)
  | (_, .learn _ _) => isTrue trivial
  | (_, .toBeExecuted) => inferInstanceAs (Decidable (_ → ∀ t ∈ _, _))

/-! ## What a learner keeps in its files

`Recorded` ties the memory of a learner to its files. Past the last checkpoint all is in the changelog,
and what the checkpoint has dropped is behind the cursor or in a snapshot. -/

/-- The snapshots a restart reads. -/
def loadedSnapshots (config : RunConfig) (l : Learner) : List PersistentSnapshotState :=
  (l.storage.store.contents.snapshots.takeLast (asUsize config.storageLoadSnapshots)).values

/-- A learner created under `config` whose file system does not fail. -/
structure Running (config : RunConfig) (l : Learner) : Prop where
  enabled : l.storage.enabled = true
  runConfig : l.storage.runConfig = config
  maxSnapshots : l.storage.store.maxSnapshots = config.storageMaxSnapshots
  script : l.storage.store.dir.script = []

/-- **The files and the memory of a running learner.** `threshold` is the one of the last
checkpoint: nothing above it has ever been pruned. -/
structure Recorded (config : RunConfig) (threshold : Slot) (l : Learner) : Prop
    extends Running config l where
  latest : StorageHelper.latestAdu 0 (loadedSnapshots config l) = l.storage.lastSnapshotSlot
  walked : l.storage.lastSnapshotSlot ≤ l.adu ∧
    ∀ s, l.storage.lastSnapshotSlot < s → s ≤ l.adu → ∃ v, l.learned.get? s = some v
  log : ∀ entry ∈ l.storage.store.contents.log, l.learned.get? entry.slot = some entry.value
  archived : ∀ snap ∈ l.storage.store.contents.snapshots.values, ∀ s v,
    snap.learned.get? s = some v → threshold < s → l.learned.get? s = some v
  pruned : threshold ≤ pruneThreshold config l.getHighestLearned
  covered : ∀ s v, l.storage.lastSnapshotSlot < s → l.learned.get? s = some v →
    { slot := s, value := v } ∈ l.storage.store.contents.log ∨ (threshold < s ∧
      ∃ snap ∈ loadedSnapshots config l, snap.learned.contains s)

theorem recorded_new (hash : String → Nat) (env : Env) (numAcceptors : Nat) (nodeId : String)
    {config : RunConfig} (hon : config.persistentStorage = true) :
    Recorded config 0 (new hash Directory.empty env numAcceptors nodeId config) := by
  constructor
  case toRunning => exact ⟨hon, rfl, rfl, rfl⟩
  case latest =>
    simp [loadedSnapshots, StorageHelper.latestAdu, new, StorageHelper.new,
      StorageResource.contents, StorageResource.new, Directory.empty, OrdMap.takeLast, OrdMap.values]
  case walked => exact ⟨le_refl _, fun s h1 h0 => absurd h0 (Nat.not_le_of_lt h1)⟩
  case log => simp [new, StorageHelper.new, StorageResource.contents, StorageResource.new,
    Directory.empty]
  case archived =>
    intro snap hsnap
    exact absurd hsnap List.not_mem_nil
  case pruned => exact Nat.zero_le _
  case covered =>
    intro s v _ hv
    rw [new, OrdMap.get?_empty] at hv
    cases hv

/-- What a reload reads back. -/
theorem Running.reload_eq {config : RunConfig} {l : Learner} (h : Running config l)
    (hash : String → Nat) (nodeId : String) (hon : config.persistentStorage = true)
    (flushEnv newEnv : Env) :
    let map := StorageHelper.replayed (loadedSnapshots config l) l.storage.store.contents.log
    let adu := StorageHelper.latestAdu 0 (loadedSnapshots config l)
    (l.reload hash nodeId config flushEnv newEnv).learned = map ∧
      (l.reload hash nodeId config flushEnv newEnv).adu = StorageHelper.contiguousTail (adu + 1)
        (map.keys.dropWhile (fun s => decide (s ≤ adu))) - 1 := by
  have hstore := (StorageHelper.flushChanges_of_ok flushEnv h.enabled h.script).2.1
  have hfiles : (new hash l.storage.store.flush.dir newEnv l.numAcceptors nodeId
      config).storage.store.loadStateAndChanges config.storageLoadSnapshots =
        (loadedSnapshots config l, l.storage.store.contents.log) := rfl
  have hload := StorageHelper.loadAndReplayState_eq hon ∅ 0 hfiles
  unfold reload loadState
  rw [hstore]
  have hnew : (new hash l.storage.store.flush.dir newEnv l.numAcceptors nodeId config).learned = ∅ ∧
      (new hash l.storage.store.flush.dir newEnv l.numAcceptors nodeId config).adu = 0 :=
    ⟨rfl, rfl⟩
  rw [hnew.1, hnew.2, hload]
  exact ⟨rfl, rfl⟩

/-- **Recorded memory is recovered**: everything past the last snapshot's cursor is in the files,
and so is every slot the old cursor has moved over since. -/
theorem Recorded.keepsUp {config : RunConfig} {threshold : Slot} {l : Learner}
    (h : Recorded config threshold l) (hash : String → Nat) (nodeId : String)
    (hon : config.persistentStorage = true) (flushEnv newEnv : Env) :
    l.KeepsUp hash nodeId config flushEnv newEnv := by
  obtain ⟨hlearned, hadu⟩ := h.reload_eq hash nodeId hon flushEnv newEnv
  have hread : ∀ s v, l.storage.lastSnapshotSlot < s → l.learned.get? s = some v →
      (l.reload hash nodeId config flushEnv newEnv).learned.get? s = some v := by
    intro s v hpast hv
    rw [hlearned, StorageHelper.replayed]
    rcases h.covered s v hpast hv with hlog | ⟨hlt, snap, hsnap, hcont⟩
    · -- the changelog is replayed last, and all it says about `s` is `v`
      rw [OrdMap.insertAll_append]
      apply OrdMap.get?_insertAll_of_agree
      · intro w hw
        obtain ⟨entry, hentry, heq⟩ := List.mem_map.mp hw
        obtain ⟨rfl, rfl⟩ := Prod.mk.inj heq
        exact Option.some.inj ((h.log entry hentry).symm.trans hv)
      · exact List.mem_map.mpr ⟨_, hlog, rfl⟩
    · -- above the threshold every file that mentions `s` says `v`
      have hloaded : ∀ snap' ∈ loadedSnapshots config l, ∀ w,
          snap'.learned.get? s = some w → w = v := by
        intro snap' hsnap' w hw
        obtain ⟨timestamp, hts⟩ := OrdMap.mem_values.mp hsnap'
        have hmem := OrdMap.mem_values.mpr ⟨timestamp, OrdMap.get?_of_takeLast hts⟩
        exact Option.some.inj ((h.archived snap' hmem s w hw hlt).symm.trans hv)
      apply OrdMap.get?_insertAll_of_agree
      · intro w hw
        rcases StorageHelper.mem_replayed.mp hw with ⟨snap', hsnap', hget⟩ | hlog
        · exact hloaded snap' hsnap' w hget
        · exact Option.some.inj ((h.log _ hlog).symm.trans hv)
      · obtain ⟨w, hw⟩ := OrdMap.contains_iff.mp hcont
        obtain rfl := hloaded snap hsnap w hw
        exact StorageHelper.mem_replayed.mpr (Or.inl ⟨snap, hsnap, hw⟩)
  constructor
  · -- the recovered cursor starts at the snapshot's and finds every slot the old one has passed
    rw [hadu, ← hlearned, h.latest]
    apply Nat.le_sub_one_of_lt
    apply StorageHelper.lt_contiguousTail
    · exact (OrdMap.keys_sorted _).sublist (List.dropWhile_sublist _)
    · intro k hk
      exact ((StorageHelper.mem_dropWhile (OrdMap.keys_sorted _) _ _).mp hk).2
    · intro s hs hlast
      obtain ⟨v, hv⟩ := h.walked.2 s hs hlast
      exact (StorageHelper.mem_dropWhile (OrdMap.keys_sorted _) _ _).mpr
        ⟨OrdMap.mem_keys.mpr ⟨v, hread s v hs hv⟩, hs⟩
  · intro s v hlt hv
    exact hread s v (lt_of_le_of_lt h.walked.1 hlt) hv

/-! ## Steps

A call that is recoverable keeps the files in step, and a restart right behind one that is not falls
back. -/

/-- Learning a value for a free slot adds one record to the changelog. -/
theorem Running.learn {config : RunConfig} {l : Learner} (h : Running config l) (env : Env)
    {slot : Slot} (value : Value) (hnone : l.learned.get? slot = none) :
    let l' := (l.learn env slot value).2
    Running config l' ∧ l'.learned = l.learned.insert slot value ∧ l'.adu = l.adu ∧
      l'.storage.settings = l.storage.settings ∧
      l'.storage.store.contents = { l.storage.store.contents with
        log := l.storage.store.contents.log ++ [{ slot, value }] } := by
  obtain ⟨hcontents, hset⟩ := StorageHelper.saveChange_of_ok env h.enabled h.script { slot, value }
  have hfree : ¬ l.learned.contains slot = true := by simp [OrdMap.contains, hnone]
  unfold Learner.learn
  rw [if_neg hfree]
  refine ⟨?_, rfl, rfl, hset, hcontents⟩
  constructor
  case enabled => exact (congrArg StorageHelper.Settings.enabled hset).trans h.enabled
  case runConfig => exact (congrArg StorageHelper.Settings.runConfig hset).trans h.runConfig
  case maxSnapshots =>
    exact (congrArg StorageResource.Contents.maxSnapshots hcontents).trans h.maxSnapshots
  case script => exact (congrArg StorageResource.Contents.script hcontents).trans h.script

/-- The slots from the cursor to the next one are learned. -/
theorem learned_of_le_nextAdu (l : Learner) {s : Slot} (hpast : l.adu < s)
    (hle : s ≤ l.nextAdu) : ∃ v, l.learned.get? s = some v := by
  obtain ⟨_, hmem⟩ := contiguousFrom_eq l.learned l.learned.size (l.adu + 1)
  apply hmem s
  rw [nextAdu] at hle
  exact List.mem_range'_1.mpr ⟨hpast, by lia⟩

theorem adu_le_nextAdu (l : Learner) : l.adu ≤ l.nextAdu := Nat.le_add_right ..

/-- The cursor moves, or nothing happens. -/
theorem toBeExecuted_eq (l : Learner) (env : Env) :
    (l.toBeExecuted env).2 =
      if l.adu < l.nextAdu then
        { l with
          adu := l.nextAdu
          storage := (l.storage.maybeSnapshot env l.nextAdu l.learned).2.1
          learned := (l.storage.maybeSnapshot env l.nextAdu l.learned).2.2 }
      else l := by
  unfold toBeExecuted nextAdu
  generalize contiguousFrom l.learned l.learned.size (l.adu + 1) = out
  cases out with
  | nil => simp
  | cons e es => simp

/-- A checkpoint archives the cursor with the greatest entries and prunes the memory. -/
theorem Running.checkpoint {config : RunConfig} {l : Learner} (h : Running config l) (env : Env)
    (hmove : l.adu < l.nextAdu) (htrig : l.storage.settings.Triggers l.nextAdu) :
    let l' := (l.toBeExecuted env).2
    Running config l' ∧ l'.learned = prune config l.learned ∧ l'.adu = l.nextAdu ∧
      l'.storage.lastSnapshotSlot = l.nextAdu ∧
      l'.storage.store.contents = { l.storage.store.contents with
        snapshots := (l.storage.store.contents.snapshots.insert env.utc
          ⟨l.nextAdu, l.learned.takeLast (asUsize config.storageSnapshotSlotInterval)⟩).takeLast
            config.storageMaxSnapshots
        log := [] } := by
  obtain ⟨hcontents, hset, hlearned⟩ :=
    StorageHelper.maybeSnapshot_of_triggers env h.enabled h.script htrig l.learned
  rw [h.runConfig, h.maxSnapshots] at hcontents
  rw [h.runConfig] at hlearned
  rw [toBeExecuted_eq, if_pos hmove]
  refine ⟨?_, hlearned, rfl, congrArg StorageHelper.Settings.lastSnapshotSlot hset, hcontents⟩
  constructor
  case enabled => exact (congrArg StorageHelper.Settings.enabled hset).trans h.enabled
  case runConfig => exact (congrArg StorageHelper.Settings.runConfig hset).trans h.runConfig
  case maxSnapshots =>
    exact (congrArg StorageResource.Contents.maxSnapshots hcontents).trans h.maxSnapshots
  case script => exact (congrArg StorageResource.Contents.script hcontents).trans h.script

/-- Without a checkpoint only the cursor moves. -/
theorem Running.advance {config : RunConfig} {l : Learner} (h : Running config l) (env : Env)
    (htrig : l.adu < l.nextAdu → ¬ l.storage.settings.Triggers l.nextAdu) :
    (l.toBeExecuted env).2 = { l with adu := l.nextAdu } := by
  rw [toBeExecuted_eq]
  split
  · next hmove =>
    rw [StorageHelper.maybeSnapshot_of_not_triggers env h.enabled (htrig hmove)]
  · next hstay =>
    rw [show l.nextAdu = l.adu from le_antisymm (Nat.le_of_not_lt hstay) l.adu_le_nextAdu]

theorem getHighestLearned_le_insert (l : Learner) (slot : Slot) (value : Value) :
    l.getHighestLearned ≤ ((l.learned.insert slot value).lastKey?).getD 0 := by
  rw [OrdMap.lastKey?_insert, getHighestLearned]
  cases l.learned.lastKey? with
  | none => exact Nat.zero_le _
  | some m => exact le_max_right ..

theorem Recorded.learn {config : RunConfig} {threshold : Slot} {l : Learner}
    (h : Recorded config threshold l) (env : Env) (slot : Slot) (value : Value) :
    Recorded config threshold (l.learn env slot value).2 := by
  by_cases hnone : l.learned.get? slot = none
  · obtain ⟨hrunning, hlearned, hadu, hset, hcontents⟩ := h.toRunning.learn env value hnone
    have hext : OrdMap.Extends l.learned (l.learn env slot value).2.learned :=
      hlearned ▸ OrdMap.extends_insert value hnone
    have hlast : (l.learn env slot value).2.storage.lastSnapshotSlot = l.storage.lastSnapshotSlot :=
      congrArg StorageHelper.Settings.lastSnapshotSlot hset
    constructor
    case toRunning => exact hrunning
    case latest =>
      rw [loadedSnapshots, hcontents, hlast]
      exact h.latest
    case walked =>
      rw [hlast, hadu]
      refine ⟨h.walked.1, fun s hs hle => ?_⟩
      obtain ⟨v, hv⟩ := h.walked.2 s hs hle
      exact ⟨v, hext s v hv⟩
    case log =>
      intro entry hentry
      rw [hcontents] at hentry
      rcases List.mem_append.mp hentry with hentry | hentry
      · exact hext _ _ (h.log entry hentry)
      · rw [List.mem_singleton.mp hentry, hlearned]
        exact OrdMap.get?_insert_self ..
    case archived =>
      intro snap hsnap s v hv hlt
      rw [hcontents] at hsnap
      exact hext _ _ (h.archived snap hsnap s v hv hlt)
    case pruned =>
      apply le_trans h.pruned
      apply pruneThreshold_mono
      rw [show (l.learn env slot value).2.getHighestLearned =
        ((l.learn env slot value).2.learned.lastKey?).getD 0 from rfl, hlearned]
      exact l.getHighestLearned_le_insert slot value
    case covered =>
      intro s v hs hv
      rw [hlast] at hs
      rw [loadedSnapshots, hcontents]
      rw [hlearned, OrdMap.get?_insert] at hv
      split at hv
      · next heq =>
        obtain rfl := Option.some.inj hv
        rw [heq]
        exact Or.inl (by simp)
      · exact (h.covered s v hs hv).imp_left (List.mem_append_left _)
  · -- the slot is taken: nothing happens
    have htaken : l.learned.contains slot = true := by
      rw [OrdMap.contains, Option.isSome_iff_ne_none]
      exact hnone
    rw [Learner.learn, if_pos htaken]
    exact h

/-- The cursor moves over learned slots. -/
theorem Recorded.advance {config : RunConfig} {threshold : Slot} {l : Learner}
    (h : Recorded config threshold l) : Recorded config threshold { l with adu := l.nextAdu } where
  toRunning := ⟨h.enabled, h.runConfig, h.maxSnapshots, h.script⟩
  latest := h.latest
  walked := by
    refine ⟨le_trans h.walked.1 l.adu_le_nextAdu, fun s hs hle => ?_⟩
    by_cases hold : s ≤ l.adu
    · exact h.walked.2 s hs hold
    · exact l.learned_of_le_nextAdu (Nat.lt_of_not_le hold) hle
  log := h.log
  archived := h.archived
  pruned := h.pruned
  covered := h.covered

/-- If the cursor moves there is a greatest learned slot, and it is not pruned. -/
theorem lastKey?_of_move {config : RunConfig} {l : Learner}
    (hint : 1 ≤ config.storageSnapshotSlotInterval) (hmax : 1 ≤ config.storageMaxSnapshots)
    (hmove : l.adu < l.nextAdu) :
    l.learned.lastKey? = some l.getHighestLearned ∧
      pruneThreshold config l.getHighestLearned < l.getHighestLearned := by
  obtain ⟨v, hv⟩ := l.learned_of_le_nextAdu hmove (le_refl _)
  cases hlast : l.learned.lastKey? with
  | none =>
      rw [OrdMap.lastKey?_eq_none.mp hlast, OrdMap.get?_empty] at hv
      cases hv
  | some m =>
      have hhighest : l.getHighestLearned = m := by rw [getHighestLearned, hlast]; rfl
      have hle := (OrdMap.lastKey?_spec hlast).2 _ v hv
      rw [hhighest]
      exact ⟨rfl, pruneThreshold_lt hint hmax (by lia)⟩

/-! ### A checkpoint

Here the two conditions of a recoverable call come in: the snapshot is one that a recovery reads, and
nothing past the cursor is dropped. -/

/-- A checkpoint moves what it retains above the cursor to the snapshots. -/
theorem Recorded.checkpoint {config : RunConfig} {threshold : Slot} {l : Learner}
    (h : Recorded config threshold l) (hint : 1 ≤ config.storageSnapshotSlotInterval)
    (hmax : 1 ≤ config.storageMaxSnapshots) {env : Env} (hmove : l.adu < l.nextAdu)
    (htrig : l.storage.settings.Triggers l.nextAdu)
    (hlater : ∀ t ∈ l.storage.store.contents.snapshots.keys, t < env.utc)
    (hload : 0 < loadable config)
    (hcover : ∀ s ∈ l.learned.keys, l.nextAdu < s →
      pruneThreshold config l.getHighestLearned < s → l.Covered s) :
    Recorded config (pruneThreshold config l.getHighestLearned) (l.toBeExecuted env).2 := by
  obtain ⟨hrunning, hlearned, hadu, hlast, hcontents⟩ := h.toRunning.checkpoint env hmove htrig
  obtain ⟨hgreatest, hkept⟩ := lastKey?_of_move hint hmax hmove
  have hget := get?_prune hint hmax hgreatest
  rw [← hlearned] at hget
  -- what is left was learned before, and is above the threshold
  have hold : ∀ s v, (l.toBeExecuted env).2.learned.get? s = some v →
      pruneThreshold config l.getHighestLearned < s ∧ l.learned.get? s = some v := by
    intro s v hv
    rw [hget] at hv
    split at hv
    · next hlt => exact ⟨hlt, hv⟩
    · cases hv
  constructor
  case toRunning => exact hrunning
  case latest =>
    rw [loadedSnapshots, hcontents, hlast]
    dsimp only
    rw [StorageResource.loaded_after_checkpoint _ hlater, if_neg (Nat.ne_of_gt hload),
      StorageHelper.latestAdu, List.getLast?_concat]
    rfl
  case walked =>
    rw [hlast, hadu]
    exact ⟨le_refl _, fun s hs hle => absurd hle (Nat.not_le_of_lt hs)⟩
  case log =>
    intro entry hentry
    rw [hcontents] at hentry
    exact absurd hentry List.not_mem_nil
  case archived =>
    intro snap hsnap s v hv hlt
    rw [hget, if_pos hlt]
    rw [hcontents] at hsnap
    obtain ⟨timestamp, hts⟩ := OrdMap.mem_values.mp hsnap
    have hmem := OrdMap.get?_of_takeLast hts
    rw [OrdMap.get?_insert] at hmem
    split at hmem
    · rw [← Option.some.inj hmem] at hv
      exact OrdMap.get?_of_takeLast hv
    · exact h.archived snap (OrdMap.mem_values.mpr ⟨timestamp, hmem⟩) s v hv
        (lt_of_le_of_lt h.pruned hlt)
  case pruned =>
    apply pruneThreshold_mono
    obtain ⟨⟨v, hv⟩, hmost⟩ := OrdMap.lastKey?_spec hgreatest
    have hsame : (l.toBeExecuted env).2.learned.lastKey? = some l.getHighestLearned := by
      apply OrdMap.lastKey?_eq_some
      · exact ⟨v, by rw [hget, if_pos hkept, hv]⟩
      · exact fun s w hw => hmost s w (hold s w hw).2
    rw [show (l.toBeExecuted env).2.getHighestLearned =
      ((l.toBeExecuted env).2.learned.lastKey?).getD 0 from rfl, hsame]
    exact le_refl _
  case covered =>
    intro s v hs hv
    rw [hlast] at hs
    obtain ⟨hlt, hv⟩ := hold s v hv
    -- a snapshot that a recovery reads has it, by assumption
    have hcov := hcover s (OrdMap.mem_keys.mpr ⟨v, hv⟩) hs hlt
    rw [Covered, h.runConfig] at hcov
    rw [loadedSnapshots, hcontents]
    exact Or.inr ⟨hlt, (StorageResource.exists_loaded_after_checkpoint _ hlater
      (fun snap => snap.learned.contains s = true)).mpr ⟨hload, hcov⟩⟩

/-- **A recoverable call keeps the files in step with the memory.** -/
theorem Recorded.call {config : RunConfig} {threshold : Slot} {l : Learner} {c : Env × Call}
    (h : Recorded config threshold l) (hint : 1 ≤ config.storageSnapshotSlotInterval)
    (hmax : 1 ≤ config.storageMaxSnapshots) (hstamp : l.Stamped c) (hrec : l.Recoverable c) :
    ∃ threshold', Recorded config threshold' (l.call c) := by
  obtain ⟨env, ⟨slot, value⟩ | _⟩ := c
  · exact ⟨threshold, h.learn env slot value⟩
  · show ∃ threshold', Recorded config threshold' (l.toBeExecuted env).2
    by_cases hcheck : l.adu < l.nextAdu ∧ l.storage.settings.Triggers l.nextAdu
    · obtain ⟨hload, hcover⟩ := hrec hcheck.1 hcheck.2
      rw [h.runConfig] at hload hcover
      exact ⟨_, h.checkpoint hint hmax hcheck.1 hcheck.2 (hstamp hcheck.2) hload hcover⟩
    · rw [h.toRunning.advance env (fun hmove htrig => hcheck ⟨hmove, htrig⟩)]
      exact ⟨threshold, h.advance⟩

/-- **A call that is not recoverable falls back**: a restart right after it either reads no
snapshot, and starts over at slot 1, or misses an entry the learner still waits to execute. -/
theorem Recorded.not_keepsUp {config : RunConfig} {threshold : Slot} {l : Learner} {c : Env × Call}
    (h : Recorded config threshold l) (hint : 1 ≤ config.storageSnapshotSlotInterval)
    (hmax : 1 ≤ config.storageMaxSnapshots) (hstamp : l.Stamped c) (hrec : ¬ l.Recoverable c)
    (hash : String → Nat) (nodeId : String) (hon : config.persistentStorage = true)
    (flushEnv newEnv : Env) : ¬ (l.call c).KeepsUp hash nodeId config flushEnv newEnv := by
  obtain ⟨env, ⟨slot, value⟩ | _⟩ := c
  · exact absurd trivial hrec
  · simp only [Recoverable, not_forall] at hrec
    obtain ⟨hmove, htrig, hfail⟩ := hrec
    rw [h.runConfig] at hfail
    show ¬ KeepsUp hash nodeId config flushEnv newEnv (l.toBeExecuted env).2
    rintro ⟨hbehind, hkept⟩
    obtain ⟨hrunning, hlearned, hadu, hlast, hcontents⟩ := h.toRunning.checkpoint env hmove htrig
    obtain ⟨hgreatest, _⟩ := lastKey?_of_move hint hmax hmove
    obtain ⟨hmap, hcursor⟩ := hrunning.reload_eq hash nodeId hon flushEnv newEnv
    have hloaded : loadedSnapshots config (l.toBeExecuted env).2 = if loadable config = 0 then [] else
        (l.storage.store.contents.snapshots.takeLast (loadable config - 1)).values ++
          [⟨l.nextAdu, l.learned.takeLast (asUsize config.storageSnapshotSlotInterval)⟩] := by
      rw [loadedSnapshots, hcontents]
      exact StorageResource.loaded_after_checkpoint _ (hstamp htrig)
    have hlog : (l.toBeExecuted env).2.storage.store.contents.log = [] := by rw [hcontents]
    by_cases hload : loadable config = 0
    · -- nothing is read back
      rw [hloaded, if_pos hload, hlog] at hcursor
      rw [hadu, hcursor] at hbehind
      exact absurd hbehind (Nat.not_le_of_lt (lt_of_le_of_lt (Nat.zero_le _) hmove))
    · -- an entry that is still waited for is in none of the files
      obtain ⟨s, hs, hpast, hlt, huncovered⟩ : ∃ s ∈ l.learned.keys, l.nextAdu < s ∧
          pruneThreshold config l.getHighestLearned < s ∧ ¬ l.Covered s := by
        by_contra hall
        refine hfail ⟨Nat.pos_of_ne_zero hload, fun s hs hpast hlt => ?_⟩
        by_contra huncovered
        exact hall ⟨s, hs, hpast, hlt, huncovered⟩
      obtain ⟨v, hv⟩ := OrdMap.mem_keys.mp hs
      have hheld : (l.toBeExecuted env).2.learned.get? s = some v := by
        rw [hlearned, get?_prune hint hmax hgreatest, if_pos hlt, hv]
      have hread := hkept s v (hadu ▸ hpast) hheld
      rw [hmap, StorageHelper.replayed, hlog] at hread
      rcases OrdMap.get?_insertAll_cases hread with hempty | hread
      · cases hempty
      rcases StorageHelper.mem_replayed.mp hread with ⟨snap, hsnap, hsome⟩ | hnil
      · -- read back from a snapshot, it would be covered
        rw [loadedSnapshots, hcontents] at hsnap
        have hcov := (StorageResource.exists_loaded_after_checkpoint _ (hstamp htrig)
          (fun snap => snap.learned.contains s = true)).mp
          ⟨snap, hsnap, OrdMap.contains_iff.mpr ⟨v, hsome⟩⟩
        exact huncovered (by
          rw [Covered, h.runConfig]
          exact hcov.2)
      · exact absurd hnil List.not_mem_nil

/-! ## Runs

The invariant over a run of recoverable calls, and the run up to the first call that is not. -/

/-- A run of recoverable calls from a new learner. -/
theorem recorded_run {hash : String → Nat} {env : Env} {numAcceptors : Nat} {nodeId : String}
    {config : RunConfig} (hon : config.persistentStorage = true)
    (hint : 1 ≤ config.storageSnapshotSlotInterval) (hmax : 1 ≤ config.storageMaxSnapshots)
    {calls : List (Env × Call)}
    (hstamp : Guarded Learner.call Stamped
      (new hash Directory.empty env numAcceptors nodeId config) calls)
    (hrec : Guarded Learner.call Recoverable
      (new hash Directory.empty env numAcceptors nodeId config) calls) :
    ∃ threshold, Recorded config threshold
      (run Learner.call (new hash Directory.empty env numAcceptors nodeId config) calls) := by
  induction calls using List.reverseRecOn with
  | nil => exact ⟨0, recorded_new hash env numAcceptors nodeId hon⟩
  | append_singleton calls c ih =>
      obtain ⟨hstamps, hstampc⟩ := guarded_snoc.mp hstamp
      obtain ⟨hrecs, hrecc⟩ := guarded_snoc.mp hrec
      obtain ⟨threshold, h⟩ := ih hstamps hrecs
      rw [run_snoc]
      exact h.call hint hmax hstampc hrecc

/-- **Recovery never moves backwards in a run exactly if every call of the run is recoverable.** -/
theorem recovery_keepsUp_iff (hash : String → Nat) (env flushEnv newEnv : Env) (numAcceptors : Nat)
    (nodeId : String) (config : RunConfig) (hon : config.persistentStorage = true)
    (hint : 1 ≤ config.storageSnapshotSlotInterval) (hmax : 1 ≤ config.storageMaxSnapshots)
    (calls : List (Env × Call))
    (hstamp : Guarded call Stamped
      (new hash Directory.empty env numAcceptors nodeId config) calls) :
    (∀ done, done <+: calls →
      (run call (new hash Directory.empty env numAcceptors nodeId config) done).KeepsUp hash nodeId
        config flushEnv newEnv) ↔
      Guarded call Recoverable (new hash Directory.empty env numAcceptors nodeId config) calls := by
  constructor
  · intro hall
    induction calls using List.reverseRecOn with
    | nil => trivial
    | append_singleton calls c ih =>
        obtain ⟨hstamps, hstampc⟩ := guarded_snoc.mp hstamp
        have hrecs := ih hstamps (fun done hdone => hall done (hdone.trans (List.prefix_append ..)))
        obtain ⟨threshold, h⟩ := recorded_run hon hint hmax hstamps hrecs
        refine guarded_snoc.mpr ⟨hrecs, ?_⟩
        by_contra hno
        refine h.not_keepsUp hint hmax hstampc hno hash nodeId hon flushEnv newEnv ?_
        have hend := hall (calls ++ [c]) (List.prefix_refl _)
        rw [run_snoc] at hend
        exact hend
  · rintro hrec done ⟨rest, rfl⟩
    obtain ⟨threshold, h⟩ := recorded_run hon hint hmax (guarded_append.mp hstamp).1
      (guarded_append.mp hrec).1
    exact h.keepsUp hash nodeId hon flushEnv newEnv

/-! ### Snapshots of two slots

With an interval of two slots a short gap does no harm. Behind a longer one an entry is lost. -/

/-- Snapshots of two slots, four of them in rotation. -/
def twoSlotSnapshots : RunConfig :=
  { RunConfig.shipped with storageSnapshotSlotInterval := 2, storageMaxSnapshots := 4 }

/-- A new learner under `twoSlotSnapshots`, with trigger slots 2, 4, 6 and so on. -/
def archiver : Learner :=
  new (fun _ => 0) Directory.empty Env.quiet 3 "1" twoSlotSnapshots

/-- One `learn` per slot of `slots`, then one `toBeExecuted`. -/
def learnsOf (slots : List Slot) : List (Env × Call) :=
  slots.map (fun slot => (Env.quiet, .learn slot (setX "a"))) ++ [(Env.quiet, .toBeExecuted)]

/-- With one slot past the gap everything is recovered. -/
theorem recovery_keepsUp_short_gap :
    (run call archiver (learnsOf [1, 2, 4])).KeepsUp (fun _ => 0) "1" twoSlotSnapshots
      Env.quiet Env.quiet :=
  (recovery_keepsUp_iff (fun _ => 0) Env.quiet Env.quiet Env.quiet 3 "1" twoSlotSnapshots rfl
    (by decide) (by decide) (learnsOf [1, 2, 4]) (by decide)).mpr (by decide) _ List.prefix_rfl

/-- **Recovery loses an entry behind a gap**: slot 3 is missing, the cursor lands on trigger slot 2,
and the checkpoint keeps slots 5 and 6 but not slot 4. -/
theorem recovery_loses_entry_behind_gap :
    twoSlotSnapshots.storageMaxSnapshots ≤ twoSlotSnapshots.storageLoadSnapshots ∧
      Guarded call Stamped archiver (learnsOf [1, 2, 4, 5, 6]) ∧
      ¬ (run call archiver (learnsOf [1, 2, 4, 5, 6])).KeepsUp (fun _ => 0) "1" twoSlotSnapshots
        Env.quiet Env.quiet := by
  refine ⟨by decide, by decide, fun ⟨_, hkept⟩ => ?_⟩
  have hgone : ((run call archiver (learnsOf [1, 2, 4, 5, 6])).reload (fun _ => 0) "1"
      twoSlotSnapshots Env.quiet Env.quiet).learned.get? 4 = none := by decide
  rw [hkept 4 (setX "a") (by decide) (by decide)] at hgone
  cases hgone

end Learner

end PaxosWasm
