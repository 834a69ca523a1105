import PaxosWasm.Core.AcceptorVotes

/-!
# Recovery of the core acceptor

What an acceptor accepts goes to the changelog; a checkpoint replaces the whole changelog by a
snapshot of the `interval` greatest slots and prunes the memory by slot distance. The two do not
match: a retained slot that is neither among the greatest `interval` ones nor in an older snapshot
that recovery still reads is in no file any more. Recovery gives back the whole map exactly when no
checkpoint leaves such a slot behind, and when a promise was saved before the first value.

The module goes the way of the one about the learner. `Recorded` ties files and memory, the steps are
recording a value with and without a checkpoint, and a call that is not recoverable loses a value at once
(`Recorded.not_lossless`). What is different are the promises, which are saved in a file of their own:
a recovery that does not find them gives up, so the first value has to come after a promise.
-/

namespace PaxosWasm

open Library

namespace Acceptor

/-! ## Replay

A recovery enters the snapshots in order and then the changes: what it ends up with for a slot is what
the last of them says that has the slot. -/

namespace StorageHelper

theorem combine_eq (snapshots : List PersistentSnapshotState) (changes : List PValue) :
    combine snapshots changes =
      OrdMap.insertAll ∅ (snapshots.flatMap (fun s => s.accepted.entries)
        ++ changes.map (fun pv => (pv.slot, pv))) := by
  have hfold : ∀ m : OrdMap Slot PValue,
      snapshots.foldl (fun m s => OrdMap.insertAll m s.accepted.entries) m =
        m.insertAll (snapshots.flatMap (fun s => s.accepted.entries)) := by
    induction snapshots with
    | nil => exact fun _ => rfl
    | cons s ss ih =>
        intro m
        rw [List.foldl_cons, ih, List.flatMap_cons, OrdMap.insertAll_append]
  rw [combine, hfold, ← OrdMap.insertAll_append]

/-- What the replayed files say about a slot. -/
theorem mem_replayed {snapshots : List PersistentSnapshotState} {changes : List PValue} {s : Slot}
    {pv : PValue} :
    (s, pv) ∈ snapshots.flatMap (fun s => s.accepted.entries)
        ++ changes.map (fun pv => (pv.slot, pv)) ↔
      (∃ snap ∈ snapshots, snap.accepted.get? s = some pv) ∨ (pv ∈ changes ∧ pv.slot = s) := by
  rw [List.mem_append, List.mem_flatMap, List.mem_map]
  simp only [OrdMap.mem_entries, Prod.mk.injEq]
  constructor
  · rintro (h | ⟨pv', hpv', rfl, rfl⟩)
    · exact Or.inl h
    · exact Or.inr ⟨hpv', rfl⟩
  · rintro (h | ⟨hpv, hs⟩)
    · exact Or.inl h
    · exact Or.inr ⟨pv, hpv, hs, rfl⟩

/-! ## The helper on a file system that does not fail

Every save is in the files or in their buffers, and a flush brings it to the disk. -/

variable {h : StorageHelper} (env : Env) (hon : h.enabled = true) (hok : h.store.dir.script = [])

include hon hok

theorem store_flushChanges :
    (h.flushChanges env).1 = .ok () ∧ (h.flushChanges env).2.store = h.store.flush := by
  simp [flushChanges, hon, StorageResource.flushChanges, hok]

theorem store_maybeFlushCurrentState : (h.maybeFlushCurrentState env).2.store = h.store := by
  unfold maybeFlushCurrentState
  rw [if_neg (by simp [hon])]
  split
  · rfl
  · split
    · simp [flushCurrentState, hon, StorageResource.flushState, hok]
    · rfl

theorem contents_maybeFlushChanges :
    (h.maybeFlushChanges env).2.store.contents = h.store.contents := by
  unfold maybeFlushChanges
  rw [if_neg (by simp [hon])]
  split
  · rfl
  · split
    · simp [flushChanges, hon, StorageResource.flushChanges, hok]
    · rfl

theorem contents_saveChange (pv : PValue) :
    (h.saveChange env pv).2.store.contents =
      { h.store.contents with log := h.store.contents.log ++ [pv] } := by
  unfold saveChange
  rw [if_neg (by simp [hon]), StorageResource.saveChange, StorageResource.attempt_of_script_nil hok]
  refine (contents_maybeFlushChanges env ?_ ?_).trans ?_
  · exact hon
  · exact hok
  · simp [StorageResource.contents]

theorem contents_saveCurrentState (promises : List Ballot) :
    (h.saveCurrentState env promises).2.store.contents =
      { h.store.contents with state := some ⟨promises⟩ } := by
  unfold saveCurrentState
  rw [if_neg (by simp [hon]), StorageResource.saveState, StorageResource.attempt_of_script_nil hok]
  refine (congrArg _ (store_maybeFlushCurrentState env ?_ ?_)).trans ?_
  · exact hon
  · exact hok
  · rfl

/-- **A triggered snapshot** checkpoints the greatest entries and prunes the map. -/
theorem maybeSnapshot_of_triggers {slot : Slot} (htrig : h.settings.Triggers slot)
    (accepted : OrdMap Slot PValue) :
    (h.maybeSnapshot env slot accepted).2.1.store.contents =
        { h.store.contents with
          snapshots := (h.store.contents.snapshots.insert env.utc
            ⟨accepted.takeLast (asUsize h.runConfig.storageSnapshotSlotInterval)⟩).takeLast
              h.store.maxSnapshots
          log := [] } ∧
      (h.maybeSnapshot env slot accepted).2.2 = prune h.runConfig accepted := by
  have hint : h.runConfig.storageSnapshotSlotInterval ≠ 0 := htrig.2.1
  have hslot : slot % h.runConfig.storageSnapshotSlotInterval = h.snapshotSlotOffset ∧
      slot > h.lastSnapshotSlot := htrig.2.2
  have hflush := store_flushChanges env hon hok
  have hset := h.settings_flushChanges env
  unfold maybeSnapshot
  rw [if_neg (by simpa [hon] using hint), if_pos hslot]
  generalize h.flushChanges env = flushed at hflush hset ⊢
  obtain ⟨res, h₁⟩ := flushed
  obtain ⟨rfl, hstore⟩ := hflush
  have hon₁ : h₁.enabled = true := (congrArg Settings.enabled hset).trans hon
  have hcfg : h₁.runConfig = h.runConfig := congrArg Settings.runConfig hset
  have hok₁ : h₁.store.dir.script = [] := by
    rw [show h₁.store = h.store.flush from hstore]
    exact hok
  have hcheck := StorageResource.contents_checkpoint hok₁
    ⟨accepted.takeLast (asUsize h.runConfig.storageSnapshotSlotInterval)⟩ env.utc
  dsimp only
  unfold checkpointSnapshot
  rw [if_neg (by simp [hon₁])]
  dsimp only
  rw [hcfg]
  generalize h₁.store.checkpoint _ _ = checked at hcheck ⊢
  obtain ⟨res, store⟩ := checked
  obtain ⟨rfl, hcontents⟩ := hcheck
  refine ⟨?_, rfl⟩
  show store.contents = _
  rw [show store.contents = _ from hcontents, show h₁.store = h.store.flush from hstore,
    StorageResource.contents_flush]
  rfl

omit hok in
theorem maybeSnapshot_of_not_triggers {slot : Slot} (htrig : ¬ h.settings.Triggers slot)
    (accepted : OrdMap Slot PValue) :
    h.maybeSnapshot env slot accepted = (.ok (), h, accepted) := by
  unfold maybeSnapshot
  by_cases hint : h.runConfig.storageSnapshotSlotInterval = 0
  · rw [if_pos (Or.inr hint)]
  · have hslot : ¬ (slot % h.runConfig.storageSnapshotSlotInterval = h.snapshotSlotOffset ∧
        slot > h.lastSnapshotSlot) := fun hslot => htrig ⟨hon, hint, hslot⟩
    rw [if_neg (by simpa [hon] using hint), if_neg hslot]

end StorageHelper

/-! ## The state a restart finds

`Recorded` ties the memory of an acceptor to its files. What a checkpoint drops from the changelog has to
be in a snapshot that recovery reads. -/

/-- A fresh acceptor over the flushed directory of `a`, after `loadState`. -/
def reload (hash : String → Nat) (nodeId : String) (config : RunConfig) (flushEnv newEnv : Env)
    (a : Acceptor) : Acceptor :=
  (new hash (a.storage.flushChanges flushEnv).2.store.dir newEnv nodeId config).loadState.2

/-- **Nothing is lost**: the reloaded acceptor has the same promises, and the same p-value at every
slot the old one holds. -/
def Lossless (hash : String → Nat) (nodeId : String) (config : RunConfig) (flushEnv newEnv : Env)
    (a : Acceptor) : Prop :=
  (a.reload hash nodeId config flushEnv newEnv).promises = a.promises ∧
    ∀ s pv, a.accepted.get? s = some pv →
      (a.reload hash nodeId config flushEnv newEnv).accepted.get? s = some pv

/-- The map with a fresh value for `slot`. -/
def inserted (a : Acceptor) (slot : Slot) (ballot : Ballot) (value : Value) : OrdMap Slot PValue :=
  a.accepted.insert slot { slot, ballot, value := some value }

/-- After a checkpoint of `accepted` one of the snapshots that recovery reads has an entry for
`s`: the new one, which holds the greatest `interval` entries, or one of the earlier ones. -/
def Covered (a : Acceptor) (accepted : OrdMap Slot PValue) (s : Slot) : Prop :=
  0 < loadable a.storage.runConfig ∧
    ((accepted.takeLast (asUsize a.storage.runConfig.storageSnapshotSlotInterval)).contains s ∨
      ∃ snap ∈ (a.storage.store.contents.snapshots.takeLast
        (loadable a.storage.runConfig - 1)).values, snap.accepted.contains s)

/-- **When a call keeps the acceptor recoverable**: a value is recorded only once a promise has
been saved, and if that takes a checkpoint, every slot the pruning retains is covered. -/
def Recoverable (a : Acceptor) (c : Env × Call) : Prop :=
  match c.2 with
  | .prepare _ _ => True
  | .accept slot ballot value =>
      a.highestPromisedBallot ≤ ballot → a.accepted.get? slot = none →
        a.promises ≠ [] ∧
          (a.storage.settings.Triggers slot → ∀ s ∈ (a.inserted slot ballot value).keys,
            pruneThreshold a.storage.runConfig
              (a.accepted.lastKey?.elim slot (max slot)) < s →
              a.Covered (a.inserted slot ballot value) s)

instance (a : Acceptor) (accepted : OrdMap Slot PValue) (s : Slot) :
    Decidable (a.Covered accepted s) :=
  inferInstanceAs (Decidable (_ ∧ (_ ∨ _)))

instance (a : Acceptor) : ∀ c : Env × Call, Decidable (a.Recoverable c)
  | (_, .prepare _ _) => isTrue trivial
  | (_, .accept _ _ _) => inferInstanceAs (Decidable (_ → _ → _ ∧ (_ → ∀ s ∈ _, _)))

/-- A checkpoint is stamped later than every snapshot still in rotation. -/
def Stamped (a : Acceptor) (c : Env × Call) : Prop :=
  match c.2 with
  | .prepare _ _ => True
  | .accept slot _ _ =>
      a.storage.settings.Triggers slot →
        ∀ timestamp ∈ a.storage.store.contents.snapshots.keys, timestamp < c.1.utc

instance (a : Acceptor) : ∀ c : Env × Call, Decidable (a.Stamped c)
  | (_, .prepare _ _) => isTrue trivial
  | (_, .accept _ _ _) => inferInstanceAs (Decidable (_ → ∀ t ∈ _, _))

/-- An acceptor created under `config` whose file system does not fail: its current-state file holds
its promises. -/
structure Running (config : RunConfig) (a : Acceptor) : Prop where
  enabled : a.storage.enabled = true
  runConfig : a.storage.runConfig = config
  maxSnapshots : a.storage.store.maxSnapshots = config.storageMaxSnapshots
  script : a.storage.store.dir.script = []
  promises : a.storage.store.contents.state =
    if a.promises = [] then none else some ⟨a.promises⟩

/-- **The files and the memory of a running acceptor.** `threshold` is the one of the last
checkpoint: nothing above it has ever been pruned. -/
structure Recorded (config : RunConfig) (threshold : Slot) (a : Acceptor) : Prop
    extends Running config a where
  started : a.accepted ≠ ∅ → a.promises ≠ []
  keyed : ∀ s pv, a.accepted.get? s = some pv → pv.slot = s
  log : ∀ pv ∈ a.storage.store.contents.log, a.accepted.get? pv.slot = some pv
  archived : ∀ snap ∈ a.storage.store.contents.snapshots.values, ∀ s pv,
    snap.accepted.get? s = some pv → threshold < s → a.accepted.get? s = some pv
  pruned : threshold = 0 ∨
    ∃ m, a.accepted.lastKey? = some m ∧ threshold ≤ pruneThreshold config m
  covered : ∀ s pv, a.accepted.get? s = some pv →
    pv ∈ a.storage.store.contents.log ∨ (threshold < s ∧
      ∃ snap ∈ (a.storage.store.contents.snapshots.takeLast
        (asUsize config.storageLoadSnapshots)).values, snap.accepted.contains s)

theorem recorded_new (hash : String → Nat) (env : Env) (nodeId : String) {config : RunConfig}
    (hon : config.persistentStorage = true) :
    Recorded config 0 (new hash Directory.empty env nodeId config) where
  enabled := hon
  runConfig := rfl
  maxSnapshots := rfl
  script := rfl
  promises := rfl
  started := fun h => absurd rfl h
  keyed := fun _ _ h => nomatch h
  log := fun _ h => nomatch h
  archived := fun _ h => nomatch h
  pruned := Or.inl rfl
  covered := fun _ _ h => nomatch h

/-! ### What a reload reads

Without a promise in its file a reload stops early. With one it reads the snapshots and the changelog. -/

/-- What a reload reads back. -/
theorem Running.reload_eq {config : RunConfig} {a : Acceptor} (h : Running config a)
    (hash : String → Nat) (nodeId : String) (hon : config.persistentStorage = true) (flushEnv newEnv : Env) :
    (a.reload hash nodeId config flushEnv newEnv).promises = a.promises ∧
      (a.reload hash nodeId config flushEnv newEnv).accepted =
        if a.promises = [] then ∅
        else StorageHelper.combine
          (a.storage.store.contents.snapshots.takeLast (asUsize config.storageLoadSnapshots)).values
          a.storage.store.contents.log := by
  have hstore := (StorageHelper.store_flushChanges flushEnv h.enabled h.script).2
  have hstate : a.storage.store.dir.state = if a.promises = [] then none else some ⟨a.promises⟩ :=
    h.promises
  have hloaded : ∀ ps chg, StorageHelper.loadAndCombineState
      (StorageHelper.new hash a.storage.store.flush.dir newEnv s!"node{nodeId}-acceptor" config
        config.persistentStorage) ps chg =
      if a.promises = [] then (.error "bincode decode promises: unexpected end of input", ps, chg)
      else (.ok (), a.promises, StorageHelper.combine
        (a.storage.store.contents.snapshots.takeLast (asUsize config.storageLoadSnapshots)).values
        a.storage.store.contents.log) := by
    intro ps chg
    have hflushed : a.storage.store.flush.dir.state = a.storage.store.dir.state := rfl
    rw [StorageHelper.loadAndCombineState, if_neg (by simp [StorageHelper.new, hon]),
      StorageHelper.loadCurrentState, if_neg (by simp [StorageHelper.new, hon])]
    simp only [StorageHelper.new, StorageResource.new, StorageResource.loadState, hflushed, hstate]
    by_cases hnil : a.promises = []
    · simp only [hnil, if_true]
    · simp only [hnil, if_false]
      rfl
  unfold reload loadState
  rw [hstore]
  simp only [new, hloaded]
  split
  · next hnil => exact ⟨hnil.symm, rfl⟩
  · exact ⟨rfl, rfl⟩

/-- **Recorded memory is recovered.** -/
theorem Recorded.lossless {config : RunConfig} {threshold : Slot} {a : Acceptor}
    (h : Recorded config threshold a) (hash : String → Nat) (nodeId : String)
    (hon : config.persistentStorage = true) (flushEnv newEnv : Env) :
    a.Lossless hash nodeId config flushEnv newEnv := by
  obtain ⟨hpromises, haccepted⟩ := h.reload_eq hash nodeId hon flushEnv newEnv
  refine ⟨hpromises, fun s pv hpv => ?_⟩
  have hstarted : a.promises ≠ [] := h.started (by
    intro hempty
    rw [hempty] at hpv
    cases hpv)
  rw [haccepted, if_neg hstarted, StorageHelper.combine_eq]
  rcases h.covered s pv hpv with hlog | ⟨hlt, snap, hsnap, hcont⟩
  · -- the changelog is replayed last, and all it says about `s` is `pv`
    rw [OrdMap.insertAll_append]
    apply OrdMap.get?_insertAll_of_agree
    · intro w hw
      obtain ⟨pv', hpv', heq⟩ := List.mem_map.mp hw
      obtain ⟨rfl, rfl⟩ := Prod.mk.inj heq
      exact Option.some.inj ((h.log pv' hpv').symm.trans hpv)
    · exact List.mem_map.mpr ⟨pv, hlog, by rw [h.keyed s pv hpv]⟩
  · -- above the threshold every file that mentions `s` says `pv`
    have hloaded : ∀ snap' ∈ (a.storage.store.contents.snapshots.takeLast
        (asUsize config.storageLoadSnapshots)).values, ∀ w, snap'.accepted.get? s = some w →
          w = pv := by
      intro snap' hsnap' w hw
      obtain ⟨timestamp, hts⟩ := OrdMap.mem_values.mp hsnap'
      have hmem := OrdMap.mem_values.mpr ⟨timestamp, OrdMap.get?_of_takeLast hts⟩
      exact Option.some.inj ((h.archived snap' hmem s w hw hlt).symm.trans hpv)
    apply OrdMap.get?_insertAll_of_agree
    · intro w hw
      rcases StorageHelper.mem_replayed.mp hw with ⟨snap', hsnap', hsnap⟩ | ⟨hlog, hslot⟩
      · exact hloaded snap' hsnap' w hsnap
      · exact Option.some.inj ((hslot ▸ h.log w hlog).symm.trans hpv)
    · obtain ⟨w, hw⟩ := OrdMap.contains_iff.mp hcont
      obtain rfl := hloaded snap hsnap w hw
      exact StorageHelper.mem_replayed.mpr (Or.inl ⟨snap, hsnap, hw⟩)

/-! ## Steps

A call that is recoverable keeps the files in step, and one that is not loses a value at a restart right
behind it. So the condition is exact. -/

/-- What recording a value leaves in the files and in memory. -/
theorem Running.record_eq {config : RunConfig} {a : Acceptor} (h : Running config a) (env : Env)
    (slot : Slot) (ballot : Ballot) (value : Value) :
    (a.storage.settings.Triggers slot →
      (a.record env slot ballot value).storage.store.contents =
        { a.storage.store.contents with
          snapshots := (a.storage.store.contents.snapshots.insert env.utc
            ⟨(a.inserted slot ballot value).takeLast
              (asUsize config.storageSnapshotSlotInterval)⟩).takeLast config.storageMaxSnapshots
          log := [] } ∧
      (a.record env slot ballot value).accepted =
        prune config (a.inserted slot ballot value)) ∧
    (¬ a.storage.settings.Triggers slot →
      (a.record env slot ballot value).storage.store.contents =
        { a.storage.store.contents with
          log := a.storage.store.contents.log ++ [{ slot, ballot, value := some value }] } ∧
      (a.record env slot ballot value).accepted = a.inserted slot ballot value) := by
  have hset := a.storage.settings_saveChange env { slot, ballot, value := some value }
  have hsave := StorageHelper.contents_saveChange env h.enabled h.script
    { slot, ballot, value := some value }
  unfold record
  dsimp only
  -- the change is in the changelog before the snapshot is considered
  generalize (a.storage.saveChange env { slot, ballot, value := some value }).2 = h₁
    at hset hsave ⊢
  have hon₁ : h₁.enabled = true := (congrArg StorageHelper.Settings.enabled hset).trans h.enabled
  have hok₁ : h₁.store.dir.script = [] :=
    (congrArg StorageResource.Contents.script hsave).trans h.script
  have hcfg : h₁.runConfig = config :=
    (congrArg StorageHelper.Settings.runConfig hset).trans h.runConfig
  have hmax : h₁.store.maxSnapshots = config.storageMaxSnapshots :=
    (congrArg StorageResource.Contents.maxSnapshots hsave).trans h.maxSnapshots
  constructor
  · intro htrig
    have hsnap := StorageHelper.maybeSnapshot_of_triggers env hon₁ hok₁ (hset ▸ htrig)
      (a.inserted slot ballot value)
    rw [hsave, hcfg, hmax] at hsnap
    exact hsnap
  · intro htrig
    have hsnap := StorageHelper.maybeSnapshot_of_not_triggers env hon₁ (hset ▸ htrig)
      (a.inserted slot ballot value)
    unfold inserted at hsnap
    rw [hsnap]
    exact ⟨hsave, rfl⟩

theorem Running.record {config : RunConfig} {a : Acceptor} (h : Running config a) (env : Env)
    (slot : Slot) (ballot : Ballot) (value : Value) :
    Running config (a.record env slot ballot value) := by
  obtain ⟨last, hset⟩ := a.record_settings env slot ballot value
  obtain ⟨hcheck, hlog⟩ := h.record_eq env slot ballot value
  -- both kinds of step leave everything but the snapshots and the log alone
  have hcontents : ∃ snapshots log, (a.record env slot ballot value).storage.store.contents =
      { a.storage.store.contents with snapshots, log } := by
    by_cases htrig : a.storage.settings.Triggers slot
    · exact ⟨_, _, (hcheck htrig).1⟩
    · exact ⟨_, _, (hlog htrig).1⟩
  obtain ⟨snapshots, log, hcontents⟩ := hcontents
  constructor
  case enabled => exact (congrArg StorageHelper.Settings.enabled hset).trans h.enabled
  case runConfig => exact (congrArg StorageHelper.Settings.runConfig hset).trans h.runConfig
  case maxSnapshots =>
    exact (congrArg StorageResource.Contents.maxSnapshots hcontents).trans h.maxSnapshots
  case script => exact (congrArg StorageResource.Contents.script hcontents).trans h.script
  case promises => exact (congrArg StorageResource.Contents.state hcontents).trans h.promises

/-- `prepare` only touches the promises, in memory and in their file. -/
theorem Running.prepare {config : RunConfig} {a : Acceptor} (h : Running config a) (env : Env)
    (slot : Slot) (ballot : Ballot) :
    Running config (a.prepare env slot ballot).2 ∧
      (a.promises ≠ [] → (a.prepare env slot ballot).2.promises ≠ []) ∧
      ∃ state, (a.prepare env slot ballot).2.storage.store.contents =
        { a.storage.store.contents with state } := by
  have hset := (a.prepare_frame env slot ballot).2
  unfold Acceptor.prepare at hset ⊢
  dsimp only at hset ⊢
  split at hset
  · next hlt =>
    rw [if_pos hlt]
    exact ⟨h, id, _, rfl⟩
  · next hge =>
    rw [if_neg hge]
    split at hset
    · next hgt =>
      rw [if_pos hgt]
      have hcontents := StorageHelper.contents_saveCurrentState env h.enabled h.script
        (a.promises ++ [ballot])
      refine ⟨?_, fun _ => by simp, _, hcontents⟩
      constructor
      case enabled => exact (congrArg StorageHelper.Settings.enabled hset).trans h.enabled
      case runConfig => exact (congrArg StorageHelper.Settings.runConfig hset).trans h.runConfig
      case maxSnapshots =>
        exact (congrArg StorageResource.Contents.maxSnapshots hcontents).trans h.maxSnapshots
      case script => exact (congrArg StorageResource.Contents.script hcontents).trans h.script
      case promises =>
        refine (congrArg StorageResource.Contents.state hcontents).trans ?_
        rw [if_neg (by simp)]
    · next hle =>
      rw [if_neg hle]
      exact ⟨h, id, _, rfl⟩

theorem Recorded.prepare {config : RunConfig} {threshold : Slot} {a : Acceptor}
    (h : Recorded config threshold a) (env : Env) (slot : Slot) (ballot : Ballot) :
    Recorded config threshold (a.prepare env slot ballot).2 := by
  obtain ⟨hrunning, hstarted, state, hcontents⟩ := h.toRunning.prepare env slot ballot
  have haccepted := (a.prepare_frame env slot ballot).1
  constructor
  case toRunning => exact hrunning
  case started => exact fun hne => hstarted (h.started (haccepted ▸ hne))
  all_goals rw [haccepted]
  case keyed => exact h.keyed
  case log =>
    rw [hcontents]
    exact h.log
  case archived =>
    rw [hcontents]
    exact h.archived
  case pruned => exact h.pruned
  case covered =>
    rw [hcontents]
    exact h.covered

/-- The greatest slot once a value for `slot` has been inserted. -/
theorem lastKey?_inserted (a : Acceptor) (slot : Slot) (ballot : Ballot) (value : Value) :
    (a.inserted slot ballot value).lastKey? = some (a.accepted.lastKey?.elim slot (max slot)) :=
  OrdMap.lastKey?_insert ..

/-- The greatest slot only grows, so the threshold of the last checkpoint stays a lower bound. -/
theorem Recorded.threshold_le {config : RunConfig} {threshold : Slot} {a : Acceptor}
    (h : Recorded config threshold a) (slot : Slot) :
    threshold ≤ pruneThreshold config (a.accepted.lastKey?.elim slot (max slot)) := by
  rcases h.pruned with h0 | ⟨m, hm, hle⟩
  · exact h0 ▸ Nat.zero_le _
  · rw [hm]
    exact le_trans hle (pruneThreshold_mono config (le_max_right ..))

/-! ### Recording a value

The value is in memory before it is in the changelog. At a slot that triggers one a checkpoint follows, and
the map is pruned behind it. -/

/-- Recording a value without a checkpoint: one more record in the changelog. -/
theorem Recorded.record_log {config : RunConfig} {threshold : Slot} {a : Acceptor}
    (h : Recorded config threshold a) {env : Env} {slot : Slot} {ballot : Ballot} {value : Value}
    (hnone : a.accepted.get? slot = none) (hstarted : a.promises ≠ [])
    (htrig : ¬ a.storage.settings.Triggers slot) :
    Recorded config threshold (a.record env slot ballot value) := by
  obtain ⟨hcontents, haccepted⟩ := (h.record_eq env slot ballot value).2 htrig
  have hext : OrdMap.Extends a.accepted (a.record env slot ballot value).accepted :=
    haccepted ▸ OrdMap.extends_insert _ hnone
  -- an entry is the new one or was there before
  have hcases : ∀ s pv, (a.record env slot ballot value).accepted.get? s = some pv →
      (s = slot ∧ pv = { slot, ballot, value := some value }) ∨ a.accepted.get? s = some pv := by
    intro s pv hpv
    rw [haccepted, inserted, OrdMap.get?_insert] at hpv
    split at hpv
    · next hs => exact Or.inl ⟨hs, (Option.some.inj hpv).symm⟩
    · exact Or.inr hpv
  constructor
  case toRunning => exact h.record env slot ballot value
  case started => exact fun _ => hstarted
  case keyed =>
    intro s pv hpv
    rcases hcases s pv hpv with ⟨rfl, rfl⟩ | hold
    · rfl
    · exact h.keyed s pv hold
  case log =>
    intro pv hpv
    rw [hcontents] at hpv
    rcases List.mem_append.mp hpv with hpv | hpv
    · exact hext _ _ (h.log pv hpv)
    · rw [List.mem_singleton.mp hpv, haccepted]
      exact OrdMap.get?_insert_self ..
  case archived =>
    intro snap hsnap s pv hpv hlt
    rw [hcontents] at hsnap
    exact hext _ _ (h.archived snap hsnap s pv hpv hlt)
  case pruned =>
    exact Or.inr ⟨_, haccepted ▸ a.lastKey?_inserted slot ballot value, h.threshold_le slot⟩
  case covered =>
    intro s pv hpv
    rw [hcontents]
    rcases hcases s pv hpv with ⟨rfl, rfl⟩ | hold
    · exact Or.inl (by simp)
    · exact (h.covered s pv hold).imp_left (List.mem_append_left _)

/-- Recording a value with a checkpoint: the retained slots move to the snapshots. -/
theorem Recorded.record_checkpoint {config : RunConfig} {threshold : Slot} {a : Acceptor}
    (h : Recorded config threshold a) (hint : 1 ≤ config.storageSnapshotSlotInterval)
    (hmax : 1 ≤ config.storageMaxSnapshots) {env : Env} {slot : Slot} {ballot : Ballot}
    {value : Value} (hnone : a.accepted.get? slot = none) (hstarted : a.promises ≠ [])
    (htrig : a.storage.settings.Triggers slot)
    (hlater : ∀ t ∈ a.storage.store.contents.snapshots.keys, t < env.utc)
    (hcover : ∀ s ∈ (a.inserted slot ballot value).keys,
      pruneThreshold config (a.accepted.lastKey?.elim slot (max slot)) < s →
        a.Covered (a.inserted slot ballot value) s) :
    Recorded config
      (pruneThreshold config (a.accepted.lastKey?.elim slot (max slot)))
      (a.record env slot ballot value) := by
  obtain ⟨hcontents, haccepted⟩ := (h.record_eq env slot ballot value).1 htrig
  have hlast := a.lastKey?_inserted slot ballot value
  have hthreshold := h.threshold_le slot
  have hpos : 0 < a.accepted.lastKey?.elim slot (max slot) := by
    have hslot : 0 < slot := lt_of_le_of_lt (Nat.zero_le _) htrig.2.2.2
    cases a.accepted.lastKey? with
    | none => exact hslot
    | some m => exact lt_of_lt_of_le hslot (le_max_left ..)
  have hget := get?_prune hint hmax hlast
  rw [← haccepted] at hget
  have hkept := pruneThreshold_lt hint hmax hpos
  -- the greatest slot, which decides what is pruned
  generalize a.accepted.lastKey?.elim slot (max slot) = greatest
    at hlast hthreshold hpos hget hkept hcover ⊢
  have hext := OrdMap.extends_insert { slot, ballot, value := some value } hnone
  -- what is left is above the threshold, and was there before or is new
  have hold : ∀ s pv, (a.record env slot ballot value).accepted.get? s = some pv →
      pruneThreshold config greatest < s ∧
        (a.inserted slot ballot value).get? s = some pv := by
    intro s pv hpv
    rw [hget] at hpv
    split at hpv
    · next hlt => exact ⟨hlt, hpv⟩
    · cases hpv
  constructor
  case toRunning => exact h.record env slot ballot value
  case started => exact fun _ => hstarted
  case keyed =>
    intro s pv hpv
    have hins := (hold s pv hpv).2
    rw [inserted, OrdMap.get?_insert] at hins
    split at hins
    · next hs =>
      rw [← Option.some.inj hins]
      exact hs.symm
    · exact h.keyed s pv hins
  case log =>
    intro pv hpv
    rw [hcontents] at hpv
    cases hpv
  case archived =>
    intro snap hsnap s pv hpv hlt
    rw [hget, if_pos hlt]
    rw [hcontents] at hsnap
    -- the snapshot is the new one or one of those before
    obtain ⟨timestamp, hts⟩ := OrdMap.mem_values.mp hsnap
    have hmem := OrdMap.get?_of_takeLast hts
    rw [OrdMap.get?_insert] at hmem
    split at hmem
    · rw [← Option.some.inj hmem] at hpv
      exact OrdMap.get?_of_takeLast hpv
    · exact hext _ _ (h.archived snap (OrdMap.mem_values.mpr ⟨timestamp, hmem⟩) s pv hpv
        (lt_of_le_of_lt hthreshold hlt))
  case pruned =>
    obtain ⟨⟨pv, hpv⟩, hgreatest⟩ := OrdMap.lastKey?_spec hlast
    refine Or.inr ⟨greatest, OrdMap.lastKey?_eq_some ⟨pv, ?_⟩ ?_, le_refl _⟩
    · rw [hget, if_pos hkept, hpv]
    · exact fun s pv hpv => hgreatest s pv (hold s pv hpv).2
  case covered =>
    intro s pv hpv
    obtain ⟨hlt, hins⟩ := hold s pv hpv
    -- a recovery reads one that has the slot, by assumption
    have hcov := hcover s (OrdMap.mem_keys.mpr ⟨pv, hins⟩) hlt
    rw [Covered, h.runConfig] at hcov
    rw [hcontents]
    exact Or.inr ⟨hlt, (StorageResource.exists_loaded_after_checkpoint _ hlater
      (fun snap => snap.accepted.contains s = true)).mpr hcov⟩

/-- **A recoverable call keeps the files in step with the memory.** -/
theorem Recorded.call {config : RunConfig} {threshold : Slot} {a : Acceptor} {c : Env × Call}
    (h : Recorded config threshold a) (hint : 1 ≤ config.storageSnapshotSlotInterval)
    (hmax : 1 ≤ config.storageMaxSnapshots) (hstamp : a.Stamped c) (hrec : a.Recoverable c) :
    ∃ threshold', Recorded config threshold' (a.call c) := by
  obtain ⟨env, ⟨slot, ballot⟩ | ⟨slot, ballot, value⟩⟩ := c
  · exact ⟨threshold, h.prepare env slot ballot⟩
  · show ∃ threshold', Recorded config threshold' (a.accept env slot ballot value).2
    rcases a.accept_cases env slot ballot value with
      ⟨b, he, _⟩ | ⟨pv, _, _, _, he⟩ | ⟨hb, hnone, he⟩
    · exact ⟨threshold, he ▸ h⟩
    · exact ⟨threshold, he ▸ h⟩
    · rw [he]
      obtain ⟨hstarted, hcover⟩ := hrec hb hnone
      rw [h.runConfig] at hcover
      by_cases htrig : a.storage.settings.Triggers slot
      · exact ⟨_, h.record_checkpoint hint hmax hnone hstarted htrig (hstamp htrig)
          (hcover htrig)⟩
      · exact ⟨threshold, h.record_log hnone hstarted htrig⟩

/-- A slot the acceptor still holds after recording a value. -/
theorem Recorded.record_nonempty {config : RunConfig} {threshold : Slot} {a : Acceptor}
    (h : Recorded config threshold a) (hint : 1 ≤ config.storageSnapshotSlotInterval)
    (hmax : 1 ≤ config.storageMaxSnapshots) (env : Env) (slot : Slot) (ballot : Ballot)
    (value : Value) : ∃ s pv, (a.record env slot ballot value).accepted.get? s = some pv := by
  obtain ⟨hcheck, hlog⟩ := h.toRunning.record_eq env slot ballot value
  by_cases htrig : a.storage.settings.Triggers slot
  · have hlast := a.lastKey?_inserted slot ballot value
    obtain ⟨⟨pv, hpv⟩, hgreatest⟩ := OrdMap.lastKey?_spec hlast
    have hpos : 0 < slot := lt_of_le_of_lt (Nat.zero_le _) htrig.2.2.2
    have hle := hgreatest slot _ (OrdMap.get?_insert_self ..)
    refine ⟨a.accepted.lastKey?.elim slot (max slot), pv, ?_⟩
    rw [(hcheck htrig).2, get?_prune hint hmax hlast,
      if_pos (pruneThreshold_lt hint hmax (lt_of_lt_of_le hpos hle)), hpv]
  · refine ⟨slot, { slot, ballot, value := some value }, ?_⟩
    rw [(hlog htrig).2]
    exact OrdMap.get?_insert_self ..

/-- **A call that is not recoverable loses a value**: a restart right after it finds less than the
acceptor holds. -/
theorem Recorded.not_lossless {config : RunConfig} {threshold : Slot} {a : Acceptor}
    {c : Env × Call} (h : Recorded config threshold a)
    (hint : 1 ≤ config.storageSnapshotSlotInterval) (hmax : 1 ≤ config.storageMaxSnapshots)
    (hstamp : a.Stamped c) (hrec : ¬ a.Recoverable c) (hash : String → Nat) (nodeId : String)
    (hon : config.persistentStorage = true) (flushEnv newEnv : Env) :
    ¬ (a.call c).Lossless hash nodeId config flushEnv newEnv := by
  obtain ⟨env, ⟨slot, ballot⟩ | ⟨slot, ballot, value⟩⟩ := c
  · exact absurd trivial hrec
  · simp only [Recoverable, not_forall] at hrec
    obtain ⟨hb, hnone, hfail⟩ := hrec
    -- the call records the value, or there is nothing to lose
    have he : (a.accept env slot ballot value).2 = a.record env slot ballot value := by
      rcases a.accept_cases env slot ballot value with
        ⟨b, _, hlt | ⟨pv, hpv, _⟩⟩ | ⟨pv, _, hpv, _, _⟩ | ⟨_, _, he⟩
      · exact absurd hb (Nat.not_le_of_lt hlt)
      · rw [hnone] at hpv
        cases hpv
      · rw [hnone] at hpv
        cases hpv
      · rw [he]
    show ¬ Lossless hash nodeId config flushEnv newEnv (a.accept env slot ballot value).2
    rw [he]
    intro hloss
    have hreload := ((h.toRunning.record env slot ballot value).reload_eq hash nodeId hon
      flushEnv newEnv).2
    obtain ⟨_, hkept⟩ := hloss
    rw [hreload] at hkept
    by_cases hstarted : a.promises = []
    · -- no promise was ever saved: the reload stops at the empty current-state file
      obtain ⟨s, pv, hpv⟩ := h.record_nonempty hint hmax env slot ballot value
      have := hkept s pv hpv
      rw [if_pos (show (a.record env slot ballot value).promises = [] from hstarted)] at this
      cases this
    · -- the checkpoint leaves an uncovered slot in memory
      have htrig : a.storage.settings.Triggers slot := by
        by_contra hno
        exact hfail ⟨hstarted, fun htrig => absurd htrig hno⟩
      obtain ⟨s, hs, hlt, huncovered⟩ : ∃ s ∈ (a.inserted slot ballot value).keys,
          pruneThreshold config (a.accepted.lastKey?.elim slot (max slot)) < s ∧
            ¬ a.Covered (a.inserted slot ballot value) s := by
        by_contra hall
        refine hfail ⟨hstarted, fun _ s hs hlt => ?_⟩
        by_contra huncovered
        exact hall ⟨s, hs, h.runConfig ▸ hlt, huncovered⟩
      obtain ⟨hcontents, haccepted⟩ := (h.toRunning.record_eq env slot ballot value).1 htrig
      obtain ⟨pv, hpv⟩ := OrdMap.mem_keys.mp hs
      have hheld : (a.record env slot ballot value).accepted.get? s = some pv := by
        rw [haccepted, get?_prune hint hmax (a.lastKey?_inserted slot ballot value),
          if_pos hlt, hpv]
      have hread := hkept s pv hheld
      rw [if_neg (show (a.record env slot ballot value).promises ≠ [] from hstarted),
        StorageHelper.combine_eq, hcontents] at hread
      rcases OrdMap.get?_insertAll_cases hread with hempty | hread
      · cases hempty
      -- read back from a snapshot, it would be covered; the changelog is empty
      rcases StorageHelper.mem_replayed.mp hread with ⟨snap, hsnap, hsome⟩ | ⟨hlog, _⟩
      · have hcov := (StorageResource.exists_loaded_after_checkpoint _ (hstamp htrig)
          (fun snap => snap.accepted.contains s = true)).mp
          ⟨snap, hsnap, OrdMap.contains_iff.mpr ⟨pv, hsome⟩⟩
        exact huncovered (by
          rw [Covered, h.runConfig]
          exact hcov)
      · cases hlog

/-! ## Runs

The invariant over a run of recoverable calls, and the run up to the first call that is not. -/

/-- A run of recoverable calls from a new acceptor. -/
theorem recorded_run {hash : String → Nat} {env : Env} {nodeId : String} {config : RunConfig}
    (hon : config.persistentStorage = true) (hint : 1 ≤ config.storageSnapshotSlotInterval)
    (hmax : 1 ≤ config.storageMaxSnapshots) {calls : List (Env × Call)}
    (hstamp : Guarded Acceptor.call Stamped (new hash Directory.empty env nodeId config) calls)
    (hrec : Guarded Acceptor.call Recoverable (new hash Directory.empty env nodeId config) calls) :
    ∃ threshold, Recorded config threshold
      (run Acceptor.call (new hash Directory.empty env nodeId config) calls) := by
  induction calls using List.reverseRecOn with
  | nil => exact ⟨0, recorded_new hash env nodeId hon⟩
  | append_singleton calls c ih =>
      obtain ⟨hstamps, hstampc⟩ := guarded_snoc.mp hstamp
      obtain ⟨hrecs, hrecc⟩ := guarded_snoc.mp hrec
      obtain ⟨threshold, h⟩ := ih hstamps hrecs
      rw [run_snoc]
      exact h.call hint hmax hstampc hrecc

/-- **Recovery is lossless throughout a run exactly if every call of the run is recoverable.** -/
theorem recovery_lossless_iff (hash : String → Nat) (env flushEnv newEnv : Env) (nodeId : String)
    (config : RunConfig) (hon : config.persistentStorage = true)
    (hint : 1 ≤ config.storageSnapshotSlotInterval) (hmax : 1 ≤ config.storageMaxSnapshots)
    (calls : List (Env × Call))
    (hstamp : Guarded call Stamped (new hash Directory.empty env nodeId config) calls) :
    (∀ done, done <+: calls →
      (run call (new hash Directory.empty env nodeId config) done).Lossless hash nodeId config
        flushEnv newEnv) ↔
      Guarded call Recoverable (new hash Directory.empty env nodeId config) calls := by
  constructor
  · intro hall
    induction calls using List.reverseRecOn with
    | nil => trivial
    | append_singleton calls c ih =>
        obtain ⟨hstamps, hstampc⟩ := guarded_snoc.mp hstamp
        have hrecs := ih hstamps (fun done hdone => hall done (hdone.trans (List.prefix_append ..)))
        obtain ⟨threshold, h⟩ := recorded_run hon hint hmax hstamps hrecs
        refine guarded_snoc.mpr ⟨hrecs, ?_⟩
        by_contra hno
        refine h.not_lossless hint hmax hstampc hno hash nodeId hon flushEnv newEnv ?_
        have hend := hall (calls ++ [c]) (List.prefix_refl _)
        rw [run_snoc] at hend
        exact hend
  · rintro hrec done ⟨rest, rfl⟩
    obtain ⟨threshold, h⟩ := recorded_run hon hint hmax (guarded_append.mp hstamp).1
      (guarded_append.mp hrec).1
    exact h.lossless hash nodeId hon flushEnv newEnv

/-! ### Snapshots of one slot

With an interval of one slot, slots in order are kept and a skipped slot is lost. -/

/-- Snapshots of one slot, four of them in rotation. -/
def oneSlotSnapshots : RunConfig :=
  { RunConfig.shipped with storageSnapshotSlotInterval := 1, storageMaxSnapshots := 4 }

/-- A new acceptor under `oneSlotSnapshots`. -/
def archiver : Acceptor := new (fun _ => 0) Directory.empty Env.quiet "1" oneSlotSnapshots

/-- A promised `prepare`, then one `accept` per slot of `slots`, each a tick later. -/
def acceptsOf (slots : List Slot) : List (Env × Call) :=
  (Env.quiet, .prepare 1 1) :: slots.zipIdx.map (fun (slot, i) =>
    ({ Env.quiet with utc := i }, .accept slot 1 (setX "a")))

/-- Slots accepted in order are recovered. -/
theorem recovery_lossless_in_order :
    (run call archiver (acceptsOf [1, 2, 3])).Lossless (fun _ => 0) "1" oneSlotSnapshots
      Env.quiet Env.quiet :=
  (recovery_lossless_iff (fun _ => 0) Env.quiet Env.quiet Env.quiet "1" oneSlotSnapshots rfl
    (by decide) (by decide) (acceptsOf [1, 2, 3]) (by decide)).mpr (by decide) _ List.prefix_rfl

/-- **Recovery loses a slot accepted late**: slot 3 arrives after slot 5 has been archived, and the
checkpoint of slot 6 truncates the changelog that holds it. -/
theorem recovery_loses_skipped_slot :
    Guarded call Stamped archiver (acceptsOf [5, 3, 6]) ∧
      ¬ (run call archiver (acceptsOf [5, 3, 6])).Lossless (fun _ => 0) "1" oneSlotSnapshots
        Env.quiet Env.quiet := by
  refine ⟨by decide, fun ⟨_, hkept⟩ => ?_⟩
  have hgone : ((run call archiver (acceptsOf [5, 3, 6])).reload (fun _ => 0) "1" oneSlotSnapshots
      Env.quiet Env.quiet).accepted.get? 3 = none := by decide
  rw [hkept 3 { slot := 3, ballot := 1, value := some (setX "a") } (by decide)] at hgone
  cases hgone

end Acceptor

end PaxosWasm
