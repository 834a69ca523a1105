import PaxosWasm.Core.Acceptor
import PaxosWasm.Core.Learner
import PaxosWasm.Library.Run

/-!
# The calls the storage helpers make

Every operation of an acceptor or a learner makes some writing calls of its store, in an order that
depends on counters and times. Where none of them fails, they are all that happens to the store
(`store_step`), and the records that are still in the buffer are never more than the helper's
counter says, which stays below the flush count (`Paced`): a flush that goes with a snapshot leaves
the counter alone, so the counter can only be too high.

Both helpers decide over their changes in the same way: a counter of unflushed changes, a flush when it
or the clock says so, and a snapshot on trigger slots. This part is a `Pacer` here, with the calls it
makes and what they do to the buffer, and the helpers of the acceptor and of the learner are shown to
be one each. So an operation is a list of calls (`storeCalls`), and a run of operations is a run of calls.
-/

namespace PaxosWasm

open Library

/-- A writing call of a store. -/
inductive StoreCall (σ κ χ : Type) where
  | saveState (state : σ)
  | flushState
  | saveChange (change : χ)
  | flushChanges
  | checkpoint (state : κ) (timestamp : Nat)

variable {σ κ χ : Type}

namespace StoreCall

/-- The records since the last checkpoint, after one more call. -/
def savedAfter (changes : List χ) : StoreCall σ κ χ → List χ
  | .saveChange change => changes ++ [change]
  | .checkpoint _ _ => []
  | _ => changes

/-- The records saved since the last checkpoint, where the changelog was opened with `opened`. -/
def savedSince (opened : List χ) (log : List (StoreCall σ κ χ)) : List χ := log.foldl savedAfter opened

end StoreCall

namespace StorageResource

def perform (r : StorageResource σ κ χ) : StoreCall σ κ χ → StorageResource σ κ χ
  | .saveState state => (r.saveState state).2
  | .flushState => r.flushState.2
  | .saveChange change => (r.saveChange change).2
  | .flushChanges => r.flushChanges.2
  | .checkpoint state timestamp => (r.checkpoint state timestamp).2

variable {r : StorageResource σ κ χ}

theorem script_perform (h : r.dir.script = []) (call : StoreCall σ κ χ) :
    (r.perform call).dir.script = [] := by
  cases call with
  | saveState state => rw [perform, saveState, attempt_of_script_nil h, h]
  | flushState => rw [perform, flushState, attempt_of_script_nil h]; exact h
  | saveChange change => rw [perform, saveChange, attempt_of_script_nil h, h]
  | flushChanges => rw [perform, flushChanges, attempt_of_script_nil h]; exact h
  | checkpoint state timestamp => rw [perform, checkpoint, attempt_of_script_nil h]; exact h

/-- What a call does to the log, in the file or in the buffer. -/
theorem log_perform (h : r.dir.script = []) (call : StoreCall σ κ χ) :
    (r.perform call).contents.log = call.savedAfter r.contents.log := by
  cases call with
  | saveState state => rw [perform, saveState, attempt_of_script_nil h]; rfl
  | flushState => rw [perform, flushState, attempt_of_script_nil h]; rfl
  | saveChange change =>
      rw [perform, saveChange, attempt_of_script_nil h]
      exact (List.append_assoc ..).symm
  | flushChanges =>
      rw [perform, flushChanges, attempt_of_script_nil h, contents_flush]
      rfl
  | checkpoint state timestamp =>
      rw [perform, (contents_checkpoint h state timestamp).2]
      rfl

/-- **The log of a store holds the records saved since the last checkpoint.** -/
theorem log_run (h : r.dir.script = []) (log : List (StoreCall σ κ χ)) :
    (run perform r log).dir.script = [] ∧
      (run perform r log).contents.log = StoreCall.savedSince r.contents.log log := by
  induction log generalizing r with
  | nil => exact ⟨h, rfl⟩
  | cons call log ih =>
      obtain ⟨hscript, hlog⟩ := ih (r.script_perform h call)
      exact ⟨hscript, by rw [run_cons, hlog, log_perform h]; rfl⟩

/-! ## Fewer records in the buffer than the flush count

The counter of a helper counts the records in the buffer, and perhaps some that have been flushed in a
checkpoint. At the flush count it empties the buffer. -/

/-- **The buffer and the counter**: no call fails, the counter `pending` counts at least the records in
the buffer, and is below the flush count `c`. -/
structure Paced (c : Nat) (r : StorageResource σ κ χ) (pending : Nat) : Prop where
  script : r.dir.script = []
  buffered : r.writer.length ≤ pending
  pending : pending < c

namespace Paced

variable {c pending : Nat}

/-- One more record, counted. -/
theorem saveChange (h : Paced c r pending) (change : χ) (hlt : pending + 1 < c) :
    Paced c (r.perform (.saveChange change)) (pending + 1) where
  script := script_perform h.script _
  buffered := by
    rw [perform, StorageResource.saveChange, attempt_of_script_nil h.script]
    show (r.writer ++ [change]).length ≤ pending + 1
    rw [List.length_append]
    exact Nat.succ_le_succ h.buffered
  pending := hlt

/-- A flush, with the counter set to `0`. -/
theorem reset (h : r.dir.script = []) (hc : 0 < c) : Paced c (r.perform .flushChanges) 0 where
  script := script_perform h _
  buffered := by
    rw [perform, StorageResource.flushChanges, attempt_of_script_nil h]
    exact le_refl _
  pending := hc

/-- Every other call, with the counter as it is. -/
theorem perform (h : Paced c r pending) (call : StoreCall σ κ χ)
    (hcall : ∀ change, call ≠ .saveChange change) : Paced c (r.perform call) pending where
  script := script_perform h.script _
  buffered := by
    cases call with
    | saveState state =>
        rw [StorageResource.perform, saveState, attempt_of_script_nil h.script]
        exact h.buffered
    | flushState =>
        rw [StorageResource.perform, flushState, attempt_of_script_nil h.script]
        exact h.buffered
    | saveChange change => exact absurd rfl (hcall change)
    | flushChanges =>
        rw [StorageResource.perform, flushChanges, attempt_of_script_nil h.script]
        exact Nat.zero_le _
    | checkpoint state timestamp =>
        rw [StorageResource.perform, checkpoint, attempt_of_script_nil h.script]
        exact Nat.zero_le _
  pending := h.pending

end Paced

/-- A newly opened store. -/
theorem paced_new {c : Nat} (hc : 0 < c) {dir : Directory σ κ χ} (h : dir.script = [])
    (maxSnapshots : Nat) : Paced c (new dir maxSnapshots) 0 :=
  ⟨h, le_refl _, hc⟩

end StorageResource

/-! ## What the two storage helpers have in common

The helpers of the acceptor and of the learner save a change, flush the changes and take a snapshot in
the same way: `Pacer` is what they have in common, and both do to it what is done here. -/

/-- A counter of unflushed calls asks for a flush, by its value or by the time since the last one. -/
def flushDue (pending count elapsed interval : Nat) : Bool :=
  decide (pending ≠ 0 ∧ (pending ≥ count ∨ elapsed ≥ interval))

/-- The part of a storage helper that decides over the changes. -/
structure Pacer (σ κ χ : Type) where
  enabled : Bool
  runConfig : RunConfig
  store : StorageResource σ κ χ
  changePending : Nat

namespace Pacer

open StorageResource

variable (p : Pacer σ κ χ)

/-- The calls of `maybe_flush_changes`. -/
def flushCalls (elapsed : Nat) : List (StoreCall σ κ χ) :=
  if p.enabled && flushDue p.changePending p.runConfig.storageFlushChangeCount elapsed
      p.runConfig.storageFlushChangeIntervalMs then [.flushChanges]
  else []

/-- `maybe_flush_changes`. -/
def flushed (elapsed : Nat) : Pacer σ κ χ :=
  if p.enabled && flushDue p.changePending p.runConfig.storageFlushChangeCount elapsed
      p.runConfig.storageFlushChangeIntervalMs then
    { p with store := p.store.perform .flushChanges, changePending := 0 }
  else p

/-- The change is in the buffer, and counted. -/
def buffered (change : χ) : Pacer σ κ χ :=
  { p with store := p.store.perform (.saveChange change), changePending := p.changePending + 1 }

/-- The calls of `save_change`. -/
def saveCalls (change : χ) (elapsed : Nat) : List (StoreCall σ κ χ) :=
  if p.enabled then .saveChange change :: (p.buffered change).flushCalls elapsed else []

/-- `save_change`. -/
def saved (change : χ) (elapsed : Nat) : Pacer σ κ χ :=
  if p.enabled then (p.buffered change).flushed elapsed else p

/-- `slot ≡ offset (mod interval)`, past the last snapshot. -/
def Triggers (slot offset last : Slot) : Prop :=
  p.enabled = true ∧ p.runConfig.storageSnapshotSlotInterval ≠ 0 ∧
    slot % p.runConfig.storageSnapshotSlotInterval = offset ∧ slot > last

instance (slot offset last : Slot) : Decidable (p.Triggers slot offset last) :=
  inferInstanceAs (Decidable (_ ∧ _ ∧ _ ∧ _))

/-- The calls of `maybe_snapshot`. -/
def snapshotCalls (slot offset last : Slot) (state : κ) (timestamp : Nat) :
    List (StoreCall σ κ χ) :=
  if p.Triggers slot offset last then [.flushChanges, .checkpoint state timestamp] else []

/-- `maybe_snapshot`: its flush leaves the counter alone. -/
def snapshotted (slot offset last : Slot) (state : κ) (timestamp : Nat) : Pacer σ κ χ :=
  if p.Triggers slot offset last then
    { p with store := (p.store.perform .flushChanges).perform (.checkpoint state timestamp) }
  else p

/-- A helper that is on, under `config`, with its buffer and its counter in step. -/
structure Paced (config : RunConfig) (p : Pacer σ κ χ) : Prop where
  enabled : p.enabled = true
  runConfig : p.runConfig = config
  store : p.store.Paced config.storageFlushChangeCount p.changePending

/-- With the calls `calls` of its store, the helper comes from `p` to `p'`, and is still in step. -/
structure Performs (config : RunConfig) (p p' : Pacer σ κ χ) (calls : List (StoreCall σ κ χ)) :
    Prop where
  paced : p'.Paced config
  store : p'.store = run perform p.store calls

variable {p} {config : RunConfig}

theorem Performs.refl (h : p.Paced config) : Performs config p p [] := ⟨h, rfl⟩

theorem Performs.trans {p' p'' : Pacer σ κ χ} {calls calls' : List (StoreCall σ κ χ)}
    (hf : Performs config p p' calls) (hg : Performs config p' p'' calls') :
    Performs config p p'' (calls ++ calls') :=
  ⟨hg.paced, by rw [hg.store, hf.store, run_append]⟩

/-- A call that saves no change leaves the counter alone. -/
theorem Paced.performs (h : p.Paced config) (call : StoreCall σ κ χ)
    (hcall : ∀ change, call ≠ .saveChange change) :
    Performs config p { p with store := p.store.perform call } [call] :=
  ⟨⟨h.enabled, h.runConfig, h.store.perform call hcall⟩, rfl⟩

/-! ### A change at a time

A change goes to the buffer and is counted. So the counter is never below what the buffer holds. -/

/-- A counter that stays is below the flush count, one that does not is set to `0`. -/
theorem performs_flushed (hc : 1 ≤ config.storageFlushChangeCount) (hon : p.enabled = true)
    (hconfig : p.runConfig = config) (hok : p.store.dir.script = [])
    (hbuffered : p.store.writer.length ≤ p.changePending) (elapsed : Nat) :
    Performs config p (p.flushed elapsed) (p.flushCalls elapsed) := by
  unfold flushed flushCalls
  split
  · exact ⟨⟨hon, hconfig, .reset hok hc⟩, rfl⟩
  · next hdue =>
    refine ⟨⟨hon, hconfig, hok, hbuffered, ?_⟩, rfl⟩
    rw [hon, Bool.true_and, flushDue, decide_eq_true_iff, hconfig] at hdue
    by_cases hzero : p.changePending = 0
    · rw [hzero]
      exact hc
    · exact Nat.lt_of_not_le fun hle => hdue ⟨hzero, Or.inl hle⟩

theorem performs_saved (hc : 1 ≤ config.storageFlushChangeCount) (h : p.Paced config) (change : χ)
    (elapsed : Nat) : Performs config p (p.saved change elapsed) (p.saveCalls change elapsed) := by
  have hwriter : (p.buffered change).store.writer = p.store.writer ++ [change] := by
    rw [buffered, perform, saveChange, attempt_of_script_nil h.store.script]
  have hflush := performs_flushed (p := p.buffered change) hc h.enabled h.runConfig
    (script_perform h.store.script _) (by
      rw [hwriter, List.length_append]
      exact Nat.succ_le_succ h.store.buffered) elapsed
  rw [saved, saveCalls, if_pos h.enabled, if_pos h.enabled]
  exact ⟨hflush.paced, hflush.store⟩

theorem performs_snapshotted (h : p.Paced config) (slot offset last : Slot) (state : κ)
    (timestamp : Nat) : Performs config p (p.snapshotted slot offset last state timestamp)
      (p.snapshotCalls slot offset last state timestamp) := by
  unfold snapshotted snapshotCalls
  split
  · have hflush := h.performs .flushChanges (by simp)
    exact hflush.trans (hflush.paced.performs (.checkpoint state timestamp) (by simp))
  · exact .refl h

end Pacer

/-! ## The acceptor

Its helper saves changes and snapshots by the common rule, and the current state by another. -/

namespace Acceptor

abbrev AcceptorStoreCall := StoreCall PersistentCurrentState PersistentSnapshotState PValue

namespace StorageHelper

variable (h : StorageHelper) (env : Env)

def pacer : Pacer PersistentCurrentState PersistentSnapshotState PValue :=
  ⟨h.enabled, h.runConfig, h.store, h.changePending⟩

def maybeFlushCurrentStateCalls : List AcceptorStoreCall :=
  if h.enabled && flushDue h.statePending h.runConfig.storageFlushStateCount
      (env.now - h.stateLastFlush) h.runConfig.storageFlushStateIntervalMs then [.flushState] else []

def saveCurrentStateCalls (promises : List Ballot) : List AcceptorStoreCall :=
  if h.enabled then
    .saveState ⟨promises⟩ ::
      maybeFlushCurrentStateCalls { h with statePending := h.statePending + 1 } env
  else []

def maybeFlushChangesCalls : List AcceptorStoreCall :=
  h.pacer.flushCalls (env.now - h.changeLastFlush)

def saveChangeCalls (pv : PValue) : List AcceptorStoreCall :=
  h.pacer.saveCalls pv (env.now - h.changeLastFlush)

def maybeSnapshotCalls (slot : Slot) (accepted : OrdMap Slot PValue) : List AcceptorStoreCall :=
  h.pacer.snapshotCalls slot h.snapshotSlotOffset h.lastSnapshotSlot
    ⟨accepted.takeLast (asUsize h.runConfig.storageSnapshotSlotInterval)⟩ env.utc

variable {h}

/-- Flushing the state changes nothing in a store without failures. -/
theorem maybeFlushCurrentState_spec (hok : h.store.dir.script = []) :
    (h.maybeFlushCurrentState env).1 = .ok () ∧ (h.maybeFlushCurrentState env).2.pacer = h.pacer := by
  unfold maybeFlushCurrentState flushCurrentState
  simp only [StorageResource.flushState, StorageResource.attempt_of_script_nil hok]
  cases hon : h.enabled with
  | false => simp [pacer, hon]
  | true =>
      by_cases hzero : h.statePending = 0
      · simp [pacer, hon, hzero]
      · by_cases hdue : h.statePending ≥ h.runConfig.storageFlushStateCount ∨
            env.now - h.stateLastFlush ≥ h.runConfig.storageFlushStateIntervalMs
        · simp [pacer, hon, hzero, hdue]
        · simp [pacer, hon, hzero, hdue]

theorem performs_maybeFlushCurrentState {config : RunConfig} (hp : h.pacer.Paced config) :
    Pacer.Performs config h.pacer (h.maybeFlushCurrentState env).2.pacer
      (h.maybeFlushCurrentStateCalls env) := by
  rw [(maybeFlushCurrentState_spec env hp.store.script).2]
  unfold maybeFlushCurrentStateCalls
  split
  · refine ⟨hp, ?_⟩
    rw [run_cons, run_nil, StorageResource.perform, StorageResource.flushState,
      StorageResource.attempt_of_script_nil hp.store.script]
    rfl
  · exact .refl hp

theorem performs_saveCurrentState {config : RunConfig} (hp : h.pacer.Paced config)
    (promises : List Ballot) :
    Pacer.Performs config h.pacer (h.saveCurrentState env promises).2.pacer
      (h.saveCurrentStateCalls env promises) := by
  have hsave := hp.performs (.saveState ⟨promises⟩) (by simp)
  have hon : h.enabled = true := hp.enabled
  have hok : h.store.dir.script = [] := hp.store.script
  unfold saveCurrentState saveCurrentStateCalls
  rw [if_neg (by simp [hon]), if_pos hon, StorageResource.saveState,
    StorageResource.attempt_of_script_nil hok]
  rw [show h.pacer.store = h.store from rfl, StorageResource.perform, StorageResource.saveState,
    StorageResource.attempt_of_script_nil hok] at hsave
  exact hsave.trans (performs_maybeFlushCurrentState (h :=
    { h with
      store := { h.store with dir := { h.store.dir with state := some ⟨promises⟩ } }
      statePending := h.statePending + 1 }) env hsave.paced)

theorem pacer_maybeFlushChanges (hok : h.store.dir.script = []) :
    (h.maybeFlushChanges env).2.pacer = h.pacer.flushed (env.now - h.changeLastFlush) := by
  unfold maybeFlushChanges flushChanges Pacer.flushed flushDue
  simp only [StorageResource.flushChanges, StorageResource.attempt_of_script_nil hok]
  cases hon : h.enabled with
  | false => simp [pacer, hon]
  | true =>
      by_cases hzero : h.changePending = 0
      · simp [pacer, hon, hzero]
      · by_cases hdue : h.changePending ≥ h.runConfig.storageFlushChangeCount ∨
            env.now - h.changeLastFlush ≥ h.runConfig.storageFlushChangeIntervalMs
        · simp [pacer, hon, hzero, hdue, StorageResource.perform, StorageResource.flushChanges, hok]
        · simp [pacer, hon, hzero, hdue]

theorem pacer_saveChange (hok : h.store.dir.script = []) (pv : PValue) :
    (h.saveChange env pv).2.pacer = h.pacer.saved pv (env.now - h.changeLastFlush) := by
  have hbuffer : h.store.perform (.saveChange pv) =
      { h.store with writer := h.store.writer ++ [pv] } := by
    rw [StorageResource.perform, StorageResource.saveChange,
      StorageResource.attempt_of_script_nil hok]
  unfold saveChange
  rw [StorageResource.saveChange, StorageResource.attempt_of_script_nil hok, Pacer.saved]
  by_cases hon : h.enabled = true
  · rw [if_neg (by simp [hon]), if_pos (show h.pacer.enabled = true from hon), Pacer.buffered,
      show h.pacer.store = h.store from rfl, hbuffer]
    exact pacer_maybeFlushChanges env hok
  · rw [if_pos (by simp [hon]), if_neg (show ¬ h.pacer.enabled = true from hon)]

theorem pacer_maybeSnapshot (hok : h.store.dir.script = []) (slot : Slot)
    (accepted : OrdMap Slot PValue) :
    (h.maybeSnapshot env slot accepted).2.1.pacer =
      h.pacer.snapshotted slot h.snapshotSlotOffset h.lastSnapshotSlot
        ⟨accepted.takeLast (asUsize h.runConfig.storageSnapshotSlotInterval)⟩ env.utc := by
  have hflush : h.store.perform .flushChanges = h.store.flush := by
    rw [StorageResource.perform, StorageResource.flushChanges,
      StorageResource.attempt_of_script_nil hok]
  have hcheck : ∀ state timestamp, h.store.flush.perform (.checkpoint state timestamp) =
      (h.store.flush.checkpoint state timestamp).2 := fun _ _ => rfl
  rw [Pacer.snapshotted, show h.pacer.store = h.store from rfl, hflush, hcheck]
  unfold maybeSnapshot flushChanges checkpointSnapshot
  by_cases hoff : h.enabled = true ∧ h.runConfig.storageSnapshotSlotInterval ≠ 0
  · obtain ⟨hon, hint⟩ := hoff
    rw [if_neg (by simp [hon, hint])]
    by_cases htrig : slot % h.runConfig.storageSnapshotSlotInterval = h.snapshotSlotOffset ∧
        slot > h.lastSnapshotSlot
    · rw [if_pos htrig, if_pos (show h.pacer.Triggers _ _ _ from ⟨hon, hint, htrig⟩),
        if_neg (by simp [hon]), StorageResource.flushChanges,
        StorageResource.attempt_of_script_nil hok]
      dsimp only
      rw [if_neg (by simp [hon]), StorageResource.checkpoint,
        StorageResource.attempt_of_script_nil (r := h.store.flush) hok]
      rfl
    · rw [if_neg htrig, if_neg (fun hall : h.pacer.Triggers _ _ _ => htrig hall.2.2)]
  · rw [if_pos (by simp only [Bool.not_eq_true', ← Bool.not_eq_true]; tauto),
      if_neg (fun hall : h.pacer.Triggers _ _ _ => hoff ⟨hall.1, hall.2.1⟩)]

end StorageHelper

/-! ### Its operations -/

/-- The operations of an acceptor that change it; the others read. -/
inductive Request where
  | prepare (slot : Slot) (ballot : Ballot)
  | accept (slot : Slot) (ballot : Ballot) (value : Value)
  | loadState
  | maybeFlush

def serve (a : Acceptor) (e : Env × Request) : Acceptor :=
  match e.2 with
  | .prepare slot ballot => (a.prepare e.1 slot ballot).2
  | .accept slot ballot value => (a.accept e.1 slot ballot value).2
  | .loadState => a.loadState.2
  | .maybeFlush => (a.maybeFlush e.1).2

/-- The calls of the store that an operation makes. -/
def storeCalls (a : Acceptor) (e : Env × Request) : List AcceptorStoreCall :=
  match e.2 with
  | .prepare _ ballot =>
      if a.highestPromisedBallot < ballot then
        a.storage.saveCurrentStateCalls e.1 (a.promises ++ [ballot])
      else []
  | .accept slot ballot value =>
      let pValue : PValue := { slot, ballot, value := some value }
      if ballot < a.highestPromisedBallot ∨ a.accepted.contains slot then []
      else
        a.storage.saveChangeCalls e.1 pValue ++
          (a.storage.saveChange e.1 pValue).2.maybeSnapshotCalls e.1 slot
            (a.accepted.insert slot pValue)
  | .loadState => []
  | .maybeFlush =>
      a.storage.maybeFlushCurrentStateCalls e.1 ++
        (a.storage.maybeFlushCurrentState e.1).2.maybeFlushChangesCalls e.1

section Operations

variable {config : RunConfig} {a : Acceptor}

theorem performs_accept (hc : 1 ≤ config.storageFlushChangeCount)
    (hp : a.storage.pacer.Paced config) (env : Env) (slot : Slot) (ballot : Ballot) (value : Value) :
    Pacer.Performs config a.storage.pacer (a.accept env slot ballot value).2.storage.pacer
      (a.storeCalls (env, .accept slot ballot value)) := by
  unfold accept storeCalls
  dsimp only
  split
  · next hlt =>
    rw [if_pos (Or.inl hlt)]
    exact .refl hp
  · next hge =>
    cases hget : a.accepted.get? slot with
    | some existing =>
        rw [if_pos (Or.inr (OrdMap.contains_iff.mpr ⟨existing, hget⟩))]
        dsimp only
        split
        · exact .refl hp
        · split
          · exact .refl hp
          · exact .refl hp
    | none =>
        rw [if_neg (by simp [hge, OrdMap.contains, hget])]
        have hsave := Pacer.performs_saved hc hp { slot, ballot, value := some value }
          (env.now - a.storage.changeLastFlush)
        rw [← StorageHelper.pacer_saveChange env hp.store.script] at hsave
        refine hsave.trans ?_
        dsimp only
        rw [StorageHelper.pacer_maybeSnapshot env hsave.paced.store.script]
        exact Pacer.performs_snapshotted hsave.paced ..

theorem performs_maybeFlush (hc : 1 ≤ config.storageFlushChangeCount)
    (hp : a.storage.pacer.Paced config) (env : Env) :
    Pacer.Performs config a.storage.pacer (a.maybeFlush env).2.storage.pacer
      (a.storeCalls (env, .maybeFlush)) := by
  obtain ⟨hok, _⟩ := StorageHelper.maybeFlushCurrentState_spec env hp.store.script
  have hstate := StorageHelper.performs_maybeFlushCurrentState env hp
  unfold maybeFlush storeCalls
  refine hstate.trans ?_
  generalize a.storage.maybeFlushCurrentState env = flushed at hok hstate ⊢
  obtain ⟨res, storage⟩ := flushed
  obtain rfl : res = .ok () := hok
  dsimp only at hstate ⊢
  rw [StorageHelper.pacer_maybeFlushChanges env hstate.paced.store.script]
  exact Pacer.performs_flushed hc hstate.paced.enabled hstate.paced.runConfig
    hstate.paced.store.script hstate.paced.store.buffered _

/-- **An operation makes these calls**, and keeps the buffer and the counter in step. -/
theorem performs_serve (hc : 1 ≤ config.storageFlushChangeCount)
    (hp : a.storage.pacer.Paced config) (e : Env × Request) :
    Pacer.Performs config a.storage.pacer (a.serve e).storage.pacer (a.storeCalls e) := by
  obtain ⟨env, ⟨slot, ballot⟩ | ⟨slot, ballot, value⟩ | _ | _⟩ := e
  case prepare =>
    show Pacer.Performs config a.storage.pacer (a.prepare env slot ballot).2.storage.pacer
      (if a.highestPromisedBallot < ballot then _ else _)
    unfold prepare
    dsimp only
    split
    · next hlt =>
      rw [if_neg (Nat.lt_asymm hlt)]
      exact .refl hp
    · split
      · exact StorageHelper.performs_saveCurrentState env hp _
      · exact .refl hp
  case accept => exact performs_accept hc hp env slot ballot value
  case loadState => exact .refl hp
  case maybeFlush => exact performs_maybeFlush hc hp env

/-- What the operations of a run make, in order. -/
def storeLog (a : Acceptor) (es : List (Env × Request)) : List AcceptorStoreCall :=
  collect serve storeCalls a es

theorem performs_run (hc : 1 ≤ config.storageFlushChangeCount) (hp : a.storage.pacer.Paced config)
    (es : List (Env × Request)) :
    Pacer.Performs config a.storage.pacer (run serve a es).storage.pacer (a.storeLog es) := by
  induction es using List.reverseRecOn with
  | nil => exact .refl hp
  | append_singleton es e ih =>
      rw [run_snoc, storeLog, collect_snoc]
      exact ih.trans (performs_serve hc ih.paced e)

end Operations

end Acceptor

/-! ## The learner

Its helper has no current state. -/

namespace Learner

abbrev LearnerStoreCall := StoreCall Unit PersistentSnapshotState LearnedEntry

namespace StorageHelper

variable (h : StorageHelper) (env : Env)

def pacer : Pacer Unit PersistentSnapshotState LearnedEntry :=
  ⟨h.enabled, h.runConfig, h.store, h.changePending⟩

def maybeFlushChangesCalls : List LearnerStoreCall :=
  h.pacer.flushCalls (env.now - h.changeLastFlush)

def saveChangeCalls (entry : LearnedEntry) : List LearnerStoreCall :=
  h.pacer.saveCalls entry (env.now - h.changeLastFlush)

def maybeSnapshotCalls (newAdu : Slot) (learned : OrdMap Slot Value) : List LearnerStoreCall :=
  h.pacer.snapshotCalls newAdu h.snapshotSlotOffset h.lastSnapshotSlot
    ⟨newAdu, learned.takeLast (asUsize h.runConfig.storageSnapshotSlotInterval)⟩ env.utc

variable {h}

theorem pacer_maybeFlushChanges (hok : h.store.dir.script = []) :
    (h.maybeFlushChanges env).2.pacer = h.pacer.flushed (env.now - h.changeLastFlush) := by
  unfold maybeFlushChanges flushChanges Pacer.flushed flushDue
  simp only [StorageResource.flushChanges, StorageResource.attempt_of_script_nil hok]
  cases hon : h.enabled with
  | false => simp [pacer, hon]
  | true =>
      by_cases hzero : h.changePending = 0
      · simp [pacer, hon, hzero]
      · by_cases hdue : h.changePending ≥ h.runConfig.storageFlushChangeCount ∨
            env.now - h.changeLastFlush ≥ h.runConfig.storageFlushChangeIntervalMs
        · simp [pacer, hon, hzero, hdue, StorageResource.perform, StorageResource.flushChanges, hok]
        · simp [pacer, hon, hzero, hdue]

theorem pacer_saveChange (hok : h.store.dir.script = []) (entry : LearnedEntry) :
    (h.saveChange env entry).2.pacer = h.pacer.saved entry (env.now - h.changeLastFlush) := by
  have hbuffer : h.store.perform (.saveChange entry) =
      { h.store with writer := h.store.writer ++ [entry] } := by
    rw [StorageResource.perform, StorageResource.saveChange,
      StorageResource.attempt_of_script_nil hok]
  unfold saveChange
  rw [StorageResource.saveChange, StorageResource.attempt_of_script_nil hok, Pacer.saved]
  by_cases hon : h.enabled = true
  · rw [if_neg (by simp [hon]), if_pos (show h.pacer.enabled = true from hon), Pacer.buffered,
      show h.pacer.store = h.store from rfl, hbuffer]
    exact pacer_maybeFlushChanges env hok
  · rw [if_pos (by simp [hon]), if_neg (show ¬ h.pacer.enabled = true from hon)]

theorem pacer_maybeSnapshot (hok : h.store.dir.script = []) (newAdu : Slot)
    (learned : OrdMap Slot Value) :
    (h.maybeSnapshot env newAdu learned).2.1.pacer =
      h.pacer.snapshotted newAdu h.snapshotSlotOffset h.lastSnapshotSlot
        ⟨newAdu, learned.takeLast (asUsize h.runConfig.storageSnapshotSlotInterval)⟩ env.utc := by
  have hflush : h.store.perform .flushChanges = h.store.flush := by
    rw [StorageResource.perform, StorageResource.flushChanges,
      StorageResource.attempt_of_script_nil hok]
  have hcheck : ∀ state timestamp, h.store.flush.perform (.checkpoint state timestamp) =
      (h.store.flush.checkpoint state timestamp).2 := fun _ _ => rfl
  rw [Pacer.snapshotted, show h.pacer.store = h.store from rfl, hflush, hcheck]
  unfold maybeSnapshot flushChanges checkpointSnapshot
  by_cases hoff : h.enabled = true ∧ h.runConfig.storageSnapshotSlotInterval ≠ 0
  · obtain ⟨hon, hint⟩ := hoff
    rw [if_neg (by simp [hon, hint])]
    by_cases htrig : newAdu % h.runConfig.storageSnapshotSlotInterval = h.snapshotSlotOffset ∧
        newAdu > h.lastSnapshotSlot
    · rw [if_pos htrig, if_pos (show h.pacer.Triggers _ _ _ from ⟨hon, hint, htrig⟩),
        if_neg (by simp [hon]), StorageResource.flushChanges,
        StorageResource.attempt_of_script_nil hok]
      dsimp only
      rw [StorageResource.checkpoint,
        StorageResource.attempt_of_script_nil (r := h.store.flush) hok]
      rfl
    · rw [if_neg htrig, if_neg (fun hall : h.pacer.Triggers _ _ _ => htrig hall.2.2)]
  · rw [if_pos (by simp only [Bool.not_eq_true', ← Bool.not_eq_true]; tauto),
      if_neg (fun hall : h.pacer.Triggers _ _ _ => hoff ⟨hall.1, hall.2.1⟩)]

end StorageHelper

/-! ### Its operations -/

/-- The operations of a learner that change it; the others read. -/
inductive Request where
  | learn (slot : Slot) (value : Value)
  | handleLearn (learn : Learn) (sender : Node)
  | toBeExecuted
  | loadState
  | maybeFlush

def serve (l : Learner) (e : Env × Request) : Learner :=
  match e.2 with
  | .learn slot value => (l.learn e.1 slot value).2
  | .handleLearn learn sender => (l.handleLearn e.1 learn sender).2
  | .toBeExecuted => (l.toBeExecuted e.1).2
  | .loadState => l.loadState.2
  | .maybeFlush => (l.maybeFlush e.1).2

def learnCalls (l : Learner) (env : Env) (slot : Slot) (value : Value) : List LearnerStoreCall :=
  if l.learned.contains slot then [] else l.storage.saveChangeCalls env { slot, value }

/-- The calls of the store that an operation makes. -/
def storeCalls (l : Learner) (e : Env × Request) : List LearnerStoreCall :=
  match e.2 with
  | .learn slot value => l.learnCalls e.1 slot value
  | .handleLearn learn sender =>
      let votes := ((l.slotLearns.get? learn.slot).getD ∅).insert sender.nodeId learn
      let l := { l with slotLearns := l.slotLearns.insert learn.slot votes }
      (l.checkQuorum learn.slot).elim [] (l.learnCalls e.1 learn.slot)
  | .toBeExecuted =>
      let out := contiguousFrom l.learned l.learned.size (l.adu + 1)
      if out = [] then []
      else l.storage.maybeSnapshotCalls e.1 (l.adu + out.length) l.learned
  | .loadState => []
  | .maybeFlush => l.storage.maybeFlushChangesCalls e.1

section Operations

variable {config : RunConfig} {l : Learner}

theorem performs_learn (hc : 1 ≤ config.storageFlushChangeCount)
    (hp : l.storage.pacer.Paced config) (env : Env) (slot : Slot) (value : Value) :
    Pacer.Performs config l.storage.pacer (l.learn env slot value).2.storage.pacer
      (l.learnCalls env slot value) := by
  unfold learn learnCalls
  split
  · exact .refl hp
  · dsimp only
    rw [StorageHelper.pacer_saveChange env hp.store.script]
    exact Pacer.performs_saved hc hp ..

theorem performs_toBeExecuted (hp : l.storage.pacer.Paced config) (env : Env) :
    Pacer.Performs config l.storage.pacer (l.toBeExecuted env).2.storage.pacer
      (l.storeCalls (env, .toBeExecuted)) := by
  unfold toBeExecuted storeCalls
  dsimp only
  generalize contiguousFrom l.learned l.learned.size (l.adu + 1) = out
  cases out with
  | nil => exact .refl hp
  | cons entry out =>
      rw [if_neg (List.cons_ne_nil entry out)]
      dsimp only
      rw [StorageHelper.pacer_maybeSnapshot env hp.store.script]
      exact Pacer.performs_snapshotted hp ..

/-- **An operation makes these calls**, and keeps the buffer and the counter in step. -/
theorem performs_serve (hc : 1 ≤ config.storageFlushChangeCount)
    (hp : l.storage.pacer.Paced config) (e : Env × Request) :
    Pacer.Performs config l.storage.pacer (l.serve e).storage.pacer (l.storeCalls e) := by
  obtain ⟨env, ⟨slot, value⟩ | ⟨learn, sender⟩ | _ | _ | _⟩ := e
  case learn => exact performs_learn hc hp env slot value
  case handleLearn =>
    show Pacer.Performs config l.storage.pacer (l.handleLearn env learn sender).2.storage.pacer
      (Option.elim _ [] _)
    unfold handleLearn
    dsimp only
    split
    · next v hv =>
      rw [hv]
      exact performs_learn (l :=
        { l with
          slotLearns := l.slotLearns.insert learn.slot
            (((l.slotLearns.get? learn.slot).getD ∅).insert sender.nodeId learn) })
        hc hp env learn.slot v
    · next hv =>
      rw [hv]
      exact .refl hp
  case toBeExecuted => exact performs_toBeExecuted hp env
  case loadState => exact .refl hp
  case maybeFlush =>
    show Pacer.Performs config l.storage.pacer (l.storage.maybeFlushChanges env).2.pacer
      (l.storage.maybeFlushChangesCalls env)
    rw [StorageHelper.pacer_maybeFlushChanges env hp.store.script]
    exact Pacer.performs_flushed hc hp.enabled hp.runConfig hp.store.script hp.store.buffered _

/-- What the operations of a run make, in order. -/
def storeLog (l : Learner) (es : List (Env × Request)) : List LearnerStoreCall :=
  collect serve storeCalls l es

theorem performs_run (hc : 1 ≤ config.storageFlushChangeCount) (hp : l.storage.pacer.Paced config)
    (es : List (Env × Request)) :
    Pacer.Performs config l.storage.pacer (run serve l es).storage.pacer (l.storeLog es) := by
  induction es using List.reverseRecOn with
  | nil => exact .refl hp
  | append_singleton es e ih =>
      rw [run_snoc, storeLog, collect_snoc]
      exact ih.trans (performs_serve hc ih.paced e)

end Operations

end Learner

end PaxosWasm
