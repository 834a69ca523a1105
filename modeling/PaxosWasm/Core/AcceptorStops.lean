import PaxosWasm.Core.AcceptorRecovery
import PaxosWasm.Core.AcceptorRecords

/-!
# An acceptor that is stopped

A process can stop between any two of its file-system calls. `save_state` truncates the current-state
file before it writes it, and the file is there, empty, from the start; recovery reads the promises
first and gives up if they do not decode, so that an empty file takes the accepted values along.

What a stop leaves is what the calls made so far have left, with some of the buffered records behind it
and perhaps a part of the next (`Left`). An operation of an acceptor is a list of such calls, so a run
that stops is a run of whole operations and the first calls of one more. Whether the files are intact can
be read off them, and a fresh acceptor recovers what is in them exactly if they are.
-/

namespace PaxosWasm

open Library

/-! ## The file-system calls of the storage resource

An operation of the storage is made of calls of the file system, and a process can stop between any two
of them. -/

/-- What one file-system call does to the files. -/
abbrev FileCall (σ κ χ : Type) := Directory σ κ χ → Directory σ κ χ

/-- The files after some calls. -/
def Directory.after {σ κ χ : Type} (d : Directory σ κ χ) (calls : List (FileCall σ κ χ)) :
    Directory σ κ χ := calls.foldl (fun d act => act d) d

/-- What a stopped process leaves. -/
structure Files (σ κ χ : Type) where
  dir : Directory σ κ χ
  /-- The changelog ends inside a record, behind its length. -/
  torn : Bool

namespace StorageResource

variable {σ κ χ : Type}

/-- `save_state`: `seek`, `set_len(0)`, `write_all`. -/
def saveStateCalls (state : σ) : List (FileCall σ κ χ) :=
  [id, fun d => { d with state := none }, fun d => { d with state := some state }]

/-- `remove_file` of the oldest snapshot. -/
def removeOldest : FileCall σ κ χ :=
  fun d => { d with snapshots := d.snapshots.takeLast (d.snapshots.size - 1) }

/-- `checkpoint`: the temporary file is created, written, synced and renamed; the changelog is flushed
and truncated, rewound and synced; the oldest snapshots are removed. -/
def checkpointCalls (r : StorageResource σ κ χ) (state : κ) (timestamp : Nat) :
    List (FileCall σ κ χ) :=
  [id, id, id, fun d => { d with snapshots := d.snapshots.insert timestamp state },
    fun d => { d with changelog := d.changelog ++ r.writer }, fun d => { d with changelog := [] },
    id, id] ++
  List.replicate ((r.dir.snapshots.insert timestamp state).size - r.maxSnapshots) removeOldest

/-- **The process stops in the course of `calls`**: some of them have been made, and some of the buffered
records have reached the changelog before, the next one perhaps in part. -/
def Left (r : StorageResource σ κ χ) (calls : List (FileCall σ κ χ)) (f : Files σ κ χ) : Prop :=
  ∃ k done, done <+: calls ∧ (f.torn = true → k < r.writer.length) ∧
    f.dir = (r.stopped k).after done

/-! ### Together the calls do what the operation does -/

theorem saveState_eq {r : StorageResource σ κ χ} (h : r.dir.script = []) (state : σ) :
    (r.saveState state).2.dir = r.dir.after (saveStateCalls state) := by
  rw [saveState, attempt_of_script_nil h]
  rfl

theorem after_replicate_removeOldest (d : Directory σ κ χ) (n : Nat) :
    d.after (List.replicate n removeOldest) =
      { d with snapshots := d.snapshots.takeLast (d.snapshots.size - n) } := by
  induction n generalizing d with
  | zero => simp [Directory.after, OrdMap.takeLast_of_size_le]
  | succ n ih =>
      have hsize : (d.snapshots.takeLast (d.snapshots.size - 1)).size = d.snapshots.size - 1 := by
        simp only [OrdMap.size, OrdMap.takeLast, List.length_drop]
        omega
      show (removeOldest d).after (List.replicate n removeOldest) = _
      rw [ih]
      simp only [removeOldest, hsize, OrdMap.takeLast_takeLast]
      congr 2
      omega

theorem checkpoint_eq {r : StorageResource σ κ χ} (h : r.dir.script = []) (state : κ)
    (timestamp : Nat) :
    (r.checkpoint state timestamp).2.dir = r.dir.after (r.checkpointCalls state timestamp) := by
  rw [checkpoint, attempt_of_script_nil h, checkpointCalls, Directory.after, List.foldl_append]
  have hprune := after_replicate_removeOldest
    ({ r.dir with snapshots := r.dir.snapshots.insert timestamp state, changelog := [] } :
      Directory σ κ χ) ((r.dir.snapshots.insert timestamp state).size - r.maxSnapshots)
  refine Eq.trans ?_ hprune.symm
  simp only [flush, pruneSnapshots]
  congr 1
  rcases Nat.le_total (r.dir.snapshots.insert timestamp state).size r.maxSnapshots with hle | hge
  · rw [OrdMap.takeLast_of_size_le hle, Nat.sub_eq_zero_of_le hle, Nat.sub_zero,
      OrdMap.takeLast_of_size_le (le_refl _)]
  · rw [Nat.sub_sub_self hge]

/-! ### The current-state file of a stopped process

`save_state` truncates the file before it writes it. In between the file is empty. -/

theorem state_of_left {r : StorageResource σ κ χ} {calls : List (FileCall σ κ χ)} {f : Files σ κ χ}
    (h : r.Left calls f) (hcalls : ∀ act ∈ calls, ∀ d, (act d).state = d.state) :
    f.dir.state = r.dir.state := by
  obtain ⟨k, done, hdone, _, he⟩ := h
  have hstate : ∀ d : Directory σ κ χ, (d.after done).state = d.state := by
    have hkeep : ∀ act ∈ done, ∀ d : Directory σ κ χ, (act d).state = d.state :=
      fun act hact => hcalls act (hdone.subset hact)
    clear hdone he
    induction done with
    | nil => exact fun _ => rfl
    | cons act done ih =>
        intro d
        show ((act d).after done).state = d.state
        rw [ih (fun act' hact' => hkeep act' (List.mem_cons_of_mem _ hact')),
          hkeep act (List.mem_cons_self ..)]
  rw [he, hstate]
  rfl

theorem state_of_left_checkpoint {r : StorageResource σ κ χ} {state : κ} {timestamp : Nat}
    {f : Files σ κ χ} (h : r.Left (r.checkpointCalls state timestamp) f) :
    f.dir.state = r.dir.state := by
  apply state_of_left h
  intro act hact d
  simp only [checkpointCalls, List.mem_append, List.mem_cons, List.mem_replicate,
    List.not_mem_nil, or_false] at hact
  rcases hact with (rfl | rfl | rfl | rfl | rfl | rfl | rfl | rfl) | ⟨_, rfl⟩
  all_goals rfl

theorem state_of_left_saveState {r : StorageResource σ κ χ} {state : σ} {f : Files σ κ χ}
    (h : r.Left (saveStateCalls state) f) :
    f.dir.state = r.dir.state ∨ f.dir.state = none ∨ f.dir.state = some state := by
  obtain ⟨k, done, hdone, _, he⟩ := h
  rw [he]
  rw [saveStateCalls] at hdone
  -- one case for each number of calls that have been made
  rcases List.prefix_cons_iff.mp hdone with rfl | ⟨done₁, rfl, h₁⟩
  · exact Or.inl rfl
  rcases List.prefix_cons_iff.mp h₁ with rfl | ⟨done₂, rfl, h₂⟩
  · exact Or.inl rfl
  rcases List.prefix_cons_iff.mp h₂ with rfl | ⟨done₃, rfl, h₃⟩
  · exact Or.inr (Or.inl rfl)
  · rw [List.prefix_nil.mp h₃]
    exact Or.inr (Or.inr rfl)

end StorageResource

namespace Acceptor

/-! ## The runs of an acceptor

What a stopped acceptor leaves depends on the operation it was in, and on how far that had come. -/

/-- What an acceptor is asked to do. -/
inductive Op where
  | call (c : Call)
  | maybeFlush
deriving DecidableEq, Repr

def step (a : Acceptor) (e : Env × Op) : Acceptor :=
  match e.2 with
  | .call c => a.call (e.1, c)
  | .maybeFlush => (a.maybeFlush e.1).2

/-- A new acceptor over the files of `dir`, after `load_state`. -/
def started (hash : String → Nat) (dir : Dir) (env : Env) (nodeId : String) (config : RunConfig) :
    Acceptor :=
  (new hash dir env nodeId config).loadState.2

/-- **The process stops in the course of an operation** and leaves `f`. A prepare makes the calls of
`save_state`. An accept that records a value has added it to the changelog or not, and has got
anywhere in a checkpoint it triggers. -/
def Stopped (a : Acceptor) (e : Env × Op)
    (f : Files PersistentCurrentState PersistentSnapshotState PValue) : Prop :=
  match e.2 with
  | .call (.prepare _ ballot) =>
      a.storage.store.Left
        (if a.highestPromisedBallot < ballot then
          StorageResource.saveStateCalls ⟨a.promises ++ [ballot]⟩ else []) f
  | .call (.accept slot ballot value) =>
      let pValue : PValue := { slot, ballot, value := some value }
      let accepted := a.accepted.insert slot pValue
      let flushed := ((a.storage.saveChange e.1 pValue).2.flushChanges e.1).2.store
      a.storage.store.Left [] f ∨
        (a.highestPromisedBallot ≤ ballot ∧ a.accepted.get? slot = none ∧
          ((a.storage.store.saveChange pValue).2.Left [] f ∨
            (a.storage.settings.Triggers slot ∧
              flushed.Left (flushed.checkpointCalls
                ⟨accepted.takeLast (asUsize a.storage.runConfig.storageSnapshotSlotInterval)⟩
                e.1.utc) f)))
  | .maybeFlush => a.storage.store.Left [] f

/-- The files have `pv` for the slot `s`. -/
def Records (f : Files PersistentCurrentState PersistentSnapshotState PValue) (s : Slot)
    (pv : PValue) : Prop :=
  (∃ snap ∈ f.dir.snapshots.values, snap.accepted.get? s = some pv) ∨
    (pv ∈ f.dir.changelog ∧ pv.slot = s)

/-- What a fresh acceptor has after `load_state` over the files: its promises and its accepted values.
A changelog that ends inside a record cannot be read, which shows after the promises have been. -/
def recover (hash : String → Nat) (env : Env) (nodeId : String) (config : RunConfig)
    (f : Files PersistentCurrentState PersistentSnapshotState PValue) :
    List Ballot × OrdMap Slot PValue :=
  let a := started hash f.dir env nodeId config
  (a.promises, if f.torn then ∅ else a.accepted)

/-- **The recovery from `f`** gives the promises as they were before or after the operation, and every
accepted value in the files. -/
def Recovers (hash : String → Nat) (env : Env) (nodeId : String) (config : RunConfig) (a : Acceptor)
    (e : Env × Op) (f : Files PersistentCurrentState PersistentSnapshotState PValue) : Prop :=
  let recovered := recover hash env nodeId config f
  (recovered.1 = a.promises ∨ recovered.1 = (a.step e).promises) ∧
    ∀ s pv, Records f s pv → recovered.2.get? s = some pv

/-- **Files that can be recovered.** The current-state file is empty only as long as nothing has been
promised; where it is empty, or the changelog ends inside a record, no value is in the files; no slot
has two values in them; and every slot in them is in the changelog or in one of the snapshots that
are loaded. -/
structure Intact (config : RunConfig) (a : Acceptor)
    (f : Files PersistentCurrentState PersistentSnapshotState PValue) : Prop where
  promised : f.dir.state = none → a.promises = []
  readable : f.dir.state = none ∨ f.torn = true → ∀ s pv, ¬ Records f s pv
  single : ∀ s pv pv', Records f s pv → Records f s pv' → pv = pv'
  loaded : ∀ s pv, Records f s pv →
    (∃ snap ∈ (f.dir.snapshots.takeLast (asUsize config.storageLoadSnapshots)).values,
      snap.accepted.contains s) ∨ ∃ pv' ∈ f.dir.changelog, pv'.slot = s

/-! ## A running acceptor and its current-state file

The file has the promises in memory, or none has been written yet. -/

variable {config : RunConfig} {a : Acceptor}

/-- What a new acceptor reads back of a directory. -/
theorem started_eq (hash : String → Nat) (dir : Dir) (env : Env) (nodeId : String)
    (hon : config.persistentStorage = true) :
    (started hash dir env nodeId config).promises = dir.state.elim [] (·.promises) ∧
      (started hash dir env nodeId config).accepted =
        if dir.state = none then ∅
        else StorageHelper.combine
          (dir.snapshots.takeLast (asUsize config.storageLoadSnapshots)).values dir.changelog := by
  unfold started loadState
  rw [StorageHelper.loadAndCombineState, if_neg (by simp [new, StorageHelper.new, hon]),
    StorageHelper.loadCurrentState, if_neg (by simp [new, StorageHelper.new, hon])]
  simp only [new, StorageHelper.new, StorageResource.new, StorageResource.loadState]
  cases dir.state with
  | none => exact ⟨rfl, rfl⟩
  | some ps => exact ⟨rfl, rfl⟩

theorem running_started (hash : String → Nat) {dir : Dir} (env : Env) (nodeId : String)
    (hon : config.persistentStorage = true) (hscript : dir.script = [])
    (hstate : dir.state ≠ some ⟨[]⟩) : Running config (started hash dir env nodeId config) where
  enabled := hon
  runConfig := rfl
  maxSnapshots := rfl
  script := hscript
  promises := by
    rw [(started_eq hash dir env nodeId hon).1]
    show dir.state = _
    cases hdir : dir.state with
    | none => rfl
    | some ps =>
        have hne : ps.promises ≠ [] := by
          intro hnil
          apply hstate
          rw [hdir, ← hnil]
        show some ps = if ps.promises = [] then none else some ⟨ps.promises⟩
        rw [if_neg hne]

theorem Running.maybeFlush (h : Running config a) (env : Env) :
    Running config (a.maybeFlush env).2 := by
  have hset := a.storage.settings_maybeFlushCurrentState env
  have hstore := StorageHelper.store_maybeFlushCurrentState env h.enabled h.script
  unfold Acceptor.maybeFlush
  generalize a.storage.maybeFlushCurrentState env = flushed at hset hstore ⊢
  obtain ⟨res, s⟩ := flushed
  have hon : s.enabled = true := (congrArg StorageHelper.Settings.enabled hset).trans h.enabled
  have hscript : s.store.dir.script = [] := by
    rw [show s.store = a.storage.store from hstore]
    exact h.script
  have hcontents : s.store.contents = a.storage.store.contents := congrArg _ hstore
  have hset' := s.settings_maybeFlushChanges env
  have hcontents' := StorageHelper.contents_maybeFlushChanges env hon hscript
  -- the settings and the contents of the files, whichever of the two flushes has been made
  have hrunning : ∀ s' : StorageHelper, s'.settings = a.storage.settings →
      s'.store.contents = a.storage.store.contents → Running config { a with storage := s' } := by
    intro s' hs hc
    constructor
    case enabled => exact (congrArg StorageHelper.Settings.enabled hs).trans h.enabled
    case runConfig => exact (congrArg StorageHelper.Settings.runConfig hs).trans h.runConfig
    case maxSnapshots =>
      exact (congrArg StorageResource.Contents.maxSnapshots hc).trans h.maxSnapshots
    case script => exact (congrArg StorageResource.Contents.script hc).trans h.script
    case promises => exact (congrArg StorageResource.Contents.state hc).trans h.promises
  cases res with
  | error e => exact hrunning s hset hcontents
  | ok _ => exact hrunning _ (hset'.trans hset) (hcontents'.trans hcontents)

theorem Running.step (h : Running config a) (e : Env × Op) : Running config (a.step e) := by
  obtain ⟨env, op⟩ := e
  cases op with
  | maybeFlush => exact h.maybeFlush env
  | call c =>
      cases c with
      | prepare slot ballot => exact (h.prepare env slot ballot).1
      | accept slot ballot value =>
          show Running config (a.accept env slot ballot value).2
          rcases a.accept_cases env slot ballot value with ⟨_, he, _⟩ | ⟨_, _, _, _, he⟩ | ⟨_, _, he⟩
          · rw [he]
            exact h
          · rw [he]
            exact h
          · rw [he]
            exact h.record env slot ballot value

/-- **The current-state file of a stopped acceptor** is empty, or has the promises from before or after
the operation. -/
theorem Running.state_of_stopped (h : Running config a) {e : Env × Op}
    {f : Files PersistentCurrentState PersistentSnapshotState PValue} (hstop : a.Stopped e f) :
    f.dir.state = none ∨
      ∃ ps, f.dir.state = some ⟨ps⟩ ∧ (ps = a.promises ∨ ps = (a.step e).promises) := by
  -- the calls that leave the state file alone
  have hbefore : f.dir.state = a.storage.store.dir.state → f.dir.state = none ∨
      ∃ ps, f.dir.state = some ⟨ps⟩ ∧ (ps = a.promises ∨ ps = (a.step e).promises) := by
    intro hstate
    rw [hstate, show a.storage.store.dir.state = _ from h.promises]
    split
    · exact Or.inl rfl
    · exact Or.inr ⟨a.promises, rfl, Or.inl rfl⟩
  have hidle : ∀ r : Store, r.dir.state = a.storage.store.dir.state → r.Left [] f →
      f.dir.state = a.storage.store.dir.state :=
    fun r hr hleft => (StorageResource.state_of_left hleft (fun _ hact => by cases hact)).trans hr
  obtain ⟨env, op⟩ := e
  cases op with
  | maybeFlush => exact hbefore (hidle _ rfl hstop)
  | call c =>
      cases c with
      | prepare slot ballot =>
          replace hstop : a.storage.store.Left (if a.highestPromisedBallot < ballot then
            StorageResource.saveStateCalls ⟨a.promises ++ [ballot]⟩ else []) f := hstop
          split at hstop
          · next hlt =>
            -- truncated, or written; or the stop came before
            rcases StorageResource.state_of_left_saveState hstop with he | he | he
            · exact hbefore he
            · exact Or.inl he
            · refine Or.inr ⟨_, he, Or.inr ?_⟩
              show _ = (a.prepare env slot ballot).2.promises
              rw [promises_prepare, if_pos hlt]
          · exact hbefore (hidle _ rfl hstop)
      | accept slot ballot value =>
          rcases hstop with hleft | ⟨_, _, hleft | ⟨_, hleft⟩⟩
          · exact hbefore (hidle _ rfl hleft)
          · refine hbefore (hidle _ ?_ hleft)
            rw [StorageResource.saveChange, StorageResource.attempt_of_script_nil h.script]
          · refine hbefore ((StorageResource.state_of_left_checkpoint hleft).trans ?_)
            have hset := a.storage.settings_saveChange env { slot, ballot, value := some value }
            have hsave := StorageHelper.contents_saveChange env h.enabled h.script
              { slot, ballot, value := some value }
            have hflush := StorageHelper.store_flushChanges env
              ((congrArg StorageHelper.Settings.enabled hset).trans h.enabled)
              ((congrArg StorageResource.Contents.script hsave).trans h.script)
            rw [hflush.2]
            exact congrArg StorageResource.Contents.state hsave

/-- No operation forgets a promise, and none enters two. -/
theorem promises_step (a : Acceptor) (e : Env × Op) :
    (a.step e).promises = a.promises ∨ ∃ b, (a.step e).promises = a.promises ++ [b] := by
  obtain ⟨env, op⟩ := e
  cases op with
  | maybeFlush =>
      left
      show (a.maybeFlush env).2.promises = a.promises
      unfold Acceptor.maybeFlush
      split <;> rfl
  | call c =>
      cases c with
      | prepare slot ballot =>
          show (a.prepare env slot ballot).2.promises = a.promises ∨
            ∃ b, (a.prepare env slot ballot).2.promises = a.promises ++ [b]
          rw [promises_prepare]
          split
          · exact Or.inr ⟨ballot, rfl⟩
          · exact Or.inl rfl
      | accept slot ballot value =>
          left
          exact promises_accept a env slot ballot value

/-! ## What a recovery gives back

The promises are the ones before the operation or those behind it, and each accepted value is recovered
if the files record it. -/

/-- Files with one value a slot, each slot in a file that is read, are read back whole. -/
theorem get?_combine_iff {f : Files PersistentCurrentState PersistentSnapshotState PValue} :
    (∀ s pv, Records f s pv → (StorageHelper.combine
        (f.dir.snapshots.takeLast (asUsize config.storageLoadSnapshots)).values
        f.dir.changelog).get? s = some pv) ↔
      (∀ s pv pv', Records f s pv → Records f s pv' → pv = pv') ∧
        ∀ s pv, Records f s pv →
          (∃ snap ∈ (f.dir.snapshots.takeLast (asUsize config.storageLoadSnapshots)).values,
            snap.accepted.contains s) ∨ ∃ pv' ∈ f.dir.changelog, pv'.slot = s := by
  rw [StorageHelper.combine_eq]
  -- all that is read is in a file
  have hread : ∀ {s pv}, (s, pv) ∈ (f.dir.snapshots.takeLast
      (asUsize config.storageLoadSnapshots)).values.flatMap (fun s => s.accepted.entries)
        ++ f.dir.changelog.map (fun pv => (pv.slot, pv)) → Records f s pv := by
    intro s pv hmem
    rcases StorageHelper.mem_replayed.mp hmem with ⟨snap, hsnap, hpv⟩ | hlog
    · obtain ⟨timestamp, hts⟩ := OrdMap.mem_values.mp hsnap
      exact Or.inl ⟨snap, OrdMap.mem_values.mpr ⟨timestamp, OrdMap.get?_of_takeLast hts⟩, hpv⟩
    · exact Or.inr hlog
  constructor
  · intro h
    refine ⟨fun s pv pv' hpv hpv' => ?_, fun s pv hpv => ?_⟩
    · exact Option.some.inj ((h s pv hpv).symm.trans (h s pv' hpv'))
    · rcases OrdMap.get?_insertAll_cases (h s pv hpv) with hnone | hmem
      · cases hnone
      · rcases StorageHelper.mem_replayed.mp hmem with ⟨snap, hsnap, hpv⟩ | ⟨hlog, hslot⟩
        · exact Or.inl ⟨snap, hsnap, OrdMap.contains_iff.mpr ⟨pv, hpv⟩⟩
        · exact Or.inr ⟨pv, hlog, hslot⟩
  · rintro ⟨hsingle, hloaded⟩ s pv hpv
    -- if the files agree, the order in which they are read does not matter
    apply OrdMap.get?_insertAll_of_agree
    · intro w hw
      exact hsingle s w pv (hread hw) hpv
    · rcases hloaded s pv hpv with ⟨snap, hsnap, hcont⟩ | ⟨w, hw, hslot⟩
      · obtain ⟨w, hw⟩ := OrdMap.contains_iff.mp hcont
        have hmem := StorageHelper.mem_replayed.mpr
          (Or.inl (b := w ∈ f.dir.changelog ∧ w.slot = s) ⟨snap, hsnap, hw⟩)
        rw [hsingle s pv w hpv (hread hmem)]
        exact hmem
      · have hmem := StorageHelper.mem_replayed.mpr
          (Or.inr (a := ∃ snap ∈ (f.dir.snapshots.takeLast
            (asUsize config.storageLoadSnapshots)).values, snap.accepted.get? s = some w) ⟨hw, hslot⟩)
        rw [hsingle s pv w hpv (hread hmem)]
        exact hmem

/-- **Recovery of a stopped acceptor**: in every run, over whatever files it has started from, and at
whatever point of an operation the process stops, a fresh acceptor recovers the promises and every
accepted value in the files if and only if the files are intact. -/
theorem stopped_recovers_iff (hash : String → Nat) (dir : Dir) (env newEnv : Env) (nodeId : String)
    (config : RunConfig) (hon : config.persistentStorage = true) (hscript : dir.script = [])
    (hstate : dir.state ≠ some ⟨[]⟩) (es : List (Env × Op)) (e : Env × Op)
    (f : Files PersistentCurrentState PersistentSnapshotState PValue)
    (hstop : (run step (started hash dir env nodeId config) es).Stopped e f) :
    Recovers hash newEnv nodeId config (run step (started hash dir env nodeId config) es) e f ↔
      Intact config (run step (started hash dir env nodeId config) es) f := by
  have hrunning : Running config (run step (started hash dir env nodeId config) es) :=
    run_invariant (fun _ e h => h.step e) (running_started hash env nodeId hon hscript hstate) es
  generalize run step (started hash dir env nodeId config) es = a at hstop hrunning ⊢
  obtain ⟨hpromises, haccepted⟩ := started_eq hash f.dir newEnv nodeId hon
  have hempty : ∀ {s : Slot} {pv : PValue}, (∅ : OrdMap Slot PValue).get? s ≠ some pv := by
    intro s pv h
    cases h
  unfold Recovers recover
  simp only [hpromises, haccepted]
  rcases hrunning.state_of_stopped hstop with hnone | ⟨ps, hps, heq⟩
  · -- an empty file: no promises are read, and no values
    simp only [hnone, Option.elim, if_true, ite_self]
    constructor
    · rintro ⟨hprom, hvalues⟩
      have hno : ∀ s pv, ¬ Records f s pv := fun s pv hpv => hempty (hvalues s pv hpv)
      constructor
      case promised =>
        intro _
        rcases hprom with h | h
        · exact h.symm
        · -- no operation forgets a promise
          rcases promises_step a e with hk | ⟨b, hk⟩
          · rw [hk] at h
            exact h.symm
          · rw [hk] at h
            simp at h
      case readable => exact fun _ => hno
      case single => exact fun s pv pv' hpv => absurd hpv (hno s pv)
      case loaded => exact fun s pv hpv => absurd hpv (hno s pv)
    · intro h
      exact ⟨Or.inl (h.promised hnone).symm,
        fun s pv hpv => absurd hpv (h.readable (Or.inl hnone) s pv)⟩
  · have hsome : f.dir.state ≠ none := by
      rw [hps]
      exact Option.some_ne_none _
    simp only [hps, Option.elim, if_neg (Option.some_ne_none _)]
    cases htorn : f.torn with
    | true =>
        simp only [if_true]
        constructor
        · rintro ⟨_, hvalues⟩
          have hno : ∀ s pv, ¬ Records f s pv := fun s pv hpv => hempty (hvalues s pv hpv)
          exact ⟨fun hnone => absurd hnone hsome, fun _ => hno,
            fun s pv pv' hpv => absurd hpv (hno s pv), fun s pv hpv => absurd hpv (hno s pv)⟩
        · intro h
          exact ⟨heq, fun s pv hpv => absurd hpv (h.readable (Or.inr htorn) s pv)⟩
    | false =>
        simp only [Bool.false_eq_true, if_false]
        rw [get?_combine_iff]
        constructor
        · rintro ⟨_, hsingle, hloaded⟩
          refine ⟨fun hnone => absurd hnone hsome, fun h => ?_, hsingle, hloaded⟩
          rcases h with hnone | h
          · exact absurd hnone hsome
          · rw [htorn] at h
            cases h
        · intro h
          exact ⟨heq, h.single, h.loaded⟩

/-- A new acceptor under `config` that has promised ballot 5, on its way to promise ballot 6. -/
def promising (config : RunConfig) : Acceptor :=
  run step (started (fun _ => 0) Directory.empty .quiet "11" config) [(.quiet, .call (.prepare 1 5))]

/-- The files of a process that stops with nothing in its buffers. -/
def filesOf (d : Dir) : Files PersistentCurrentState PersistentSnapshotState PValue :=
  { dir := d, torn := false }

/-- A stop behind `write_all`. -/
theorem stopped_recovers_after_write :
    Recovers (fun _ => 0) .quiet "11" RunConfig.shipped (promising .shipped)
      (.quiet, .call (.prepare 1 6))
      (filesOf ((promising .shipped).storage.store.dir.after
        (StorageResource.saveStateCalls ⟨[5, 6]⟩))) := by
  refine (stopped_recovers_iff (fun _ => 0) Directory.empty .quiet .quiet "11" .shipped rfl rfl
    (by decide) [(.quiet, .call (.prepare 1 5))] (.quiet, .call (.prepare 1 6)) _ ?_).mpr ?_
  · exact ⟨0, _, List.prefix_refl _, fun h => (by cases h), rfl⟩
  · have hno : ∀ s pv, ¬ Records (filesOf ((promising .shipped).storage.store.dir.after
        (StorageResource.saveStateCalls ⟨[5, 6]⟩))) s pv := by
      rintro s pv (⟨snap, hsnap, _⟩ | ⟨hlog, _⟩)
      · cases hsnap
      · cases hlog
    constructor
    case promised => exact fun h => (by cases h)
    case readable => exact fun _ => hno
    case single => exact fun s pv pv' hpv => absurd hpv (hno s pv)
    case loaded => exact fun s pv hpv => absurd hpv (hno s pv)

/-- **A stop in the course of `save_state`**: the current-state file has been truncated and not yet
written, and the promise of ballot 5 is lost. -/
theorem promise_lost_before_write :
    let f := filesOf ((promising .shipped).storage.store.dir.after
      ((StorageResource.saveStateCalls ⟨[5, 6]⟩).take 2))
    (promising .shipped).Stopped (.quiet, .call (.prepare 1 6)) f ∧
      ¬ Recovers (fun _ => 0) .quiet "11" RunConfig.shipped (promising .shipped)
        (.quiet, .call (.prepare 1 6)) f := by
  intro f
  constructor
  · exact ⟨0, _, List.take_prefix 2 _, fun h => (by cases h), rfl⟩
  · rintro ⟨hpromises, _⟩
    revert hpromises
    decide

end Acceptor

end PaxosWasm
