import PaxosWasm.Agents.LearnerAgent
import PaxosWasm.Core.RecoveryCursor

/-!
# Runs of the learner agent

The key-value store is built by execution alone, while a restart restores the learned values and
the cursor from the files. As long as the agent lives, the store is the replay of the commands up to
the cursor. A restart puts an empty store behind a cursor that may be far ahead, and nothing is
executed again below it. So the store matches the log throughout a run exactly if the commands below
every restored cursor leave nothing in the store.

A lifetime goes on through restarts and remembers what has been recorded in any of them. `Consistent` is
what every event but a restart keeps: execution moves the cursor and the store together
(`Consistent.executeChosenLearns`), and nothing else moves either. A restart replaces the agent by one
with an empty store and the cursor of the files (`matchesLog_restart`), and that is where the run
theorem gets its condition from.
-/

namespace PaxosWasm

open Library

namespace Learner

/-! ## What the files hold

Everything in the files has been recorded, and so has everything a start reads back. -/

variable {K K' : LearnedEntry → Prop}

/-- Every entry of the map is known. -/
def MapIn (K : LearnedEntry → Prop) (learned : OrdMap Slot Value) : Prop :=
  ∀ slot value, learned.get? slot = some value → K { slot, value }

/-- Every entry in the files is known. -/
abbrev FilesIn (K : LearnedEntry → Prop) (store : Store) : Prop :=
  store.All (fun snap => MapIn K snap.learned) K

/-- Every entry the learner holds, in memory or in its files, is known. -/
def KnownIn (K : LearnedEntry → Prop) (l : Learner) : Prop :=
  FilesIn K l.storage.store ∧ MapIn K l.learned

theorem FilesIn.mono (h : ∀ e, K e → K' e) {store : Store} (hf : FilesIn K store) :
    FilesIn K' store :=
  StorageResource.All.mono (fun _ hsnap slot value hv => h _ (hsnap slot value hv)) h hf

theorem KnownIn.mono (h : ∀ e, K e → K' e) {l : Learner} (hk : l.KnownIn K) : l.KnownIn K' :=
  ⟨FilesIn.mono h hk.1, fun slot value hv => h _ (hk.2 slot value hv)⟩

namespace StorageHelper

variable {h : StorageHelper} (env : Env)

theorem filesIn_flushChanges (hf : FilesIn K h.store) : FilesIn K (h.flushChanges env).2.store := by
  have hflush := hf.flushChanges
  unfold flushChanges
  split
  · exact hf
  · split
    · next he =>
      rw [he] at hflush
      exact hflush
    · next he =>
      rw [he] at hflush
      exact hflush

theorem filesIn_maybeFlushChanges (hf : FilesIn K h.store) :
    FilesIn K (h.maybeFlushChanges env).2.store := by
  have hflush := filesIn_flushChanges env hf
  unfold maybeFlushChanges
  split
  · exact hf
  · split
    · exact hf
    · split
      · split
        · next he =>
          rw [he] at hflush
          exact hflush
        · next he =>
          rw [he] at hflush
          exact hflush
      · exact hf

theorem filesIn_saveChange (hf : FilesIn K h.store) {entry : LearnedEntry} (hentry : K entry) :
    FilesIn K (h.saveChange env entry).2.store := by
  have hsave := hf.saveChange hentry
  unfold saveChange
  split
  · exact hf
  · split
    · next he =>
      rw [he] at hsave
      exact hsave
    · next he =>
      rw [he] at hsave
      exact filesIn_maybeFlushChanges env hsave

/-- A snapshot keeps the files, and takes nothing into the memory. -/
theorem maybeSnapshot_spec (hf : FilesIn K h.store) {learned : OrdMap Slot Value}
    (hl : MapIn K learned) (newAdu : Slot) :
    FilesIn K (h.maybeSnapshot env newAdu learned).2.1.store ∧
      ∀ slot value, (h.maybeSnapshot env newAdu learned).2.2.get? slot = some value →
        learned.get? slot = some value := by
  have hflush := filesIn_flushChanges env hf
  unfold maybeSnapshot
  split
  · exact ⟨hf, fun _ _ hv => hv⟩
  · split
    · split
      · next he =>
        rw [he] at hflush
        exact ⟨hflush, fun _ _ hv => hv⟩
      · next h₁ he =>
        rw [he] at hflush
        -- the snapshot takes the greatest entries, which were known before
        have htrimmed : MapIn K (learned.takeLast
            (asUsize h₁.runConfig.storageSnapshotSlotInterval)) :=
          fun slot value hv => hl slot value (OrdMap.get?_of_takeLast hv)
        have hcheck : FilesIn K (h₁.store.checkpoint ⟨newAdu, learned.takeLast
            (asUsize h₁.runConfig.storageSnapshotSlotInterval)⟩ env.utc).2 :=
          hflush.checkpoint htrimmed env.utc
        unfold checkpointSnapshot
        dsimp only
        split
        · next hc =>
          split at hc
          · next he' =>
            rw [he'] at hcheck
            obtain ⟨_, rfl, rfl⟩ := hc
            exact ⟨hcheck, fun _ _ hv => hv⟩
          · cases hc
        · next hc =>
          split at hc
          · cases hc
          · next he' =>
            rw [he'] at hcheck
            obtain ⟨_, rfl, rfl⟩ := hc
            -- only a checkpoint that succeeds prunes the memory
            exact ⟨hcheck, fun _ _ hv => get?_of_prune hv⟩
    · exact ⟨hf, fun _ _ hv => hv⟩

/-- What a start reads back is known. -/
theorem loaded_known {learned : OrdMap Slot Value} (hf : FilesIn K h.store) (hl : MapIn K learned)
    (adu : Slot) : MapIn K (h.loadAndReplayState learned adu).2.1 := by
  have hsnaps : ∀ (snaps : List PersistentSnapshotState) (x : OrdMap Slot Value × Slot),
      (∀ snap ∈ snaps, MapIn K snap.learned) → MapIn K x.1 →
      MapIn K (snaps.foldl (fun x s => (OrdMap.insertAll x.1 s.learned.entries, s.adu)) x).1 := by
    intro snaps
    induction snaps with
    | nil => exact fun x _ hm => hm
    | cons snap snaps ih =>
        intro x hall hm
        refine ih _ (fun y hy => hall y (List.mem_cons_of_mem _ hy)) (fun slot value hv => ?_)
        rw [OrdMap.get?_insertAll_entries] at hv
        rcases Option.or_eq_some_iff.mp hv with hv | ⟨_, hv⟩
        · exact hall snap (List.mem_cons_self ..) slot value hv
        · exact hm slot value hv
  intro slot value hv
  obtain ⟨hload, hchanges⟩ := hf.load h.runConfig.storageLoadSnapshots
  unfold loadAndReplayState at hv
  split at hv
  · exact hl slot value hv
  · rcases OrdMap.get?_insertAll_cases hv with hv | hv
    · exact hsnaps _ (∅, adu) hload (fun _ _ hempty => by cases hempty) slot value hv
    · obtain ⟨entry, hentry, he⟩ := List.mem_map.mp hv
      obtain ⟨rfl, rfl⟩ := Prod.mk.inj he
      exact hchanges entry hentry

end StorageHelper

/-! ## What the learner holds

Learning adds one value, which has to be known too. -/

theorem KnownIn.learn {l : Learner} (hk : l.KnownIn K) (env : Env) {slot : Slot} {value : Value}
    (hv : K { slot, value }) : (l.learn env slot value).2.KnownIn K := by
  unfold Learner.learn
  split
  · exact hk
  · refine ⟨StorageHelper.filesIn_saveChange env hk.1 hv, fun slot' value' hv' => ?_⟩
    rw [OrdMap.get?_insert] at hv'
    split at hv'
    · next hs =>
      rw [hs, ← Option.some.inj hv']
      exact hv
    · exact hk.2 slot' value' hv'

end Learner

namespace LearnerAgent

variable {recorded recorded' : List LearnedEntry}

/-! ## The store and the log

Execution takes entries off the core learner and applies them. The store is the replay of a log up to the
cursor, which is continued by what has been learned past it. -/

/-- **The store matches a log**: it is the replay of one recorded command for each slot up to the
cursor, in slot order. -/
def MatchesLog (recorded : List LearnedEntry) (a : LearnerAgent) : Prop :=
  ∃ log : Slot → Value, (∀ slot, 1 ≤ slot → slot ≤ a.getAdu → { slot, value := log slot } ∈ recorded) ∧
    a.kvStore.store = KvStore.replay ((List.range' 1 a.getAdu).map (fun slot => (log slot).command))

/-- What the agent maintains: it holds only recorded values, and its store matches them. -/
structure Consistent (recorded : List LearnedEntry) (a : LearnerAgent) : Prop where
  known : a.learner.KnownIn (· ∈ recorded)
  matchesLog : a.MatchesLog recorded

/-- A step that moves no cursor, executes nothing and records nothing. -/
def SameCore (a a' : LearnerAgent) : Prop := a'.learner = a.learner ∧ a'.kvStore = a.kvStore

theorem Consistent.mono (h : recorded ⊆ recorded') {a : LearnerAgent}
    (hc : a.Consistent recorded) : a.Consistent recorded' := by
  obtain ⟨log, hlog, hstore⟩ := hc.matchesLog
  exact ⟨hc.known.mono (fun _ he => h he), log, fun slot h1 h2 => h (hlog slot h1 h2), hstore⟩

theorem Consistent.sameCore {a a' : LearnerAgent} (hc : a.Consistent recorded)
    (h : SameCore a a') : a'.Consistent recorded := by
  obtain ⟨hl, hk⟩ := h
  obtain ⟨hknown, log, hlog, hstore⟩ := hc
  refine ⟨hl ▸ hknown, log, ?_, ?_⟩
  · rw [getAdu, hl]
    exact hlog
  · rw [getAdu, hl, hk]
    exact hstore

theorem sameCore_collectExecuted (a : LearnerAgent) (batchSize : Option Nat) (full : Bool) :
    SameCore a (a.collectExecuted batchSize full).2 := by
  unfold collectExecuted
  cases batchSize with
  | none =>
      dsimp only
      split <;> exact ⟨rfl, rfl⟩
  | some n =>
      dsimp only
      split <;> exact ⟨rfl, rfl⟩

theorem sameCore_dispatchExecuted (a : LearnerAgent) (exec : Executed) :
    SameCore a (a.dispatchExecuted exec).2 := by
  unfold dispatchExecuted
  split
  · exact ⟨rfl, rfl⟩
  · split <;> exact ⟨rfl, rfl⟩

theorem sameCore_evaluateRetry (a : LearnerAgent) (env : Env) :
    SameCore a (a.evaluateRetry env).2 := by
  unfold evaluateRetry
  dsimp only
  split
  · exact ⟨rfl, rfl⟩
  · split <;> exact ⟨rfl, rfl⟩

theorem sameCore_sendRetryLearns (a : LearnerAgent) (slots : List Slot) :
    SameCore a (a.sendRetryLearns slots) := by
  unfold sendRetryLearns
  split <;> exact ⟨rfl, rfl⟩

theorem sameCore_handleEvaluateRetry (a : LearnerAgent) (env : Env) :
    SameCore a (a.handleEvaluateRetry env) := by
  have hretry := a.sameCore_evaluateRetry env
  unfold handleEvaluateRetry
  split
  · next he =>
    rw [he] at hretry
    exact hretry
  · next he =>
    rw [he] at hretry
    exact hretry
  · next he =>
    rw [he] at hretry
    exact ⟨(sameCore_sendRetryLearns _ _).1.trans hretry.1,
      (sameCore_sendRetryLearns _ _).2.trans hretry.2⟩

theorem Consistent.maybeFlushState {a : LearnerAgent} (hc : a.Consistent recorded) (env : Env) :
    (a.maybeFlushState env).Consistent recorded := by
  obtain ⟨⟨hfiles, hlearned⟩, hmatch⟩ := hc
  exact ⟨⟨Learner.StorageHelper.filesIn_maybeFlushChanges env hfiles, hlearned⟩, hmatch⟩

section Frame

variable (a : LearnerAgent) (env : Env) (slot : Slot) (value : Value) (sender : Node)

/-! ### Learns

Recording a learn changes nothing of an agent but its core learner. -/

/-- Recording a learn changes the core learner and the time of the last learn, nothing else. -/
theorem recordLearn_eq : (a.recordLearn env slot value sender).2 =
    { a with
      learner :=
        if a.config.acceptorsSendLearns then (a.learner.handleLearn env { slot, value } sender).2
        else (a.learner.learn env slot value).2
      lastLearnTime := (a.recordLearn env slot value sender).2.lastLearnTime } := by
  unfold recordLearn
  cases a.config.acceptorsSendLearns with
  | true =>
      simp only [if_true]
      split <;> rfl
  | false =>
      simp only [Bool.false_eq_true, if_false]
      split <;> rfl

theorem learner_recordLearn : (a.recordLearn env slot value sender).2.learner =
    if a.config.acceptorsSendLearns then (a.learner.handleLearn env { slot, value } sender).2
    else (a.learner.learn env slot value).2 := by
  rw [recordLearn_eq]

theorem node_recordLearn : (a.recordLearn env slot value sender).2.node = a.node := by
  rw [recordLearn_eq]

theorem config_recordLearn : (a.recordLearn env slot value sender).2.config = a.config := by
  rw [recordLearn_eq]

theorem kvStore_recordLearn : (a.recordLearn env slot value sender).2.kvStore = a.kvStore := by
  rw [recordLearn_eq]

theorem execBuffer_recordLearn : (a.recordLearn env slot value sender).2.execBuffer = a.execBuffer := by
  rw [recordLearn_eq]

theorem networkClient_recordLearn :
    (a.recordLearn env slot value sender).2.networkClient = a.networkClient := by
  rw [recordLearn_eq]

end Frame

/-- Recording a learn executes nothing; what is then held for the slot has been recorded. -/
theorem Consistent.recordLearn {a : LearnerAgent} (hc : a.Consistent recorded) (env : Env)
    (slot : Slot) (value : Value) (sender : Node)
    (hv : ∀ v, (a.recordLearn env slot value sender).2.learner.learned.get? slot = some v →
      { slot, value := v } ∈ recorded) :
    (a.recordLearn env slot value sender).2.Consistent recorded := by
  -- the new core learner is the outcome of one `learn`, after the vote has been counted
  have hlearner : ∃ (l : Learner) (v : Value), l.storage = a.learner.storage ∧
      l.learned = a.learner.learned ∧ l.adu = a.learner.adu ∧
      ((a.recordLearn env slot value sender).2.learner = l ∨
        (a.recordLearn env slot value sender).2.learner = (l.learn env slot v).2) := by
    rw [learner_recordLearn]
    split
    · rcases a.learner.handleLearn_cases env { slot, value } sender with he | ⟨v, _, he⟩
      · refine ⟨_, value, ?_, ?_, ?_, Or.inl (congrArg Prod.snd he)⟩ <;> rfl
      · refine ⟨_, v, ?_, ?_, ?_, Or.inr (congrArg Prod.snd he)⟩ <;> rfl
    · exact ⟨a.learner, value, rfl, rfl, rfl, Or.inr rfl⟩
  have hstore := a.kvStore_recordLearn env slot value sender
  obtain ⟨l, v, hst, hle, hadu, heq⟩ := hlearner
  have hknown : l.KnownIn (· ∈ recorded) := by
    rw [Learner.KnownIn, hst, hle]
    exact hc.known
  obtain ⟨log, hlog, hkv⟩ := hc.matchesLog
  rcases heq with heq | heq
  · refine ⟨heq ▸ hknown, log, ?_, ?_⟩
    · rw [getAdu, heq, hadu]
      exact hlog
    · rw [getAdu, heq, hadu, hstore]
      exact hkv
  · obtain ⟨hcursor, hcase⟩ := l.learn_cases env slot v
    refine ⟨?_, log, ?_, ?_⟩
    · rcases hcase with hsame | hget
      · rw [heq, hsame]
        exact hknown
      · rw [heq]
        exact hknown.learn env (hv v (heq ▸ hget))
    · rw [getAdu, heq, hcursor, hadu]
      exact hlog
    · rw [getAdu, heq, hcursor, hadu, hstore]
      exact hkv

/-! ### Execution

The entries are those behind the cursor, in order and without a gap. So the log is continued by them, and
the store by their commands. -/

theorem foldl_executeEntry (entries : List LearnedEntry) (a : LearnerAgent) :
    (entries.foldl executeEntry a).kvStore.store =
      (entries.map (fun le => le.value.command)).foldl KvStore.applyTo a.kvStore.store := by
  induction entries generalizing a with
  | nil => rfl
  | cons le entries ih =>
      refine (ih (a.executeEntry le)).trans ?_
      rw [List.map_cons, List.foldl_cons, ← KvStore.store_apply]
      rfl

/-- Execution moves the store and the buffer only. -/
theorem frame_executeEntries (entries : List LearnedEntry) (a : LearnerAgent) :
    (entries.foldl executeEntry a).learner = a.learner ∧
      (entries.foldl executeEntry a).networkClient = a.networkClient ∧
      (entries.foldl executeEntry a).config = a.config := by
  induction entries generalizing a with
  | nil => exact ⟨rfl, rfl, rfl⟩
  | cons le entries ih => exact ih (a.executeEntry le)

/-- **What execution does**: the learned entries that follow the cursor are applied in order, up to
the first gap, and the cursor moves over them. -/
theorem executeChosenLearns_spec (a : LearnerAgent) (env : Env) :
    ∃ n, (∀ slot ∈ List.range' (a.getAdu + 1) n, ∃ v, a.learner.learned.get? slot = some v) ∧
      a.learner.learned.get? (a.getAdu + 1 + n) = none ∧
      ∃ l : Learner, l.adu = a.getAdu + n ∧ l.quorum = a.learner.quorum ∧
        l.slotLearns = a.learner.slotLearns ∧
        (∀ K, a.learner.KnownIn K → l.KnownIn K) ∧
        (a.learner.storage.enabled = false →
          l.learned = a.learner.learned ∧ l.storage = a.learner.storage) ∧
        a.executeChosenLearns env =
          ((List.range' (a.getAdu + 1) n).map (Learner.entryAt a.learner.learned)).foldl
            executeEntry { a with learner := l } := by
  obtain ⟨n, hmem, hgap, ⟨rfl, he⟩ | he⟩ := a.learner.toBeExecuted_spec env
  · exact ⟨0, hmem, hgap, a.learner, rfl, rfl, rfl, fun _ hk => hk, fun _ => ⟨rfl, rfl⟩, by
      unfold executeChosenLearns
      rw [he]
      rfl⟩
  · refine ⟨n, hmem, hgap, { a.learner with
        adu := a.learner.adu + n
        storage := (a.learner.storage.maybeSnapshot env (a.learner.adu + n) a.learner.learned).2.1
        learned := (a.learner.storage.maybeSnapshot env (a.learner.adu + n) a.learner.learned).2.2 },
      rfl, rfl, rfl, ?_, ?_, by
      unfold executeChosenLearns
      rw [he]
      rfl⟩
    · intro K hk
      obtain ⟨hfiles, hkept⟩ :=
        Learner.StorageHelper.maybeSnapshot_spec env hk.1 hk.2 (a.learner.adu + n)
      exact ⟨hfiles, fun slot value hv => hk.2 slot value (hkept slot value hv)⟩
    · intro hoff
      unfold Learner.StorageHelper.maybeSnapshot
      rw [if_pos (Or.inl (by simp [hoff]))]
      exact ⟨rfl, rfl⟩

/-- A log up to a cursor, continued by what is learned past it. -/
def extendLog (log : Slot → Value) (adu : Slot) (learned : OrdMap Slot Value) (slot : Slot) : Value :=
  if slot ≤ adu then log slot else (Learner.entryAt learned slot).value

theorem extendLog_of_le {log : Slot → Value} {adu slot : Slot} (learned : OrdMap Slot Value)
    (h : slot ≤ adu) : extendLog log adu learned slot = log slot := if_pos h

theorem extendLog_of_lt {log : Slot → Value} {adu slot : Slot} (learned : OrdMap Slot Value)
    (h : adu < slot) : extendLog log adu learned slot = (Learner.entryAt learned slot).value :=
  if_neg (not_le.mpr h)

/-- The commands of a continued log are the old ones and those that were executed. -/
theorem commands_extendLog (log : Slot → Value) (adu : Slot) (learned : OrdMap Slot Value) (n : Nat) :
    (List.range' 1 (adu + n)).map (fun slot => (extendLog log adu learned slot).command) =
      (List.range' 1 adu).map (fun slot => (log slot).command) ++
        ((List.range' (adu + 1) n).map (Learner.entryAt learned)).map
          (fun le => le.value.command) := by
  have hsplit : List.range' 1 (adu + n) = List.range' 1 adu ++ List.range' (adu + 1) n := by
    rw [Nat.add_comm adu 1, List.range'_append_1]
  rw [hsplit, List.map_append, List.map_map]
  congr 1
  · refine List.map_congr_left (fun slot hslot => ?_)
    obtain ⟨_, hlt⟩ := List.mem_range'_1.mp hslot
    rw [extendLog_of_le learned (by lia)]
  · refine List.map_congr_left (fun slot hslot => ?_)
    obtain ⟨hge, _⟩ := List.mem_range'_1.mp hslot
    rw [extendLog_of_lt learned (by lia), Function.comp_apply]

/-- A continued log is known if the log was and the learned values are. -/
theorem known_extendLog {K : LearnedEntry → Prop} {log : Slot → Value} {adu : Slot}
    {learned : OrdMap Slot Value} {n : Nat}
    (hlog : ∀ slot, 1 ≤ slot → slot ≤ adu → K { slot, value := log slot })
    (hlearned : Learner.MapIn K learned)
    (hmem : ∀ slot ∈ List.range' (adu + 1) n, ∃ v, learned.get? slot = some v) :
    ∀ slot, 1 ≤ slot → slot ≤ adu + n → K { slot, value := extendLog log adu learned slot } := by
  intro slot h1 h2
  by_cases hold : slot ≤ adu
  · rw [extendLog_of_le learned hold]
    exact hlog slot h1 hold
  · obtain ⟨value, hvalue⟩ := hmem slot (List.mem_range'_1.mpr ⟨by lia, by lia⟩)
    rw [extendLog_of_lt learned (not_le.mp hold), Learner.entryAt, hvalue]
    exact hlearned slot value hvalue

/-- **Execution moves the cursor and the store together.** -/
theorem Consistent.executeChosenLearns {a : LearnerAgent} (hc : a.Consistent recorded)
    (env : Env) : (a.executeChosenLearns env).Consistent recorded := by
  obtain ⟨n, hmem, _, l, hadu, _, _, hknown, _, he⟩ := a.executeChosenLearns_spec env
  obtain ⟨log, hlog, hkv⟩ := hc.matchesLog
  have hs := foldl_executeEntry
    ((List.range' (a.getAdu + 1) n).map (Learner.entryAt a.learner.learned)) { a with learner := l }
  obtain ⟨hl, _, _⟩ := frame_executeEntries
    ((List.range' (a.getAdu + 1) n).map (Learner.entryAt a.learner.learned)) { a with learner := l }
  rw [← he] at hl hs
  have hcursor : (a.executeChosenLearns env).getAdu = a.getAdu + n :=
    (congrArg Learner.adu hl).trans hadu
  refine ⟨hl ▸ hknown _ hc.known, extendLog log a.getAdu a.learner.learned, ?_, ?_⟩
  · rw [hcursor]
    exact known_extendLog (K := (· ∈ recorded)) hlog hc.known.2 hmem
  · rw [hcursor, hs, commands_extendLog, KvStore.replay, List.foldl_append, ← KvStore.replay, ← hkv]

/-! ## Lifetimes

A restart empties the store and reads the cursor back from the files. The two still match if the
commands behind the cursor leave nothing in a store. -/

/-- A call of the agent's interface, or a restart: everything is flushed, and a new agent is made
over the same directory. -/
inductive Event where
  | tick (env : Env)
  | message (env : Env) (m : NetworkMessage)
  | recordLearn (env : Env) (slot : Slot) (value : Value) (sender : Node)
  | executeChosenLearns (env : Env)
  | collectExecuted (batchSize : Option Nat) (requireFullBatch : Bool)
  | evaluateRetry (env : Env)
  | maybeFlushState (env : Env)
  | sendHeartbeat
  | restart (env : Env)

/-- The files of the agent, once the buffered changes are flushed. -/
def files (a : LearnerAgent) (env : Env) : Learner.Dir := (a.learner.storage.flushChanges env).2.store.dir

/-- The agent made by a restart. -/
def restart (hash : String → Nat) (a : LearnerAgent) (env : Env) : LearnerAgent :=
  new hash (a.files env) env a.node a.allNodes a.config

/-- The agent after an event. -/
def handle (hash : String → Nat) (a : LearnerAgent) : Event → LearnerAgent
  | .tick env => a.handleTick env
  | .message env m => (a.handleMessage env m).2
  | .recordLearn env slot value sender => (a.recordLearn env slot value sender).2
  | .executeChosenLearns env => a.executeChosenLearns env
  | .collectExecuted batchSize full => (a.collectExecuted batchSize full).2
  | .evaluateRetry env => (a.evaluateRetry env).2
  | .maybeFlushState env => a.maybeFlushState env
  | .sendHeartbeat => a.sendHeartbeat
  | .restart env => a.restart hash env

/-- What the agent holds for a slot. -/
def heldAt (a : LearnerAgent) (slot : Slot) : List LearnedEntry :=
  (a.learner.learned.get? slot).toList.map (fun value => { slot, value })

/-- The entry an event records: what is held for the slot of a learn once it is counted. -/
def recordedBy (a : LearnerAgent) : Event → List LearnedEntry
  | .message env m =>
      match m.payload with
      | .learn l => (a.recordLearn env l.slot l.value m.sender).2.heldAt l.slot
      | _ => []
  | .recordLearn env slot value sender => (a.recordLearn env slot value sender).2.heldAt slot
  | _ => []

/-- An agent with everything that was ever recorded, over all its restarts. -/
structure Lifetime where
  agent : LearnerAgent
  recorded : List LearnedEntry

def Lifetime.step (hash : String → Nat) (x : Lifetime) (e : Event) : Lifetime :=
  { agent := x.agent.handle hash e, recorded := x.recorded ++ x.agent.recordedBy e }

/-- **When a restart is harmless**: storage is off, or commands are recorded for the slots up to the
cursor that the files give, and no key is left with a value by the last of them that touches it. -/
def Lifetime.Harmless (x : Lifetime) : Event → Prop
  | .restart env => x.agent.config.persistentStorage = true → ∃ (cursor : Slot) (log : Slot → Value),
      (x.agent.files env).Gives x.agent.config cursor ∧
      (∀ slot, 1 ≤ slot → slot ≤ cursor → { slot, value := log slot } ∈ x.recorded) ∧
      ∀ key, KvStore.lastWritten key
        ((List.range' 1 cursor).map (fun slot => (log slot).command)) = none
  | _ => True

theorem held_mem_heldAt {a : LearnerAgent} {slot : Slot} {value : Value}
    (h : a.learner.learned.get? slot = some value) : { slot, value } ∈ a.heldAt slot := by
  rw [heldAt, h]
  exact List.mem_singleton_self _

theorem Consistent.recorded_recordLearn {a : LearnerAgent} (hc : a.Consistent recorded)
    (env : Env) (slot : Slot) (value : Value) (sender : Node) :
    (a.recordLearn env slot value sender).2.Consistent
      (recorded ++ (a.recordLearn env slot value sender).2.heldAt slot) :=
  (hc.mono (List.subset_append_left ..)).recordLearn env slot value sender
    (fun _ hv => List.mem_append_right _ (held_mem_heldAt hv))

theorem Consistent.handleTick {a : LearnerAgent} (hc : a.Consistent recorded) (env : Env) :
    (a.handleTick env).Consistent recorded := by
  have hretry := hc.sameCore (a.sameCore_handleEvaluateRetry env)
  unfold LearnerAgent.handleTick
  generalize a.handleEvaluateRetry env = a₁ at hretry ⊢
  dsimp only
  split
  · exact hretry
  · have hclock : Consistent recorded { a₁ with lastExecTime := env.now } :=
      hretry.sameCore ⟨rfl, rfl⟩
    have hexec := hclock.executeChosenLearns env
    generalize LearnerAgent.executeChosenLearns { a₁ with lastExecTime := env.now } env = a₂ at hexec ⊢
    refine Consistent.maybeFlushState ?_ env
    split
    · have hcollect := hexec.sameCore
        (a₂.sameCore_collectExecuted (some a₂.config.messageBatchSize) false)
      split
      · exact hcollect
      · exact hcollect.sameCore (sameCore_dispatchExecuted ..)
    · exact hexec

theorem Consistent.handleMessage {a : LearnerAgent} (hc : a.Consistent recorded) (env : Env)
    (m : NetworkMessage) :
    (a.handleMessage env m).2.Consistent (recorded ++ a.recordedBy (.message env m)) := by
  unfold LearnerAgent.handleMessage recordedBy
  dsimp only
  cases m.payload with
  | learn l =>
      have hrecord := hc.recorded_recordLearn env l.slot l.value m.sender
      dsimp only
      generalize a.recordLearn env l.slot l.value m.sender = result at hrecord ⊢
      obtain ⟨wasNew, a₁⟩ := result
      cases wasNew with
      | false => exact hrecord
      | true =>
          dsimp only
          have hexec := hrecord.executeChosenLearns env
          generalize a₁.executeChosenLearns env = a₂ at hexec ⊢
          split
          · have hcollect := hexec.sameCore
              (a₂.sameCore_collectExecuted (some a₂.config.messageBatchSize) true)
            generalize a₂.collectExecuted (some a₂.config.messageBatchSize) true = collected
              at hcollect ⊢
            have hdispatch := hcollect.sameCore (sameCore_dispatchExecuted _ collected.1)
            split
            · next he =>
              rw [he] at hdispatch
              exact hdispatch
            · next he =>
              rw [he] at hdispatch
              exact hdispatch
          · exact hexec
  | adu s => exact (hc.mono (List.subset_append_left ..)).sameCore ⟨rfl, rfl⟩
  | _ => exact hc.mono (List.subset_append_left ..)

/-- A restart loses no knowledge: what it reads back has been recorded. -/
theorem Consistent.known_restart {a : LearnerAgent} (hc : a.Consistent recorded)
    (hash : String → Nat) (env : Env) : (a.restart hash env).learner.KnownIn (· ∈ recorded) := by
  have hflush := Learner.StorageHelper.filesIn_flushChanges env hc.known.1
  have hfiles : Learner.FilesIn (· ∈ recorded) (StorageResource.new
      (a.learner.storage.flushChanges env).2.store.dir a.config.storageMaxSnapshots) := by
    refine ⟨hflush.1, fun e he => hflush.2 e ?_⟩
    have he' : e ∈ (a.learner.storage.flushChanges env).2.store.dir.changelog := by
      simpa [StorageResource.contents, StorageResource.new] using he
    exact List.mem_append_left _ he'
  exact ⟨hfiles, Learner.StorageHelper.loaded_known hfiles (fun _ _ h => by cases h) 0⟩

/-! ### Starts and restarts

A start with empty files has nothing to match. A restart is a start with the files of the agent before. -/

/-- Files before their first use, whatever failures their file system has in store. -/
def freshDir (script : List (Option String)) : Learner.Dir := { Directory.empty with script }

/-- A new agent over fresh files starts at the first slot. -/
theorem getAdu_new (hash : String → Nat) (script : List (Option String)) (env : Env) (node : Node)
    (nodes : List Node) (config : RunConfig) :
    (new hash (freshDir script) env node nodes config).getAdu = 0 := by
  show ((Learner.StorageHelper.new hash (freshDir script) env _ config _).loadAndReplayState ∅ 0).2.2
    = 0
  unfold Learner.StorageHelper.loadAndReplayState
  split
  · rfl
  · simp [Learner.StorageHelper.new, StorageResource.new, StorageResource.loadStateAndChanges,
      freshDir, Directory.empty, OrdMap.takeLast, OrdMap.values, OrdMap.keys,
      Learner.StorageHelper.replaySnapshots, Learner.StorageHelper.contiguousTail]

theorem consistent_new (hash : String → Nat) (script : List (Option String)) (env : Env) (node : Node)
    (nodes : List Node) (config : RunConfig) :
    (new hash (freshDir script) env node nodes config).Consistent [] := by
  have hfiles : Learner.FilesIn (· ∈ [])
      (StorageResource.new (freshDir script) config.storageMaxSnapshots) :=
    ⟨fun _ h => (nomatch h), fun _ h => (nomatch h)⟩
  have hadu := getAdu_new hash script env node nodes config
  refine ⟨⟨hfiles, Learner.StorageHelper.loaded_known hfiles (fun _ _ h => by cases h) 0⟩,
    fun _ => Value.noOp, ?_, ?_⟩
  · rw [hadu]
    exact fun slot h1 h0 => absurd (le_trans h1 h0) (Nat.not_succ_le_zero 0)
  · rw [hadu]
    rfl

/-- **The store of a restarted agent is empty**: it matches the log exactly if the restart is harmless. -/
theorem matchesLog_restart {x : Lifetime} (hash : String → Nat) (env : Env) :
    (x.agent.restart hash env).MatchesLog x.recorded ↔ x.Harmless (.restart env) := by
  cases hon : x.agent.config.persistentStorage with
  | false =>
      have hzero : (x.agent.restart hash env).getAdu = 0 := by
        show (Learner.new hash (x.agent.files env) env _ _ x.agent.config).loadState.2.adu = 0
        rw [Learner.loadState_of_memory hon]
        rfl
      refine iff_of_true ⟨fun _ => Value.noOp, ?_, ?_⟩ (fun h => by rw [hon] at h; cases h)
      · rw [hzero]
        exact fun slot h1 h0 => absurd (le_trans h1 h0) (Nat.not_succ_le_zero 0)
      · rw [hzero]
        rfl
  | true =>
      have hgives : (x.agent.files env).Gives x.agent.config (x.agent.restart hash env).getAdu :=
        Learner.Dir.gives_loadState hon hash _ _ _ _
      have hempty : (x.agent.restart hash env).kvStore.store = ∅ := rfl
      unfold MatchesLog Lifetime.Harmless
      rw [hempty]
      constructor
      · rintro ⟨log, hlog, hstore⟩ -
        exact ⟨_, log, hgives, hlog, KvStore.replay_eq_empty_iff.mp hstore.symm⟩
      · intro h
        obtain ⟨cursor, log, hcursor, hlog, hnone⟩ := h hon
        obtain rfl := hgives.unique hcursor
        exact ⟨log, hlog, (KvStore.replay_eq_empty_iff.mpr hnone).symm⟩

/-- **A harmless event keeps the store and the log together.** -/
theorem Consistent.step {x : Lifetime} (hc : x.agent.Consistent x.recorded)
    (hash : String → Nat) {e : Event} (hharmless : x.Harmless e) :
    (x.step hash e).agent.Consistent (x.step hash e).recorded := by
  have hmono : x.recorded ⊆ (x.step hash e).recorded := List.subset_append_left ..
  cases e with
  | tick env => exact (hc.handleTick env).mono hmono
  | message env m => exact hc.handleMessage env m
  | recordLearn env slot value sender => exact hc.recorded_recordLearn env slot value sender
  | executeChosenLearns env => exact (hc.executeChosenLearns env).mono hmono
  | collectExecuted batchSize full =>
      exact (hc.sameCore (sameCore_collectExecuted ..)).mono hmono
  | evaluateRetry env => exact (hc.sameCore (sameCore_evaluateRetry ..)).mono hmono
  | maybeFlushState env => exact (hc.maybeFlushState env).mono hmono
  | sendHeartbeat =>
      exact Consistent.mono hmono (hc.sameCore ⟨rfl, rfl⟩)
  | restart env =>
      exact Consistent.mono hmono ⟨hc.known_restart hash env, (matchesLog_restart hash env).mpr hharmless⟩

/-- A learner that learns from the proposer. -/
def soleLearner : Lifetime :=
  ⟨new (fun _ => 0) Directory.empty Env.quiet { nodeId := 3, address := "", role := .learner }
    [{ nodeId := 1, address := "", role := .proposer }]
    { RunConfig.shipped with acceptorsSendLearns := false }, []⟩

end LearnerAgent

end PaxosWasm
