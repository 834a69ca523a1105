import PaxosWasm.Agents.LearnerFrame
import PaxosWasm.Agents.LearnerSteps
import PaxosWasm.Library.Replication

/-!
# A learner as a replica

The key-value store is a machine that is fed with values. A learner agent without storage is a replica
of it: its store is the one its recorded values lead to, up to the cursor, and the results it has
reported or still buffers are the machine's answers.
-/

namespace PaxosWasm

open Library

/-! ## The key-value store as a machine

Each value is an input, and its result the output. -/

/-- The key-value store, fed with the commands of values. -/
def KvStore.machine : Machine KvStore Value CmdResult where
  init := .new
  apply kv v := kv.apply v.command

/-- The store after a list of values is the one their commands lead to. -/
theorem KvStore.feed_machine (vs : List Value) :
    (machine.feed vs).history = vs.map Value.command ∧
      (machine.feed vs).store = replay (vs.map Value.command) := by
  induction vs using List.reverseRecOn with
  | nil => exact ⟨rfl, rfl⟩
  | append_singleton vs v ih =>
      obtain ⟨hhistory, hstore⟩ := ih
      have hlog : ((machine.feed vs).apply v.command).2.history = (machine.feed vs).history ++ [v.command] := by
        cases hc : v.command with
        | none => rfl
        | some op => cases op <;> rfl
      rw [machine.feed_snoc, List.map_append, replay, List.foldl_append, ← replay, ← hstore, ← hhistory]
      exact ⟨hlog, store_apply _ _⟩

namespace LearnerAgent

/-! ## What a replica maintains

The cursor says how many entries have been fed, the store is the state behind them, and every result, in
the buffer or sent, is the answer to its entry. -/

/-- A result is the answer to the value decided in its slot. -/
structure Truthful (d : Slot → Option Value) (r : ExecuteResult) : Prop where
  yields : KvStore.machine.Yields d r.slot r.value r.cmdResult
  success : r.success = decide (r.cmdResult ≠ .noOp)

/-- **What a learner agent without storage maintains**: it is a replica, and what it reports is true. -/
structure Replica (a : LearnerAgent) : Prop where
  memory : a.learner.storage.enabled = false
  reaches : KvStore.machine.Reaches a.learner.learned.get? a.getAdu a.kvStore
  buffered : ∀ r ∈ a.execBuffer, Truthful a.learner.learned.get? r
  reported : ∀ exec ∈ a.sentExecuted, ∀ r ∈ exec.results, Truthful a.learner.learned.get? r

variable {d d' : Slot → Option Value} {a a' : LearnerAgent}

theorem Truthful.mono {r : ExecuteResult} (h : Truthful d r) (hd : Grows d d') : Truthful d' r :=
  ⟨h.yields.mono hd, h.success⟩

/-- The records may grow, where the cursor, the store, the buffer and the reports stay. -/
theorem Replica.grow (h : a.Replica) (hmemory : a'.learner.storage.enabled = false)
    (hgrows : Grows a.learner.learned.get? a'.learner.learned.get?) (hadu : a'.getAdu = a.getAdu)
    (hstore : a'.kvStore = a.kvStore) (hbuffer : a'.execBuffer = a.execBuffer)
    (hsent : a'.sentExecuted = a.sentExecuted) : a'.Replica where
  memory := hmemory
  reaches := by
    rw [hadu, hstore]
    exact h.reaches.mono hgrows
  buffered r hr := by
    rw [hbuffer] at hr
    exact (h.buffered r hr).mono hgrows
  reported exec hexec r hr := by
    rw [hsent] at hexec
    exact (h.reported exec hexec r hr).mono hgrows

theorem getAdu_recordLearn (a : LearnerAgent) (env : Env) (slot : Slot) (value : Value) (sender : Node) :
    (a.recordLearn env slot value sender).2.getAdu = a.getAdu := by
  rw [getAdu, learner_recordLearn]
  split
  · rcases a.learner.handleLearn_cases env { slot, value } sender with he | ⟨v, -, he⟩
    · rw [he]
      rfl
    · rw [he]
      exact (Learner.learn_cases _ env slot v).1
  · exact (a.learner.learn_cases env slot value).1

theorem networkClient_executeChosenLearns (a : LearnerAgent) (env : Env) :
    (a.executeChosenLearns env).networkClient = a.networkClient := by
  obtain ⟨n, -, -, l, -, -, -, -, -, he⟩ := a.executeChosenLearns_spec env
  rw [he, (frame_executeEntries _ _).2.1]

/-! ## Learns and executions

A learn adds to what is known to be decided; an execution feeds it to the machine. -/

theorem Replica.recordLearn (h : a.Replica) (env : Env) (slot : Slot) (value : Value) (sender : Node) :
    (a.recordLearn env slot value sender).2.Replica ∧
      Grows a.learner.learned.get? (a.recordLearn env slot value sender).2.learner.learned.get? := by
  have hgrow : (a.recordLearn env slot value sender).2.learner.storage.enabled = false ∧
      Grows a.learner.learned.get? (a.recordLearn env slot value sender).2.learner.learned.get? := by
    rw [learner_recordLearn]
    split
    · refine ⟨by rw [Learner.storage_handleLearn h.memory]; exact h.memory, ?_⟩
      rcases a.learner.handleLearn_cases env { slot, value } sender with he | ⟨v, -, he⟩
      · rw [he]
        exact .refl _
      · rw [he]
        refine fun n w hw => ?_
        rw [Learner.get?_learn]
        exact Option.or_eq_some_iff.mpr (Or.inl hw)
    · refine ⟨by rw [(a.learner.frame_learn env slot value).2.2 h.memory]; exact h.memory,
        fun n w hw => ?_⟩
      rw [Learner.get?_learn]
      exact Option.or_eq_some_iff.mpr (Or.inl hw)
  refine ⟨h.grow hgrow.1 hgrow.2 (a.getAdu_recordLearn env slot value sender)
    (a.kvStore_recordLearn env slot value sender)
    (a.execBuffer_recordLearn env slot value sender) ?_, hgrow.2⟩
  rw [sentExecuted, a.networkClient_recordLearn env slot value sender]
  rfl

/-- **Executing decided entries in order** feeds them to the store, and buffers the answers. -/
theorem Replica.executeEntries (learned : OrdMap Slot Value) {adu : Slot}
    (h : KvStore.machine.Reaches learned.get? adu a.kvStore)
    (hbuffer : ∀ r ∈ a.execBuffer, Truthful learned.get? r) (n : Nat)
    (hmem : ∀ slot ∈ List.range' (adu + 1) n, ∃ v, learned.get? slot = some v) :
    let a' := ((List.range' (adu + 1) n).map (Learner.entryAt learned)).foldl executeEntry a
    KvStore.machine.Reaches learned.get? (adu + n) a'.kvStore ∧
      ∀ r ∈ a'.execBuffer, Truthful learned.get? r := by
  induction n with
  | zero => exact ⟨h, hbuffer⟩
  | succ n ih =>
      have hsnoc : List.range' (adu + 1) (n + 1) = List.range' (adu + 1) n ++ [adu + n + 1] := by
        rw [List.range'_1_concat, Nat.add_right_comm]
      obtain ⟨hreaches, hbuffered⟩ := ih (fun slot hslot =>
        hmem slot (by rw [hsnoc]; exact List.mem_append_left _ hslot))
      obtain ⟨v, hv⟩ := hmem (adu + n + 1)
        (by rw [hsnoc]; exact List.mem_append_right _ (List.mem_singleton_self _))
      have hentry : Learner.entryAt learned (adu + n + 1) = { slot := adu + n + 1, value := v } := by
        rw [Learner.entryAt, hv]
        rfl
      dsimp only
      rw [hsnoc, List.map_append, List.foldl_append, List.map_singleton, hentry]
      generalize ((List.range' (adu + 1) n).map (Learner.entryAt learned)).foldl executeEntry a = a'
        at hreaches hbuffered ⊢
      refine ⟨hreaches.next hv, fun r hr => ?_⟩
      rcases List.mem_append.mp hr with hr | hr
      · exact hbuffered r hr
      · rw [List.mem_singleton.mp hr]
        exact ⟨.mk hreaches hv, rfl⟩

theorem Replica.executeChosenLearns (h : a.Replica) (env : Env) :
    (a.executeChosenLearns env).Replica ∧
      (a.executeChosenLearns env).learner.learned = a.learner.learned ∧
      a.getAdu ≤ (a.executeChosenLearns env).getAdu := by
  obtain ⟨n, hmem, -, l, hadu, -, -, -, hsame, he⟩ := a.executeChosenLearns_spec env
  obtain ⟨hlearned, hstorage⟩ := hsame h.memory
  obtain ⟨hlearner, hclient, -⟩ := frame_executeEntries
    ((List.range' (a.getAdu + 1) n).map (Learner.entryAt a.learner.learned)) { a with learner := l }
  obtain ⟨hreaches, hbuffered⟩ := Replica.executeEntries (a := { a with learner := l })
    a.learner.learned h.reaches h.buffered n hmem
  rw [← he] at hlearner hclient hreaches hbuffered
  have hcursor : (a.executeChosenLearns env).getAdu = a.getAdu + n :=
    (congrArg Learner.adu hlearner).trans hadu
  have hrecords : (a.executeChosenLearns env).learner.learned = a.learner.learned := by
    rw [hlearner, hlearned]
  refine ⟨⟨?_, ?_, ?_, fun exec hexec => ?_⟩, hrecords, by rw [hcursor]; exact Nat.le_add_right ..⟩
  · rw [hlearner, hstorage]
    exact h.memory
  · rw [hrecords, hcursor]
    exact hreaches
  · rw [hrecords]
    exact hbuffered
  · rw [sentExecuted, hclient] at hexec
    rw [hrecords]
    exact h.reported exec hexec

/-! ## Reports

They cut off the front of the buffer, whose results have been outputs of the machine. -/

/-- What is taken off the buffer is true. -/
theorem Replica.collectExecuted (h : a.Replica) (batchSize : Option Nat) (full : Bool) :
    (a.collectExecuted batchSize full).2.Replica ∧
      ∀ r ∈ (a.collectExecuted batchSize full).1.results, Truthful a.learner.learned.get? r := by
  obtain ⟨k, hk⟩ := a.collectExecuted_spec batchSize full
  rw [hk]
  exact ⟨⟨h.memory, h.reaches, fun r hr => h.buffered r (List.mem_of_mem_drop hr), h.reported⟩,
    fun r hr => h.buffered r (List.mem_of_mem_take hr)⟩

theorem Replica.dispatchExecuted (h : a.Replica) {exec : Executed}
    (htrue : ∀ r ∈ exec.results, Truthful a.learner.learned.get? r) :
    (a.dispatchExecuted exec).2.Replica := by
  unfold LearnerAgent.dispatchExecuted
  split
  · exact h
  · split
    · refine ⟨h.memory, h.reaches, h.buffered, fun exec' hexec' => ?_⟩
      have hsent : (a.send a.proposers (.executed exec)).sentExecuted = a.sentExecuted ++ [exec] := by
        show (a.networkClient.sent ++ [_]).filterMap _ = _
        rw [List.filterMap_append]
        rfl
      rw [hsent] at hexec'
      rcases List.mem_append.mp hexec' with hexec' | hexec'
      · exact h.reported exec' hexec'
      · rw [List.mem_singleton.mp hexec']
        exact htrue
    · exact h

/-! ## Going on

What a step never takes back: what has been recorded, the slots behind the cursor, and the reports. -/

/-- The learner agent has gone on: it has recorded more, its cursor has not gone back, and it has
reported more. -/
structure Onward (a a' : LearnerAgent) : Prop where
  grows : Grows a.learner.learned.get? a'.learner.learned.get?
  cursor : a.getAdu ≤ a'.getAdu
  sent : a.sentExecuted ⊆ a'.sentExecuted

theorem Onward.refl (a : LearnerAgent) : a.Onward a := ⟨.refl _, le_refl _, List.Subset.refl _⟩

theorem Onward.trans {a'' : LearnerAgent} (h : a.Onward a') (h' : a'.Onward a'') : a.Onward a'' :=
  ⟨h.grows.trans h'.grows, h.cursor.trans h'.cursor, List.Subset.trans h.sent h'.sent⟩

/-- Only the records, the cursor and the reports count. -/
theorem Onward.of_eq (hlearner : a'.learner = a.learner) (hsent : a'.networkClient = a.networkClient) :
    a.Onward a' := by
  refine ⟨?_, ?_, ?_⟩
  · rw [hlearner]
    exact .refl _
  · rw [getAdu, getAdu, hlearner]
  · rw [sentExecuted, sentExecuted, hsent]
    exact List.Subset.refl _

theorem Onward.dispatchExecuted (a : LearnerAgent) (exec : Executed) :
    a.Onward (a.dispatchExecuted exec).2 := by
  unfold LearnerAgent.dispatchExecuted
  split
  · exact .refl a
  · split
    · refine ⟨.refl _, le_refl _, fun exec' hexec' => ?_⟩
      show exec' ∈ (a.networkClient.sent ++ [_]).filterMap _
      rw [List.filterMap_append]
      exact List.mem_append_left _ hexec'
    · exact .refl a

/-- **A step of a learner agent** keeps it a replica, and goes on. -/
theorem Replica.step (h : a.Replica) (hstep : a.Step a') : a'.Replica ∧ a.Onward a' := by
  cases hstep with
  | record env slot value sender =>
      obtain ⟨hreplica, hgrows⟩ := h.recordLearn env slot value sender
      refine ⟨hreplica, hgrows, ?_, ?_⟩
      · rw [a.getAdu_recordLearn]
      · rw [sentExecuted, sentExecuted, a.networkClient_recordLearn]
        exact List.Subset.refl _
  | execute env =>
      obtain ⟨hreplica, hrecords, hcursor⟩ := h.executeChosenLearns env
      refine ⟨hreplica, ?_, hcursor, ?_⟩
      · rw [hrecords]
        exact .refl _
      · rw [sentExecuted, sentExecuted, a.networkClient_executeChosenLearns]
        exact List.Subset.refl _
  | collect batchSize full =>
      refine ⟨(h.collectExecuted batchSize full).1, ?_⟩
      obtain ⟨k, hk⟩ := a.collectExecuted_spec batchSize full
      rw [hk]
      exact .of_eq rfl rfl
  | report batchSize full =>
      obtain ⟨hreplica, htrue⟩ := h.collectExecuted batchSize full
      -- the batch is true of the log before it leaves the buffer
      have honward : a.Onward (a.collectExecuted batchSize full).2 := by
        obtain ⟨k, hk⟩ := a.collectExecuted_spec batchSize full
        rw [hk]
        exact .of_eq rfl rfl
      refine ⟨hreplica.dispatchExecuted (fun r hr => ?_), honward.trans (.dispatchExecuted _ _)⟩
      exact (htrue r hr).mono honward.grows
  | send ts hpayload =>
      have hsent := a.sentExecuted_send ts hpayload
      refine ⟨h.grow h.memory (.refl _) rfl rfl rfl hsent, .refl _, le_refl _, ?_⟩
      rw [hsent]
      exact List.Subset.refl _
  | evaluateRetry env =>
      -- an evaluation changes its notes only
      have hframe : ∃ retries lastLearnTime,
          (a.evaluateRetry env).2 = { a with retries, lastLearnTime } := by
        unfold LearnerAgent.evaluateRetry
        dsimp only
        split
        · exact ⟨_, _, rfl⟩
        · split <;> exact ⟨_, _, rfl⟩
      obtain ⟨retries, lastLearnTime, he⟩ := hframe
      rw [he]
      exact ⟨h.grow h.memory (.refl _) rfl rfl rfl rfl, .of_eq rfl rfl⟩
  | clock now => exact ⟨h.grow h.memory (.refl _) rfl rfl rfl rfl, .of_eq rfl rfl⟩
  | flush env =>
      -- without storage there is nothing to flush
      have hflush : (a.learner.maybeFlush env).2 = a.learner := by
        unfold Learner.maybeFlush Learner.StorageHelper.maybeFlushChanges
        simp [h.memory]
      have hlearner : (a.maybeFlushState env).learner = a.learner := hflush
      refine ⟨h.grow (by rw [hlearner]; exact h.memory) ?_ ?_ rfl rfl rfl, .of_eq hlearner rfl⟩
      · rw [hlearner]
        exact .refl _
      · rw [getAdu, hlearner]
        rfl

/-- **Steps of a learner agent** keep it a replica, and go on. -/
theorem Replica.steps (h : a.Replica) (hsteps : a.Steps a') : a'.Replica ∧ a.Onward a' := by
  induction hsteps with
  | refl => exact ⟨h, .refl a⟩
  | tail _ hstep ih =>
      obtain ⟨hreplica, honward⟩ := ih
      obtain ⟨hreplica', honward'⟩ := hreplica.step hstep
      exact ⟨hreplica', honward.trans honward'⟩

/-- A new agent without storage is a replica that has not started. -/
theorem replica_new (hash : String → Nat) (dir : Learner.Dir) (env : Env) (node : Node)
    (nodes : List Node) {config : RunConfig} (hmemory : config.persistentStorage = false) :
    (new hash dir env node nodes config).Replica := by
  have hlearner := learner_new_of_memory hash dir env node nodes hmemory
  refine ⟨?_, ?_, nofun, nofun⟩
  · rw [hlearner]
    exact hmemory
  · rw [getAdu, hlearner]
    exact .init

end LearnerAgent

end PaxosWasm
