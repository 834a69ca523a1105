import PaxosWasm.Agents.LearnerRuns

/-!
# What a learner executes and reports

The slots are applied to the key-value store in order, each once, and the results leave the agent
in that order: those in the messages sent so far, followed by those in the buffer, are the results
of the slots up to the cursor. A tick takes a partial batch off the buffer and a message only a full
one; either way the buffer is cut in front, and what is cut off is sent.

`InOrder` compares the store, the results sent and the results in the buffer with a log. Its three steps
are execution, a report, and everything else. As a report cuts the buffer in front and sends what it cuts
off, nothing is reported twice and nothing is left out.
-/

namespace PaxosWasm

open Library

def MessagePayload.executed? : MessagePayload → Option Executed
  | .executed exec => some exec
  | _ => none

namespace LearnerAgent

/-- The batches of results the agent has sent, in sending order. -/
def sentExecuted (a : LearnerAgent) : List Executed :=
  a.networkClient.sent.filterMap (fun s => s.message.payload.executed?)

/-- The store after the slots of a log up to `adu`, in order and each once. -/
def storeOf (log : Slot → Value) (adu : Slot) : KvStore :=
  (List.range' 1 adu).foldl (fun kv slot => (kv.apply (log slot).command).2) KvStore.new

/-- The result of a slot of a log, executed after those before it. -/
def resultOf (log : Slot → Value) (slot : Slot) : ExecuteResult :=
  let cmdResult := ((storeOf log (slot - 1)).apply (log slot).command).1
  { slot, value := log slot, success := decide (cmdResult ≠ .noOp), cmdResult }

/-- The results of the slots of a log up to `adu`. -/
def resultsOf (log : Slot → Value) (adu : Slot) : List ExecuteResult :=
  (List.range' 1 adu).map (resultOf log)

/-- **Execution and reports are in order**: for a log of known values, the store is that of the slots
up to the cursor, and what has been sent and what is buffered are their results. -/
def InOrder (K : LearnedEntry → Prop) (a : LearnerAgent) : Prop :=
  ∃ log : Slot → Value, (∀ slot, 1 ≤ slot → slot ≤ a.getAdu → K { slot, value := log slot }) ∧
    a.kvStore = storeOf log a.getAdu ∧
    a.sentExecuted.flatMap Executed.results ++ a.execBuffer = resultsOf log a.getAdu ∧
    ∀ exec ∈ a.sentExecuted, ∀ r ∈ exec.results, r.slot ≤ exec.adu

variable {K K' : LearnedEntry → Prop} {recorded : List LearnedEntry} {a a' : LearnerAgent}

/-! ## Logs that agree

The store and the results up to a slot are determined by the log up to this slot. -/

theorem storeOf_succ (log : Slot → Value) (n : Nat) :
    storeOf log (n + 1) = ((storeOf log n).apply (log (n + 1)).command).2 := by
  rw [storeOf, List.range'_1_concat, List.foldl_append, Nat.add_comm 1 n]
  rfl

theorem resultsOf_succ (log : Slot → Value) (n : Nat) :
    resultsOf log (n + 1) = resultsOf log n ++ [resultOf log (n + 1)] := by
  rw [resultsOf, List.range'_1_concat, List.map_append, Nat.add_comm 1 n]
  rfl

/-- The store depends on the slots up to the cursor only. -/
theorem storeOf_congr {log log' : Slot → Value} {n : Nat} 
    (h : ∀ slot, 1 ≤ slot → slot ≤ n → log slot = log' slot) :
    storeOf log n = storeOf log' n := by
  induction n with
  | zero => rfl
  | succ n ih =>
      rw [storeOf_succ, storeOf_succ, ih (fun slot h1 hle => h slot h1 (Nat.le_succ_of_le hle)),
        h (n + 1) (Nat.le_add_left 1 n) (le_refl _)]

theorem resultsOf_congr {log log' : Slot → Value} {n : Nat} 
    (h : ∀ slot, 1 ≤ slot → slot ≤ n → log slot = log' slot) :
    resultsOf log n = resultsOf log' n := by
  induction n with
  | zero => rfl
  | succ n ih =>
      have hstore : storeOf log n = storeOf log' n :=
        storeOf_congr (fun slot h1 hle => h slot h1 (Nat.le_succ_of_le hle))
      rw [resultsOf_succ, resultsOf_succ, ih (fun slot h1 hle => h slot h1 (Nat.le_succ_of_le hle)),
        resultOf, resultOf, Nat.add_sub_cancel, hstore, h (n + 1) (Nat.le_add_left 1 n) (le_refl _)]

theorem slot_le_of_mem_resultsOf {log : Slot → Value} {n : Nat} {r : ExecuteResult}
    (h : r ∈ resultsOf log n) : r.slot ≤ n := by
  obtain ⟨slot, hslot, rfl⟩ := List.mem_map.mp h
  obtain ⟨_, hlt⟩ := List.mem_range'_1.mp hslot
  show slot ≤ n
  lia

/-! ## Execution

Each learned entry past the cursor is applied to the store and leaves a result in the buffer. -/

/-- **Executing the slots that follow** extends the store and the buffer. -/
theorem foldl_executeEntry_log {log : Slot → Value} {adu : Slot} (hstore : a.kvStore = storeOf log adu)
    (n : Nat) :
    let a' := ((List.range' (adu + 1) n).map (fun slot => { slot, value := log slot })).foldl
      executeEntry a
    a'.kvStore = storeOf log (adu + n) ∧
      a'.execBuffer = a.execBuffer ++ (List.range' (adu + 1) n).map (resultOf log) := by
  induction n with
  | zero => exact ⟨hstore, (List.append_nil _).symm⟩
  | succ n ih =>
      obtain ⟨hkv, hbuffer⟩ := ih
      have hnext : adu + 1 + n = adu + n + 1 := by lia
      dsimp only
      rw [List.range'_1_concat, List.map_append, List.map_append, List.foldl_append, hnext]
      refine ⟨?_, ?_⟩
      · show (KvStore.apply _ _).2 = storeOf log (adu + n + 1)
        rw [storeOf_succ, hkv]
      · show _ ++ [_] = _ ++ (_ ++ [_])
        rw [hbuffer, ← List.append_assoc, hkv]
        rfl

/-- Execution continues the log with what is learned past the cursor. -/
theorem InOrder.executeChosenLearns (h : a.InOrder K)
    (hknown : Learner.MapIn K a.learner.learned) (env : Env) :
    (a.executeChosenLearns env).InOrder K ∧ (a.executeChosenLearns env).config = a.config := by
  obtain ⟨log, hlog, hstore, hresults, hbound⟩ := h
  obtain ⟨n, hmem, _, l, hadu, _, _, _, _, he⟩ := a.executeChosenLearns_spec env
  let log' := extendLog log a.getAdu a.learner.learned
  have hagree : ∀ slot, 1 ≤ slot → slot ≤ a.getAdu → log slot = log' slot :=
    fun slot _ hle => (extendLog_of_le a.learner.learned hle).symm
  have hentries : (List.range' (a.getAdu + 1) n).map (Learner.entryAt a.learner.learned) =
      (List.range' (a.getAdu + 1) n).map (fun slot => { slot, value := log' slot }) := by
    refine List.map_congr_left (fun slot hslot => ?_)
    obtain ⟨hge, _⟩ := List.mem_range'_1.mp hslot
    simp only [log', extendLog_of_lt a.learner.learned (show a.getAdu < slot by lia)]
    rfl
  have hexec : LearnerAgent.kvStore { a with learner := l } = storeOf log' a.getAdu :=
    hstore.trans (storeOf_congr hagree)
  obtain ⟨hkv, hbuffer⟩ := foldl_executeEntry_log hexec n
  obtain ⟨hlearner, hclient, hconfig⟩ := frame_executeEntries
    ((List.range' (a.getAdu + 1) n).map (Learner.entryAt a.learner.learned)) { a with learner := l }
  rw [← hentries, ← he] at hkv hbuffer
  rw [← he] at hlearner hclient hconfig
  have hcursor : (a.executeChosenLearns env).getAdu = a.getAdu + n :=
    (congrArg Learner.adu hlearner).trans hadu
  have hsent : (a.executeChosenLearns env).sentExecuted = a.sentExecuted := by
    rw [sentExecuted, hclient]
    rfl
  refine ⟨⟨log', ?_, ?_, ?_, ?_⟩, hconfig⟩
  · rw [hcursor]
    exact known_extendLog hlog hknown hmem
  · rw [hcursor, hkv]
  · rw [hcursor, hsent, hbuffer]
    show _ ++ (a.execBuffer ++ _) = _
    rw [← List.append_assoc, hresults, resultsOf_congr hagree, resultsOf, ← List.map_append,
      Nat.add_comm a.getAdu 1, List.range'_append_1]
    rfl
  · rw [hsent]
    exact hbound

/-! ## Steps that execute nothing

They leave the store and the buffer alone, and send no results. -/

theorem InOrder.mono (h : a.InOrder K) (hsub : ∀ e, K e → K' e) :
    a.InOrder K' := by
  obtain ⟨log, hlog, hrest⟩ := h
  exact ⟨log, fun slot h1 h2 => hsub _ (hlog slot h1 h2), hrest⟩

theorem InOrder.congr (h : a.InOrder K) (hadu : a'.getAdu = a.getAdu)
    (hstore : a'.kvStore = a.kvStore) (hbuffer : a'.execBuffer = a.execBuffer)
    (hsent : a'.sentExecuted = a.sentExecuted) : a'.InOrder K := by
  rw [InOrder, hadu, hstore, hbuffer, hsent]
  exact h

/-- A message that reports no results. -/
theorem sentExecuted_send (a : LearnerAgent) (ts : List Node) {payload : MessagePayload}
    (h : payload.executed? = none) : (a.send ts payload).sentExecuted = a.sentExecuted := by
  show (a.networkClient.sent ++ [({ targets := ts, message := a.message payload } : Sent)]).filterMap _ = _
  have hnone : [({ targets := ts, message := a.message payload } : Sent)].filterMap
      (fun s => s.message.payload.executed?) = [] := List.filterMap_cons_none h
  rw [List.filterMap_append, hnone, List.append_nil]
  rfl

theorem InOrder.send (h : a.InOrder K) (ts : List Node) {payload : MessagePayload}
    (hp : payload.executed? = none) : (a.send ts payload).InOrder K :=
  h.congr rfl rfl rfl (sentExecuted_send a ts hp)

theorem InOrder.recordLearn (h : a.InOrder K) (env : Env) (slot : Slot) (value : Value)
    (sender : Node) : (a.recordLearn env slot value sender).2.InOrder K := by
  have hadu : (a.recordLearn env slot value sender).2.learner.adu = a.learner.adu := by
    rw [learner_recordLearn]
    split
    · rcases a.learner.handleLearn_cases env { slot, value } sender with he | ⟨v, _, he⟩
      · rw [he]
      · rw [he, (Learner.learn_cases _ env slot v).1]
    · rw [(a.learner.learn_cases env slot value).1]
  refine h.congr hadu (a.kvStore_recordLearn env slot value sender)
    (a.execBuffer_recordLearn env slot value sender) ?_
  rw [sentExecuted, a.networkClient_recordLearn env slot value sender]
  rfl

theorem InOrder.evaluateRetry (h : a.InOrder K) (env : Env) :
    (a.evaluateRetry env).2.InOrder K := by
  unfold LearnerAgent.evaluateRetry
  dsimp only
  split
  · exact h
  · split <;> exact h.congr rfl rfl rfl rfl

theorem InOrder.handleEvaluateRetry (h : a.InOrder K) (env : Env) :
    (a.handleEvaluateRetry env).InOrder K := by
  have hretry := h.evaluateRetry env
  unfold LearnerAgent.handleEvaluateRetry
  split
  · next he =>
    rw [he] at hretry
    exact hretry
  · next he =>
    rw [he] at hretry
    exact hretry
  · next he =>
    rw [he] at hretry
    unfold LearnerAgent.sendRetryLearns
    split <;> exact hretry.send _ rfl

/-! ## Reports

A report is the front part of the buffer, which is cut off it. -/

/-- A batch is cut off the front of the buffer. -/
theorem collectExecuted_spec (a : LearnerAgent) (batchSize : Option Nat) (full : Bool) :
    ∃ k, a.collectExecuted batchSize full =
      ({ results := a.execBuffer.take k, adu := a.getAdu },
        { a with execBuffer := a.execBuffer.drop k }) := by
  unfold collectExecuted
  cases batchSize with
  | none => exact ⟨a.execBuffer.length, by simp⟩
  | some n =>
      dsimp only
      split
      · exact ⟨0, rfl⟩
      · exact ⟨_, rfl⟩

/-- **A batch that is cut off and sent** stays in order, and so does an empty one that is not sent. -/
theorem InOrder.report (h : a.InOrder K) (hevent : a.config.isEventDriven = true)
    (hsend : a.config.learnersSendExecuted = true) (batchSize : Option Nat) (full : Bool) :
    let x := a.collectExecuted batchSize full
    (x.1.results = [] → x.2.InOrder K) ∧ (x.2.dispatchExecuted x.1).2.InOrder K := by
  obtain ⟨k, hk⟩ := a.collectExecuted_spec batchSize full
  obtain ⟨log, hlog, hstore, hresults, hbound⟩ := h
  rw [hk]
  dsimp only
  -- an empty batch is not sent, and leaves the buffer as it is
  have hempty : a.execBuffer.take k = [] →
      InOrder K { a with execBuffer := a.execBuffer.drop k } := by
    intro hnil
    have hdrop : a.execBuffer.drop k = a.execBuffer := by
      conv_rhs => rw [← List.take_append_drop k a.execBuffer, hnil, List.nil_append]
    exact InOrder.congr ⟨log, hlog, hstore, hresults, hbound⟩ rfl rfl hdrop rfl
  refine ⟨hempty, ?_⟩
  unfold LearnerAgent.dispatchExecuted
  dsimp only
  rw [hsend, hevent, Bool.not_true, if_pos rfl]
  split
  · next hnil => exact hempty (by simpa using hnil)
  · have hsent : (LearnerAgent.send { a with execBuffer := a.execBuffer.drop k } a.proposers
        (.executed { results := a.execBuffer.take k, adu := a.getAdu })).sentExecuted =
        a.sentExecuted ++ [{ results := a.execBuffer.take k, adu := a.getAdu }] := by
      show (a.networkClient.sent ++ [_]).filterMap _ = _
      rw [List.filterMap_append]
      rfl
    -- what is sent and what is left are the results that were in the buffer
    refine ⟨log, hlog, hstore, ?_, ?_⟩
    · rw [hsent, List.flatMap_append, List.flatMap_singleton, List.append_assoc]
      show _ ++ (a.execBuffer.take k ++ a.execBuffer.drop k) = _
      rw [List.take_append_drop]
      exact hresults
    · rw [hsent]
      intro exec hexec r hr
      rcases List.mem_append.mp hexec with hexec | hexec
      · exact hbound exec hexec r hr
      · rw [List.mem_singleton.mp hexec] at hr ⊢
        have hmem : r ∈ resultsOf log a.getAdu := by
          rw [← hresults]
          exact List.mem_append_right _ (List.mem_of_mem_take hr)
        exact slot_le_of_mem_resultsOf hmem

/-! ## Runs

Each handler is a sequence of the steps above. -/

/-- What a run of an agent that reports over the network maintains. -/
structure Orderly (recorded : List LearnedEntry) (a : LearnerAgent) : Prop where
  event : a.config.isEventDriven = true
  send : a.config.learnersSendExecuted = true
  consistent : a.Consistent recorded
  inOrder : a.InOrder (· ∈ recorded)

theorem Orderly.executeChosenLearns (h : a.Orderly recorded) (env : Env) :
    (a.executeChosenLearns env).Orderly recorded := by
  obtain ⟨hin, hconfig⟩ := h.inOrder.executeChosenLearns h.consistent.known.2 env
  exact ⟨hconfig ▸ h.event, hconfig ▸ h.send, h.consistent.executeChosenLearns env, hin⟩

theorem Orderly.recordLearn (h : a.Orderly recorded) (env : Env) (slot : Slot) (value : Value)
    (sender : Node) : (a.recordLearn env slot value sender).2.Orderly
      (recorded ++ (a.recordLearn env slot value sender).2.heldAt slot) := by
  have hconfig := a.config_recordLearn env slot value sender
  exact ⟨hconfig ▸ h.event, hconfig ▸ h.send, h.consistent.recorded_recordLearn env slot value sender,
    (h.inOrder.recordLearn env slot value sender).mono (fun _ he => List.mem_append_left _ he)⟩

theorem Orderly.evaluateRetry (h : a.Orderly recorded) (env : Env) :
    (a.evaluateRetry env).2.Orderly recorded := by
  have hconfig : (a.evaluateRetry env).2.config = a.config := by
    unfold LearnerAgent.evaluateRetry
    dsimp only
    split
    · rfl
    · split <;> rfl
  exact ⟨hconfig ▸ h.event, hconfig ▸ h.send, h.consistent.sameCore (a.sameCore_evaluateRetry env),
    h.inOrder.evaluateRetry env⟩

theorem Orderly.handleEvaluateRetry (h : a.Orderly recorded) (env : Env) :
    (a.handleEvaluateRetry env).Orderly recorded := by
  have hretry := h.evaluateRetry env
  have hconfig : (a.handleEvaluateRetry env).config = (a.evaluateRetry env).2.config := by
    unfold LearnerAgent.handleEvaluateRetry
    split
    · next he => rw [he]
    · next he => rw [he]
    · next he =>
      rw [he]
      unfold LearnerAgent.sendRetryLearns
      split <;> rfl
  exact ⟨hconfig ▸ hretry.event, hconfig ▸ hretry.send,
    h.consistent.sameCore (a.sameCore_handleEvaluateRetry env), h.inOrder.handleEvaluateRetry env⟩

/-- A batch that is cut off, and sent unless it is empty. -/
theorem Orderly.report (h : a.Orderly recorded) (batchSize : Option Nat) (full : Bool) :
    let x := a.collectExecuted batchSize full
    (x.1.results = [] → x.2.Orderly recorded) ∧ (x.2.dispatchExecuted x.1).2.Orderly recorded := by
  obtain ⟨k, hk⟩ := a.collectExecuted_spec batchSize full
  obtain ⟨hkept, hsent⟩ := h.inOrder.report h.event h.send batchSize full
  have hcollect := h.consistent.sameCore (a.sameCore_collectExecuted batchSize full)
  have hconfig : (a.collectExecuted batchSize full).2.config = a.config := by rw [hk]
  dsimp only
  generalize a.collectExecuted batchSize full = x at *
  have hconfig' : (x.2.dispatchExecuted x.1).2.config = a.config := by
    unfold LearnerAgent.dispatchExecuted
    split
    · exact hconfig
    · split <;> exact hconfig
  exact ⟨fun hnil => ⟨hconfig ▸ h.event, hconfig ▸ h.send, hcollect, hkept hnil⟩,
    hconfig' ▸ h.event, hconfig' ▸ h.send, hcollect.sameCore (sameCore_dispatchExecuted ..), hsent⟩

theorem Orderly.maybeFlushState (h : a.Orderly recorded) (env : Env) :
    (a.maybeFlushState env).Orderly recorded :=
  ⟨h.event, h.send, h.consistent.maybeFlushState env, h.inOrder.congr rfl rfl rfl rfl⟩

theorem Orderly.handleTick (h : a.Orderly recorded) (env : Env) :
    (a.handleTick env).Orderly recorded := by
  have hretry := h.handleEvaluateRetry env
  unfold LearnerAgent.handleTick
  generalize a.handleEvaluateRetry env = a₁ at hretry ⊢
  dsimp only
  split
  · exact hretry
  · have hclock : Orderly recorded { a₁ with lastExecTime := env.now } :=
      ⟨hretry.event, hretry.send, hretry.consistent.sameCore ⟨rfl, rfl⟩,
        hretry.inOrder.congr rfl rfl rfl rfl⟩
    have hexec := hclock.executeChosenLearns env
    generalize LearnerAgent.executeChosenLearns { a₁ with lastExecTime := env.now } env = a₂ at hexec ⊢
    refine Orderly.maybeFlushState ?_ env
    -- a tick sends what is there, up to a batch
    obtain ⟨hkept, hsent⟩ := hexec.report (some a₂.config.messageBatchSize) false
    rw [if_pos hexec.send]
    split
    · next hnil => exact hkept hnil
    · exact hsent

theorem Orderly.handleMessage (h : a.Orderly recorded) (env : Env) (m : NetworkMessage) :
    (a.handleMessage env m).2.Orderly (recorded ++ a.recordedBy (.message env m)) := by
  have hmono : a.Orderly (recorded ++ []) := by
    rw [List.append_nil]
    exact h
  unfold LearnerAgent.handleMessage recordedBy
  dsimp only
  cases m.payload with
  | learn l =>
      have hrecord := h.recordLearn env l.slot l.value m.sender
      dsimp only
      generalize a.recordLearn env l.slot l.value m.sender = result at hrecord ⊢
      obtain ⟨wasNew, a₁⟩ := result
      cases wasNew with
      | false => exact hrecord
      | true =>
          dsimp only
          have hexec := hrecord.executeChosenLearns env
          generalize a₁.executeChosenLearns env = a₂ at hexec ⊢
          -- a message sends full batches only
          have hsent := (hexec.report (some a₂.config.messageBatchSize) true).2
          rw [if_pos hexec.send]
          split
          · next hd =>
            rw [hd] at hsent
            exact hsent
          · next hd =>
            rw [hd] at hsent
            exact hsent
  | adu s =>
      exact ⟨hmono.event, hmono.send, hmono.consistent.sameCore ⟨rfl, rfl⟩, hmono.inOrder.send _ rfl⟩
  | _ => exact hmono

/-- The events of a run without restart in which the agent itself sends its results off. -/
def Event.Uninterrupted : Event → Prop
  | .restart _ => False
  | .collectExecuted _ _ => False
  | _ => True

theorem Orderly.step {x : Lifetime} (h : x.agent.Orderly x.recorded) (hash : String → Nat)
    {e : Event} (he : e.Uninterrupted) :
    (x.step hash e).agent.Orderly (x.step hash e).recorded := by
  have hmono : ∀ a : LearnerAgent, a.Orderly x.recorded → a.Orderly (x.step hash e).recorded :=
    fun a ha => ⟨ha.event, ha.send, ha.consistent.mono (List.subset_append_left ..),
      ha.inOrder.mono (fun _ he => List.mem_append_left _ he)⟩
  cases e with
  | tick env => exact hmono _ (h.handleTick env)
  | message env m => exact h.handleMessage env m
  | recordLearn env slot value sender => exact h.recordLearn env slot value sender
  | executeChosenLearns env => exact hmono _ (h.executeChosenLearns env)
  | collectExecuted batchSize full => exact he.elim
  | evaluateRetry env => exact hmono _ (h.evaluateRetry env)
  | maybeFlushState env => exact hmono _ (h.maybeFlushState env)
  | sendHeartbeat =>
      exact hmono _ ⟨h.event, h.send, h.consistent.sameCore ⟨rfl, rfl⟩, h.inOrder.send _ rfl⟩
  | restart env => exact he.elim

/-- **A run executes and reports in order.** From fresh files, without a restart, the slots up to the
cursor have been applied to the store one after the other, and what has been sent and what is
buffered are their results. -/
theorem executed_and_reported_in_order (hash : String → Nat) (script : List (Option String))
    (env : Env) (node : Node) (nodes : List Node) (config : RunConfig) (events : List Event)
    (hevent : config.isEventDriven = true) (hsend : config.learnersSendExecuted = true)
    (hrun : ∀ e ∈ events, e.Uninterrupted) :
    let x := run (Lifetime.step hash) ⟨new hash (freshDir script) env node nodes config, []⟩ events
    x.agent.InOrder (· ∈ x.recorded) := by
  have hnew : (new hash (freshDir script) env node nodes config).InOrder (· ∈ []) := by
    rw [InOrder, getAdu_new]
    exact ⟨fun _ => Value.noOp, fun slot h1 h0 => absurd (le_trans h1 h0) (Nat.not_succ_le_zero 0),
      rfl, rfl, fun _ h => nomatch h⟩
  have hstart : (new hash (freshDir script) env node nodes config).Orderly [] :=
    ⟨hevent, hsend, consistent_new hash script env node nodes config, hnew⟩
  exact (run_invariant_of_mem (E := Event.Uninterrupted) (P := fun x : Lifetime => x.agent.Orderly x.recorded)
    (fun x e hx he => hx.step hash he) hstart hrun).inOrder

/-- Two learns in the wrong order, then a tick. -/
def secondSlotFirst : List Event :=
  [.message Env.quiet { sender := { nodeId := 1, address := "", role := .proposer }
                        payload := .learn { slot := 2, value := setX "b" } },
    .message Env.quiet { sender := { nodeId := 1, address := "", role := .proposer }
                         payload := .learn { slot := 1, value := setX "a" } },
    .tick { Env.quiet with now := 100 }]

theorem second_slot_first_in_order :
    let x := run (Lifetime.step (fun _ => 0)) soleLearner secondSlotFirst
    x.agent.InOrder (· ∈ x.recorded) :=
  executed_and_reported_in_order (fun _ => 0) [] Env.quiet
    { nodeId := 3, address := "", role := .learner } [{ nodeId := 1, address := "", role := .proposer }]
    { RunConfig.shipped with acceptorsSendLearns := false } secondSlotFirst rfl rfl
    (by simp [secondSlotFirst, Event.Uninterrupted])

end LearnerAgent

end PaxosWasm
