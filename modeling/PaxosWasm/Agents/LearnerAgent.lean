import PaxosWasm.Core.KvStore
import PaxosWasm.Core.Learner

/-!
# The learner agent

`agents/learner-agent`: feeds incoming learns to the core learner, applies what becomes executable
to the key-value store, and sends the results back in batches. Logging and the throughput counters
are left out.
-/

namespace PaxosWasm

open Library

/-! ## The agent

A core learner and a key-value store, with the results that have not been reported yet. -/

/-- The nodes that run a proposer. -/
def proposerNodes (nodes : List Node) : List Node :=
  nodes.filter (fun x => decide (x.role = .proposer ∨ x.role = .coordinator))

/-- The nodes that run an acceptor. -/
def acceptorNodes (nodes : List Node) : List Node :=
  nodes.filter (fun x => decide (x.role = .acceptor ∨ x.role = .coordinator))

/-- The nodes that run a learner. -/
def learnerNodes (nodes : List Node) : List Node :=
  nodes.filter (fun x => decide (x.role = .learner ∨ x.role = .coordinator))

/-- `MyLearnerAgentResource`. -/
structure LearnerAgent where
  config : RunConfig
  node : Node
  proposers : List Node
  acceptors : List Node
  allNodes : List Node
  learner : Learner
  kvStore : KvStore
  networkClient : NetworkClient
  lastLearnTime : Nat
  /-- When the learns of a slot were last asked for. -/
  retries : OrdMap Slot Nat
  execBuffer : List ExecuteResult
  lastExecTime : Nat

namespace LearnerAgent

/-- A new agent loads the state of its core learner; a failing load is only logged. -/
def new (hash : String → Nat) (dir : Learner.Dir) (env : Env) (node : Node) (nodes : List Node)
    (config : RunConfig) : LearnerAgent :=
  let acceptors := acceptorNodes nodes
  let numAcceptors := acceptors.length + (if node.role = .coordinator then 1 else 0)
  let learner := Learner.new hash dir env numAcceptors (toString node.nodeId) config
  { config
    node
    proposers := proposerNodes nodes
    acceptors
    allNodes := nodes
    learner := learner.loadState.2
    kvStore := KvStore.new
    networkClient := NetworkClient.new
    lastLearnTime := env.now
    retries := ∅
    execBuffer := []
    lastExecTime := env.now }

/-- Without storage, a new agent has a new core learner. -/
theorem learner_new_of_memory (hash : String → Nat) (dir : Learner.Dir) (env : Env) (node : Node)
    (nodes : List Node) {config : RunConfig} (hmemory : config.persistentStorage = false) :
    (new hash dir env node nodes config).learner =
      Learner.new hash dir env (new hash dir env node nodes config).learner.numAcceptors
        (toString node.nodeId) config := by
  show (Learner.loadState _).2 = _
  rw [Learner.loadState_of_memory hmemory]
  rfl

def getAdu (a : LearnerAgent) : Slot := a.learner.adu

/-- A message of this node. -/
def message (a : LearnerAgent) (payload : MessagePayload) : NetworkMessage :=
  { sender := a.node, payload }

def send (a : LearnerAgent) (targets : List Node) (payload : MessagePayload) : LearnerAgent :=
  { a with networkClient := a.networkClient.sendMessageForget targets (a.message payload) }

/-! ## Learns and executions

A learn goes to the core learner. What is next to the cursor is then executed: it is applied to the store, and
its result goes to the buffer. -/

/-- Send a batch of results to the proposers, or hand it to the caller. -/
def dispatchExecuted (a : LearnerAgent) (exec : Executed) : Option NetworkMessage × LearnerAgent :=
  if !a.config.learnersSendExecuted ∨ exec.results = [] then (none, a)
  else if a.config.isEventDriven then (none, a.send a.proposers (.executed exec))
  else (some (a.message (.executed exec)), a)

/-- Record a learn, with a quorum of the acceptors where these send it. -/
def recordLearn (a : LearnerAgent) (env : Env) (slot : Slot) (value : Value) (sender : Node) :
    Bool × LearnerAgent :=
  let (wasNew, learner) :=
    if a.config.acceptorsSendLearns then a.learner.handleLearn env { slot, value } sender
    else a.learner.learn env slot value
  let a := { a with learner }
  (wasNew, if wasNew then { a with lastLearnTime := env.now } else a)

/-- Apply one learned entry to the store and buffer its result. -/
def executeEntry (a : LearnerAgent) (le : LearnedEntry) : LearnerAgent :=
  let (cmdRes, kvStore) := a.kvStore.apply le.value.command
  { a with
    kvStore
    execBuffer := a.execBuffer ++
      [{ slot := le.slot, value := le.value, success := decide (cmdRes ≠ .noOp), cmdResult := cmdRes }] }

/-- Pop the executable learns and apply them in order. -/
def executeChosenLearns (a : LearnerAgent) (env : Env) : LearnerAgent :=
  match a.learner.toBeExecuted env with
  | (.execute entries, learner) => entries.foldl executeEntry { a with learner }
  | (.ignore, learner) => { a with learner }

/-- Take up to `batchSize` results off the buffer, or none if a full batch is required and missing. -/
def collectExecuted (a : LearnerAgent) (batchSize : Option Nat) (requireFullBatch : Bool) :
    Executed × LearnerAgent :=
  let available := match batchSize with
    | some n => min a.execBuffer.length (asUsize n)
    | none => a.execBuffer.length
  if requireFullBatch && batchSize.elim false (fun n => decide (available < asUsize n)) then
    ({ results := [], adu := a.getAdu }, a)
  else
    ({ results := a.execBuffer.take available, adu := a.getAdu },
      { a with execBuffer := a.execBuffer.drop available })

/-! ## Learns that are missing

Every slot between the cursor and the highest learned one is asked for again, unless it has been asked for
lately. -/

/-- One step of the scan for slots to retry; past the cap the scan has ended. -/
def retrySlot (now globalTimeout batchCap : Nat) (acc : List Slot × OrdMap Slot Nat) (slot : Slot) :
    List Slot × OrdMap Slot Nat :=
  let (toRetry, retries) := acc
  if toRetry.length ≥ batchCap then (toRetry, retries)
  else
    let slotElapsed := ((retries.get? slot).map (now - ·)).getD (globalTimeout + 1)
    if slotElapsed ≥ globalTimeout then (toRetry ++ [slot], retries.insert slot now)
    else (toRetry, retries)

/-- Which slots below the highest learned one to ask for again. -/
def evaluateRetry (a : LearnerAgent) (env : Env) : RetryLearnResult × LearnerAgent :=
  let globalElapsed := env.now - a.lastLearnTime
  let globalTimeout := a.config.retryIntervalMs
  let highest := a.learner.getHighestLearned
  let adu := a.learner.adu
  if highest - adu < a.config.learnMaxGap ∧ globalElapsed < globalTimeout then (.noGap, a)
  else
    let (toRetry, retries) := (List.range' (adu + 1) (highest - adu)).foldl
      (retrySlot env.now globalTimeout (asUsize a.config.messageBatchSize)) ([], a.retries)
    let a := { a with retries }
    if toRetry = [] then (.skip adu, a)
    else (.retry toRetry, { a with lastLearnTime := env.now })

/-- Ask those that send the learns for them again. -/
def sendRetryLearns (a : LearnerAgent) (slots : List Slot) : LearnerAgent :=
  if a.config.acceptorsSendLearns then a.send a.acceptors (.retryLearns { slots })
  else a.send a.proposers (.retryLearns { slots })

def handleEvaluateRetry (a : LearnerAgent) (env : Env) : LearnerAgent :=
  match a.evaluateRetry env with
  | (.noGap, a) => a
  | (.skip _, a) => a
  | (.retry slots, a) => a.sendRetryLearns slots

/-! ## Ticks and messages -/

/-- Flush what is due; a failure is only logged. -/
def maybeFlushState (a : LearnerAgent) (env : Env) : LearnerAgent :=
  { a with learner := (a.learner.maybeFlush env).2 }

def handleTick (a : LearnerAgent) (env : Env) : LearnerAgent :=
  let a := a.handleEvaluateRetry env
  if env.now - a.lastExecTime < a.config.execIntervalMs then a
  else
    let a := { a with lastExecTime := env.now }
    let a := a.executeChosenLearns env
    let a :=
      if a.config.learnersSendExecuted then
        let (exec, a) := a.collectExecuted (some a.config.messageBatchSize) false
        if exec.results = [] then a else (a.dispatchExecuted exec).2
      else a
    a.maybeFlushState env

def handleMessage (a : LearnerAgent) (env : Env) (m : NetworkMessage) :
    NetworkMessage × LearnerAgent :=
  match m.payload with
  | .learn payload =>
      match a.recordLearn env payload.slot payload.value m.sender with
      | (false, a) => (a.message .ignore, a)
      | (true, a) =>
          let a := a.executeChosenLearns env
          if a.config.learnersSendExecuted then
            let (exec, a) := a.collectExecuted (some a.config.messageBatchSize) true
            match a.dispatchExecuted exec with
            | (some reply, a) => (reply, a)
            | (none, a) => (a.message .ignore, a)
          else (a.message .ignore, a)
  | .adu _ =>
      let a' := a.send [m.sender] (.adu a.getAdu)
      (a.message (.adu a.getAdu), a')
  | _ => (a.message .ignore, a)

def sendHeartbeat (a : LearnerAgent) : LearnerAgent := a.send a.allNodes .heartbeat

end LearnerAgent

end PaxosWasm
