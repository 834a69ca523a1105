import PaxosWasm.Agents.LearnerAgent
import PaxosWasm.Core.Proposer

/-!
# The proposer agent

`agents/proposer-agent`: the phases of a leader, the promises and acceptances collected from the
acceptors, and the responses to the clients. A handler that can panic returns the panic's message
next to the state it leaves. Logging is left out.
-/

namespace PaxosWasm

open Library

/-- The replies to a broadcast, or its result where none are waited for. -/
inductive CollectedResponses (τ ρ : Type) where
  | synchronous (responses : List τ)
  | eventDriven (result : ρ)

/-- `MyProposerAgentResource`. -/
structure ProposerAgent where
  config : RunConfig
  phase : PaxosPhase
  node : Node
  proposer : Proposer
  numAcceptors : Nat
  acceptors : List Node
  learners : List Node
  allNodes : List Node
  networkClient : NetworkClient
  /-- The promises of each ballot, by sender. -/
  promises : OrdMap Ballot (OrdMap NodeId Promise)
  /-- The acceptances of each slot, by sender. -/
  inFlightAccepted : OrdMap Slot (OrdMap NodeId Accepted)
  clientResponses : OrdMap Slot ClientResponse
  lastPrepareStart : Option Nat
  lastGetAduStart : Nat
  hasReceivedAdu : Bool
  /-- Slots to crash on, for testing. -/
  slotCrashList : List Slot

namespace ProposerAgent

/-- A new agent loads the state of its core proposer; a failing load is only logged. -/
def new (dir : Proposer.Dir) (env : Env) (node : Node) (nodes : List Node) (isLeader : Bool)
    (config : RunConfig) : ProposerAgent :=
  let acceptors := acceptorNodes nodes
  let numAcceptors := acceptors.length + (if node.role = .coordinator then 1 else 0)
  let proposer := Proposer.new dir env isLeader numAcceptors node.nodeId config
  { config
    phase := .start
    node
    proposer := proposer.loadState.2
    numAcceptors := asUsize numAcceptors
    acceptors
    learners := learnerNodes nodes
    allNodes := nodes
    networkClient := NetworkClient.new
    promises := ∅
    inFlightAccepted := ∅
    clientResponses := ∅
    lastPrepareStart := none
    lastGetAduStart := env.now
    hasReceivedAdu := false
    slotCrashList := ((config.crashes.find? (fun c => decide (c.head? = some node.nodeId))).map
      List.tail).getD [] }

/-- A message of this node. -/
def message (a : ProposerAgent) (payload : MessagePayload) : NetworkMessage :=
  { sender := a.node, payload }

def send (a : ProposerAgent) (targets : List Node) (payload : MessagePayload) : ProposerAgent :=
  { a with networkClient := a.networkClient.sendMessageForget targets (a.message payload) }

def getQuorumAcceptors (a : ProposerAgent) : Nat := a.numAcceptors / 2 + 1

/-! ## Phases

A leader goes from `PrepareSend` through `PreparePending` to `AcceptCommit`, or back to `PrepareSend` when
the prepare times out. -/

def setPhase (a : ProposerAgent) (newPhase : PaxosPhase) : ProposerAgent :=
  { a with phase := newPhase }

/-- The next phase, given the outcome of the prepare round. -/
def advancePhase (a : ProposerAgent) (prepareSuccess : Option Bool) : ProposerAgent :=
  a.setPhase
    (match a.phase with
    | .start => .prepareSend
    | .prepareSend => .preparePending
    | .preparePending =>
        match prepareSuccess with
        | some true => .acceptCommit
        | some false => .prepareSend
        | none => .prepareSend
    | phase => phase)

def startPrepareRound (a : ProposerAgent) (env : Env) : ProposerAgent :=
  { a with lastPrepareStart := some env.now }.advancePhase none

def startLeaderLoop (a : ProposerAgent) : ProposerAgent := a.setPhase .prepareSend

def checkPrepareTimeout (a : ProposerAgent) (env : Env) : Bool × ProposerAgent :=
  if a.phase = .preparePending then
    match a.lastPrepareStart with
    | some start =>
        if env.now - start ≥ a.config.prepareTimeout then
          (true, { a.advancePhase (some false) with lastPrepareStart := none })
        else (false, a)
    | none => (false, a)
  else (false, a)

/-! ## Phase 1

The prepare goes to all acceptors at once. The promises are kept by ballot, and the core proposer is handed
all of the highest ballot as soon as they are a quorum, and again with each that follows. -/

def insertAndCheckPromises (a : ProposerAgent) (promise : Promise) (sender : Node) :
    Option (Ballot × List Promise) × ProposerAgent :=
  let ofBallot := ((a.promises.get? promise.ballot).getD ∅).insert sender.nodeId promise
  let a := { a with promises := a.promises.insert promise.ballot ofBallot }
  -- a quorum is looked for in the group of the highest ballot only
  match a.promises.last? with
  | some (highestBallot, promiseMap) =>
      (if promiseMap.size ≥ a.getQuorumAcceptors then some (highestBallot, promiseMap.values)
        else none, a)
  | none => (none, a)

def processPromises (a : ProposerAgent) (slot : Slot) (promises : List Promise) :
    PrepareResult × ProposerAgent :=
  let (res, proposer) := a.proposer.processPrepare slot promises
  (res, { a with proposer })

/-- Enough of the promises are for the current ballot: `process_prepare` succeeds on them. -/
def Completes (a : ProposerAgent) (promises : List Promise) : Prop :=
  a.proposer.quorum ≤
    (promises.filter (fun pr => decide (pr.ballot = a.proposer.currentBallot))).length

instance (a : ProposerAgent) (promises : List Promise) : Decidable (a.Completes promises) :=
  inferInstanceAs (Decidable (_ ≤ _))

/-- Only a success changes something: it advances the phase. -/
def handlePrepareResult (a : ProposerAgent) : PrepareResult → ProposerAgent
  | .success => a.advancePhase (some true)
  | .quorumFailure => a
  | .isEventDriven => a

def broadcastPrepare (a : ProposerAgent) (env : Env) (slot : Slot) (ballot : Ballot) :
    CollectedResponses Promise PrepareResult × ProposerAgent :=
  let a' := a.send a.acceptors (.prepare { slot, ballot })
  if !a.config.isEventDriven then
    (.synchronous ((env.responses (a.message (.prepare { slot, ballot }))).filterMap (fun m =>
      match m.payload with
      | .promise promise => some promise
      | _ => none)), a')
  else (.eventDriven .isEventDriven, a')

def preparePhase (a : ProposerAgent) (env : Env) (slot : Slot) (ballot : Ballot)
    (initialPromises : List Promise) : PrepareResult × ProposerAgent :=
  match a.broadcastPrepare env slot ballot with
  | (.eventDriven result, a) =>
      (result, initialPromises.foldl (fun a promise => (a.insertAndCheckPromises promise a.node).2)
        (a.startPrepareRound env))
  | (.synchronous responses, a) =>
      let (result, a) := a.processPromises slot (responses ++ initialPromises)
      (result, a.handlePrepareResult result)

/-- Ask the learners for their cursor, not more often than the prepare timeout. -/
def getLearnerAdu (a : ProposerAgent) (env : Env) : ProposerAgent :=
  if env.now - a.lastGetAduStart < a.config.prepareTimeout then a
  else { a.send a.learners (.adu 0) with lastGetAduStart := env.now }

/-! ## Phase 2

An acceptance is filed under its slot. When they are a quorum, the core proposer decides whether the
proposal is chosen. -/

def insertAndCheckAccepted (a : ProposerAgent) (accepted : Accepted) (sender : Node) :
    Option (Slot × List Accepted) × ProposerAgent :=
  let slot := accepted.slot
  let ofSlot := ((a.inFlightAccepted.get? slot).getD ∅).insert sender.nodeId accepted
  let a := { a with inFlightAccepted := a.inFlightAccepted.insert slot ofSlot }
  (if ofSlot.size ≥ a.getQuorumAcceptors then some (slot, ofSlot.values) else none, a)

def processAccepted (a : ProposerAgent) (slot : Slot) (accepts : List Accepted) : AcceptResult :=
  a.proposer.processAccept slot accepts

def markProposalChosen (a : ProposerAgent) (slot : Slot) : Option Value × ProposerAgent :=
  let (value, proposer) := a.proposer.markProposalChosen slot
  (value, { a with proposer })

/-- Only a quorum changes something: it marks the proposal chosen. -/
def handleAcceptResult (a : ProposerAgent) (slot : Slot) : AcceptResult → ProposerAgent
  | .accepted _ => (a.markProposalChosen slot).2
  | .quorumFailure => a
  | .missingProposal => a
  | .isEventDriven => a

def broadcastAccept (a : ProposerAgent) (env : Env) (value : Value) (slot : Slot)
    (ballot : Ballot) : CollectedResponses Accepted AcceptResult × ProposerAgent :=
  let a' := a.send a.acceptors (.accept { slot, ballot, value })
  if !a.config.isEventDriven then
    (.synchronous ((env.responses (a.message (.accept { slot, ballot, value }))).filterMap (fun m =>
      match m.payload with
      | .accepted accepted => some accepted
      | _ => none)), a')
  else (.eventDriven .isEventDriven, a')

def acceptPhase (a : ProposerAgent) (env : Env) (value : Value) (slot : Slot) (ballot : Ballot)
    (initialAccepts : List Accepted) : AcceptResult × ProposerAgent :=
  match a.broadcastAccept env value slot ballot with
  | (.eventDriven result, a) =>
      (result,
        initialAccepts.foldl (fun a accepted => (a.insertAndCheckAccepted accepted a.node).2) a)
  | (.synchronous responses, a) =>
      let result := a.processAccepted slot (responses ++ initialAccepts)
      (result, a.handleAcceptResult slot result)

def createProposal (a : ProposerAgent) : Option Proposal × ProposerAgent :=
  let (proposal, proposer) := a.proposer.createProposal
  (proposal, { a with proposer })

/-- Up to `fuel` further proposals; panics on a slot of the crash list. -/
def proposalsFor (a : ProposerAgent) (toAccept : List Proposal) :
    Nat → Except String (List Proposal) × ProposerAgent
  | 0 => (.ok toAccept, a)
  | fuel + 1 =>
      match a.createProposal with
      | (some prop, a) =>
          if prop.slot ∈ a.slotCrashList then (.error s!"Testing crash on slot {prop.slot}", a)
          else a.proposalsFor (toAccept ++ [prop]) fuel
      | (none, a) => (.ok toAccept, a)

def proposalsToAccept (a : ProposerAgent) : Except String (List Proposal) × ProposerAgent :=
  a.proposalsFor [] a.config.batchSize

/-! ## Learns and responses

A chosen proposal is announced to the learners. A result that comes back answers the client whose request
was in its slot, and a command that was executed as a no-op is queued again. -/

def broadcastLearn (a : ProposerAgent) (learn : Learn) : ProposerAgent :=
  a.send a.learners (.learn learn)

def reserveNextChosenProposal (a : ProposerAgent) : Option Proposal × ProposerAgent :=
  let (proposal, proposer) := a.proposer.reserveNextChosenProposal
  (proposal, { a with proposer })

/-- Up to `fuel` further learns. -/
def learnsFor (a : ProposerAgent) (learns : List Learn) : Nat → List Learn × ProposerAgent
  | 0 => (learns, a)
  | fuel + 1 =>
      match a.reserveNextChosenProposal with
      | (some p, a) => a.learnsFor (learns ++ [{ slot := p.slot, value := p.value }]) fuel
      | (none, a) => (learns, a)

def learnsToCommit (a : ProposerAgent) : List Learn × ProposerAgent :=
  a.learnsFor [] a.config.batchSize

/-- Up to `fuel` further responses, in slot order. -/
def responsesFor (a : ProposerAgent) (out : List ClientResponse) :
    Nat → List ClientResponse × ProposerAgent
  | 0 => (out, a)
  | fuel + 1 =>
      match a.clientResponses.popFirst with
      | (some (_, resp), rest) =>
          { a with clientResponses := rest }.responsesFor (out ++ [resp]) fuel
      | (none, _) => (out, a)

def collectClientResponses (a : ProposerAgent) : List ClientResponse × ProposerAgent :=
  a.responsesFor [] a.config.batchSize

/-- The loop of `acceptCommit` over its proposals; panics unless event driven. -/
def acceptAll (a : ProposerAgent) (env : Env) : List Proposal → Except String Unit × ProposerAgent
  | [] => (.ok (), a)
  | prop :: props =>
      match a.acceptPhase env prop.value prop.slot prop.ballot [] with
      | (.isEventDriven, a) => a.acceptAll env props
      | (_, a) => (.error "accept_commit only supports event-driven accepts", a)

def acceptCommit (a : ProposerAgent) (env : Env) :
    Except String (Option (List ClientResponse)) × ProposerAgent :=
  match a.proposalsToAccept with
  | (.error e, a) => (.error e, a)
  | (.ok props, a) =>
      match a.acceptAll env props with
      | (.error e, a) => (.error e, a)
      | (.ok _, a) =>
          let a :=
            if !a.config.acceptorsSendLearns then
              let (learns, a) := a.learnsToCommit
              learns.foldl broadcastLearn a
            else a
          let (responses, a) := a.collectClientResponses
          (.ok (if responses = [] then none else some responses), a)

/-- One round of the loop of `processExecuted`. -/
def processResult (a : ProposerAgent) (result : ExecuteResult) : ProposerAgent :=
  match a.proposer.markProposalFinalized result.slot with
  | (none, proposer) => { a with proposer }
  | (some value, proposer) =>
      let resp : ClientResponse :=
        { clientId := value.clientId
          clientSeq := value.clientSeq
          success := result.success
          commandResult := result.cmdResult }
      let a := { a with proposer, clientResponses := a.clientResponses.insert result.slot resp }
      -- a command whose slot was executed as a no-op is proposed again
      if result.cmdResult = .noOp ∧ value.command.isSome then
        { a with proposer := a.proposer.enqueuePrioritizedRequest value }
      else a

def processExecuted (a : ProposerAgent) (env : Env) (executed : Executed) : ProposerAgent :=
  let a :=
    if executed.adu > a.proposer.adu then
      { a with proposer := a.proposer.setAdu env executed.adu }
    else a
  if !a.proposer.isLeader then a else executed.results.foldl processResult a

/-- Resend the learn of a reserved proposal, or the accept of one in flight. -/
def retrySlot (env : Env) (a : ProposerAgent) (slot : Slot) : ProposerAgent :=
  match a.proposer.getProposalByStatus slot .commitPending with
  | some chosen => a.broadcastLearn { slot, value := chosen.value }
  | none =>
      match a.proposer.getProposalByStatus slot .inFlight with
      | some inFlight => (a.acceptPhase env inFlight.value inFlight.slot inFlight.ballot []).2
      | none => a

def retryLearns (a : ProposerAgent) (env : Env) (slots : List Slot) : ProposerAgent :=
  slots.foldl (retrySlot env) a

/-! ## Messages and ticks

The two ways into the agent, and the verdicts of the failure detector. -/

def handlePromise (a : ProposerAgent) (sender : Node) (payload : Promise) : ProposerAgent :=
  match a.insertAndCheckPromises payload sender with
  | (some (_, promiseList), a) =>
      let (result, a) := a.processPromises payload.slot promiseList
      a.handlePrepareResult result
  | (none, a) => a

def handleAccepted (a : ProposerAgent) (sender : Node) (payload : Accepted) : ProposerAgent :=
  match a.insertAndCheckAccepted payload sender with
  | (some (slot, acceptedList), a) =>
      a.handleAcceptResult slot (a.processAccepted slot acceptedList)
  | (none, a) => a

def handleMessage (a : ProposerAgent) (env : Env) (m : NetworkMessage) :
    NetworkMessage × ProposerAgent :=
  match m.payload with
  | .promise payload => (a.message .ignore, a.handlePromise m.sender payload)
  | .accepted payload => (a.message .ignore, a.handleAccepted m.sender payload)
  | .retryLearns retryLearns =>
      (a.message .ignore,
        if !a.proposer.isLeader then a else a.retryLearns env retryLearns.slots)
  | .executed executed => (a.message .ignore, a.processExecuted env executed)
  | .adu adu =>
      (a.message .ignore,
        { a with proposer := a.proposer.setAdu env adu, hasReceivedAdu := true })
  | _ => (a.message .ignore, a)

def submitClientRequest (a : ProposerAgent) (req : Value) : Bool × ProposerAgent :=
  let (res, proposer) := a.proposer.enqueueClientRequest req
  (res, { a with proposer })

def becomeLeader (a : ProposerAgent) (env : Env) : Bool × ProposerAgent :=
  let (res, proposer) := a.proposer.becomeLeader env
  (res, { a with proposer })

def resignLeader (a : ProposerAgent) : Bool × ProposerAgent :=
  let (res, proposer) := a.proposer.resignLeader
  (res, { a with proposer })

def handleTick (a : ProposerAgent) (env : Env) :
    Except String (Option (List ClientResponse)) × ProposerAgent :=
  match a.phase with
  | .start =>
      (.ok none,
        if a.proposer.isLeader then
          if !a.hasReceivedAdu then a.getLearnerAdu env else a.startLeaderLoop
        else a)
  | .prepareSend =>
      let slot := nextSlot a.proposer.adu
      let (ballot, proposer) := a.proposer.increaseBallot env
      match preparePhase { a with proposer } env slot ballot [] with
      | (.isEventDriven, a) => (.ok none, a)
      | (_, a) => (.error "Lol", a)
  | .preparePending => (.ok none, (a.checkPrepareTimeout env).2)
  | .acceptCommit => a.acceptCommit env
  | .stop => (.ok none, a)
  | .crash => (.ok none, a)

def sendHeartbeat (a : ProposerAgent) : ProposerAgent := a.send a.allNodes .heartbeat

/-- Flush what is due; a failure is only logged. -/
def maybeFlushState (a : ProposerAgent) (env : Env) : ProposerAgent :=
  { a with proposer := (a.proposer.maybeFlush env).2 }

end ProposerAgent

end PaxosWasm
