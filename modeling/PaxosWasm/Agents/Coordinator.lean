import PaxosWasm.Agents.AcceptorAgent
import PaxosWasm.Agents.ProposerAgent

/-!
# The node

`runners/paxos-coordinator`: a node runs one agent, or all three of them as a coordinator, and hands
ticks and messages to them. Logging is left out, and so is the failure detector: its verdict is an
argument of `failureService`. A tick that panics returns the panic's message next to the state it
leaves.
-/

namespace PaxosWasm

open Library

/-- The agents of a node with the role `coordinator`. -/
structure Trio where
  proposer : ProposerAgent
  acceptor : AcceptorAgent
  learner : LearnerAgent

inductive Agents where
  | proposer (p : ProposerAgent)
  | acceptor (a : AcceptorAgent)
  | learner (l : LearnerAgent)
  | coordinator (t : Trio)

/-- `MyPaxosCoordinatorResource`. -/
structure PaxosCoordinator where
  config : RunConfig
  node : Node
  /-- The other nodes. -/
  nodes : List Node
  agents : Agents

namespace Trio

/-! ## The tick of a coordinator, piece by piece

The three agents are called directly, one after the other. Where one of them panics, the tick ends with the
state it has reached by then. -/

/-- Have the node's own acceptor or proposer send the learns again. -/
def retryLearns (t : Trio) (config : RunConfig) (env : Env) (slots : List Slot) : Trio :=
  if config.acceptorsSendLearns then { t with acceptor := t.acceptor.retryLearns slots }
  else { t with proposer := t.proposer.retryLearns env slots }

def maybeRetryLearn (t : Trio) (config : RunConfig) (env : Env) : Trio :=
  match t.learner.evaluateRetry env with
  | (.noGap, learner) => { t with learner }
  | (.skip _, learner) => { t with learner }
  | (.retry slots, learner) => retryLearns { t with learner } config env slots

/-- Execute what is learned, and hand all results to the proposer of a leader. -/
def driveLearner (t : Trio) (env : Env) : Trio :=
  let (exec, learner) := (t.learner.executeChosenLearns env).collectExecuted none false
  if t.proposer.proposer.isLeader ∧ exec.results ≠ [] then
    { t with learner, proposer := t.proposer.processExecuted env exec }
  else { t with learner }

def maybeFlushStates (t : Trio) (config : RunConfig) (env : Env) : Trio :=
  if config.persistentStorage then
    { proposer := t.proposer.maybeFlushState env
      acceptor := t.acceptor.maybeFlushState env
      learner := t.learner.maybeFlushState env }
  else t

/-- Phase 1 with the promise of the node's own acceptor; panics if that one refuses. -/
def preparePhase (t : Trio) (env : Env) : Except String PrepareResult × Trio :=
  let slot := nextSlot t.learner.getAdu
  let ballot := t.proposer.proposer.currentBallot
  match t.acceptor.processPrepare env slot ballot with
  | (.promised promise, acceptor) =>
      let (result, proposer) := t.proposer.preparePhase env slot ballot [promise]
      (.ok result, { t with acceptor, proposer })
  | (.rejected _, acceptor) => (.error "Local prepare failure", { t with acceptor })

/-- The acceptor's learn of a value it has just accepted, recorded by the node's own learner. -/
def commitLocally (t : Trio) (env : Env) (config : RunConfig) (node : Node) (slot : Slot)
    (value : Value) : Except String Unit × Trio :=
  if config.acceptorsSendLearns then
    match t.acceptor.commitPhase slot value with
    | (.error e, acceptor) => (.error e, { t with acceptor })
    | (.ok none, acceptor) => (.ok (), { t with acceptor })
    | (.ok (some learn), acceptor) =>
        (.ok (), { t with
          acceptor
          learner := (t.learner.recordLearn env learn.slot learn.value node).2 })
  else (.ok (), t)

/-- One round of the loop of `acceptPhase`: accept locally, then broadcast; panics if the node's own
acceptor refuses, and unless event driven. -/
def acceptOne (t : Trio) (env : Env) (config : RunConfig) (node : Node) (p : Proposal) :
    Except String Unit × Trio :=
  match t.acceptor.processAccept env p.slot p.ballot p.value with
  | (.rejected _, acceptor) =>
      (.error "Local acceptance failure in coordinator.accept_phase", { t with acceptor })
  | (.accepted acc, acceptor) =>
      let (result, proposer) := t.proposer.acceptPhase env p.value p.slot p.ballot [acc]
      match commitLocally { t with acceptor, proposer } env config node p.slot p.value with
      | (.error e, t) => (.error e, t)
      | (.ok _, t) =>
          if result = .isEventDriven then (.ok (), t)
          else (.error "Coordinator.accept_phase only supports event-driven", t)

def acceptEach (t : Trio) (env : Env) (config : RunConfig) (node : Node) :
    List Proposal → Except String AcceptResult × Trio
  | [] => (.ok .isEventDriven, t)
  | p :: ps =>
      match t.acceptOne env config node p with
      | (.error e, t) => (.error e, t)
      | (.ok _, t) => t.acceptEach env config node ps

def acceptPhase (t : Trio) (env : Env) (config : RunConfig) (node : Node) :
    Except String AcceptResult × Trio :=
  match t.proposer.proposalsToAccept with
  | (.error e, proposer) => (.error e, { t with proposer })
  | (.ok props, proposer) =>
      if props = [] then (.ok .missingProposal, { t with proposer })
      else acceptEach { t with proposer } env config node props

/-- Broadcast a learn and record it locally. -/
def commitOne (env : Env) (node : Node) (t : Trio) (learn : Learn) : Trio :=
  { t with
    proposer := t.proposer.broadcastLearn learn
    learner := (t.learner.recordLearn env learn.slot learn.value node).2 }

def commitPhase (t : Trio) (env : Env) (config : RunConfig) (node : Node) :
    Option (List ClientResponse) × Trio :=
  let t :=
    if !config.acceptorsSendLearns then
      let (toCommit, proposer) := t.proposer.learnsToCommit
      toCommit.foldl (commitOne env node) { t with proposer }
    else t
  let (responses, proposer) := t.proposer.collectClientResponses
  (if responses = [] then none else some responses, { t with proposer })

/-- What a leader does in its phase. -/
def leaderTick (t : Trio) (env : Env) (config : RunConfig) (node : Node) :
    Except String (Option (List ClientResponse)) × Trio :=
  match t.proposer.phase with
  | .start => (.ok none, { t with proposer := t.proposer.startLeaderLoop })
  | .prepareSend =>
      match t.preparePhase env with
      | (.error e, t) => (.error e, t)
      | (.ok _, t) => (.ok none, t)
  | .preparePending => (.ok none, { t with proposer := (t.proposer.checkPrepareTimeout env).2 })
  | .acceptCommit =>
      match t.acceptPhase env config node with
      | (.error e, t) => (.error e, t)
      | (.ok _, t) =>
          let (responses, t) := t.commitPhase env config node
          (.ok responses, t)
  | .stop => (.ok none, t)
  | .crash => (.ok none, t)

def handleTick (t : Trio) (env : Env) (config : RunConfig) (node : Node) :
    Except String (Option (List ClientResponse)) × Trio :=
  let t := ((t.maybeRetryLearn config env).driveLearner env).maybeFlushStates config env
  if !t.proposer.proposer.isLeader then (.ok none, t) else t.leaderTick env config node

end Trio

namespace PaxosCoordinator

/-! ## The interface of the node

A node hands each message to the one of its agents that is interested in it. -/

/-- The directories of the agents of a node. -/
structure Dirs where
  proposer : Proposer.Dir
  acceptor : Acceptor.Dir
  learner : Learner.Dir

/-- The directories of a node before its first start. -/
def Dirs.empty : Dirs := { proposer := .empty, acceptor := .empty, learner := .empty }

/-- The agents of a node; there is no node for a client. -/
def newAgents (hash : String → Nat) (dirs : Dirs) (env : Env) (node : Node) (nodes : List Node)
    (isLeader : Bool) (config : RunConfig) : Option Agents :=
  match node.role with
  | .proposer => some (.proposer (ProposerAgent.new dirs.proposer env node nodes isLeader config))
  | .acceptor => some (.acceptor (AcceptorAgent.new hash dirs.acceptor env node nodes config))
  | .learner => some (.learner (LearnerAgent.new hash dirs.learner env node nodes config))
  | .coordinator =>
      some (.coordinator
        { proposer := ProposerAgent.new dirs.proposer env node nodes isLeader config
          acceptor := AcceptorAgent.new hash dirs.acceptor env node nodes config
          learner := LearnerAgent.new hash dirs.learner env node nodes config })
  | .client => none

def new (hash : String → Nat) (dirs : Dirs) (env : Env) (node : Node) (nodes : List Node)
    (isLeader : Bool) (config : RunConfig) : Option PaxosCoordinator :=
  (newAgents hash dirs env node nodes isLeader config).map (fun agents =>
    { config, node, nodes, agents })

/-! ### Routing

A message goes to the first of the node's agents that is interested in its kind, and its answer goes back
to the sender. -/

/-- A message of this node. -/
def message (n : PaxosCoordinator) (payload : MessagePayload) : NetworkMessage :=
  { sender := n.node, payload }

/-- The proposer agent of the node, if it runs one. -/
def proposer? (n : PaxosCoordinator) : Option ProposerAgent :=
  match n.agents with
  | .proposer p => some p
  | .coordinator t => some t.proposer
  | _ => none

/-- The acceptor agent of the node, if it runs one. -/
def acceptor? (n : PaxosCoordinator) : Option AcceptorAgent :=
  match n.agents with
  | .acceptor a => some a
  | .coordinator t => some t.acceptor
  | _ => none

/-- The learner agent of the node, if it runs one. -/
def learner? (n : PaxosCoordinator) : Option LearnerAgent :=
  match n.agents with
  | .learner l => some l
  | .coordinator t => some t.learner
  | _ => none

/-- Replace the proposer agent, if the node runs one. -/
def withProposer (n : PaxosCoordinator) (f : ProposerAgent → ProposerAgent) : PaxosCoordinator :=
  match n.agents with
  | .proposer p => { n with agents := .proposer (f p) }
  | .coordinator t => { n with agents := .coordinator { t with proposer := f t.proposer } }
  | _ => n

def isLeader (n : PaxosCoordinator) : Bool := n.proposer?.elim false (fun p => p.proposer.isLeader)

def submitClientRequest (n : PaxosCoordinator) (req : Value) : Bool × PaxosCoordinator :=
  (n.proposer?.elim false (fun p => (p.submitClientRequest req).1),
    n.withProposer (fun p => (p.submitClientRequest req).2))

def handleTick (n : PaxosCoordinator) (env : Env) :
    Except String (Option (List ClientResponse)) × PaxosCoordinator :=
  match n.agents with
  | .proposer p =>
      let (result, p) := p.handleTick env
      (result, { n with agents := .proposer p })
  | .acceptor a => (.ok none, { n with agents := .acceptor (a.handleTick env) })
  | .learner l => (.ok none, { n with agents := .learner (l.handleTick env) })
  | .coordinator t =>
      let (result, t) := t.handleTick env n.config n.node
      (result, { n with agents := .coordinator t })

/-- The messages a node hands to its proposer agent. -/
def toProposer (n : PaxosCoordinator) : MessagePayload → Bool
  | .promise _ => true
  | .accepted _ => true
  | .retryLearns _ => !n.config.acceptorsSendLearns
  -- a coordinator has its own learner, and drops these two
  | .adu _ => decide (n.node.role = .proposer)
  | .executed _ => decide (n.node.role = .proposer)
  | _ => false

/-- The messages a node hands to its acceptor agent. -/
def toAcceptor (n : PaxosCoordinator) : MessagePayload → Bool
  | .prepare _ => true
  | .accept _ => true
  | .retryLearns _ => n.config.acceptorsSendLearns
  | _ => false

/-- The messages a node hands to its learner agent. -/
def toLearner (n : PaxosCoordinator) : MessagePayload → Bool
  | .learn _ => true
  | .adu _ => decide (n.node.role = .learner)
  | _ => false

/-- The reply to a message no agent is interested in: a heartbeat is answered. -/
def defaultReply (n : PaxosCoordinator) : MessagePayload → NetworkMessage
  | .heartbeat => n.message .heartbeat
  | _ => n.message .ignore

def handleMessage (n : PaxosCoordinator) (env : Env) (m : NetworkMessage) :
    NetworkMessage × PaxosCoordinator :=
  match n.agents with
  | .proposer p =>
      if n.toProposer m.payload then
        let (reply, p) := p.handleMessage env m
        (reply, { n with agents := .proposer p })
      else (n.defaultReply m.payload, n)
  | .acceptor a =>
      if n.toAcceptor m.payload then
        let (reply, a) := a.handleMessage env m
        (reply, { n with agents := .acceptor a })
      else (n.defaultReply m.payload, n)
  | .learner l =>
      if n.toLearner m.payload then
        let (reply, l) := l.handleMessage env m
        (reply, { n with agents := .learner l })
      else (n.defaultReply m.payload, n)
  | .coordinator t =>
      if n.toProposer m.payload then
        let (reply, proposer) := t.proposer.handleMessage env m
        (reply, { n with agents := .coordinator { t with proposer } })
      else if n.toAcceptor m.payload then
        let (reply, acceptor) := t.acceptor.handleMessage env m
        (reply, { n with agents := .coordinator { t with acceptor } })
      else if n.toLearner m.payload then
        let (reply, learner) := t.learner.handleMessage env m
        (reply, { n with agents := .coordinator { t with learner } })
      else (n.defaultReply m.payload, n)

/-- Act on the verdict of the failure detector. -/
def failureService (n : PaxosCoordinator) (env : Env) (maybeNewLeader : Option NodeId) :
    PaxosCoordinator :=
  match maybeNewLeader with
  | none => n
  | some leaderId =>
      if leaderId = n.node.nodeId ∧ !n.isLeader then n.withProposer (fun p => (p.becomeLeader env).2)
      else if leaderId ≠ n.node.nodeId ∧ n.isLeader then
        n.withProposer (fun p => p.resignLeader.2)
      else n

def sendHeartbeat (n : PaxosCoordinator) : PaxosCoordinator :=
  match n.agents with
  | .proposer p => { n with agents := .proposer p.sendHeartbeat }
  | .acceptor a => { n with agents := .acceptor a.sendHeartbeat }
  | .learner l => { n with agents := .learner l.sendHeartbeat }
  | .coordinator t => { n with agents := .coordinator { t with proposer := t.proposer.sendHeartbeat } }

end PaxosCoordinator

end PaxosWasm
