import PaxosWasm.Agents.LearnerAgent
import PaxosWasm.Core.Acceptor

/-!
# The acceptor agent

`agents/acceptor-agent`: hands requests to the core acceptor and sends its replies, or the learns in
their place where the acceptors send these. Logging is left out.
-/

namespace PaxosWasm

open Library

/-- `MyAcceptorAgentResource`. -/
structure AcceptorAgent where
  config : RunConfig
  node : Node
  learners : List Node
  acceptor : Acceptor
  networkClient : NetworkClient
  allNodes : List Node

namespace AcceptorAgent

/-- A new agent loads the state of its core acceptor; a failing load is only logged. -/
def new (hash : String → Nat) (dir : Acceptor.Dir) (env : Env) (node : Node) (nodes : List Node)
    (config : RunConfig) : AcceptorAgent :=
  { config
    node
    learners := learnerNodes nodes
    acceptor := (Acceptor.new hash dir env (toString node.nodeId) config).loadState.2
    networkClient := NetworkClient.new
    allNodes := nodes }

/-- A message of this node. -/
def message (a : AcceptorAgent) (payload : MessagePayload) : NetworkMessage :=
  { sender := a.node, payload }

def send (a : AcceptorAgent) (targets : List Node) (payload : MessagePayload) : AcceptorAgent :=
  { a with networkClient := a.networkClient.sendMessageForget targets (a.message payload) }

/-! ## Handlers

Phase 1 and phase 2 each ask the core acceptor and answer with what it says. -/

def processPrepare (a : AcceptorAgent) (env : Env) (slot : Slot) (ballot : Ballot) :
    PromiseResult × AcceptorAgent :=
  let (res, acceptor) := a.acceptor.prepare env slot ballot
  (res, { a with acceptor })

def processAccept (a : AcceptorAgent) (env : Env) (slot : Slot) (ballot : Ballot) (value : Value) :
    AcceptedResult × AcceptorAgent :=
  let (res, acceptor) := a.acceptor.accept env slot ballot value
  (res, { a with acceptor })

/-- Broadcast a learn; panics where the acceptors do not send learns. -/
def commitPhase (a : AcceptorAgent) (slot : Slot) (value : Value) :
    Except String (Option Learn) × AcceptorAgent :=
  if a.config.acceptorsSendLearns then
    let learn : Learn := { slot, value }
    (.ok (some learn), a.send a.learners (.learn learn))
  else (.error "Lol", a)

/-- The accepted value of a slot, or a no-op where there is none. -/
def acceptedOrNoOp (a : AcceptorAgent) (slot : Slot) : Value :=
  ((a.acceptor.getAccepted slot).bind PValue.value).getD Value.noOp

/-- Answer for each slot with its accepted value, or with a no-op, to all learners. -/
def retryLearns (a : AcceptorAgent) (slots : List Slot) : AcceptorAgent :=
  slots.foldl (fun a slot => a.send a.learners (.learn { slot, value := a.acceptedOrNoOp slot })) a

def handlePrepare (a : AcceptorAgent) (env : Env) (sender : Node) (payload : Prepare) :
    NetworkMessage × AcceptorAgent :=
  match a.processPrepare env payload.slot payload.ballot with
  | (.promised promise, a) =>
      (a.message (.promise promise),
        if a.config.isEventDriven then a.send [sender] (.promise promise) else a)
  | (.rejected _, a) => (a.message .ignore, a)

def handleAccept (a : AcceptorAgent) (env : Env) (sender : Node) (payload : Accept) :
    NetworkMessage × AcceptorAgent :=
  match a.processAccept env payload.slot payload.ballot payload.value with
  | (.accepted accepted, a) =>
      (a.message (.accepted accepted),
        if a.config.isEventDriven then
          if a.config.acceptorsSendLearns then
            a.send a.learners (.learn { slot := accepted.slot, value := payload.value })
          else a.send [sender] (.accepted accepted)
        else a)
  | (.rejected _, a) => (a.message .ignore, a)

def handleMessage (a : AcceptorAgent) (env : Env) (m : NetworkMessage) :
    NetworkMessage × AcceptorAgent :=
  match m.payload with
  | .prepare payload => a.handlePrepare env m.sender payload
  | .accept payload => a.handleAccept env m.sender payload
  | .retryLearns retryLearns => (a.message .ignore, a.retryLearns retryLearns.slots)
  | _ => (a.message .ignore, a)

/-- Flush what is due; a failure is only logged. -/
def maybeFlushState (a : AcceptorAgent) (env : Env) : AcceptorAgent :=
  { a with acceptor := (a.acceptor.maybeFlush env).2 }

def handleTick (a : AcceptorAgent) (env : Env) : AcceptorAgent := a.maybeFlushState env

def sendHeartbeat (a : AcceptorAgent) : AcceptorAgent := a.send a.allNodes .heartbeat

end AcceptorAgent

end PaxosWasm
