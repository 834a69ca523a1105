import PaxosWasm.Agents.ProposerAgent
import PaxosWasm.Library.Run

/-!
# The interface of the proposer agent

The calls a node can make to its proposer agent, in any order. A call that panics ends the session.
-/

namespace PaxosWasm

open Library

namespace ProposerAgent

/-- A call of `proposer-agent-resource` that can change something. -/
inductive Op where
  | submitClientRequest (req : Value)
  | reserveNextChosenProposal
  | createProposal
  | preparePhase (slot : Slot) (ballot : Ballot) (promises : List Promise)
  | acceptPhase (value : Value) (slot : Slot) (ballot : Ballot) (accepts : List Accepted)
  | broadcastLearn (learn : Learn)
  | markProposalChosen (slot : Slot)
  | markProposalFinalized (slot : Slot)
  | proposalsToAccept
  | learnsToCommit
  | processExecuted (executed : Executed)
  | collectClientResponses
  | retryLearns (slots : List Slot)
  | handleMessage (m : NetworkMessage)
  | startLeaderLoop
  | checkPrepareTimeout
  | becomeLeader
  | resignLeader
  | handleTick
  | sendHeartbeat
  | maybeFlushState

/-- The agent after a call, and whether the call has returned. -/
def call (a : ProposerAgent) (c : Env × Op) : Bool × ProposerAgent :=
  match c.2 with
  | .submitClientRequest req => (true, (a.submitClientRequest req).2)
  | .reserveNextChosenProposal => (true, a.reserveNextChosenProposal.2)
  | .createProposal => (true, a.createProposal.2)
  | .preparePhase slot ballot promises => (true, (a.preparePhase c.1 slot ballot promises).2)
  | .acceptPhase value slot ballot accepts => (true, (a.acceptPhase c.1 value slot ballot accepts).2)
  | .broadcastLearn learn => (true, a.broadcastLearn learn)
  | .markProposalChosen slot => (true, (a.markProposalChosen slot).2)
  | .markProposalFinalized slot =>
      (true, { a with proposer := (a.proposer.markProposalFinalized slot).2 })
  | .proposalsToAccept =>
      let (result, a) := a.proposalsToAccept
      (result.isOk, a)
  | .learnsToCommit => (true, a.learnsToCommit.2)
  | .processExecuted executed => (true, a.processExecuted c.1 executed)
  | .collectClientResponses => (true, a.collectClientResponses.2)
  | .retryLearns slots => (true, a.retryLearns c.1 slots)
  | .handleMessage m => (true, (a.handleMessage c.1 m).2)
  | .startLeaderLoop => (true, a.startLeaderLoop)
  | .checkPrepareTimeout => (true, (a.checkPrepareTimeout c.1).2)
  | .becomeLeader => (true, (a.becomeLeader c.1).2)
  | .resignLeader => (true, a.resignLeader.2)
  | .handleTick =>
      let (result, a) := a.handleTick c.1
      (result.isOk, a)
  | .sendHeartbeat => (true, a.sendHeartbeat)
  | .maybeFlushState => (true, a.maybeFlushState c.1)

/-- A proposer agent, and whether it still runs. -/
structure Session where
  agent : ProposerAgent
  running : Bool

namespace Session

def step (x : Session) (c : Env × Op) : Session :=
  if x.running then { agent := (x.agent.call c).2, running := (x.agent.call c).1 } else x

theorem step_of_running {x : Session} (h : x.running = true) (c : Env × Op) :
    x.step c = { agent := (x.agent.call c).2, running := (x.agent.call c).1 } :=
  if_pos h

theorem step_of_not_running {x : Session} (h : x.running = false) (c : Env × Op) : x.step c = x :=
  if_neg (by simp [h])

/-- A new proposer agent. -/
def start (dir : Proposer.Dir) (env : Env) (node : Node) (nodes : List Node) (isLeader : Bool)
    (config : RunConfig) : Session :=
  { agent := ProposerAgent.new dir env node nodes isLeader config, running := true }

end Session

end ProposerAgent

end PaxosWasm
