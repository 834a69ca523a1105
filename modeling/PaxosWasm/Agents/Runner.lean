import PaxosWasm.Agents.Coordinator
import PaxosWasm.Core.LeaderVerdicts

/-!
# The runner and its client listener

`runners/runner` and `network-ws/client-server`, as far as leadership goes: the runner hands messages
to its node, asks the failure service now and then, and binds the listener for clients when its node
becomes the leader. The failure detector of the node stands beside it. What the network makes of an
address that the listener does not hold is a parameter, `canBind`.
-/

namespace PaxosWasm

open Library

/-- Why a component has stopped. -/
inductive Panic where
  /-- The address is held by the listener of this very resource. -/
  | boundTwice
  | bindFailed
  | unknownRole
deriving DecidableEq, Repr

/-- The listening socket, by its address. -/
structure ClientServer where
  listener : Option String

namespace ClientServer

def new : ClientServer := { listener := none }

/-- Binding fails on an address that is bound, and `setup_listener` unwraps the result. -/
def setupListener (c : ClientServer) (canBind : String → Bool) (bindAddr : String) :
    Except Panic ClientServer :=
  if c.listener = some bindAddr then .error .boundTwice
  else if canBind bindAddr then .ok { listener := some bindAddr }
  else .error .bindFailed

end ClientServer

structure Runner where
  node : Node
  config : RunConfig
  paxos : PaxosCoordinator
  failureDetector : FailureDetector
  clientSvr : ClientServer
  lastFailureCheck : Nat

namespace Runner

/-- The host of the node's address, with the port for clients. -/
def clientAddress (node : Node) (config : RunConfig) : String :=
  (node.address.splitOn ":").headD "" ++ ":" ++ toString config.clientServerPort

/-- `failure_delta` of the coordinator. -/
def failureDelta : Nat := 10

def new (hash : String → Nat) (dirs : PaxosCoordinator.Dirs) (env : Env) (canBind : String → Bool) (node : Node)
    (nodes : List Node) (isLeader : Bool) (config : RunConfig) : Except Panic Runner :=
  match PaxosCoordinator.new hash dirs env node nodes isLeader config with
  | none => .error .unknownRole
  | some paxos =>
      let clientSvr :=
        if isLeader then ClientServer.new.setupListener canBind (clientAddress node config)
        else .ok .new
      clientSvr.map (fun clientSvr =>
        { node
          config
          paxos
          failureDetector := .new node nodes failureDelta
          clientSvr
          lastFailureCheck := env.now })

/-- A message for the node; a heartbeat is for its failure detector. -/
def handleMessage (r : Runner) (env : Env) (m : NetworkMessage) : Runner :=
  let failureDetector :=
    match m.payload with
    | .heartbeat => r.failureDetector.heartbeat m.sender.nodeId
    | _ => r.failureDetector
  { r with failureDetector, paxos := (r.paxos.handleMessage env m).2 }

/-- Failure checks come every five heartbeat intervals. -/
def failureCheckInterval : Nat := 5

/-- Whether a failure check is due. The product is one of 64 bits. -/
def Due (r : Runner) (env : Env) : Prop :=
  r.config.heartbeats = true ∧
    r.config.heartbeatIntervalMs * failureCheckInterval % 2 ^ 64 ≤ env.now - r.lastFailureCheck

instance (r : Runner) (env : Env) : Decidable (r.Due env) := inferInstanceAs (Decidable (_ ∧ _))

def failureCheck (r : Runner) (canBind : String → Bool) (env : Env) : Except Panic Runner :=
  if r.Due env then
    let (maybeNewLeader, failureDetector) := r.failureDetector.checker
    let r :=
      { r with
        lastFailureCheck := env.now
        failureDetector
        paxos := r.paxos.failureService env maybeNewLeader }
    match maybeNewLeader with
    | none => .ok r
    | some newLeader =>
        match r.node.role with
        | .proposer | .coordinator =>
            if newLeader = r.node.nodeId then
              (r.clientSvr.setupListener canBind (clientAddress r.node r.config)).map
                (fun clientSvr => { r with clientSvr })
            else .ok r
        | .acceptor | .learner => .ok r
        | .client => .error .unknownRole
  else .ok r

inductive Event where
  | message (env : Env) (m : NetworkMessage)
  | failureCheck (env : Env)

/-- A runner that has panicked takes no further step. -/
def step (canBind : String → Bool) : Except Panic Runner → Event → Except Panic Runner
  | .error p, _ => .error p
  | .ok r, .message env m => .ok (r.handleMessage env m)
  | .ok r, .failureCheck env => r.failureCheck canBind env

end Runner

end PaxosWasm
