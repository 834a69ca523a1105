import PaxosWasm.Library.OrdMap

/-!
# The data of `paxos-types` and its companions

The records, enumerations and variants of the WIT interfaces that the modelled functions read or
return, under their own names. `u64` counters, slots and ballots are `Nat`; a cast to `usize`
(32 bits on the component target) is explicit, see `asUsize`. A `BTreeMap` or a `HashMap` keyed by
numbers is an `OrdMap`; where a `HashMap` is iterated, whose order is unspecified, the model takes
the key order.
-/

namespace PaxosWasm

open Library

abbrev Slot := Nat
abbrev Ballot := Nat
abbrev NodeId := Nat
abbrev KvKey := String
abbrev KvValue := String

/-- `x as usize` for a `u64` on `wasm32-wasip2`. -/
def asUsize (x : Nat) : Nat := x % 2 ^ 32

theorem asUsize_of_lt {x : Nat} (h : x < 2 ^ 32) : asUsize x = x := Nat.mod_eq_of_lt h

/-- `slot + 1` for a `u64` in a release build; a debug build panics at `u64::MAX`. -/
def nextSlot (slot : Slot) : Slot := (slot + 1) % 2 ^ 64

theorem nextSlot_of_lt {slot : Slot} (h : slot + 1 < 2 ^ 64) : nextSlot slot = slot + 1 :=
  Nat.mod_eq_of_lt h

theorem nextSlot_le (slot : Slot) : nextSlot slot ≤ slot + 1 := Nat.mod_le _ _

/-- `u64::saturating_mul`. -/
def saturatingMul (a b : Nat) : Nat := min (a * b) (2 ^ 64 - 1)

/-! ## `paxos-types`

The records and variants of the WIT file, as far as a modelled function reads them. -/

/-- The fields of `run-config` that the modelled functions read. -/
structure RunConfig where
  isEventDriven : Bool
  acceptorsSendLearns : Bool
  learnersSendExecuted : Bool
  prepareTimeout : Nat
  batchSize : Nat
  execIntervalMs : Nat
  retryIntervalMs : Nat
  learnMaxGap : Nat
  messageBatchSize : Nat
  clientServerPort : Nat
  persistentStorage : Bool
  heartbeats : Bool
  heartbeatIntervalMs : Nat
  crashes : List (List Nat)
  storageLoadSnapshots : Nat
  storageMaxSnapshots : Nat
  storageFlushStateCount : Nat
  storageFlushStateIntervalMs : Nat
  storageFlushChangeCount : Nat
  storageFlushChangeIntervalMs : Nat
  storageSnapshotSlotInterval : Nat
deriving DecidableEq, Repr

/-- The `run_config` block of `runner-ws/src/config.yaml`. -/
def RunConfig.shipped : RunConfig :=
  { isEventDriven := true
    acceptorsSendLearns := true
    learnersSendExecuted := true
    prepareTimeout := 100
    batchSize := 20
    execIntervalMs := 100
    retryIntervalMs := 100
    learnMaxGap := 50
    messageBatchSize := 20
    clientServerPort := 60000
    persistentStorage := true
    heartbeats := true
    heartbeatIntervalMs := 100
    crashes := []
    storageLoadSnapshots := 99999999
    storageMaxSnapshots := 999999999
    storageFlushStateCount := 100
    storageFlushStateIntervalMs := 500
    storageFlushChangeCount := 500
    storageFlushChangeIntervalMs := 1000
    storageSnapshotSlotInterval := 10000 }

/-- The shipped configuration without storage. -/
def RunConfig.inMemory : RunConfig := { RunConfig.shipped with persistentStorage := false }

inductive PaxosPhase where
  | start
  | prepareSend
  | preparePending
  | acceptCommit
  | stop
  | crash
deriving DecidableEq, Repr

inductive PaxosRole where
  | coordinator
  | proposer
  | acceptor
  | learner
  | client
deriving DecidableEq, Repr

structure Node where
  nodeId : NodeId
  address : String
  role : PaxosRole
deriving DecidableEq, Repr

inductive Operation where
  | get (key : KvKey)
  | set (key : KvKey) (value : KvValue)
  | remove (key : KvKey)
  | clear
  | demo
deriving DecidableEq, Repr

abbrev Cmd := Option Operation

inductive CmdResult where
  | noOp
  | cmdValue (value : Option KvValue)
deriving DecidableEq, Repr

/-- The command to be executed, with the client request it comes from. -/
structure Value where
  command : Cmd
  clientId : String
  clientSeq : Nat
deriving DecidableEq, Repr

/-- The value an acceptor reports for a slot where it has accepted nothing. -/
def Value.noOp : Value := { command := none, clientId := "", clientSeq := 0 }

/-- A client's `set` of the key `"x"`. -/
def setX (value : KvValue) : Value :=
  { command := some (.set "x" value), clientId := "c", clientSeq := 1 }

structure ClientResponse where
  clientId : String
  clientSeq : Nat
  success : Bool
  commandResult : CmdResult
deriving DecidableEq, Repr

structure Proposal where
  slot : Slot
  ballot : Ballot
  value : Value
deriving DecidableEq, Repr

structure Prepare where
  slot : Slot
  ballot : Ballot
deriving DecidableEq, Repr

structure PValue where
  slot : Slot
  ballot : Ballot
  value : Option Value
deriving DecidableEq, Repr

structure Promise where
  slot : Slot
  ballot : Ballot
  accepted : List PValue
deriving DecidableEq, Repr

structure Accept where
  slot : Slot
  ballot : Ballot
  value : Value
deriving DecidableEq, Repr

structure Accepted where
  slot : Slot
  ballot : Ballot
  success : Bool
deriving DecidableEq, Repr

structure Learn where
  slot : Slot
  value : Value
deriving DecidableEq, Repr

structure RetryLearns where
  slots : List Slot
deriving DecidableEq, Repr

structure ExecuteResult where
  value : Value
  slot : Slot
  success : Bool
  cmdResult : CmdResult
deriving DecidableEq, Repr

structure Executed where
  results : List ExecuteResult
  adu : Slot
deriving DecidableEq, Repr

/-! ## `proposer-types`, `acceptor-types`, `learner-types` -/

inductive PrepareResult where
  | success
  | quorumFailure
  | isEventDriven
deriving DecidableEq, Repr

inductive AcceptResult where
  | accepted (count : Nat)
  | missingProposal
  | quorumFailure
  | isEventDriven
deriving DecidableEq, Repr

inductive ProposalStatus where
  | inFlight
  | chosen
  | commitPending
  | finalized
deriving DecidableEq, Repr

structure ProposalEntry where
  proposal : Proposal
  status : ProposalStatus
deriving DecidableEq, Repr

inductive PromiseResult where
  | promised (promise : Promise)
  | rejected (ballot : Ballot)
deriving DecidableEq, Repr

inductive AcceptedResult where
  | accepted (accepted : Accepted)
  | rejected (ballot : Ballot)
deriving DecidableEq, Repr

structure LearnedEntry where
  slot : Slot
  value : Value
deriving DecidableEq, Repr

inductive LearnResult where
  | execute (entries : List LearnedEntry)
  | ignore
deriving DecidableEq, Repr

inductive RetryLearnResult where
  | noGap
  | skip (slot : Slot)
  | retry (slots : List Slot)
deriving DecidableEq, Repr

/-! ## `network-types` -/

structure Benchmark where
  sendTimestamp : Nat
  payload : String
deriving DecidableEq, Repr

inductive MessagePayload where
  | ignore
  | clientRequest (value : Value)
  | clientResponse (response : ClientResponse)
  | prepare (prepare : Prepare)
  | promise (promise : Promise)
  | accept (accept : Accept)
  | accepted (accepted : Accepted)
  | learn (learn : Learn)
  | heartbeat
  | executed (executed : Executed)
  | retryLearns (retryLearns : RetryLearns)
  | benchmark (benchmark : Benchmark)
  | adu (slot : Slot)
deriving DecidableEq, Repr

structure NetworkMessage where
  sender : Node
  payload : MessagePayload
deriving DecidableEq, Repr

/-! ## What a handler reads from its surroundings

The clocks and the network are the only things a component cannot see in its own state. What it reads from
them comes with each call, and what it sends is kept in a log. -/

/-- The surroundings of one handler call: the two clocks it reads (`Instant::now` in milliseconds
and `Utc::now`), and what the network client returns when it waits for the replies to a request. -/
structure Env where
  now : Nat
  utc : Nat
  responses : NetworkMessage → List NetworkMessage

/-- Surroundings at time `0` in which no request is answered. -/
def Env.quiet : Env := { now := 0, utc := 0, responses := fun _ => [] }

/-- One call of the network client: a message sent to all of `targets`. -/
structure Sent where
  targets : List Node
  message : NetworkMessage
deriving DecidableEq, Repr

/-- The network client of an agent, with the log of what it has been asked to send. -/
structure NetworkClient where
  sent : List Sent
deriving DecidableEq, Repr

def NetworkClient.new : NetworkClient := ⟨[]⟩

/-- `send_message_forget`: fire and forget. -/
def NetworkClient.sendMessageForget (c : NetworkClient) (targets : List Node)
    (message : NetworkMessage) : NetworkClient :=
  ⟨c.sent ++ [⟨targets, message⟩]⟩

@[simp] theorem NetworkClient.sent_new : NetworkClient.new.sent = [] := rfl

@[simp] theorem NetworkClient.sent_sendMessageForget (c : NetworkClient) (ts : List Node)
    (m : NetworkMessage) : (c.sendMessageForget ts m).sent = c.sent ++ [⟨ts, m⟩] := rfl

end PaxosWasm
