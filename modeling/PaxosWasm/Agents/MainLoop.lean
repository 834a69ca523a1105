import PaxosWasm.Agents.Leadership
import PaxosWasm.Agents.Runner

/-!
# The main loop of the runner

`runners/runner`: in each turn the loop asks the host for a command, sends a heartbeat and checks for
failures when these are due, hands client requests and messages to its node, lets the demo client
submit, and ticks. What the two servers have received and what the clock says are inputs of a turn. The
metrics, which are only logged, and the sleep at the end of a turn are left out. A panic traps the
component: nothing more is run.

A turn is modelled piece by piece as the loop has it (`turn`), and shown to be a list of acts
(`turn_eq_run`). The acts are what the rest of the development works with, since one act is at most one
call of the node (`process_act`), tells the failure detector at most one thing (`failureDetector_act`),
and changes who leads only through a verdict (`verdict_cases`).
-/

namespace PaxosWasm

open Library

/-! ## The demo client

It asks for its requests itself, a few at a time, once its node leads. -/

/-- `DemoClientHelper`. -/
structure DemoClient where
  clientId : String
  clientSeq : Nat
  startAt : Nat

namespace DemoClient

/-- The demo client of a node waits three seconds. -/
def new (node : Node) (now : Nat) : DemoClient :=
  { clientId := s!"client-{node.nodeId}", clientSeq := 0, startAt := now + 3000 }

def request (d : DemoClient) : Value :=
  { command := some .demo, clientId := d.clientId, clientSeq := d.clientSeq }

/-- The loop of `sendIfReady`: up to `quota` further requests. -/
def sendUpTo (maxRequests : Nat) : Nat → DemoClient → PaxosCoordinator → DemoClient × PaxosCoordinator
  | 0, d, paxos => (d, paxos)
  | quota + 1, d, paxos =>
      if d.clientSeq ≥ maxRequests then (d, paxos)
      else
        sendUpTo maxRequests quota { d with clientSeq := d.clientSeq + 1 }
          (paxos.submitClientRequest d.request).2

def sendIfReady (d : DemoClient) (now : Nat) (paxos : PaxosCoordinator) (batchQuota maxRequests : Nat) :
    DemoClient × PaxosCoordinator :=
  if !paxos.isLeader ∨ now < d.startAt then (d, paxos) else sendUpTo maxRequests batchQuota d paxos

theorem clientId_sendIfReady (d : DemoClient) (now : Nat) (paxos : PaxosCoordinator) (quota maxRequests : Nat) :
    (d.sendIfReady now paxos quota maxRequests).1.clientId = d.clientId := by
  have hloop : ∀ quota (d : DemoClient) paxos, (sendUpTo maxRequests quota d paxos).1.clientId = d.clientId := by
    intro quota
    induction quota with
    | zero => intro d paxos; rfl
    | succ quota ih =>
        intro d paxos
        rw [sendUpTo]
        split
        · rfl
        · exact ih ..
  unfold sendIfReady
  split
  · rfl
  · exact hloop ..

/-- The demo client changes nothing about who leads. -/
theorem isLeader_sendIfReady (d : DemoClient) (now : Nat) (paxos : PaxosCoordinator) (quota maxRequests : Nat) :
    (d.sendIfReady now paxos quota maxRequests).2.isLeader = paxos.isLeader := by
  have hloop : ∀ quota d paxos, (sendUpTo maxRequests quota d paxos).2.isLeader = paxos.isLeader := by
    intro quota
    induction quota with
    | zero => intro d paxos; rfl
    | succ quota ih =>
        intro d paxos
        rw [sendUpTo]
        split
        · rfl
        · exact (ih ..).trans (paxos.isLeader_call (e := .submitClientRequest d.request) nofun)
  unfold sendIfReady
  split
  · rfl
  · exact hloop ..

end DemoClient

/-! ## The loop

A turn goes through its parts in order. A part that panics traps the component, and the parts behind it
are not run. -/

/-- Why a component has stopped. -/
inductive Stop where
  | panic (p : Panic)
  /-- A tick of the node has panicked, with this message. -/
  | tick (message : String)
deriving DecidableEq, Repr

/-- `MyRunnerResource`. -/
structure MainLoop where
  runner : Runner
  demoClient : Option DemoClient
  /-- `demo_client_requests` -/
  demoClientRequests : Nat
  lastHeartbeat : Nat
  shouldStop : Bool
  stopped : Option Stop
  /-- What has been handed to the client server. -/
  responses : List ClientResponse

/-- What a turn of the loop gets from outside. -/
structure Turn where
  shutdown : Bool
  heartbeatAt : Nat
  check : Env
  requests : List Value
  messages : List (Env × NetworkMessage)
  demoAt : Nat
  tick : Env

namespace MainLoop

/-- A new component binds the listener for clients, if its node is the leader, and the one for the other
nodes; `demo` is `demo_client_requests`, if there is a demo client. -/
def new (hash : String → Nat) (dirs : PaxosCoordinator.Dirs) (env : Env) (canBind : String → Bool)
    (node : Node) (nodes : List Node) (isLeader : Bool) (config : RunConfig) (demo : Option Nat) :
    Option MainLoop :=
  (PaxosCoordinator.new hash dirs env node nodes isLeader config).map (fun paxos =>
    let clientSvr :=
      if isLeader then ClientServer.new.setupListener canBind (Runner.clientAddress node config)
      else .ok .new
    { runner :=
        { node
          config
          paxos
          failureDetector := .new node nodes Runner.failureDelta
          clientSvr := clientSvr.toOption.getD .new
          lastFailureCheck := env.now }
      demoClient := demo.map (fun _ => .new node env.now)
      demoClientRequests := demo.getD 0
      lastHeartbeat := env.now
      shouldStop := false
      stopped :=
        if clientSvr.isOk ∧ canBind node.address then none else some (.panic .bindFailed)
      responses := [] })

/-! ### A turn

A turn stops at the first piece that panics. The pieces stand in the order in which `run` calls them. -/

/-- Run the next piece of a turn, unless the component is trapped. -/
def andThen (x : MainLoop) (f : MainLoop → MainLoop) : MainLoop :=
  if x.stopped = none then f x else x

def withPaxos (x : MainLoop) (paxos : PaxosCoordinator) : MainLoop :=
  { x with runner := { x.runner with paxos } }

def handleHostControl (shutdown : Bool) (x : MainLoop) : MainLoop :=
  { x with shouldStop := x.shouldStop || shutdown }

/-- Whether a heartbeat is due. -/
def HeartbeatDue (x : MainLoop) (now : Nat) : Prop :=
  x.runner.config.heartbeats = true ∧ x.runner.config.heartbeatIntervalMs ≤ now - x.lastHeartbeat

instance (x : MainLoop) (now : Nat) : Decidable (x.HeartbeatDue now) :=
  inferInstanceAs (Decidable (_ ∧ _))

def sendHeartbeat (now : Nat) (x : MainLoop) : MainLoop :=
  if x.HeartbeatDue now then { x.withPaxos x.runner.paxos.sendHeartbeat with lastHeartbeat := now } else x

/-- What a due failure check has done when it panics over the listener. -/
def checked (r : Runner) (env : Env) : Runner :=
  { r with
    lastFailureCheck := env.now
    failureDetector := r.failureDetector.checker.2
    paxos := r.paxos.failureService env r.failureDetector.checker.1 }

def failureCheck (canBind : String → Bool) (env : Env) (x : MainLoop) : MainLoop :=
  match x.runner.failureCheck canBind env with
  | .ok runner => { x with runner }
  | .error p => { x with runner := checked x.runner env, stopped := some (.panic p) }

def submit (x : MainLoop) (req : Value) : MainLoop :=
  x.withPaxos (x.runner.paxos.submitClientRequest req).2

def processClients (requests : List Value) (x : MainLoop) : MainLoop :=
  if !x.runner.paxos.isLeader then x else requests.foldl submit x

def handleMessage (x : MainLoop) (p : Env × NetworkMessage) : MainLoop :=
  { x with runner := x.runner.handleMessage p.1 p.2 }

def processNetwork (messages : List (Env × NetworkMessage)) (x : MainLoop) : MainLoop :=
  messages.foldl handleMessage x

/-- Have the demo client send up to `quota` requests. -/
def sendDemo (quota now : Nat) (x : MainLoop) : MainLoop :=
  match x.demoClient with
  | none => x
  | some helper =>
      let p := helper.sendIfReady now x.runner.paxos quota x.demoClientRequests
      { x.withPaxos p.2 with demoClient := some p.1 }

def driveDemoClient (now : Nat) (x : MainLoop) : MainLoop :=
  x.sendDemo x.runner.config.batchSize now

def dispatchResponses (responses : List ClientResponse) (x : MainLoop) : MainLoop :=
  if !x.runner.paxos.isLeader then x else { x with responses := x.responses ++ responses }

def handleTick (env : Env) (x : MainLoop) : MainLoop :=
  match x.runner.paxos.handleTick env with
  | (.error e, paxos) => { x.withPaxos paxos with stopped := some (.tick e) }
  | (.ok none, paxos) => x.withPaxos paxos
  | (.ok (some responses), paxos) => (x.withPaxos paxos).dispatchResponses responses

/-- One turn of the loop of `run`. -/
def turn (canBind : String → Bool) (x : MainLoop) (i : Turn) : MainLoop :=
  if x.shouldStop then x
  else
    (((((((x.andThen (handleHostControl i.shutdown)).andThen (sendHeartbeat i.heartbeatAt)).andThen
      (failureCheck canBind i.check)).andThen (processClients i.requests)).andThen
      (processNetwork i.messages)).andThen (driveDemoClient i.demoAt)).andThen (handleTick i.tick))

/-! ## Acts

A turn is made of acts, each of which calls the node at most once. -/

inductive Act where
  | hostControl (shutdown : Bool)
  | sendHeartbeat (now : Nat)
  | failureCheck (env : Env)
  | request (req : Value)
  | message (env : Env) (m : NetworkMessage)
  | demo (now : Nat)
  | tick (env : Env)

def perform (canBind : String → Bool) : Act → MainLoop → MainLoop
  | .hostControl shutdown => handleHostControl shutdown
  | .sendHeartbeat now => sendHeartbeat now
  | .failureCheck env => failureCheck canBind env
  | .request req => processClients [req]
  | .message env m => processNetwork [(env, m)]
  | .demo now => sendDemo 1 now
  | .tick env => handleTick env

def act (canBind : String → Bool) (x : MainLoop) (a : Act) : MainLoop := x.andThen (perform canBind a)

/-- The acts of a turn. -/
def acts (x : MainLoop) (i : Turn) : List Act :=
  .hostControl i.shutdown :: .sendHeartbeat i.heartbeatAt :: .failureCheck i.check ::
    (i.requests.map .request ++ i.messages.map (fun p => .message p.1 p.2) ++
      List.replicate x.runner.config.batchSize (.demo i.demoAt) ++ [.tick i.tick])

variable {canBind : String → Bool} {x : MainLoop}

theorem andThen_of_running (h : x.stopped = none) (f : MainLoop → MainLoop) : x.andThen f = f x :=
  if_pos h

theorem andThen_of_stopped (h : x.stopped ≠ none) (f : MainLoop → MainLoop) : x.andThen f = x :=
  if_neg h

/-! ### A turn as a list of acts

The main loop takes its acts in an order that depends on what comes in. Written as a list they can be read
as events of the node. -/

theorem act_of_running (h : x.stopped = none) (a : Act) : x.act canBind a = perform canBind a x :=
  andThen_of_running h _

theorem run_of_stopped (h : x.stopped ≠ none) (as : List Act) : run (act canBind) x as = x := by
  induction as with
  | nil => rfl
  | cons a as ih =>
      rw [run_cons, act, andThen_of_stopped h]
      exact ih

/-- A piece of a turn is the acts it is made of, if that is so while the component runs. -/
theorem andThen_eq_run {f : MainLoop → MainLoop} {as : List Act}
    (h : x.stopped = none → f x = run (act canBind) x as) :
    x.andThen f = run (act canBind) x as := by
  by_cases hrun : x.stopped = none
  · rw [andThen_of_running hrun]
    exact h hrun
  · rw [andThen_of_stopped hrun, run_of_stopped hrun]

@[simp] theorem isLeader_submit (req : Value) :
    (x.submit req).runner.paxos.isLeader = x.runner.paxos.isLeader :=
  x.runner.paxos.isLeader_call (e := .submitClientRequest req) nofun

theorem processClients_cons (req : Value) (requests : List Value) :
    x.processClients (req :: requests) = (x.processClients [req]).processClients requests := by
  cases hleads : x.runner.paxos.isLeader <;> simp [processClients, hleads]

theorem processClients_eq_run (hrun : x.stopped = none) (requests : List Value) :
    x.processClients requests = run (act canBind) x (requests.map .request) := by
  induction requests generalizing x with
  | nil =>
      unfold processClients
      split <;> rfl
  | cons req requests ih =>
      have hnext : (x.processClients [req]).stopped = none := by
        unfold processClients
        split <;> exact hrun
      rw [List.map_cons, run_cons, act_of_running hrun, processClients_cons]
      exact ih hnext

theorem processNetwork_eq_run (hrun : x.stopped = none) (messages : List (Env × NetworkMessage)) :
    x.processNetwork messages =
      run (act canBind) x (messages.map (fun p => .message p.1 p.2)) := by
  induction messages generalizing x with
  | nil => rfl
  | cons p messages ih =>
      rw [List.map_cons, run_cons, act_of_running hrun]
      exact ih hrun

/-- The demo client sends its requests one by one. -/
theorem sendIfReady_succ (d : DemoClient) (now : Nat) (paxos : PaxosCoordinator) (quota maxRequests : Nat) :
    d.sendIfReady now paxos (quota + 1) maxRequests =
      let p := d.sendIfReady now paxos 1 maxRequests
      p.1.sendIfReady now p.2 quota maxRequests := by
  by_cases hidle : !paxos.isLeader ∨ now < d.startAt
  · have hnone : ∀ quota, d.sendIfReady now paxos quota maxRequests = (d, paxos) :=
      fun quota => if_pos hidle
    simp only [hnone]
  · have hsend : ∀ quota, d.sendIfReady now paxos quota maxRequests =
        DemoClient.sendUpTo maxRequests quota d paxos := fun quota => if_neg hidle
    by_cases hdone : maxRequests ≤ d.clientSeq
    · have hnone : ∀ quota, DemoClient.sendUpTo maxRequests quota d paxos = (d, paxos) := by
        intro quota
        cases quota <;> simp [DemoClient.sendUpTo, hdone]
      simp only [hsend, hnone]
    · have hleads : (paxos.submitClientRequest d.request).2.isLeader = paxos.isLeader :=
        paxos.isLeader_call (e := .submitClientRequest d.request) nofun
      simp only [hsend, DemoClient.sendUpTo, if_neg hdone]
      rw [DemoClient.sendIfReady, if_neg (by rw [hleads]; exact hidle)]

theorem sendDemo_succ (quota now : Nat) :
    x.sendDemo (quota + 1) now = (x.sendDemo 1 now).sendDemo quota now := by
  unfold sendDemo
  cases hdemo : x.demoClient with
  | none => simp only [hdemo]
  | some helper =>
      dsimp only
      rw [sendIfReady_succ]
      rfl

theorem sendDemo_eq_run (hrun : x.stopped = none) (quota now : Nat) :
    x.sendDemo quota now = run (act canBind) x (List.replicate quota (.demo now)) := by
  induction quota generalizing x with
  | zero =>
      unfold sendDemo
      split
      · rfl
      · next helper hdemo =>
        unfold DemoClient.sendIfReady
        split <;> simp [DemoClient.sendUpTo, withPaxos, ← hdemo]
  | succ quota ih =>
      have hnext : (x.sendDemo 1 now).stopped = none := by
        unfold sendDemo
        split <;> exact hrun
      rw [List.replicate_succ, run_cons, act_of_running hrun, sendDemo_succ]
      exact ih hnext

/-! ## What an act does

No act changes the settings of the component, and none but a failure check does anything about who
leads. -/

theorem runner_failureCheck {r r' : Runner} {env : Env} (hdue : r.Due env)
    (h : r.failureCheck canBind env = .ok r') : ∃ clientSvr, r' = { checked r env with clientSvr } := by
  unfold Runner.failureCheck at h
  rw [if_pos hdue] at h
  dsimp only at h
  split at h
  · exact ⟨r.clientSvr, (Except.ok.inj h).symm⟩
  · have hbound : ∀ (c : Except Panic ClientServer) {f : ClientServer → Runner}, c.map f = .ok r' →
        ∃ clientSvr, r' = f clientSvr := by
      intro c f hmap
      cases c with
      | error p => cases hmap
      | ok c => exact ⟨c, (Except.ok.inj hmap).symm⟩
    split at h
    · split at h
      · exact hbound _ h
      · exact ⟨r.clientSvr, (Except.ok.inj h).symm⟩
    · split at h
      · exact hbound _ h
      · exact ⟨r.clientSvr, (Except.ok.inj h).symm⟩
    · exact ⟨r.clientSvr, (Except.ok.inj h).symm⟩
    · exact ⟨r.clientSvr, (Except.ok.inj h).symm⟩
    · cases h

/-- **What a failure check does**: nothing, when it is not due; else it sweeps and hands the verdict to
the node, and then it may bind the listener, or panic. -/
theorem failureCheck_cases (canBind : String → Bool) (x : MainLoop) (env : Env) :
    (¬ x.runner.Due env ∧ x.failureCheck canBind env = x) ∨
    (x.runner.Due env ∧ ∃ clientSvr stopped, (stopped = x.stopped ∨ ∃ p, stopped = some (.panic p)) ∧
      x.failureCheck canBind env =
        { x with runner := { checked x.runner env with clientSvr }, stopped }) := by
  by_cases hdue : x.runner.Due env
  · right
    refine ⟨hdue, ?_⟩
    unfold failureCheck
    split
    · next runner hok =>
      obtain ⟨clientSvr, rfl⟩ := runner_failureCheck hdue hok
      exact ⟨clientSvr, x.stopped, Or.inl rfl, rfl⟩
    · next p _ => exact ⟨x.runner.clientSvr, some (.panic p), Or.inr ⟨p, rfl⟩, rfl⟩
  · left
    have hsame : x.runner.failureCheck canBind env = .ok x.runner := if_neg hdue
    exact ⟨hdue, by rw [failureCheck, hsame]⟩

/-- What no act changes. -/
structure SameSettings (x y : MainLoop) : Prop where
  node : y.runner.node = x.runner.node
  config : y.runner.config = x.runner.config
  clientId : y.demoClient.map DemoClient.clientId = x.demoClient.map DemoClient.clientId
  demoClientRequests : y.demoClientRequests = x.demoClientRequests

theorem sameSettings_act (canBind : String → Bool) (x : MainLoop) (a : Act) :
    SameSettings x (x.act canBind a) := by
  by_cases hrun : x.stopped = none
  · rw [act_of_running hrun]
    cases a with
    | hostControl shutdown => exact ⟨rfl, rfl, rfl, rfl⟩
    | sendHeartbeat now =>
        show SameSettings x (x.sendHeartbeat now)
        unfold sendHeartbeat
        split <;> exact ⟨rfl, rfl, rfl, rfl⟩
    | failureCheck env =>
        show SameSettings x (x.failureCheck canBind env)
        rcases failureCheck_cases canBind x env with ⟨-, he⟩ | ⟨-, _, _, -, he⟩ <;> rw [he] <;>
          exact ⟨rfl, rfl, rfl, rfl⟩
    | request req =>
        show SameSettings x (x.processClients [req])
        unfold processClients
        split <;> exact ⟨rfl, rfl, rfl, rfl⟩
    | message env m => exact ⟨rfl, rfl, rfl, rfl⟩
    | demo now =>
        show SameSettings x (x.sendDemo 1 now)
        unfold sendDemo
        split
        · exact ⟨rfl, rfl, rfl, rfl⟩
        · next helper hdemo =>
          refine ⟨rfl, rfl, ?_, rfl⟩
          rw [hdemo, Option.map_some, Option.map_some, DemoClient.clientId_sendIfReady]
    | tick env =>
        show SameSettings x (x.handleTick env)
        unfold handleTick
        split
        · exact ⟨rfl, rfl, rfl, rfl⟩
        · exact ⟨rfl, rfl, rfl, rfl⟩
        · unfold dispatchResponses
          split <;> exact ⟨rfl, rfl, rfl, rfl⟩
  · rw [act, andThen_of_stopped hrun]
    exact ⟨rfl, rfl, rfl, rfl⟩

theorem sameSettings_run (x : MainLoop) (as : List Act) :
    SameSettings x (run (act canBind) x as) :=
  run_invariant (P := SameSettings x)
    (fun y a h =>
      have hact := sameSettings_act canBind y a
      ⟨hact.node.trans h.node, hact.config.trans h.config,
        hact.clientId.trans h.clientId, hact.demoClientRequests.trans h.demoClientRequests⟩)
    ⟨rfl, rfl, rfl, rfl⟩ as

/-- **A turn of the loop is the acts it is made of.** -/
theorem turn_eq_run (h : x.shouldStop = false) (i : Turn) :
    x.turn canBind i = run (act canBind) x (x.acts i) := by
  have hconfig : ∀ as, (run (act canBind) x as).runner.config = x.runner.config :=
    fun as => (sameSettings_run x as).config
  have hstart : ((x.andThen (handleHostControl i.shutdown)).andThen (sendHeartbeat i.heartbeatAt)).andThen
      (failureCheck canBind i.check) = run (act canBind) x [.hostControl i.shutdown,
        .sendHeartbeat i.heartbeatAt, .failureCheck i.check] := rfl
  have hclients (y : MainLoop) : y.andThen (processClients i.requests) =
      run (act canBind) y (i.requests.map .request) :=
    andThen_eq_run (fun hrun => processClients_eq_run hrun i.requests)
  have hnetwork (y : MainLoop) : y.andThen (processNetwork i.messages) =
      run (act canBind) y (i.messages.map (fun p => .message p.1 p.2)) :=
    andThen_eq_run (fun hrun => processNetwork_eq_run hrun i.messages)
  have hdemo (y : MainLoop) : y.andThen (driveDemoClient i.demoAt) =
      run (act canBind) y (List.replicate y.runner.config.batchSize (.demo i.demoAt)) :=
    andThen_eq_run (fun hrun => sendDemo_eq_run hrun y.runner.config.batchSize i.demoAt)
  have htick (y : MainLoop) : y.andThen (handleTick i.tick) = run (act canBind) y [.tick i.tick] := rfl
  rw [turn, if_neg (by simp [h]), hstart, hclients, ← run_append, hnetwork, ← run_append, hdemo, hconfig,
    ← run_append, htick, ← run_append]
  simp [acts]

/-! ## The node under the loop

Seen from its node, an act is a call or nothing; seen from its failure detector, a heartbeat, a check or
nothing. -/

/-- The call an act makes of the node, if any. -/
def event? (x : MainLoop) (a : Act) : Option Process.Event :=
  if x.stopped = none then
    match a with
    | .hostControl _ => none
    | .sendHeartbeat now => if x.HeartbeatDue now then some .sendHeartbeat else none
    | .failureCheck env =>
        if x.runner.Due env then some (.failureService env x.runner.failureDetector.checker.1) else none
    | .request req => if x.runner.paxos.isLeader then some (.submitClientRequest req) else none
    | .message env m => some (.message env m)
    | .demo now =>
        match x.demoClient with
        | none => none
        | some helper =>
            if !x.runner.paxos.isLeader ∨ now < helper.startAt ∨ x.demoClientRequests ≤ helper.clientSeq
            then none
            else some (.submitClientRequest helper.request)
    | .tick env => some (.tick env)
  else none

/-- What an act means for the failure detector, if anything. -/
def detection? (x : MainLoop) (a : Act) : Option FailureDetector.Event :=
  if x.stopped = none then
    match a with
    | .message _ m =>
        match m.payload with
        | .heartbeat => some (.heartbeat m.sender.nodeId)
        | _ => none
    | .failureCheck env => if x.runner.Due env then some .checker else none
    | _ => none
  else none

/-- A tick of the node has panicked. -/
def ticked (x : MainLoop) : Bool :=
  match x.stopped with
  | some (.tick _) => true
  | _ => false

/-- The node of a main loop as a process. -/
def process (x : MainLoop) (past : Logs) : Process :=
  { node := x.runner.paxos, running := !x.ticked, past }

/-! ### One act

An act is looked at from three sides: what it calls at the node, what it tells the failure detector, and
what it does to the flag of the leader. -/

/-- **An act is at most one call of the node.** -/
theorem process_act (hash : String → Nat) (past : Logs) (x : MainLoop) (a : Act) :
    (x.act canBind a).process past =
      run (Process.step hash) (x.process past) (x.event? a).toList := by
  by_cases hrun : x.stopped = none
  · have hticked : x.ticked = false := by simp [ticked, hrun]
    -- as long as nothing has panicked, an act that makes a call runs it
    have hstep : ∀ e, (∀ env isLeader k, e ≠ .restart env isLeader k) →
        run (Process.step hash) (x.process past) [e] =
          { node := (Process.call x.runner.paxos e).2
            running := (Process.call x.runner.paxos e).1
            past } := by
      intro e he
      cases e with
      | restart env isLeader k => exact absurd rfl (he env isLeader k)
      | _ => simp [Process.step, process, hticked]
    unfold event?
    rw [act_of_running hrun, if_pos hrun]
    cases a with
    | hostControl shutdown => rfl
    | sendHeartbeat now =>
        show (x.sendHeartbeat now).process past = _
        unfold sendHeartbeat
        dsimp only
        split
        · rw [Option.toList, hstep .sendHeartbeat nofun]
          simp [process, ticked, withPaxos, hrun, Process.call]
        · rfl
    | failureCheck env =>
        show (x.failureCheck canBind env).process past = _
        rcases failureCheck_cases canBind x env with ⟨hdue, he⟩ | ⟨hdue, _, _, hstopped, he⟩
        · rw [he]
          dsimp only
          rw [if_neg hdue]
          rfl
        · rw [he]
          dsimp only
          rw [if_pos hdue, Option.toList, hstep (.failureService env x.runner.failureDetector.checker.1) nofun]
          rcases hstopped with rfl | ⟨p, rfl⟩ <;> simp [process, ticked, hrun, checked, Process.call]
    | request req =>
        show (x.processClients [req]).process past = _
        cases hleads : x.runner.paxos.isLeader with
        | false => simp [processClients, hleads]
        | true =>
            simp only [processClients, hleads, if_true, Option.toList]
            rw [hstep (.submitClientRequest req) nofun]
            simp [process, ticked, submit, withPaxos, hrun, Process.call]
    | message env m =>
        rw [Option.toList, hstep (.message env m) nofun]
        simp [perform, processNetwork, handleMessage, process, ticked, hrun, Process.call,
          Runner.handleMessage]
    | demo now =>
        show (x.sendDemo 1 now).process past = _
        unfold sendDemo
        cases hdemo : x.demoClient with
        | none => rfl
        | some helper =>
            dsimp only
            split
            · next hidle =>
              -- the demo client is not ready, or has sent all it has
              have hsame : helper.sendIfReady now x.runner.paxos 1 x.demoClientRequests =
                  (helper, x.runner.paxos) := by
                unfold DemoClient.sendIfReady
                split
                · rfl
                · have hdone : x.demoClientRequests ≤ helper.clientSeq := by grind
                  simp [DemoClient.sendUpTo, hdone]
              rw [hsame]
              simp [process, ticked, withPaxos]
            · next hready =>
              simp only [not_or] at hready
              obtain ⟨hleads, hstart, hleft⟩ := hready
              -- it submits its next request
              have hsent : (helper.sendIfReady now x.runner.paxos 1 x.demoClientRequests).2 =
                  (x.runner.paxos.submitClientRequest helper.request).2 := by
                simp [DemoClient.sendIfReady, DemoClient.sendUpTo, hleads, hstart, hleft]
              rw [Option.toList, hstep (.submitClientRequest helper.request) nofun]
              simp [process, ticked, withPaxos, hrun, hsent, Process.call]
    | tick env =>
        show (x.handleTick env).process past = _
        rw [Option.toList, hstep (.tick env) nofun]
        unfold handleTick
        split
        · next e paxos he => simp [process, ticked, withPaxos, Process.call, he, Except.isOk, Except.toBool]
        · next paxos he =>
          simp [process, ticked, withPaxos, hrun, Process.call, he, Except.isOk, Except.toBool]
        · next responses paxos he =>
          unfold dispatchResponses
          split <;> simp [process, ticked, withPaxos, hrun, Process.call, he, Except.isOk, Except.toBool]
  · have hnone : x.event? a = none := if_neg hrun
    rw [act, andThen_of_stopped hrun, hnone]
    rfl

/-- **What an act means for the failure detector.** -/
theorem failureDetector_act (x : MainLoop) (a : Act) :
    (x.act canBind a).runner.failureDetector =
      run FailureDetector.step x.runner.failureDetector (x.detection? a).toList := by
  by_cases hrun : x.stopped = none
  · unfold detection?
    rw [act_of_running hrun, if_pos hrun]
    cases a with
    | hostControl shutdown => rfl
    | sendHeartbeat now =>
        show (x.sendHeartbeat now).runner.failureDetector = _
        unfold sendHeartbeat
        split <;> rfl
    | failureCheck env =>
        show (x.failureCheck canBind env).runner.failureDetector = _
        rcases failureCheck_cases canBind x env with ⟨hdue, he⟩ | ⟨hdue, _, _, -, he⟩
        · dsimp only
          rw [he, if_neg hdue]
          rfl
        · dsimp only
          rw [he, if_pos hdue]
          rfl
    | request req =>
        show (x.processClients [req]).runner.failureDetector = _
        unfold processClients
        split <;> rfl
    | message env m =>
        obtain ⟨sender, payload⟩ := m
        cases payload <;> rfl
    | demo now =>
        show (x.sendDemo 1 now).runner.failureDetector = _
        unfold sendDemo
        split <;> rfl
    | tick env =>
        show (x.handleTick env).runner.failureDetector = _
        unfold handleTick
        split
        · rfl
        · rfl
        · unfold dispatchResponses
          split <;> rfl
  · have hnone : x.detection? a = none := if_neg hrun
    rw [act, andThen_of_stopped hrun, hnone]
    rfl

/-- **What an act does to the leader detector and to the flag**: a check that is due hands its verdict to
the node, and no other act touches either. -/
theorem verdict_cases (canBind : String → Bool) (x : MainLoop) (a : Act) :
    (∃ env, (x.act canBind a).runner.failureDetector = x.runner.failureDetector.checker.2 ∧
        (x.act canBind a).runner.paxos = x.runner.paxos.failureService env x.runner.failureDetector.checker.1) ∨
      (x.act canBind a).runner.failureDetector.leaderDetector = x.runner.failureDetector.leaderDetector ∧
        (x.act canBind a).runner.paxos.isLeader = x.runner.paxos.isLeader := by
  -- no other call of the node changes who leads
  have hcall : ∀ e, (∀ env lid, e ≠ .failureService env lid) →
      (Process.call x.runner.paxos e).2.isLeader = x.runner.paxos.isLeader :=
    fun e he => x.runner.paxos.isLeader_call he
  by_cases hrun : x.stopped = none
  · rw [act_of_running hrun]
    cases a with
    | failureCheck env =>
        have hperform : perform canBind (.failureCheck env) x = x.failureCheck canBind env := rfl
        rw [hperform]
        rcases failureCheck_cases canBind x env with ⟨-, he⟩ | ⟨-, _, _, -, he⟩
        · rw [he]
          exact Or.inr ⟨rfl, rfl⟩
        · rw [he]
          exact Or.inl ⟨env, rfl, rfl⟩
    | hostControl shutdown => exact Or.inr ⟨rfl, rfl⟩
    | sendHeartbeat now =>
        right
        show (x.sendHeartbeat now).runner.failureDetector.leaderDetector = _ ∧
          (x.sendHeartbeat now).runner.paxos.isLeader = _
        unfold sendHeartbeat
        split
        · exact ⟨rfl, hcall .sendHeartbeat nofun⟩
        · exact ⟨rfl, rfl⟩
    | request req =>
        right
        show (x.processClients [req]).runner.failureDetector.leaderDetector = _ ∧
          (x.processClients [req]).runner.paxos.isLeader = _
        unfold processClients
        split
        · exact ⟨rfl, rfl⟩
        · exact ⟨rfl, isLeader_submit req⟩
    | message env m =>
        refine Or.inr ⟨?_, hcall (.message env m) nofun⟩
        obtain ⟨sender, payload⟩ := m
        cases payload <;> rfl
    | demo now =>
        right
        show (x.sendDemo 1 now).runner.failureDetector.leaderDetector = _ ∧
          (x.sendDemo 1 now).runner.paxos.isLeader = _
        unfold sendDemo
        split
        · exact ⟨rfl, rfl⟩
        · next helper _ => exact ⟨rfl, helper.isLeader_sendIfReady ..⟩
    | tick env =>
        right
        have htick := hcall (.tick env) nofun
        show (x.handleTick env).runner.failureDetector.leaderDetector = _ ∧
          (x.handleTick env).runner.paxos.isLeader = _
        unfold handleTick
        simp only [Process.call] at htick
        split
        · next he => exact ⟨rfl, by rw [he] at htick; exact htick⟩
        · next he => exact ⟨rfl, by rw [he] at htick; exact htick⟩
        · next he =>
          unfold dispatchResponses
          rw [he] at htick
          split <;> exact ⟨rfl, htick⟩
  · rw [act, andThen_of_stopped hrun]
    exact Or.inr ⟨rfl, rfl⟩

end MainLoop

end PaxosWasm
