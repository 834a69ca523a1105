import PaxosWasm.Agents.LearnerVotes
import PaxosWasm.Agents.TrioRuns

/-!
# A node at work

The runner calls a node with ticks, messages, verdicts of the failure detector and client requests,
in any order, until a tick panics; a node may be stopped and started again over its files. Whatever
is called, the proposer agent of the node takes leader steps.

A process is a node together with what it had sent before its last start, so that a message sent by an
earlier life is not forgotten. Calls in which each agent goes its own way are separated from those in
which the agents of a coordinator act together (`call_cases`), which keeps what is proved of a call apart
from what is proved of a tick.
-/

namespace PaxosWasm

open Library Leader

/-! ## Processes

A process is a node over its lifetimes: it goes on after a panic with nothing but a restart, over the
files that it has left. -/

/-- What the three agents of a node have sent. -/
structure Logs where
  proposer : List Sent
  acceptor : List Sent
  learner : List Sent

namespace PaxosCoordinator

def logs (n : PaxosCoordinator) : Logs :=
  { proposer := n.proposer?.elim [] (fun p => p.networkClient.sent)
    acceptor := n.acceptor?.elim [] (fun a => a.networkClient.sent)
    learner := n.learner?.elim [] (fun l => l.networkClient.sent) }

/-- The files a stopped node leaves: `k` of the buffered records of each changelog have got there. -/
def dirs (n : PaxosCoordinator) (k : Nat) : Dirs :=
  { proposer := n.proposer?.elim .empty (fun p => p.proposer.storage.store.dir)
    acceptor := n.acceptor?.elim .empty (fun a => a.acceptor.storage.store.stopped k)
    learner := n.learner?.elim .empty (fun l => l.learner.storage.store.stopped k) }

/-- A learner asks for learns again in a tick; this is that part of a tick, for any slots. -/
def retryLearns (n : PaxosCoordinator) (env : Env) (slots : List Slot) : PaxosCoordinator :=
  match n.agents with
  | .learner l => { n with agents := .learner (l.sendRetryLearns slots) }
  | .coordinator t => { n with agents := .coordinator (t.retryLearns n.config env slots) }
  | _ => n

end PaxosCoordinator

/-- A node, whether it still runs, and what it had sent before its last start. -/
structure Process where
  node : PaxosCoordinator
  running : Bool
  past : Logs

namespace Process

inductive Event where
  | tick (env : Env)
  | message (env : Env) (m : NetworkMessage)
  | failureService (env : Env) (maybeNewLeader : Option NodeId)
  | submitClientRequest (req : Value)
  | retryLearns (env : Env) (slots : List Slot)
  | sendHeartbeat
  | restart (env : Env) (isLeader : Bool) (k : Nat)

/-- Everything the process has sent. -/
def sent (x : Process) : Logs :=
  { proposer := x.past.proposer ++ x.node.logs.proposer
    acceptor := x.past.acceptor ++ x.node.logs.acceptor
    learner := x.past.learner ++ x.node.logs.learner }

/-- The node after a call, and whether it still runs: a panic stops it. -/
def call (n : PaxosCoordinator) : Event → Bool × PaxosCoordinator
  | .tick env =>
      let (result, n) := n.handleTick env
      (result.isOk, n)
  | .message env m => (true, (n.handleMessage env m).2)
  | .failureService env maybeNewLeader => (true, n.failureService env maybeNewLeader)
  | .submitClientRequest req => (true, (n.submitClientRequest req).2)
  | .retryLearns env slots => (true, n.retryLearns env slots)
  | .sendHeartbeat => (true, n.sendHeartbeat)
  | .restart _ _ _ => (true, n)

def step (hash : String → Nat) (x : Process) : Event → Process
  | .restart env isLeader k =>
      match PaxosCoordinator.new hash (x.node.dirs k) env x.node.node x.node.nodes isLeader
        x.node.config with
      | some node => { node, running := true, past := x.sent }
      | none => x
  | e =>
      if x.running then
        let (running, node) := call x.node e
        { x with node, running }
      else x

end Process

/-! ## Calls, agent by agent

Only in a tick and in a request for learns do the agents of a coordinator act together. In every other
call each does what it would do on a node of its own. -/

namespace PaxosCoordinator

/-- What a call does to the proposer agent of a node, and whether the node still runs. -/
def onProposer (n : PaxosCoordinator) (p : ProposerAgent) : Process.Event → Bool × ProposerAgent
  | .tick env =>
      let (result, p) := p.handleTick env
      (result.isOk, p)
  | .message env m => (true, if n.toProposer m.payload then (p.handleMessage env m).2 else p)
  | .failureService _ none => (true, p)
  | .failureService env (some leaderId) =>
      (true,
        if leaderId = n.node.nodeId ∧ !p.proposer.isLeader then (p.becomeLeader env).2
        else if leaderId ≠ n.node.nodeId ∧ p.proposer.isLeader then p.resignLeader.2
        else p)
  | .submitClientRequest req => (true, (p.submitClientRequest req).2)
  | .sendHeartbeat => (true, p.sendHeartbeat)
  | .retryLearns _ _ => (true, p)
  | .restart _ _ _ => (true, p)

/-- What a call does to the acceptor agent of a node. -/
def onAcceptor (n : PaxosCoordinator) (a : AcceptorAgent) : Process.Event → AcceptorAgent
  | .tick env => a.handleTick env
  | .message env m => if n.toAcceptor m.payload then (a.handleMessage env m).2 else a
  -- the heartbeat of a coordinator is its proposer's
  | .sendHeartbeat => if n.proposer?.isNone then a.sendHeartbeat else a
  | _ => a

/-- What a call does to the learner agent of a node. -/
def onLearner (n : PaxosCoordinator) (l : LearnerAgent) : Process.Event → LearnerAgent
  | .tick env => l.handleTick env
  | .message env m => if n.toLearner m.payload then (l.handleMessage env m).2 else l
  | .sendHeartbeat => if n.proposer?.isNone then l.sendHeartbeat else l
  | .retryLearns _ slots => l.sendRetryLearns slots
  | _ => l

/-- The calls in which the agents of a coordinator act together. -/
def Joint (t : Trio) (n : PaxosCoordinator) (e : Process.Event) : Prop :=
  n.agents = .coordinator t ∧ ((∃ env, e = .tick env) ∨ ∃ env slots, e = .retryLearns env slots)

theorem toAcceptor_of_toProposer {n : PaxosCoordinator} {payload : MessagePayload}
    (h : n.toProposer payload = true) : n.toAcceptor payload = false ∧ n.toLearner payload = false := by
  cases payload <;> simp_all [toProposer, toAcceptor, toLearner]

theorem toLearner_of_toAcceptor {n : PaxosCoordinator} {payload : MessagePayload}
    (h : n.toAcceptor payload = true) : n.toLearner payload = false := by
  cases payload <;> simp_all [toAcceptor, toLearner]

section With

variable (n : PaxosCoordinator) (f : ProposerAgent → ProposerAgent)

theorem proposer?_withProposer : (n.withProposer f).proposer? = n.proposer?.map f := by
  obtain ⟨config, node, nodes, agents⟩ := n
  cases agents <;> rfl

theorem acceptor?_withProposer : (n.withProposer f).acceptor? = n.acceptor? := by
  obtain ⟨config, node, nodes, agents⟩ := n
  cases agents <;> rfl

theorem learner?_withProposer : (n.withProposer f).learner? = n.learner? := by
  obtain ⟨config, node, nodes, agents⟩ := n
  cases agents <;> rfl

end With

/-- A verdict of the failure detector concerns the proposer agent alone. -/
theorem failureService_eq (n : PaxosCoordinator) (env : Env) (lid : Option NodeId) :
    n.failureService env lid =
      n.withProposer (fun p => (n.onProposer p (.failureService env lid)).2) := by
  obtain ⟨config, node, nodes, agents⟩ := n
  cases lid with
  | none => cases agents <;> rfl
  | some leaderId =>
      cases agents with
      | proposer p =>
          cases hleads : p.proposer.isLeader <;> by_cases hself : leaderId = node.nodeId <;>
            simp [failureService, isLeader, proposer?, withProposer, onProposer, hleads, hself]
      | coordinator t =>
          cases hleads : t.proposer.proposer.isLeader <;> by_cases hself : leaderId = node.nodeId <;>
            simp [failureService, isLeader, proposer?, withProposer, onProposer, hleads, hself]
      | acceptor a => simp [failureService, isLeader, proposer?, withProposer]
      | learner l => simp [failureService, isLeader, proposer?, withProposer]

/-- A message goes to one agent. -/
theorem agents_handleMessage (n : PaxosCoordinator) (env : Env) (m : NetworkMessage) :
    let n' := (n.handleMessage env m).2
    n'.proposer? = n.proposer?.map (fun p => (n.onProposer p (.message env m)).2) ∧
    n'.acceptor? = n.acceptor?.map (fun a => n.onAcceptor a (.message env m)) ∧
    n'.learner? = n.learner?.map (fun l => n.onLearner l (.message env m)) := by
  intro n'
  obtain ⟨config, node, nodes, agents⟩ := n
  simp only [n', handleMessage, onProposer, onAcceptor, onLearner]
  cases agents with
  | proposer p =>
      dsimp only
      split <;> simp [proposer?, acceptor?, learner?, *]
  | acceptor a =>
      dsimp only
      split <;> simp [proposer?, acceptor?, learner?, *]
  | learner l =>
      dsimp only
      split <;> simp [proposer?, acceptor?, learner?, *]
  | coordinator t =>
      dsimp only
      split
      · next hto =>
        obtain ⟨hacc, hlearn⟩ := toAcceptor_of_toProposer hto
        simp [proposer?, acceptor?, learner?, hacc, hlearn]
      · next hno =>
        split
        · next hto =>
          have hlearn := toLearner_of_toAcceptor hto
          simp [proposer?, acceptor?, learner?, hlearn]
        · next hno' =>
          split <;> simp [proposer?, acceptor?, learner?, *]

/-- **In every other call each agent goes its own way.** -/
theorem call_cases (n : PaxosCoordinator) (e : Process.Event) (h : ∀ t, ¬ n.Joint t e) :
    (Process.call n e).2.proposer? = n.proposer?.map (fun p => (n.onProposer p e).2) ∧
    (Process.call n e).2.acceptor? = n.acceptor?.map (fun a => n.onAcceptor a e) ∧
    (Process.call n e).2.learner? = n.learner?.map (fun l => n.onLearner l e) ∧
    (∀ p, n.proposer? = some p → (Process.call n e).1 = (n.onProposer p e).1) := by
  cases e with
  | message env m =>
      obtain ⟨hprop, hacc, hlearn⟩ := n.agents_handleMessage env m
      exact ⟨hprop, hacc, hlearn, fun _ _ => rfl⟩
  | failureService env lid =>
      have heq := n.failureService_eq env lid
      refine ⟨?_, ?_, ?_, fun p _ => ?_⟩
      · show (n.failureService env lid).proposer? = _
        rw [heq, proposer?_withProposer]
      · show (n.failureService env lid).acceptor? = _
        rw [heq, acceptor?_withProposer]
        exact Option.map_id'.symm
      · show (n.failureService env lid).learner? = _
        rw [heq, learner?_withProposer]
        exact Option.map_id'.symm
      · cases lid <;> rfl
  | tick env =>
      obtain ⟨config, node, nodes, agents⟩ := n
      cases agents with
      | coordinator t => exact absurd ⟨rfl, Or.inl ⟨env, rfl⟩⟩ (h t)
      | proposer p => exact ⟨rfl, rfl, rfl, fun p' hp => by cases hp; rfl⟩
      | _ => exact ⟨rfl, rfl, rfl, fun p' hp => by cases hp⟩
  | retryLearns env slots =>
      obtain ⟨config, node, nodes, agents⟩ := n
      cases agents with
      | coordinator t => exact absurd ⟨rfl, Or.inr ⟨env, slots, rfl⟩⟩ (h t)
      | _ => exact ⟨rfl, rfl, rfl, fun _ _ => rfl⟩
  | _ =>
      obtain ⟨config, node, nodes, agents⟩ := n
      cases agents <;> exact ⟨rfl, rfl, rfl, fun _ _ => rfl⟩

section Steps

variable {g : Given} {n : PaxosCoordinator} {p : ProposerAgent}

/-! ### The proposer agent as a leader

Every call of a node comes to steps of an abstract leader, if the call stays within what is allowed. -/

/-- What a call must not exceed, for the proposer agent `p` of the node to take only the steps that
`g` leaves open. -/
structure Allows (g : Given) (n : PaxosCoordinator) (p : ProposerAgent) (e : Process.Event) : Prop where
  config_eq : p.config = n.config
  disabled : ∀ a, n.acceptor? = some a → a.Disabled
  message : ∀ env m, e = .message env m → p.Admits g m
  usurps : ∀ env, e = .failureService env (some n.node.nodeId) → p.proposer.isLeader = false →
    p.phase ≠ .acceptCommit ∨ g.usurps
  promise : ∀ a, n.acceptor? = some a → ∀ pr, g.promise pr p.node.nodeId
  resets : n.config.isEventDriven = false → ∀ l slot, g.resets l slot
  locally : ∀ a, (Process.call n e).2.acceptor? = some a → Trio.CountsLocally g p.node.nodeId a

theorem nil_of_isOk {α : Type} {r : Except String α} {pending : List Proposal}
    (hok : ∀ x, r = .ok x → pending = []) (hrun : r.isOk = true) : pending = [] := by
  cases r with
  | ok x => exact hok x rfl
  | error e => cases hrun

theorem steps_onProposer {e : Process.Event} (h : n.Allows g p e) :
    ∃ pending, Steps g (p.leader []) ((n.onProposer p e).2.leader pending) ∧
      ((n.onProposer p e).1 = true → pending = []) := by
  cases e with
  | tick env =>
      -- a tick that panics may leave proposals to broadcast
      obtain ⟨pending, hsteps, hok⟩ := ProposerAgent.steps_handleTick (g := g) (a := p) env
        (by rw [h.config_eq]; exact h.resets)
      exact ⟨pending, hsteps, nil_of_isOk hok⟩
  | message env m =>
      unfold onProposer
      dsimp only
      split
      · next hto =>
        refine ⟨[], ProposerAgent.steps_handleMessage env (h.message env m rfl) (fun r hr => ?_),
          fun _ => rfl⟩
        rw [hr] at hto
        rw [h.config_eq]
        simpa [toProposer] using hto
      · exact ⟨[], .refl, fun _ => rfl⟩
  | failureService env lid =>
      cases lid with
      | none => exact ⟨[], .refl, fun _ => rfl⟩
      | some leaderId =>
          unfold onProposer
          dsimp only
          split
          · next hself =>
            obtain ⟨rfl, _⟩ := hself
            exact ⟨[], ProposerAgent.steps_becomeLeader env (h.usurps env rfl), fun _ => rfl⟩
          · split
            · refine ⟨[], ?_, fun _ => rfl⟩
              rw [ProposerAgent.leader_resignLeader]
            · exact ⟨[], .refl, fun _ => rfl⟩
  | submitClientRequest req => exact ⟨[], .refl, fun _ => rfl⟩
  | sendHeartbeat =>
      refine ⟨[], ?_, fun _ => rfl⟩
      unfold onProposer
      rw [ProposerAgent.leader_sendHeartbeat]
  | retryLearns env slots => exact ⟨[], .refl, fun _ => rfl⟩
  | restart env isLeader k => exact ⟨[], .refl, fun _ => rfl⟩

/-- **Whatever the runner calls**, the proposer agent takes leader steps, and no proposal is left
pending unless the node panics. -/
theorem steps_call {e : Process.Event} (hp : n.proposer? = some p) (h : n.Allows g p e) :
    ∃ p' pending, (Process.call n e).2.proposer? = some p' ∧
      Steps g (p.leader []) (p'.leader pending) ∧ ((Process.call n e).1 = true → pending = []) := by
  by_cases hjoint : ∃ t, n.Joint t e
  · obtain ⟨t, hagents, hevent⟩ := hjoint
    obtain ⟨config, node, nodes, agents⟩ := n
    obtain rfl : agents = .coordinator t := hagents
    obtain rfl := Option.some.inj hp
    rcases hevent with ⟨env, rfl⟩ | ⟨env, slots, rfl⟩
    · obtain ⟨pending, hsteps, hok⟩ := Trio.steps_handleTick (g := g) (t := t) env config
        node h.config_eq (h.disabled _ rfl) (h.promise _ rfl) h.resets (h.locally _ rfl)
      exact ⟨_, pending, rfl, hsteps, nil_of_isOk hok⟩
    · exact ⟨_, [], rfl, Trio.steps_retryLearns env config h.config_eq slots, fun _ => rfl⟩
  · obtain ⟨hprop, _, _, hrun⟩ := n.call_cases e (fun t ht => hjoint ⟨t, ht⟩)
    obtain ⟨pending, hsteps, hok⟩ := steps_onProposer h
    refine ⟨_, pending, by rw [hprop, hp]; rfl, hsteps, fun hcall => hok ?_⟩
    rw [← hrun p hp]
    exact hcall

end Steps

/-! ### What a call leaves alone

The settings of a node never change, and an agent does nothing but what its handlers do. -/

/-- The same node with the same peers and settings. -/
def SameSetup (n n' : PaxosCoordinator) : Prop :=
  n'.node = n.node ∧ n'.config = n.config ∧ n'.nodes = n.nodes

theorem SameSetup.refl (n : PaxosCoordinator) : n.SameSetup n := ⟨rfl, rfl, rfl⟩

theorem sameSetup_withProposer (n : PaxosCoordinator) (f : ProposerAgent → ProposerAgent) :
    n.SameSetup (n.withProposer f) := by
  obtain ⟨config, node, nodes, agents⟩ := n
  cases agents <;> exact ⟨rfl, rfl, rfl⟩

theorem sameSetup_handleMessage (n : PaxosCoordinator) (env : Env) (m : NetworkMessage) :
    n.SameSetup (n.handleMessage env m).2 := by
  obtain ⟨config, node, nodes, agents⟩ := n
  unfold handleMessage
  cases agents with
  | coordinator t =>
      dsimp only
      split
      · exact ⟨rfl, rfl, rfl⟩
      · split
        · exact ⟨rfl, rfl, rfl⟩
        · split <;> exact ⟨rfl, rfl, rfl⟩
  | _ => dsimp only; split <;> exact ⟨rfl, rfl, rfl⟩

theorem sameSetup_call (n : PaxosCoordinator) (e : Process.Event) :
    n.SameSetup (Process.call n e).2 := by
  cases e with
  | message env m => exact n.sameSetup_handleMessage env m
  | failureService env lid =>
      show n.SameSetup (n.failureService env lid)
      rw [failureService_eq]
      exact n.sameSetup_withProposer _
  | submitClientRequest req => exact n.sameSetup_withProposer _
  | restart env isLeader k => exact SameSetup.refl n
  | _ =>
      obtain ⟨config, node, nodes, agents⟩ := n
      cases agents <;> exact ⟨rfl, rfl, rfl⟩

/-- Whatever is called, the acceptor agent of a node does what its handlers respect. -/
theorem respects_call {R : AcceptorAgent → AcceptorAgent → Prop} (hR : AcceptorAgent.Pieces R)
    (n : PaxosCoordinator) (e : Process.Event) {a : AcceptorAgent} (ha : n.acceptor? = some a) :
    ∃ a', (Process.call n e).2.acceptor? = some a' ∧ R a a' := by
  by_cases hjoint : ∃ t, n.Joint t e
  · obtain ⟨t, hagents, hevent⟩ := hjoint
    obtain ⟨config, node, nodes, agents⟩ := n
    obtain rfl : agents = .coordinator t := hagents
    obtain rfl := Option.some.inj ha
    rcases hevent with ⟨env, rfl⟩ | ⟨env, slots, rfl⟩
    · exact ⟨_, rfl, Trio.respects_handleTick env config node hR.respects⟩
    · exact ⟨_, rfl, Trio.respects_retryLearns env config hR.respects slots⟩
  · obtain ⟨_, hacc, _, _⟩ := n.call_cases e (fun t ht => hjoint ⟨t, ht⟩)
    refine ⟨_, by rw [hacc, ha]; rfl, ?_⟩
    cases e with
    | tick env => exact hR.flush a env
    | message env m =>
        unfold onAcceptor
        dsimp only
        split
        · exact hR.handleMessage a env m
        · exact hR.refl a
    | sendHeartbeat =>
        unfold onAcceptor
        dsimp only
        split
        · exact hR.send a a.allNodes .heartbeat
        · exact hR.refl a
    | _ => exact hR.refl a

/-- Without storage, the acceptor agent keeps what it holds through any call. -/
theorem keeps_call (n : PaxosCoordinator) (e : Process.Event) {a : AcceptorAgent}
    (ha : n.acceptor? = some a) :
    ∃ a', (Process.call n e).2.acceptor? = some a' ∧ a.Keeps a' :=
  n.respects_call AcceptorAgent.pieces_keeps e ha

/-- What the acceptor agent has sent stays sent. -/
theorem acceptorSent_prefix_call (n : PaxosCoordinator) (e : Process.Event) {a : AcceptorAgent}
    (ha : n.acceptor? = some a) :
    ∃ a', (Process.call n e).2.acceptor? = some a' ∧ a.networkClient.sent <+: a'.networkClient.sent :=
  n.respects_call AcceptorAgent.pieces_sent e ha

end PaxosCoordinator

end PaxosWasm
