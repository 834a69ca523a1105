import PaxosWasm.Agents.Node
import PaxosWasm.Agents.TrioSound
import Mathlib.Logic.Relation

/-!
# What calls do to a learner agent

Whatever is called on a node, its learner agent takes some of a few steps: it records a learn, executes
what follows its cursor, takes results off its buffer and hands them on, asks or answers, or moves its
clocks and its files.
-/

namespace PaxosWasm

open Library

namespace LearnerAgent

/-- One step of a learner agent. -/
inductive Step (a : LearnerAgent) : LearnerAgent → Prop
  | record (env : Env) (slot : Slot) (value : Value) (sender : Node) :
      Step a (a.recordLearn env slot value sender).2
  | execute (env : Env) : Step a (a.executeChosenLearns env)
  | collect (batchSize : Option Nat) (full : Bool) : Step a (a.collectExecuted batchSize full).2
  | report (batchSize : Option Nat) (full : Bool) :
      Step a ((a.collectExecuted batchSize full).2.dispatchExecuted
        (a.collectExecuted batchSize full).1).2
  /-- The message reports no results. -/
  | send (ts : List Node) {payload : MessagePayload} (h : payload.executed? = none) :
      Step a (a.send ts payload)
  | evaluateRetry (env : Env) : Step a (a.evaluateRetry env).2
  | clock (now : Nat) : Step a { a with lastExecTime := now }
  | flush (env : Env) : Step a (a.maybeFlushState env)

abbrev Steps : LearnerAgent → LearnerAgent → Prop := Relation.ReflTransGen Step

variable (a : LearnerAgent) (env : Env)

theorem Step.steps {a a' : LearnerAgent} (h : a.Step a') : a.Steps a' := Relation.ReflTransGen.single h

/-! ## The agent on its own

Each handler is a sequence of steps, by its definition. -/

theorem steps_sendRetryLearns (slots : List Slot) : a.Steps (a.sendRetryLearns slots) := by
  unfold sendRetryLearns
  split
  · exact (Step.send _ rfl).steps
  · exact (Step.send _ rfl).steps

theorem steps_handleEvaluateRetry : a.Steps (a.handleEvaluateRetry env) := by
  have hretry := (Step.evaluateRetry (a := a) env).steps
  unfold handleEvaluateRetry
  split
  · next he =>
    rw [he] at hretry
    exact hretry
  · next he =>
    rw [he] at hretry
    exact hretry
  · next slots a' he =>
    rw [he] at hretry
    exact hretry.trans (a'.steps_sendRetryLearns slots)

theorem steps_handleTick : a.Steps (a.handleTick env) := by
  have hretry := a.steps_handleEvaluateRetry env
  unfold handleTick
  dsimp only
  split
  · exact hretry
  · have hexecute := (hretry.tail (.clock env.now)).tail (.execute env)
    refine Relation.ReflTransGen.tail ?_ (.flush env)
    generalize executeChosenLearns _ env = a' at hexecute ⊢
    split
    · split
      · exact hexecute.tail (.collect _ _)
      · exact hexecute.tail (.report _ _)
    · exact hexecute

theorem steps_handleMessage (m : NetworkMessage) : a.Steps (a.handleMessage env m).2 := by
  unfold handleMessage
  split
  · next learn _ =>
    have hrecord := (Step.record (a := a) env learn.slot learn.value m.sender).steps
    split
    · next he =>
      rw [he] at hrecord
      exact hrecord
    · next a' he =>
      rw [he] at hrecord
      have hexecute := hrecord.tail (.execute env)
      dsimp only at hexecute ⊢
      generalize a'.executeChosenLearns env = a'' at hexecute ⊢
      split
      · have hreport := hexecute.tail (.report (some a''.config.messageBatchSize) true)
        split
        · next hd =>
          rw [hd] at hreport
          exact hreport
        · next hd =>
          rw [hd] at hreport
          exact hreport
      · exact hexecute
  · exact (Step.send _ rfl).steps
  · exact .refl

end LearnerAgent

/-! ## A coordinator

So is each piece of the tick of a coordinator that reaches its learner. -/

namespace Trio

variable (t : Trio) (env : Env) (config : RunConfig) (node : Node)

theorem learnerSteps_maybeRetryLearn : t.learner.Steps (t.maybeRetryLearn config env).learner := by
  rw [t.learner_maybeRetryLearn env]
  exact (LearnerAgent.Step.evaluateRetry env).steps

theorem learnerSteps_driveLearner : t.learner.Steps (t.driveLearner env).learner := by
  have hcollect := ((LearnerAgent.Step.execute (a := t.learner) env).steps).tail (.collect none false)
  unfold driveLearner
  dsimp only
  split <;> exact hcollect

theorem learnerSteps_upkeep : t.learner.Steps (t.upkeep config env).learner := by
  have hdriven := (t.learnerSteps_maybeRetryLearn env config).trans
    ((t.maybeRetryLearn config env).learnerSteps_driveLearner env)
  show t.learner.Steps (maybeFlushStates _ _ _).learner
  unfold maybeFlushStates
  split
  · exact hdriven.tail (.flush env)
  · exact hdriven

theorem learnerSteps_commitLocally (slot : Slot) (value : Value) :
    t.learner.Steps (t.commitLocally env config node slot value).2.learner := by
  unfold commitLocally
  split
  · split
    · exact .refl
    · exact .refl
    · exact (LearnerAgent.Step.record env _ _ node).steps
  · exact .refl

theorem learnerSteps_acceptOne (p : Proposal) :
    t.learner.Steps (t.acceptOne env config node p).2.learner := by
  rcases acceptOne_cases env config node t p with ⟨e, he⟩ | ⟨-, he⟩
  · rw [he]
  · rw [he]
    exact (t.broadcast env p).learnerSteps_commitLocally env config node p.slot p.value

theorem learnerSteps_acceptEach (ps : List Proposal) :
    t.learner.Steps (t.acceptEach env config node ps).2.learner := by
  induction ps generalizing t with
  | nil => exact .refl
  | cons p ps ih =>
      have hone := t.learnerSteps_acceptOne env config node p
      unfold acceptEach
      split
      · next he =>
        rw [he] at hone
        exact hone
      · next t' he =>
        rw [he] at hone
        exact hone.trans (ih t')

theorem learnerSteps_acceptPhase : t.learner.Steps (t.acceptPhase env config node).2.learner := by
  unfold acceptPhase
  split
  · exact .refl
  · next props proposer _ =>
    split
    · exact .refl
    · exact learnerSteps_acceptEach { t with proposer } env config node props

theorem learnerSteps_commitPhase : t.learner.Steps (t.commitPhase env config node).2.learner := by
  have hfold : ∀ (learns : List Learn) (t : Trio),
      t.learner.Steps (learns.foldl (commitOne env node) t).learner := by
    intro learns
    induction learns with
    | nil => exact fun t => .refl
    | cons learn learns ih =>
        exact fun t => (LearnerAgent.Step.record env learn.slot learn.value node).steps.trans
          (ih (commitOne env node t learn))
  unfold commitPhase
  dsimp only
  split
  · exact hfold t.proposer.learnsToCommit.1 { t with proposer := t.proposer.learnsToCommit.2 }
  · exact .refl

theorem learner_preparePhase : (t.preparePhase env).2.learner = t.learner := by
  unfold preparePhase
  dsimp only
  split <;> rfl

theorem learnerSteps_leaderTick : t.learner.Steps (t.leaderTick env config node).2.learner := by
  unfold leaderTick
  split
  · exact .refl
  · have hprepare := t.learner_preparePhase env
    split
    · next he =>
      rw [he] at hprepare
      rw [← hprepare]
    · next he =>
      rw [he] at hprepare
      rw [← hprepare]
  · exact .refl
  · have haccept := t.learnerSteps_acceptPhase env config node
    split
    · next he =>
      rw [he] at haccept
      exact haccept
    · next t' he =>
      rw [he] at haccept
      exact haccept.trans (t'.learnerSteps_commitPhase env config node)
  · exact .refl
  · exact .refl

theorem learnerSteps_handleTick : t.learner.Steps (t.handleTick env config node).2.learner := by
  have hup := t.learnerSteps_upkeep env config
  rw [handleTick_eq]
  split
  · exact hup
  · exact hup.trans ((t.upkeep config env).learnerSteps_leaderTick env config node)

end Trio

/-- **Whatever is called**, the learner agent of a node takes steps. -/
theorem PaxosCoordinator.learnerSteps_call (n : PaxosCoordinator) (e : Process.Event) {l : LearnerAgent}
    (hl : n.learner? = some l) : ∃ l', (Process.call n e).2.learner? = some l' ∧ l.Steps l' := by
  by_cases hjoint : ∃ t, n.Joint t e
  · obtain ⟨t, hagents, hevent⟩ := hjoint
    obtain ⟨config, node, nodes, agents⟩ := n
    obtain rfl : agents = .coordinator t := hagents
    obtain rfl := Option.some.inj hl
    rcases hevent with ⟨env, rfl⟩ | ⟨env, slots, rfl⟩
    · exact ⟨_, rfl, t.learnerSteps_handleTick env config node⟩
    · refine ⟨_, rfl, ?_⟩
      rw [t.learner_retryLearns env]
  · obtain ⟨-, -, hlearner, -⟩ := n.call_cases e (fun t ht => hjoint ⟨t, ht⟩)
    refine ⟨_, by rw [hlearner, hl]; rfl, ?_⟩
    cases e with
    | tick env => exact l.steps_handleTick env
    | message env m =>
        unfold onLearner
        dsimp only
        split
        · exact l.steps_handleMessage env m
        · exact .refl
    | sendHeartbeat =>
        unfold onLearner
        dsimp only
        split
        · exact (LearnerAgent.Step.send _ rfl).steps
        · exact .refl
    | retryLearns env slots => exact l.steps_sendRetryLearns slots
    | _ => exact .refl

end PaxosWasm
