import PaxosWasm.Agents.Responses
import PaxosWasm.Cluster.LearnerAgreement

/-!
# Whose result a client gets

A leader told of an executed slot answers the client of the proposal it keeps for that slot. The
result carries the value that was executed, and nobody compares the two. So where a rival has had its
value chosen in a slot in which a leader still has a proposal in flight, that leader answers its own
client with the result of the rival's command.

The responses of one report are computed first (`queued`), as a function of the proposals the leader
keeps. They go to the right clients exactly under `KeepsExecuted`, a condition on the leader before the
report. The second half follows a report from the learner to the leader: its results are those of
values that the learner has been told.
-/

namespace PaxosWasm

open Library

/-! ## Finalizing a proposal

A response is made out for the request that a proposer has in the slot, whatever has been executed there. -/

/-- Whose request a value is: the client and the number. -/
def Value.request (v : Value) : String × Nat := (v.clientId, v.clientSeq)

namespace Proposer

/-- The proposal of a slot that is not finalized yet. -/
def unfinished? (p : Proposer) (slot : Slot) : Option Proposal :=
  p.getProposalBy slot (fun status => decide (status ≠ .finalized))

variable {p : Proposer}

theorem unfinished?_eq_some {slot : Slot} {prop : Proposal} : p.unfinished? slot = some prop ↔
    ∃ e, p.proposals.get? slot = some e ∧ e.status ≠ .finalized ∧ e.proposal = prop := by
  simp [unfinished?, getProposalBy, Option.filter_eq_some_iff, and_assoc]

/-- Finalizing a slot gives out the value of its unfinished proposal, and leaves it none. -/
theorem markProposalFinalized_eq (p : Proposer) (slot : Slot) :
    (p.markProposalFinalized slot).1 = (p.unfinished? slot).map Proposal.value ∧
      ∀ slot', (p.markProposalFinalized slot).2.unfinished? slot' =
        if slot' = slot then none else p.unfinished? slot' := by
  unfold markProposalFinalized
  split
  · next hnone =>
    have hopen : p.unfinished? slot = none := Option.isNone_iff_eq_none.mp hnone
    refine ⟨by rw [hopen]; rfl, fun slot' => ?_⟩
    split
    · next hs => rw [hs, hopen]
    · rfl
  · next hsome =>
    obtain ⟨prop, hprop⟩ : ∃ prop, p.unfinished? slot = some prop :=
      Option.ne_none_iff_exists'.mp (fun hnone => hsome (Option.isNone_iff_eq_none.mpr hnone))
    obtain ⟨e, hget, -, rfl⟩ := unfinished?_eq_some.mp hprop
    rw [hprop, updateProposalStatus, hget]
    refine ⟨rfl, fun slot' => ?_⟩
    simp only [unfinished?, getProposalBy, OrdMap.get?_insert]
    split
    · next hs => simp
    · rfl

end Proposer

namespace ProposerAgent

variable {a : ProposerAgent}

/-! ## The responses to a report

A report makes the leader finalize the proposals of its slots. Each response goes to the client whose
value the leader has proposed in the slot, with the result of what has been executed there. -/

/-- The responses the results lead to, each with its result. -/
def queuedFor (a : ProposerAgent) : List ExecuteResult → List (ExecuteResult × ClientResponse)
  | [] => []
  | r :: rs =>
      (a.proposer.markProposalFinalized r.slot).1.toList.map (fun v => (r, r.response v)) ++
        (a.processResult r).queuedFor rs

/-- The agent once it has taken over the cursor of a report. -/
def caughtUp (a : ProposerAgent) (env : Env) (executed : Executed) : ProposerAgent :=
  if executed.adu > a.proposer.adu then { a with proposer := a.proposer.setAdu env executed.adu }
  else a

/-- **The responses `process_executed` queues**, each with the result it is made of. -/
def queued (a : ProposerAgent) (env : Env) (executed : Executed) :
    List (ExecuteResult × ClientResponse) :=
  if (a.caughtUp env executed).proposer.isLeader then
    (a.caughtUp env executed).queuedFor executed.results
  else []

/-- A result other than a no-op's is given to the client whose command was executed. -/
def AnswersExecuted (a : ProposerAgent) (env : Env) (executed : Executed) : Prop :=
  ∀ q ∈ a.queued env executed, q.1.cmdResult ≠ .noOp →
    (q.2.clientId, q.2.clientSeq) = q.1.value.request

/-- **Where a command was executed, the leader has no unfinished proposal of another request.** Only
the first result of a slot counts. -/
def KeepsExecuted (a : ProposerAgent) (executed : Executed) : Prop :=
  a.proposer.isLeader = true →
    ∀ r ∈ executed.results, r.cmdResult ≠ .noOp →
      executed.results.find? (fun r' => decide (r'.slot = r.slot)) = some r →
      ∀ prop ∈ a.proposer.unfinished? r.slot, prop.value.request = r.value.request

instance (a : ProposerAgent) (env : Env) (executed : Executed) :
    Decidable (a.AnswersExecuted env executed) :=
  inferInstanceAs (Decidable (∀ q ∈ a.queued env executed, _))

instance (a : ProposerAgent) (executed : Executed) : Decidable (a.KeepsExecuted executed) :=
  inferInstanceAs (Decidable (_ → ∀ r ∈ executed.results, _))

theorem caughtUp_frame (a : ProposerAgent) (env : Env) (executed : Executed) :
    (a.caughtUp env executed).proposer.isLeader = a.proposer.isLeader ∧
      (a.caughtUp env executed).clientResponses = a.clientResponses ∧
      ∀ slot, (a.caughtUp env executed).proposer.unfinished? slot = a.proposer.unfinished? slot := by
  unfold caughtUp
  split <;> exact ⟨rfl, rfl, fun _ => rfl⟩

theorem unfinished?_processResult (a : ProposerAgent) (r : ExecuteResult) (slot : Slot) :
    (a.processResult r).proposer.unfinished? slot =
      if slot = r.slot then none else a.proposer.unfinished? slot := by
  have hfinal := (a.proposer.markProposalFinalized_eq r.slot).2 slot
  unfold processResult
  split
  · next he =>
    rw [he] at hfinal
    exact hfinal
  · next value proposer he =>
    rw [he] at hfinal
    dsimp only
    split
    · rw [← hfinal]
      show (proposer.enqueuePrioritizedRequest value).unfinished? slot = _
      unfold Proposer.enqueuePrioritizedRequest
      split <;> rfl
    · exact hfinal

theorem clientResponses_processResult (a : ProposerAgent) (r : ExecuteResult) :
    (a.processResult r).clientResponses = a.clientResponses.insertAll
      ((a.proposer.markProposalFinalized r.slot).1.toList.map (fun v => (r.slot, r.response v))) := by
  unfold processResult
  split
  · next he => rw [he]; rfl
  · next value proposer he =>
    rw [he]
    dsimp only
    split <;> rfl

theorem clientResponses_processResults (a : ProposerAgent) (rs : List ExecuteResult) :
    (rs.foldl processResult a).clientResponses =
      a.clientResponses.insertAll ((a.queuedFor rs).map (fun q => (q.1.slot, q.2))) := by
  induction rs generalizing a with
  | nil => rfl
  | cons r rs ih =>
      rw [List.foldl_cons, ih, clientResponses_processResult, queuedFor, List.map_append,
        OrdMap.insertAll_append, List.map_map]
      rfl

/-- **What `process_executed` queues** is what it adds to the responses. -/
theorem clientResponses_processExecuted (a : ProposerAgent) (env : Env) (executed : Executed) :
    (a.processExecuted env executed).clientResponses =
      a.clientResponses.insertAll ((a.queued env executed).map (fun q => (q.1.slot, q.2))) := by
  obtain ⟨-, hresponses, -⟩ := a.caughtUp_frame env executed
  rw [← hresponses]
  show (if !(a.caughtUp env executed).proposer.isLeader then a.caughtUp env executed
    else executed.results.foldl processResult (a.caughtUp env executed)).clientResponses = _
  unfold queued
  cases (a.caughtUp env executed).proposer.isLeader with
  | false => rfl
  | true => exact clientResponses_processResults _ _

/-! ### When they are right -/

/-- **Which responses are queued**: one for the first result of each slot with an unfinished proposal. -/
theorem mem_queuedFor {rs : List ExecuteResult} {q : ExecuteResult × ClientResponse} :
    q ∈ a.queuedFor rs ↔ rs.find? (fun r => decide (r.slot = q.1.slot)) = some q.1 ∧
      ∃ prop, a.proposer.unfinished? q.1.slot = some prop ∧ q.2 = q.1.response prop.value := by
  obtain ⟨r', resp⟩ := q
  induction rs generalizing a with
  | nil => simp [queuedFor]
  | cons r rs ih =>
      rw [queuedFor, List.mem_append, ih, a.unfinished?_processResult,
        (a.proposer.markProposalFinalized_eq r.slot).1, List.find?_cons]
      dsimp only
      by_cases hslot : r'.slot = r.slot
      · -- nothing is left for a second result of the slot
        rw [if_pos hslot, decide_eq_true hslot.symm, Option.some.injEq, hslot]
        simp only [reduceCtorEq, false_and, exists_false, and_false, or_false]
        cases a.proposer.unfinished? r.slot with
        | none => simp
        | some prop =>
            simp only [Option.map_some, Option.toList_some, List.map_singleton, List.mem_singleton,
              Prod.mk.injEq, Option.some.injEq, exists_eq_left']
            constructor
            · rintro ⟨rfl, rfl⟩
              exact ⟨rfl, rfl⟩
            · rintro ⟨rfl, rfl⟩
              exact ⟨rfl, rfl⟩
      · have hother : (r', resp) ∉ ((a.proposer.unfinished? r.slot).map Proposal.value).toList.map
            (fun v => (r, r.response v)) := by
          intro hmem
          obtain ⟨v, -, he⟩ := List.mem_map.mp hmem
          exact hslot (congrArg ExecuteResult.slot (Prod.mk.inj he).1).symm
        rw [if_neg hslot, decide_eq_false (fun h => hslot h.symm), or_iff_right hother]

/-- **A report answers the clients whose commands were executed** exactly if the leader has no
unfinished proposal of another request in their slots. -/
theorem answersExecuted_iff (a : ProposerAgent) (env : Env) (executed : Executed) :
    a.AnswersExecuted env executed ↔ a.KeepsExecuted executed := by
  obtain ⟨hleads, -, hopen⟩ := a.caughtUp_frame env executed
  unfold AnswersExecuted KeepsExecuted queued
  rw [hleads]
  cases a.proposer.isLeader with
  | false => simp
  | true =>
      simp only [if_true, mem_queuedFor, hopen]
      constructor
      · intro h _ r _ hcmd hfirst prop hprop
        exact h (r, r.response prop.value) ⟨hfirst, prop, hprop, rfl⟩ hcmd
      · rintro h ⟨r, resp⟩ ⟨hfirst, prop, hprop, hresp⟩ hcmd
        obtain rfl : resp = r.response prop.value := hresp
        exact h trivial r (List.mem_of_find?_eq_some hfirst) hcmd hfirst prop hprop

end ProposerAgent

/-! ## Reports in a cluster

A report comes as a message, or from the learner of the same coordinator in a tick. In both cases it is
one of what some learner has executed. -/

namespace Trio

/-- The results a coordinator hands to its proposer in a tick. -/
def handed (t : Trio) (config : RunConfig) (env : Env) : Executed :=
  (((t.maybeRetryLearn config env).learner.executeChosenLearns env).collectExecuted none false).1

end Trio

namespace PaxosCoordinator

/-- The proposer agent and the report an event makes it process. -/
def processes (n : PaxosCoordinator) : Process.Event → Option (ProposerAgent × Env × Executed)
  | .message env m =>
      match n.proposer?, m.payload with
      | some p, .executed executed =>
          if n.toProposer m.payload then some (p, env, executed) else none
      | _, _ => none
  | .tick env =>
      match n.agents with
      | .coordinator t =>
          let executed := t.handed n.config env
          let p := (t.maybeRetryLearn n.config env).proposer
          if p.proposer.isLeader ∧ executed.results ≠ [] then some (p, env, executed) else none
      | _ => none
  | _ => none

variable {K : Facts} {L : Slot → Prop} {h : Heard} {m : Membership} {node : Node}
  {config : RunConfig} {n : PaxosCoordinator} {p : ProposerAgent} {env : Env} {executed : Executed}

/-- **The report is processed**: by the proposer agent for a message, and before the leader's part of
the tick for a coordinator. -/
theorem processes_message {env' : Env} {msg : NetworkMessage}
    (hp : n.processes (.message env' msg) = some (p, env, executed)) :
    n.proposer? = some p ∧ msg.payload = .executed executed ∧
      (Process.call n (.message env' msg)).2.proposer? = some (p.processExecuted env executed) := by
  simp only [processes] at hp
  split at hp
  · next p' executed' hp' hpayload =>
    split at hp
    · next hto =>
      obtain ⟨rfl, rfl, rfl⟩ : p' = p ∧ env' = env ∧ executed' = executed := by simpa using hp
      refine ⟨hp', hpayload, ?_⟩
      show (n.handleMessage env' msg).2.proposer? = _
      rw [(n.agents_handleMessage env' msg).1, hp']
      rw [Option.map_some, onProposer, if_pos hto]
      simp only [ProposerAgent.handleMessage, hpayload]
    · cases hp
  · cases hp

theorem processes_tick {env' : Env}
    (hp : n.processes (.tick env') = some (p, env, executed)) :
    ∃ t, n.agents = .coordinator t ∧ executed = t.handed n.config env' ∧
      ((t.maybeRetryLearn n.config env').driveLearner env').proposer =
        p.processExecuted env executed := by
  simp only [processes] at hp
  split at hp
  · next t hagents =>
    split at hp
    · next hleads =>
      obtain ⟨rfl, rfl, rfl⟩ := by simpa using hp
      refine ⟨t, hagents, rfl, ?_⟩
      exact congrArg Trio.proposer (if_pos hleads)
    · cases hp
  · cases hp

/-- What a coordinator hands to its proposer is what its learner has been told. -/
theorem Sound.reported_handed (hs : n.Sound K L h m node config) {t : Trio}
    (hagents : n.agents = .coordinator t) (env : Env) :
    ∀ r ∈ (t.handed n.config env).results,
      LearnerAgent.Reported h.learns (LearnerAgent.needed config m.quorum) r := by
  obtain ⟨hl, -⟩ := hs.learner t.learner (by rw [learner?, hagents])
  have hcollect := ((hl.evaluateRetry env).executeChosenLearns env).collectExecuted none false
  have hretry : (t.maybeRetryLearn n.config env).learner = _ := t.learner_maybeRetryLearn env
  rw [← hretry] at hcollect
  exact hcollect.2

end PaxosCoordinator

namespace Cluster

/-- The report an event of the cluster makes a proposer agent process, and that agent. -/
def processes (c : Cluster) : Event → Option (ProposerAgent × Env × Executed)
  | .call _ (.message _ _) => none
  | .call j e => (c.get? j).bind (fun x => if x.running then x.node.processes e else none)
  | .deliver i outlet k j env =>
      (c.message? i outlet k j).bind (fun m =>
        (c.get? j).bind (fun x => if x.running then x.node.processes (.message env m) else none))

/-- **Every response the event queues** for a result other than a no-op's goes to the client whose
command was executed. -/
def AnswersExecuted (c : Cluster) (e : Event) : Prop :=
  ∀ p ∈ c.processes e, p.1.AnswersExecuted p.2.1 p.2.2

/-- The leader that processes a report has no unfinished proposal of another request in the slots in
which commands were executed. -/
def KeepsExecuted (c : Cluster) (e : Event) : Prop :=
  ∀ p ∈ c.processes e, p.1.KeepsExecuted p.2.2

instance (c : Cluster) (e : Event) : Decidable (c.AnswersExecuted e) :=
  inferInstanceAs (Decidable (∀ p ∈ c.processes e, _))

instance (c : Cluster) (e : Event) : Decidable (c.KeepsExecuted e) :=
  inferInstanceAs (Decidable (∀ p ∈ c.processes e, _))

variable {K : Facts} {L : NodeId → Slot → Prop} {m : Membership} {config : RunConfig} {c : Cluster}

theorem answersExecuted_iff (c : Cluster) (e : Event) : c.AnswersExecuted e ↔ c.KeepsExecuted e :=
  forall₂_congr (fun p _ => p.1.answersExecuted_iff p.2.1 p.2.2)

/-- **A report tells what was executed**: each of its results is that of a value the learner has been
told for the slot. -/
theorem Sound.reported (hs : c.Sound K L m config) {e : Event} {p : ProposerAgent × Env × Executed}
    (hp : c.processes e = some p) : ∀ r ∈ p.2.2.results,
      LearnerAgent.Reported c.heard.learns (LearnerAgent.needed config m.quorum) r := by
  cases e with
  | call j e' =>
      cases e' with
      | message env msg => cases hp
      | tick env =>
          obtain ⟨x, hx, hcall⟩ := Option.bind_eq_some_iff.mp hp
          split at hcall
          · obtain ⟨node, -, rfl, hsound⟩ := hs j x hx
            obtain ⟨t, hagents, he, -⟩ := PaxosCoordinator.processes_tick hcall
            rw [he]
            -- a coordinator hands over what its own learner reports
            exact hsound.now.reported_handed hagents env
          · cases hcall
      | _ =>
          obtain ⟨x, -, hcall⟩ := Option.bind_eq_some_iff.mp hp
          split at hcall <;> cases hcall
  | deliver i outlet k j env =>
      obtain ⟨msg, hmsg, harrival⟩ := Option.bind_eq_some_iff.mp hp
      obtain ⟨x, -, hcall⟩ := Option.bind_eq_some_iff.mp harrival
      split at hcall
      · obtain ⟨y, s, hy, hk, -, rfl⟩ := message?_eq_some hmsg
        obtain ⟨-, hpayload, -⟩ := PaxosCoordinator.processes_message hcall
        obtain ⟨node, -, rfl, hsound⟩ := hs i y hy
        have hmem := List.mem_of_getElem? hk
        -- only learners send reports
        cases outlet with
        | proposer =>
            obtain ⟨-, hsays⟩ := hsound.sent.proposer s hmem
            rw [hpayload] at hsays
            exact hsays.elim
        | acceptor =>
            obtain ⟨-, hans⟩ := hsound.sent.acceptor s hmem
            rw [hpayload] at hans
            exact hans.elim
        | learner =>
            obtain ⟨⟨-, hans⟩, -⟩ := hsound.sent.learner s hmem
            rw [hpayload] at hans
            exact hans
      · cases hcall

/-- **Whose result a client gets**: in every run, every response to an executed command goes to the
client that asked for it exactly if no leader that processes a report has an unfinished proposal of
another request in a slot in which a command was executed. -/
theorem responses_match_iff (launch : Launch) (m : Membership) (hfresh : ∀ i, (launch.dirs i).Fresh)
    (es : List Event) :
    Guarded (step launch.hash) (fun c e => ∀ p ∈ c.processes e, ∀ r ∈ p.2.2.results,
      LearnerAgent.Reported c.heard.learns (LearnerAgent.needed launch.config m.quorum) r)
      (start launch m) es ∧
    (Guarded (step launch.hash) AnswersExecuted (start launch m) es ↔
      Guarded (step launch.hash) KeepsExecuted (start launch m) es) := by
  constructor
  · refine guarded_iff_atEach.mpr (fun before e _ _ p hp => ?_)
    exact (sound_run hfresh before).reported hp
  · exact guarded_congr (P := fun _ => True) (fun _ _ _ => trivial)
      (fun c e _ => c.answersExecuted_iff e) trivial es

theorem responses_match_executed_request :
    Guarded (step (Launch.led .inMemory).hash) AnswersExecuted (start (.led .inMemory) sevenNodes)
      (acceptedBy 0 ++ executedBy 1) :=
  (responses_match_iff (.led .inMemory) sevenNodes (Launch.fresh_idle .inMemory)
    (acceptedBy 0 ++ executedBy 1)).2.mpr (by decide)

/-! ### A rival's command

A leader that does not know it has been replaced, and a result in one of its slots. -/

/-- A request of another client. -/
def othersRequest : Value := { setX "b" with clientId := "d" }

/-- Node 1 proposes a request of client `"c"` in slot 1, but its accepts are lost. Node 2 takes over,
and has a request of client `"d"` accepted in slot 1, which learner 21 executes. -/
def rivalExecutes : List Event :=
  (acceptedBy 0).take 11 ++
    [.call 2 (.failureService .quiet (some 2)), .call 2 (.tick { Env.quiet with now := 10000 }),
      .deliver 2 .proposer 0 21 .quiet, .deliver 21 .learner 1 2 .quiet, .call 2 (.tick .quiet),
      .call 2 (.tick .quiet), .deliver 2 .proposer 1 11 .quiet, .deliver 2 .proposer 1 12 .quiet,
      .deliver 11 .acceptor 1 2 .quiet, .deliver 12 .acceptor 1 2 .quiet,
      .call 2 (.submitClientRequest othersRequest), .call 2 (.tick .quiet),
      .deliver 2 .proposer 2 11 .quiet, .deliver 2 .proposer 2 12 .quiet,
      .deliver 11 .acceptor 2 21 .quiet, .deliver 12 .acceptor 2 21 .quiet] ++ executedBy 2

/-- **A client gets the result of a rival's command**: node 1 still takes itself for the leader, and
tells client `"c"` that its request has been executed. -/
theorem rivals_result_answered :
    NoRestarts rivalExecutes ∧ Fifo rivalExecutes ∧
      ¬ Guarded (step (Launch.led .inMemory).hash) AnswersExecuted
        (start (.led .inMemory) sevenNodes) rivalExecutes ∧
      ((run (step (Launch.led .inMemory).hash) (start (.led .inMemory) sevenNodes) rivalExecutes).get?
        1).bind (fun x => x.node.proposer?.bind (fun p => p.clientResponses.get? 1)) =
          some { clientId := "c", clientSeq := 1, success := true, commandResult := .cmdValue none } := by
  refine ⟨by decide, by decide, by decide, by decide⟩

end Cluster

end PaxosWasm
