import PaxosWasm.Agents.AcceptorRuns
import PaxosWasm.Agents.Coordinator
import PaxosWasm.Agents.ProposerRuns

/-!
# A coordinator at work

In a tick the three agents of a coordinator act together. Its proposer takes leader steps all the
same, where an acceptance by the node's own acceptor counts as one more reply, and its acceptor
does what acceptors do in their handlers.

The handlers of the single agents are taken from their own modules. What is new in a tick is that the
answer of the node's own acceptor does not come as a message: it is counted together with those that do
(`CountsLocally`), and a refusal ends the tick in a panic.
-/

namespace PaxosWasm

open Library

namespace Trio

open Leader

variable {g : Given} {t : Trio} {R : AcceptorAgent → AcceptorAgent → Prop} (env : Env)
  (config : RunConfig) (node : Node)

/-! ## Before the leader's part

Whoever leads, a tick of a coordinator asks for learns again, has its learner execute what it has learned,
and flushes. -/

theorem steps_retryLearns (hcfg : t.proposer.config = config) (slots : List Slot) :
    Steps g (t.proposer.leader []) ((t.retryLearns config env slots).proposer.leader []) := by
  unfold retryLearns
  split
  · exact .refl
  · next hmode =>
    exact ProposerAgent.steps_retryLearns env (by rw [hcfg]; simpa using hmode) slots

theorem steps_maybeRetryLearn (hcfg : t.proposer.config = config) :
    Steps g (t.proposer.leader []) ((t.maybeRetryLearn config env).proposer.leader []) := by
  unfold maybeRetryLearn
  split
  · exact .refl
  · exact .refl
  · next learner he => exact steps_retryLearns (t := { t with learner }) env config hcfg _

theorem steps_driveLearner :
    Steps g (t.proposer.leader []) ((t.driveLearner env).proposer.leader []) := by
  unfold driveLearner
  dsimp only
  split
  · exact ProposerAgent.steps_processExecuted env _
  · exact .refl

theorem leader_maybeFlushStates {pending : List Proposal} :
    (t.maybeFlushStates config env).proposer.leader pending = t.proposer.leader pending := by
  unfold maybeFlushStates
  split <;> rfl

theorem steps_preparePhase (hpromise : ∀ p, g.promise p t.proposer.node.nodeId)
    (hreset : t.proposer.config.isEventDriven = false → ∀ l slot, g.resets l slot) :
    Steps g (t.proposer.leader []) ((t.preparePhase env).2.proposer.leader []) := by
  unfold preparePhase
  dsimp only
  split
  · exact ProposerAgent.steps_preparePhase env _ _ _ (fun p _ => hpromise p) (fun h l => hreset h l _)
  · exact .refl

/-- Local commitment leaves the proposer alone. -/
theorem proposer_commitLocally (slot : Slot) (value : Value) :
    (t.commitLocally env config node slot value).2.proposer = t.proposer := by
  unfold commitLocally
  split
  · split <;> rfl
  · rfl

/-! ## The accept phase

A proposal is broadcast only when the node's own acceptor has accepted it. So a round of the loop either
refuses, or broadcasts one proposal and counts the local acceptance. -/

/-- A local acceptance counts for the leader if the node's acceptor backs it. -/
def CountsLocally (g : Given) (i : NodeId) (a : AcceptorAgent) : Prop :=
  ∀ slot ballot value, a.Backs slot value → ∀ l : Leader,
    { slot, ballot, value : Accept } ∈ l.accepts → g.accepted l { slot, ballot, success := true } i

theorem respects_commitLocally (hR : AcceptorAgent.Respects R) (slot : Slot) (value : Value) :
    R t.acceptor (t.commitLocally env config node slot value).2.acceptor := by
  have hcommit := hR.commit t.acceptor slot value
  unfold commitLocally
  split
  · split
    · next he =>
      rw [he] at hcommit
      exact hcommit
    · next he =>
      rw [he] at hcommit
      exact hcommit
    · next he =>
      rw [he] at hcommit
      exact hcommit
  · exact hR.refl _

/-- The agents once the node's acceptor has accepted `p` and the proposer has broadcast it. -/
def broadcast (t : Trio) (env : Env) (p : Proposal) : Trio :=
  { t with
    acceptor := (t.acceptor.processAccept env p.slot p.ballot p.value).2
    proposer := (t.proposer.acceptPhase env p.value p.slot p.ballot
      [{ slot := p.slot, ballot := p.ballot, success := true }]).2 }

/-- **One round of the accept loop**: the node's acceptor refuses, or it accepts, the proposal is
broadcast and the acceptance committed locally. -/
theorem acceptOne_cases (t : Trio) (p : Proposal) :
    (∃ e, t.acceptOne env config node p = (.error e, t)) ∨
    (t.acceptor.processAccept env p.slot p.ballot p.value).1 =
        .accepted { slot := p.slot, ballot := p.ballot, success := true } ∧
      (t.acceptOne env config node p).2 =
        ((t.broadcast env p).commitLocally env config node p.slot p.value).2 := by
  unfold acceptOne
  split
  · next b acceptor he =>
    have hsame := AcceptorAgent.processAccept_of_rejected env (congrArg Prod.fst he)
    rw [he] at hsame
    exact Or.inl ⟨_, by rw [show acceptor = t.acceptor from hsame]⟩
  · next acc acceptor he =>
    have hacc := (Acceptor.accepted_of_accept env
      (show (t.acceptor.acceptor.accept env p.slot p.ballot p.value).1 = .accepted acc from
        congrArg Prod.fst he)).1
    subst hacc
    refine Or.inr ⟨congrArg Prod.fst he, ?_⟩
    rw [broadcast, he]
    dsimp only
    split
    · next he' => rw [he']
    · next he' =>
      rw [he']
      split <;> rfl

theorem respects_acceptOne (hR : AcceptorAgent.Respects R) (p : Proposal) :
    R t.acceptor (t.acceptOne env config node p).2.acceptor := by
  have haccept := hR.accept t.acceptor env p.slot p.ballot p.value
  rcases acceptOne_cases env config node t p with ⟨e, he⟩ | ⟨_, he⟩
  · rw [he]
    exact hR.refl _
  · rw [he]
    exact hR.trans haccept
      (respects_commitLocally (t := t.broadcast env p) env config node hR p.slot p.value)

theorem respects_acceptEach (hR : AcceptorAgent.Respects R) (ps : List Proposal) :
    R t.acceptor (t.acceptEach env config node ps).2.acceptor := by
  induction ps generalizing t with
  | nil => exact hR.refl _
  | cons p ps ih =>
      have hone := respects_acceptOne (t := t) env config node hR p
      unfold acceptEach
      split
      · next he =>
        rw [he] at hone
        exact hone
      · next he =>
        rw [he] at hone
        exact hR.trans hone ih

/-- One round of the accept loop broadcasts one proposal, unless the node's acceptor refuses. -/
theorem steps_acceptOne (p : Proposal) (ps : List Proposal) (hoff : t.acceptor.Disabled)
    (hlocal : CountsLocally g t.proposer.node.nodeId (t.acceptOne env config node p).2.acceptor) :
    ∃ pending, Steps g (t.proposer.leader (p :: ps))
        ((t.acceptOne env config node p).2.proposer.leader pending) ∧
      ((t.acceptOne env config node p).1 = .ok () → pending = ps) := by
  rcases acceptOne_cases env config node t p with ⟨e, he⟩ | ⟨hacc, he⟩
  · rw [he]
    exact ⟨p :: ps, .refl, fun h => by cases h⟩
  · have hkeeps := t.acceptor.keeps_processAccept env p.slot p.ballot p.value
    have hcommit := respects_commitLocally (t := t.broadcast env p) env config node
      AcceptorAgent.pieces_keeps.respects p.slot p.value
    rw [he] at hlocal ⊢
    rw [proposer_commitLocally]
    refine ⟨ps, ProposerAgent.steps_acceptPhase env p ps _ (.broadcast (t.proposer.leader (p :: ps)) rfl)
      (fun acc hmem l hl => ?_), fun _ => rfl⟩
    rw [List.mem_singleton.mp hmem]
    exact hlocal p.slot p.ballot p.value (hcommit.backs (hkeeps.disabled hoff)
      (AcceptorAgent.backs_of_processAccept env hoff hacc).2) l hl

theorem steps_acceptEach (ps : List Proposal) (hoff : t.acceptor.Disabled)
    (hlocal : CountsLocally g t.proposer.node.nodeId (t.acceptEach env config node ps).2.acceptor) :
    ∃ pending, Steps g (t.proposer.leader ps)
        ((t.acceptEach env config node ps).2.proposer.leader pending) ∧
      (∀ r, (t.acceptEach env config node ps).1 = .ok r → pending = []) := by
  induction ps generalizing t with
  | nil => exact ⟨[], .refl, fun _ _ => rfl⟩
  | cons p ps ih =>
      have hone := steps_acceptOne (g := g) (t := t) env config node p ps hoff
      have hkeeps := respects_acceptOne (t := t) env config node AcceptorAgent.pieces_keeps.respects p
      unfold acceptEach at hlocal ⊢
      split at hlocal
      · next he =>
        rw [he] at hone
        obtain ⟨pending, hsteps, _⟩ := hone hlocal
        exact ⟨pending, hsteps, fun r h => by cases h⟩
      · next t' he =>
        rw [he] at hone hkeeps
        have hrest := respects_acceptEach (t := t') env config node AcceptorAgent.pieces_keeps.respects ps
        obtain ⟨pending, hsteps, hok⟩ := hone (fun s b v hb =>
          hlocal s b v (hrest.backs (hkeeps.disabled hoff) hb))
        obtain rfl := hok rfl
        have hnode : t'.proposer.node = t.proposer.node := congrArg Frame.node hsteps.frame_eq
        obtain ⟨pending', hsteps', hok'⟩ := ih (t := t') (hkeeps.disabled hoff)
          (by rw [hnode]; exact hlocal)
        exact ⟨pending', hsteps.trans hsteps', hok'⟩

theorem steps_acceptPhase (hphase : t.proposer.phase = .acceptCommit) (hoff : t.acceptor.Disabled)
    (hlocal : CountsLocally g t.proposer.node.nodeId (t.acceptPhase env config node).2.acceptor) :
    ∃ pending, Steps g (t.proposer.leader [])
        ((t.acceptPhase env config node).2.proposer.leader pending) ∧
      (∀ r, (t.acceptPhase env config node).1 = .ok r → pending = []) := by
  obtain ⟨pending, hprops, hok⟩ := ProposerAgent.steps_proposalsFor (g := g) (a := t.proposer)
    [] t.proposer.config.batchSize hphase
  unfold acceptPhase ProposerAgent.proposalsToAccept at hlocal ⊢
  split at hlocal
  · next he =>
    rw [he] at hprops
    exact ⟨pending, hprops, fun r h => by cases h⟩
  · next props proposer he =>
    rw [he] at hprops hok
    obtain rfl := hok props rfl
    split at hlocal
    · next hnil =>
      subst hnil
      exact ⟨[], hprops, fun _ _ => rfl⟩
    · next hne =>
      rw [if_neg hne]
      have hnode : proposer.node = t.proposer.node := congrArg Frame.node hprops.frame_eq
      obtain ⟨pending', haccepts, hok'⟩ := steps_acceptEach (g := g) (t := { t with proposer })
        env config node pending hoff (by
          rw [show ({ t with proposer } : Trio).proposer.node = t.proposer.node from hnode]
          exact hlocal)
      exact ⟨pending', hprops.trans haccepts, hok'⟩

/-! ## The commit phase -/

theorem steps_commitPhase (hcfg : t.proposer.config = config) :
    Steps g (t.proposer.leader []) ((t.commitPhase env config node).2.proposer.leader []) := by
  have hfold : ∀ (learns : List Learn) (t : Trio), t.proposer.config = config →
      config.acceptorsSendLearns = false → (∀ l ∈ learns, t.proposer.Stored l) →
      Steps g (t.proposer.leader []) ((learns.foldl (commitOne env node) t).proposer.leader []) := by
    intro learns
    induction learns with
    | nil => exact fun _ _ _ _ => .refl
    | cons l learns ih =>
        intro t hcfg hmode h
        exact (ProposerAgent.steps_broadcastLearn (by rw [hcfg]; exact hmode)
          (h l (List.mem_cons_self ..))).trans (ih (commitOne env node t l) hcfg hmode
            (fun l' hl' => h l' (List.mem_cons_of_mem _ hl')))
  unfold commitPhase
  dsimp only
  rw [ProposerAgent.leader_collectClientResponses]
  cases hmode : config.acceptorsSendLearns with
  | true => exact .refl
  | false =>
      obtain ⟨hlearns, hstored⟩ := ProposerAgent.steps_learnsFor (g := g) (a := t.proposer)
        [] [] t.proposer.config.batchSize
        (fun _ h => absurd h List.not_mem_nil)
      exact hlearns.trans (hfold _ { t with proposer := _ }
        ((ProposerAgent.config_eq_of_steps hlearns).trans hcfg) hmode hstored)

theorem acceptor_commitPhase : (t.commitPhase env config node).2.acceptor = t.acceptor := by
  have hfold : ∀ (learns : List Learn) (t : Trio),
      (learns.foldl (commitOne env node) t).acceptor = t.acceptor := by
    intro learns
    induction learns with
    | nil => exact fun _ => rfl
    | cons l learns ih => exact fun t => ih _
  unfold commitPhase
  dsimp only
  split
  · exact hfold _ _
  · rfl

/-- The leader's part of a tick leaves no proposal pending unless it panics. -/
theorem steps_leaderTick (hcfg : t.proposer.config = config) (hoff : t.acceptor.Disabled)
    (hpromise : ∀ p, g.promise p t.proposer.node.nodeId)
    (hreset : config.isEventDriven = false → ∀ l slot, g.resets l slot)
    (hlocal : CountsLocally g t.proposer.node.nodeId (t.leaderTick env config node).2.acceptor) :
    ∃ pending, Steps g (t.proposer.leader [])
        ((t.leaderTick env config node).2.proposer.leader pending) ∧
      (∀ r, (t.leaderTick env config node).1 = .ok r → pending = []) := by
  unfold leaderTick at hlocal ⊢
  split at hlocal
  · exact ⟨[], ProposerAgent.steps_setPhase (Or.inl nofun), fun _ _ => rfl⟩
  · have hprepare := steps_preparePhase (g := g) (t := t) env hpromise (by rw [hcfg]; exact hreset)
    split
    · next he =>
      rw [he] at hprepare
      exact ⟨[], hprepare, fun _ _ => rfl⟩
    · next he =>
      rw [he] at hprepare
      exact ⟨[], hprepare, fun _ _ => rfl⟩
  · exact ⟨[], ProposerAgent.steps_checkPrepareTimeout env, fun _ _ => rfl⟩
  · next hphase =>
    have haccept := steps_acceptPhase (g := g) (t := t) env config node hphase hoff
    split at hlocal
    · next he =>
      rw [he] at haccept
      obtain ⟨pending, hsteps, _⟩ := haccept hlocal
      exact ⟨pending, hsteps, fun r h => by cases h⟩
    · next t' he =>
      rw [he] at haccept
      rw [acceptor_commitPhase] at hlocal
      obtain ⟨pending, hsteps, hok⟩ := haccept hlocal
      obtain rfl := hok _ rfl
      have hcfg' := (ProposerAgent.config_eq_of_steps hsteps).trans hcfg
      exact ⟨[], hsteps.trans (steps_commitPhase env config node hcfg'), fun _ _ => rfl⟩
  · exact ⟨[], .refl, fun _ _ => rfl⟩
  · exact ⟨[], .refl, fun _ _ => rfl⟩

/-! ## The whole tick -/

/-- What a coordinator does in a tick whether it leads or not. -/
def upkeep (t : Trio) (config : RunConfig) (env : Env) : Trio :=
  ((t.maybeRetryLearn config env).driveLearner env).maybeFlushStates config env

theorem handleTick_eq : t.handleTick env config node =
    if !(t.upkeep config env).proposer.proposer.isLeader then (.ok none, t.upkeep config env)
    else (t.upkeep config env).leaderTick env config node :=
  rfl

theorem steps_upkeep (hcfg : t.proposer.config = config) :
    Steps g (t.proposer.leader []) ((t.upkeep config env).proposer.leader []) := by
  unfold upkeep
  rw [leader_maybeFlushStates]
  exact (steps_maybeRetryLearn env config hcfg).trans (steps_driveLearner env)

theorem respects_retryLearns (hR : AcceptorAgent.Respects R) (slots : List Slot) :
    R t.acceptor (t.retryLearns config env slots).acceptor := by
  unfold retryLearns
  split
  · exact hR.retry t.acceptor slots
  · exact hR.refl _

theorem acceptor_driveLearner : (t.driveLearner env).acceptor = t.acceptor := by
  unfold driveLearner
  dsimp only
  split <;> rfl

theorem respects_upkeep (hR : AcceptorAgent.Respects R) : R t.acceptor (t.upkeep config env).acceptor := by
  have hretry : R t.acceptor (t.maybeRetryLearn config env).acceptor := by
    unfold maybeRetryLearn
    split
    · exact hR.refl _
    · exact hR.refl _
    · next learner he => exact respects_retryLearns (t := { t with learner }) env config hR _
  rw [← acceptor_driveLearner (t := t.maybeRetryLearn config env) env] at hretry
  unfold upkeep maybeFlushStates
  split
  · exact hR.trans hretry (hR.flush _ env)
  · exact hretry

/-- **A tick of a coordinator** leaves no proposal pending unless it panics. -/
theorem steps_handleTick (hcfg : t.proposer.config = config) (hoff : t.acceptor.Disabled)
    (hpromise : ∀ p, g.promise p t.proposer.node.nodeId)
    (hreset : config.isEventDriven = false → ∀ l slot, g.resets l slot)
    (hlocal : CountsLocally g t.proposer.node.nodeId (t.handleTick env config node).2.acceptor) :
    ∃ pending, Steps g (t.proposer.leader [])
        ((t.handleTick env config node).2.proposer.leader pending) ∧
      (∀ r, (t.handleTick env config node).1 = .ok r → pending = []) := by
  have hup := steps_upkeep (g := g) env config hcfg
  have hframe : (t.upkeep config env).proposer.frame = t.proposer.frame := hup.frame_eq
  have hnode : (t.upkeep config env).proposer.node = t.proposer.node :=
    congrArg Frame.node hframe
  rw [handleTick_eq] at hlocal ⊢
  split
  · exact ⟨[], hup, fun _ _ => rfl⟩
  · next hleader =>
    rw [if_neg hleader] at hlocal
    obtain ⟨pending, hsteps, hok⟩ := steps_leaderTick (g := g) (t := t.upkeep config env)
      env config node ((congrArg Frame.config hframe).trans hcfg)
      ((respects_upkeep env config AcceptorAgent.pieces_keeps.respects).disabled hoff)
      (by rw [hnode]; exact hpromise) hreset (by rw [hnode]; exact hlocal)
    exact ⟨pending, hup.trans hsteps, hok⟩

/-! ## What a tick leaves alone

What the pieces of the proposer agent respect, a tick of a coordinator respects. -/

theorem respects_acceptPhase (hR : AcceptorAgent.Respects R) :
    R t.acceptor (t.acceptPhase env config node).2.acceptor := by
  unfold acceptPhase
  split
  · exact hR.refl _
  · next props proposer he =>
    split
    · exact hR.refl _
    · exact respects_acceptEach (t := { t with proposer }) env config node hR props

theorem respects_preparePhase (hR : AcceptorAgent.Respects R) :
    R t.acceptor (t.preparePhase env).2.acceptor := by
  have hprepare := hR.prepare t.acceptor env (nextSlot t.learner.getAdu)
    t.proposer.proposer.currentBallot
  unfold preparePhase
  dsimp only
  split
  · next he =>
    rw [he] at hprepare
    exact hprepare
  · next he =>
    rw [he] at hprepare
    exact hprepare

theorem respects_leaderTick (hR : AcceptorAgent.Respects R) :
    R t.acceptor (t.leaderTick env config node).2.acceptor := by
  unfold leaderTick
  split
  · exact hR.refl _
  · have hprepare := respects_preparePhase (t := t) env hR
    split
    · next he =>
      rw [he] at hprepare
      exact hprepare
    · next he =>
      rw [he] at hprepare
      exact hprepare
  · exact hR.refl _
  · have haccept := respects_acceptPhase (t := t) env config node hR
    split
    · next he =>
      rw [he] at haccept
      exact haccept
    · next he =>
      rw [he] at haccept
      dsimp only
      rw [acceptor_commitPhase]
      exact haccept
  · exact hR.refl _
  · exact hR.refl _

theorem respects_handleTick (hR : AcceptorAgent.Respects R) :
    R t.acceptor (t.handleTick env config node).2.acceptor := by
  rw [handleTick_eq]
  split
  · exact respects_upkeep env config hR
  · exact hR.trans (respects_upkeep env config hR) (respects_leaderTick env config node hR)

end Trio

end PaxosWasm
