import PaxosWasm.Agents.LearnerVotes
import PaxosWasm.Agents.ProposerSound
import PaxosWasm.Agents.Reports
import PaxosWasm.Agents.TrioRuns

/-!
# What the agents of a coordinator hand to each other

In a tick the proposer of a coordinator asks the node's own acceptor and reads the cursor of its own
learner, and the learner records what the two others announce. All of this is as if it had come over
the network: what is accepted locally has been broadcast, and what is learned locally has been sent.

`asked` and `told` are what the acceptor and the learner of a node have been handed, over the network or
in a tick. With them the invariants of the single agents hold of the agents of a coordinator, piece of a
tick by piece of a tick, although the three share one call (`sound_handleTick`, `logged_handleTick`).
-/

namespace PaxosWasm

open Library

namespace Trio

variable {K : Facts} {L : Slot → Prop} {node : Node} {config : RunConfig} {t : Trio} (env : Env)

/-! ## The cursor of the learner

Between the pieces of a tick the learner records what its own node tells it, and its cursor passes slots
that it holds by then. -/

theorem learner_retryLearns (slots : List Slot) :
    (t.retryLearns config env slots).learner = t.learner := by
  unfold retryLearns
  split <;> rfl

theorem learner_maybeRetryLearn :
    (t.maybeRetryLearn config env).learner = (t.learner.evaluateRetry env).2 := by
  unfold maybeRetryLearn
  split
  · next he => rw [he]
  · next he => rw [he]
  · next he =>
    rw [he]
    exact learner_retryLearns env _

theorem passed_maybeRetryLearn (h : t.learner.Passed L) :
    (t.maybeRetryLearn config env).learner.Passed L := by
  rw [learner_maybeRetryLearn]
  exact h.evaluateRetry env

theorem holding_maybeRetryLearn (h : t.learner.Holding L) :
    (t.maybeRetryLearn config env).learner.Holding L := by
  rw [learner_maybeRetryLearn, LearnerAgent.Holding, (t.learner.sameCore_evaluateRetry env).1]
  exact h

/-- The results handed to the proposer come with the cursor of the learner. -/
theorem driveLearner_cases (t : Trio) (env : Env) :
    ∃ exec learner, (t.learner.executeChosenLearns env).collectExecuted none false = (exec, learner) ∧
      exec.adu = learner.getAdu ∧
      (t.driveLearner env = { t with learner } ∨
        t.driveLearner env = { t with learner, proposer := t.proposer.processExecuted env exec }) := by
  obtain ⟨k, hk⟩ := (t.learner.executeChosenLearns env).collectExecuted_spec none false
  refine ⟨_, _, hk, rfl, ?_⟩
  unfold driveLearner
  rw [hk]
  dsimp only
  split
  · exact Or.inr rfl
  · exact Or.inl rfl

theorem passed_driveLearner (h : t.learner.Passed L) (hheld : t.learner.Holding L) :
    (t.driveLearner env).learner.Passed L := by
  have hcollect := ((h.executeChosenLearns env hheld).collectExecuted none false).1
  obtain ⟨exec, learner, he, _, hd | hd⟩ := t.driveLearner_cases env
  · rw [he] at hcollect
    rw [hd]
    exact hcollect
  · rw [he] at hcollect
    rw [hd]
    exact hcollect

theorem passed_maybeFlushStates (h : t.learner.Passed L) :
    (t.maybeFlushStates config env).learner.Passed L := by
  unfold maybeFlushStates
  split
  · exact h.maybeFlushState env
  · exact h

theorem passed_upkeep (h : t.learner.Passed L) (hheld : t.learner.Holding L) :
    (t.upkeep config env).learner.Passed L :=
  passed_maybeFlushStates env (passed_driveLearner env (passed_maybeRetryLearn env h)
    (holding_maybeRetryLearn env hheld))

theorem passed_commitLocally (h : t.learner.Passed L) (slot : Slot) (value : Value) :
    (t.commitLocally env config node slot value).2.learner.Passed L := by
  unfold commitLocally
  split
  · split
    · exact h
    · exact h
    · exact h.recordLearn env _ _ node
  · exact h

theorem passed_acceptOne (h : t.learner.Passed L) (p : Proposal) :
    (t.acceptOne env config node p).2.learner.Passed L := by
  rcases acceptOne_cases env config node t p with ⟨e, he⟩ | ⟨_, he⟩
  · rw [he]
    exact h
  · rw [he]
    exact passed_commitLocally (t := t.broadcast env p) env h p.slot p.value

theorem passed_acceptEach (h : t.learner.Passed L) (ps : List Proposal) :
    (t.acceptEach env config node ps).2.learner.Passed L := by
  induction ps generalizing t with
  | nil => exact h
  | cons p ps ih =>
      have hone : (t.acceptOne env config node p).2.learner.Passed L := passed_acceptOne env h p
      unfold acceptEach
      split
      · next he =>
        rw [he] at hone
        exact hone
      · next he =>
        rw [he] at hone
        exact ih hone

theorem passed_acceptPhase (h : t.learner.Passed L) :
    (t.acceptPhase env config node).2.learner.Passed L := by
  unfold acceptPhase
  split
  · exact h
  · next props proposer he =>
    split
    · exact h
    · exact passed_acceptEach (t := { t with proposer }) env h props

theorem passed_commitPhase (h : t.learner.Passed L) :
    (t.commitPhase env config node).2.learner.Passed L := by
  have hfold : ∀ (learns : List Learn) (t : Trio), t.learner.Passed L →
      (learns.foldl (commitOne env node) t).learner.Passed L := by
    intro learns
    induction learns with
    | nil => exact fun _ h => h
    | cons l learns ih => exact fun t h => ih _ (h.recordLearn env l.slot l.value node)
  unfold commitPhase
  dsimp only
  split
  · exact hfold _ _ h
  · exact h

theorem passed_preparePhase (h : t.learner.Passed L) : (t.preparePhase env).2.learner.Passed L := by
  unfold preparePhase
  dsimp only
  split <;> exact h

theorem passed_leaderTick (h : t.learner.Passed L) :
    (t.leaderTick env config node).2.learner.Passed L := by
  unfold leaderTick
  split
  · exact h
  · have hprepare := passed_preparePhase env h
    split
    · next he =>
      rw [he] at hprepare
      exact hprepare
    · next he =>
      rw [he] at hprepare
      exact hprepare
  · exact h
  · have haccept : (t.acceptPhase env config node).2.learner.Passed L := passed_acceptPhase env h
    split
    · next he =>
      rw [he] at haccept
      exact haccept
    · next he =>
      rw [he] at haccept
      exact passed_commitPhase env haccept
  · exact h
  · exact h

/-- **In a tick the cursor moves over slots the learner holds.** -/
theorem passed_handleTick (h : t.learner.Passed L) (hheld : t.learner.Holding L) :
    (t.handleTick env config node).2.learner.Passed L := by
  have hup : (t.upkeep config env).learner.Passed L := passed_upkeep env h hheld
  rw [handleTick_eq]
  split
  · exact hup
  · exact passed_leaderTick env hup

/-! ## The proposer

What the proposer of a coordinator is handed comes from its own acceptor and learner, and is no worse than
what comes as a message. -/

theorem sound_retryLearns (h : t.proposer.Sound K node config) (slots : List Slot) :
    (t.retryLearns config env slots).proposer.Sound K node config := by
  unfold retryLearns
  split
  · exact h
  · exact h.retryLearns env slots

theorem sound_maybeRetryLearn (h : t.proposer.Sound K node config) :
    (t.maybeRetryLearn config env).proposer.Sound K node config := by
  unfold maybeRetryLearn
  split
  · exact h
  · exact h
  · next learner he => exact sound_retryLearns (t := { t with learner }) env h _

theorem sound_driveLearner (h : t.proposer.Sound K node config)
    (hadu : K.adu (t.driveLearner env).learner.getAdu) :
    (t.driveLearner env).proposer.Sound K node config := by
  obtain ⟨exec, learner, _, hexec, hd | hd⟩ := t.driveLearner_cases env
  · rw [hd]
    exact h
  · rw [hd] at hadu ⊢
    exact h.processExecuted env (hexec ▸ hadu)

theorem sound_upkeep (h : t.proposer.Sound K node config)
    (hadu : K.adu (t.upkeep config env).learner.getAdu) :
    (t.upkeep config env).proposer.Sound K node config := by
  have hdrive := sound_driveLearner (t := t.maybeRetryLearn config env) env
    (sound_maybeRetryLearn env h)
  unfold upkeep maybeFlushStates at hadu ⊢
  split at hadu
  · next hstorage =>
    rw [if_pos hstorage]
    exact (hdrive hadu).maybeFlushState env
  · next hstorage =>
    rw [if_neg hstorage]
    exact hdrive hadu

theorem sound_preparePhase (h : t.proposer.Sound K node config) (hadu : K.adu t.learner.getAdu)
    (hheld : Acceptor.MapIn (fun _ v => K.value v) t.acceptor.acceptor.accepted) :
    (t.preparePhase env).2.proposer.Sound K node config := by
  unfold preparePhase
  dsimp only
  split
  · next promise acceptor he =>
    refine h.preparePhase env h.core.ballot ⟨_, hadu, nextSlot_le _⟩ (fun p hp pv hpv v hv => ?_)
    rw [List.mem_singleton.mp hp] at hpv
    obtain ⟨slot, w, hw, hk⟩ :=
      AcceptorAgent.known_of_processPrepare env hheld (congrArg Prod.fst he) pv hpv
    rw [← Option.some.inj (hw.symm.trans hv)]
    exact hk
  · exact h

theorem sound_acceptOne (h : t.proposer.Sound K node config) {p : Proposal} (hp : K.value p.value) :
    (t.acceptOne env config node p).2.proposer.Sound K node config := by
  rcases acceptOne_cases env config node t p with ⟨e, he⟩ | ⟨_, he⟩
  · rw [he]
    exact h
  · rw [he, proposer_commitLocally]
    exact h.acceptPhase env hp p.slot p.ballot _

theorem sound_acceptEach (h : t.proposer.Sound K node config) {ps : List Proposal}
    (hps : ∀ p ∈ ps, K.value p.value) :
    (t.acceptEach env config node ps).2.proposer.Sound K node config := by
  induction ps generalizing t with
  | nil => exact h
  | cons p ps ih =>
      have hone := sound_acceptOne env h (hps p (List.mem_cons_self ..))
      unfold acceptEach
      split
      · next he =>
        rw [he] at hone
        exact hone
      · next he =>
        rw [he] at hone
        exact ih hone (fun q hq => hps q (List.mem_cons_of_mem _ hq))

theorem sound_acceptPhase (h : t.proposer.Sound K node config) :
    (t.acceptPhase env config node).2.proposer.Sound K node config := by
  obtain ⟨hprops, hvalues⟩ := h.proposalsFor (fun _ hp => absurd hp List.not_mem_nil)
    t.proposer.config.batchSize
  unfold acceptPhase ProposerAgent.proposalsToAccept
  split
  · next he =>
    rw [he] at hprops
    exact hprops
  · next props proposer he =>
    rw [he] at hprops hvalues
    split
    · exact hprops
    · exact sound_acceptEach (t := { t with proposer }) env hprops (hvalues props rfl)

theorem sound_commitPhase (h : t.proposer.Sound K node config) :
    (t.commitPhase env config node).2.proposer.Sound K node config := by
  have hfold : ∀ (learns : List Learn) (t : Trio), t.proposer.Sound K node config →
      (∀ l ∈ learns, K.value l.value) →
      (learns.foldl (commitOne env node) t).proposer.Sound K node config := by
    intro learns
    induction learns with
    | nil => exact fun _ h _ => h
    | cons l learns ih =>
        exact fun t h hl => ih _ (h.broadcastLearn (hl l (List.mem_cons_self ..)))
          (fun l' hl' => hl l' (List.mem_cons_of_mem _ hl'))
  unfold commitPhase
  dsimp only
  refine ProposerAgent.Sound.collectClientResponses ?_
  split
  · obtain ⟨hlearns, hall⟩ := h.learnsFor (fun _ hl => absurd hl List.not_mem_nil)
      t.proposer.config.batchSize
    exact hfold _ _ hlearns hall
  · exact h

theorem sound_leaderTick (h : t.proposer.Sound K node config) (hadu : K.adu t.learner.getAdu)
    (hheld : Acceptor.MapIn (fun _ v => K.value v) t.acceptor.acceptor.accepted) :
    (t.leaderTick env config node).2.proposer.Sound K node config := by
  unfold leaderTick
  split
  · exact h.setPhase _
  · have hprepare := sound_preparePhase env h hadu hheld
    split
    · next he =>
      rw [he] at hprepare
      exact hprepare
    · next he =>
      rw [he] at hprepare
      exact hprepare
  · exact h.checkPrepareTimeout env
  · have haccept := sound_acceptPhase env h
    split
    · next he =>
      rw [he] at haccept
      exact haccept
    · next he =>
      rw [he] at haccept
      exact sound_commitPhase env haccept
  · exact h
  · exact h

theorem acceptor_retryLearns (slots : List Slot) :
    (t.retryLearns config env slots).acceptor.acceptor = t.acceptor.acceptor := by
  have hfold : ∀ (slots : List Slot) (a : AcceptorAgent),
      (a.retryLearns slots).acceptor = a.acceptor := by
    intro slots
    induction slots with
    | nil => exact fun _ => rfl
    | cons slot slots ih => exact fun a => ih _
  unfold retryLearns
  split
  · exact hfold slots t.acceptor
  · rfl

/-- Upkeep changes nothing the acceptor has accepted. -/
theorem accepted_upkeep :
    (t.upkeep config env).acceptor.acceptor.accepted = t.acceptor.acceptor.accepted := by
  have hretry : (t.maybeRetryLearn config env).acceptor.acceptor = t.acceptor.acceptor := by
    unfold maybeRetryLearn
    split
    · rfl
    · rfl
    · next learner he => exact acceptor_retryLearns (t := { t with learner }) env _
  have hflush : ∀ a : Acceptor, (a.maybeFlush env).2.accepted = a.accepted := by
    intro a
    unfold Acceptor.maybeFlush
    split <;> rfl
  unfold upkeep maybeFlushStates
  split
  · show ((AcceptorAgent.maybeFlushState _ env).acceptor).accepted = _
    rw [AcceptorAgent.maybeFlushState, hflush, acceptor_driveLearner, hretry]
  · rw [acceptor_driveLearner, hretry]

/-- **In a tick** the proposer passes on what its clients, its acceptor and its learner gave it. -/
theorem sound_handleTick (h : t.proposer.Sound K node config)
    (hadu : K.adu (t.upkeep config env).learner.getAdu)
    (hheld : Acceptor.MapIn (fun _ v => K.value v) t.acceptor.acceptor.accepted) :
    (t.handleTick env config node).2.proposer.Sound K node config := by
  have hup := sound_upkeep env h hadu
  rw [handleTick_eq]
  split
  · exact hup
  · refine sound_leaderTick env hup hadu ?_
    rw [accepted_upkeep]
    exact hheld

/-! ## The acceptor and the learner

The acceptor of a coordinator is asked by its own proposer, and its learner told by its own acceptor,
without a message. But what they are asked and told is also broadcast, and stands in the logs. -/

/-- What the node's acceptor has been asked: by others, or by the node's own proposer. -/
def asked (t : Trio) (node : Node) (others : Accept → NodeId → Prop) (acc : Accept) (q : NodeId) :
    Prop :=
  others acc q ∨ q = node.nodeId ∧ acc ∈ acceptsOf t.proposer.networkClient.sent

/-- What the node's learner has been told: by others, or by the node's own agents. -/
def told (t : Trio) (node : Node) (others : Learn → NodeId → Prop) (l : Learn) (i : NodeId) : Prop :=
  others l i ∨ i = node.nodeId ∧
    (l ∈ learnsOf t.proposer.networkClient.sent ∨ l ∈ learnsOf t.acceptor.networkClient.sent)

/-- **The acceptor and the learner of a coordinator answer for what is in the logs.** -/
structure Logged (asks : Accept → NodeId → Prop) (tells : Learn → NodeId → Prop) (node : Node)
    (config : RunConfig) (quorum : Nat) (t : Trio) : Prop where
  acceptor : t.acceptor.Sound (t.asked node asks) node config
  promising : t.acceptor.Promising (AcceptorAgent.valuesOf (t.asked node asks))
  learner : t.learner.Sound (t.told node tells) node config quorum

section Logged

open Leader

variable {asks : Accept → NodeId → Prop} {tells : Learn → NodeId → Prop} {quorum : Nat}

theorem learnsOf_subset {sent sent' : List Sent} (h : sent ⊆ sent') : learnsOf sent ⊆ learnsOf sent' :=
  fun l hl => by
    obtain ⟨s, hs, hp⟩ := mem_learnsOf.mp hl
    exact mem_learnsOf.mpr ⟨s, h hs, hp⟩

/-- The proposer takes leader steps: its logs grow. -/
theorem Logged.withProposer (h : t.Logged asks tells node config quorum) {p : ProposerAgent}
    {pending pending' : List Proposal}
    (hsteps : Steps Given.any (t.proposer.leader pending) (p.leader pending')) :
    Logged asks tells node config quorum { t with proposer := p } := by
  have hasked : ∀ acc q, t.asked node asks acc q → asked { t with proposer := p } node asks acc q :=
    fun acc q hq => hq.imp_right (fun ⟨hi, hacc⟩ => ⟨hi, hsteps.accepts_subset hacc⟩)
  have htold : ∀ l i, t.told node tells l i → told { t with proposer := p } node tells l i :=
    fun l i hl => hl.imp_right (fun ⟨hi, hsent⟩ =>
      ⟨hi, hsent.imp_left (fun hmem => hsteps.learns_subset hmem)⟩)
  exact ⟨h.acceptor.mono hasked,
    h.promising.mono (fun s v ⟨b, q, hq⟩ => ⟨b, q, hasked _ _ hq⟩), h.learner.mono htold⟩

theorem Logged.withAcceptor (h : t.Logged asks tells node config quorum) {a : AcceptorAgent}
    (hs : a.Sound (t.asked node asks) node config)
    (hp : a.Promising (AcceptorAgent.valuesOf (t.asked node asks)))
    (hsent : t.acceptor.networkClient.sent ⊆ a.networkClient.sent) :
    Logged asks tells node config quorum { t with acceptor := a } :=
  ⟨hs, hp, h.learner.mono (fun _ _ hl => hl.imp_right (fun ⟨hi, hlog⟩ =>
    ⟨hi, hlog.imp_right (fun hmem => learnsOf_subset hsent hmem)⟩))⟩

theorem Logged.withLearner (h : t.Logged asks tells node config quorum) {l : LearnerAgent}
    (hs : l.Sound (t.told node tells) node config quorum) :
    Logged asks tells node config quorum { t with learner := l } :=
  ⟨h.acceptor, h.promising, hs⟩

/-! ### Upkeep

Learns are sent again, results are handed over, and states are flushed; nothing new is asked. -/

theorem logged_retryLearns (h : t.Logged asks tells node config quorum)
    (hcfg : t.proposer.config = config) (slots : List Slot) :
    (t.retryLearns config env slots).Logged asks tells node config quorum := by
  have hsteps := steps_retryLearns (g := Given.any) env config hcfg slots
  unfold retryLearns at hsteps ⊢
  split at hsteps
  · next hmode =>
    rw [if_pos hmode]
    exact h.withAcceptor (h.acceptor.retryLearns slots) (h.promising.retryLearns slots)
      (AcceptorAgent.pieces_sent.retryLearns t.acceptor slots).subset
  · next hmode =>
    rw [if_neg hmode]
    exact h.withProposer hsteps

theorem logged_maybeRetryLearn (h : t.Logged asks tells node config quorum)
    (hcfg : t.proposer.config = config) :
    (t.maybeRetryLearn config env).Logged asks tells node config quorum := by
  have hretry := h.learner.evaluateRetry env
  unfold maybeRetryLearn
  split
  · next he =>
    rw [he] at hretry
    exact h.withLearner hretry
  · next he =>
    rw [he] at hretry
    exact h.withLearner hretry
  · next slots learner he =>
    rw [he] at hretry
    exact logged_retryLearns (t := { t with learner }) env (h.withLearner hretry) hcfg slots

theorem logged_driveLearner (h : t.Logged asks tells node config quorum) :
    (t.driveLearner env).Logged asks tells node config quorum := by
  have hcollect := ((h.learner.executeChosenLearns env).collectExecuted none false).1
  obtain ⟨exec, learner, he, _, hd | hd⟩ := t.driveLearner_cases env
  · rw [he] at hcollect
    rw [hd]
    exact h.withLearner hcollect
  · rw [he] at hcollect
    rw [hd]
    have hsteps : Steps Given.any (t.proposer.leader [])
        ((t.proposer.processExecuted env exec).leader []) :=
      ProposerAgent.steps_processExecuted env exec
    exact (h.withLearner hcollect).withProposer hsteps

theorem logged_maybeFlushStates (h : t.Logged asks tells node config quorum) :
    (t.maybeFlushStates config env).Logged asks tells node config quorum := by
  unfold maybeFlushStates
  split
  · exact ⟨h.acceptor.maybeFlushState env, h.promising, h.learner.maybeFlushState env⟩
  · exact h

theorem logged_upkeep (h : t.Logged asks tells node config quorum)
    (hcfg : t.proposer.config = config) :
    (t.upkeep config env).Logged asks tells node config quorum :=
  logged_maybeFlushStates env (logged_driveLearner env (logged_maybeRetryLearn env h hcfg))

theorem logged_preparePhase (h : t.Logged asks tells node config quorum) :
    (t.preparePhase env).2.Logged asks tells node config quorum := by
  have hprepare := h.acceptor.processPrepare env (nextSlot t.learner.getAdu)
    t.proposer.proposer.currentBallot
  unfold preparePhase
  dsimp only
  split
  · next promise acceptor he =>
    rw [he] at hprepare
    have hacceptor : Logged asks tells node config quorum { t with acceptor } := by
      obtain rfl : (t.acceptor.processPrepare env (nextSlot t.learner.getAdu)
        t.proposer.proposer.currentBallot).2 = acceptor := congrArg Prod.snd he
      exact h.withAcceptor hprepare h.promising (List.Subset.refl _)
    exact hacceptor.withProposer (ProposerAgent.steps_preparePhase env _ _ [promise]
      (fun _ _ => trivial) (fun _ _ => trivial))
  · next b acceptor he =>
    rw [he] at hprepare
    obtain rfl : (t.acceptor.processPrepare env (nextSlot t.learner.getAdu)
      t.proposer.proposer.currentBallot).2 = acceptor := congrArg Prod.snd he
    exact h.withAcceptor hprepare h.promising (List.Subset.refl _)

/-! ### The accept phase

For each proposal the own acceptor is asked, and the accept is broadcast. What the acceptor then announces
is recorded by the own learner as well. -/

/-- A value the acceptor has just accepted is announced by it and learned locally. -/
theorem logged_commitLocally (h : t.Logged asks tells node config quorum) {slot : Slot}
    {value : Value} (hasked : AcceptorAgent.valuesOf (t.asked node asks) slot value)
    (hbacks : t.acceptor.Backs slot value) :
    (t.commitLocally env config node slot value).2.Logged asks tells node config quorum := by
  have hcommit := h.acceptor.commitPhase hasked hbacks
  have hpromising := h.promising.commitPhase slot value
  have hsent := (AcceptorAgent.pieces_sent.commitPhase t.acceptor slot value).subset
  unfold commitLocally
  split
  · split
    · next he =>
      rw [he] at hcommit hpromising hsent
      exact h.withAcceptor hcommit hpromising hsent
    · next he =>
      rw [he] at hcommit hpromising hsent
      exact h.withAcceptor hcommit hpromising hsent
    · next learn acceptor he =>
      rw [he] at hcommit hpromising hsent
      have hacceptor := h.withAcceptor hcommit hpromising hsent
      refine hacceptor.withLearner (hacceptor.learner.recordLearn env (Or.inr ⟨rfl, Or.inr ?_⟩))
      -- the learn that was returned has been sent
      unfold AcceptorAgent.commitPhase at he
      split at he
      · obtain ⟨hok, rfl⟩ := Prod.mk.inj he
        rw [← Option.some.inj (Except.ok.inj hok)]
        exact mem_learnsOf.mpr ⟨_, List.mem_append_right _ (List.mem_singleton_self _), rfl⟩
      · cases he
  · exact h

/-- One round of the accept loop: what is accepted is also broadcast. -/
theorem logged_acceptOne (h : t.Logged asks tells node config quorum) (p : Proposal) :
    (t.acceptOne env config node p).2.Logged asks tells node config quorum := by
  rcases acceptOne_cases env config node t p with ⟨e, he⟩ | ⟨hacc, he⟩
  · rw [he]
    exact h
  · rw [he]
    have hsteps := ProposerAgent.steps_acceptPhase (g := Given.any) (a := t.proposer) env p []
      [{ slot := p.slot, ballot := p.ballot, success := true }]
      (.broadcast (t.proposer.leader [p]) rfl) (fun _ _ _ _ => trivial)
    have hproposer := h.withProposer hsteps
    have hmem : p.toAccept ∈ acceptsOf (t.broadcast env p).proposer.networkClient.sent := by
      rw [broadcast, ProposerAgent.networkClient_acceptPhase]
      exact mem_acceptsOf.mpr ⟨_, List.mem_append_right _ (List.mem_singleton_self _), rfl⟩
    have hbroadcast : (t.broadcast env p).Logged asks tells node config quorum :=
      hproposer.withAcceptor (hproposer.acceptor.processAccept env (Or.inr ⟨rfl, hmem⟩))
        hproposer.promising (List.Subset.refl _)
    exact logged_commitLocally (t := t.broadcast env p) env hbroadcast
      ⟨p.ballot, node.nodeId, Or.inr ⟨rfl, hmem⟩⟩
      (AcceptorAgent.backs_of_processAccept env h.acceptor.disabled hacc).2

theorem logged_acceptEach (h : t.Logged asks tells node config quorum) (ps : List Proposal) :
    (t.acceptEach env config node ps).2.Logged asks tells node config quorum := by
  induction ps generalizing t with
  | nil => exact h
  | cons p ps ih =>
      have hone := logged_acceptOne env h p
      unfold acceptEach
      split
      · next he =>
        rw [he] at hone
        exact hone
      · next he =>
        rw [he] at hone
        exact ih hone

theorem logged_acceptPhase (h : t.Logged asks tells node config quorum)
    (hphase : t.proposer.phase = .acceptCommit) :
    (t.acceptPhase env config node).2.Logged asks tells node config quorum := by
  obtain ⟨pending, hprops, _⟩ := ProposerAgent.steps_proposalsFor (g := Given.any) (a := t.proposer)
    [] t.proposer.config.batchSize hphase
  unfold acceptPhase ProposerAgent.proposalsToAccept
  split
  · next he =>
    rw [he] at hprops
    exact h.withProposer hprops
  · next props proposer he =>
    rw [he] at hprops
    split
    · exact h.withProposer hprops
    · exact logged_acceptEach (t := { t with proposer }) env (h.withProposer hprops) props

/-! ### The commit phase

Chosen proposals are learned by the own learner and announced to the others. -/

/-- A learn the proposer announces is recorded locally. -/
theorem logged_commitOne (h : t.Logged asks tells node config quorum)
    (hmode : t.proposer.config.acceptorsSendLearns = false) {learn : Learn}
    (hstored : t.proposer.Stored learn) :
    (commitOne env node t learn).Logged asks tells node config quorum := by
  have hproposer := h.withProposer (ProposerAgent.steps_broadcastLearn hmode hstored)
  refine hproposer.withLearner (hproposer.learner.recordLearn env (Or.inr ⟨rfl, Or.inl ?_⟩))
  exact mem_learnsOf.mpr ⟨_, List.mem_append_right _ (List.mem_singleton_self _), rfl⟩

theorem logged_commitPhase (h : t.Logged asks tells node config quorum)
    (hcfg : t.proposer.config = config) :
    (t.commitPhase env config node).2.Logged asks tells node config quorum := by
  have hfold : ∀ (learns : List Learn) (t : Trio), t.Logged asks tells node config quorum →
      t.proposer.config.acceptorsSendLearns = false → (∀ l ∈ learns, t.proposer.Stored l) →
      (learns.foldl (commitOne env node) t).Logged asks tells node config quorum := by
    intro learns
    induction learns with
    | nil => exact fun _ h _ _ => h
    | cons l learns ih =>
        exact fun t h hmode hl => ih (commitOne env node t l)
          (logged_commitOne env h hmode (hl l (List.mem_cons_self ..))) hmode
          (fun l' hl' => hl l' (List.mem_cons_of_mem _ hl'))
  have hrespond : ∀ t : Trio, t.Logged asks tells node config quorum →
      Logged asks tells node config quorum
        { t with proposer := t.proposer.collectClientResponses.2 } := by
    intro t h
    have hsteps : Steps Given.any (t.proposer.leader [])
        (t.proposer.collectClientResponses.2.leader []) := by
      rw [ProposerAgent.leader_collectClientResponses]
    exact h.withProposer hsteps
  unfold commitPhase
  dsimp only
  apply hrespond
  cases hmode : config.acceptorsSendLearns with
  | true => exact h
  | false =>
      obtain ⟨hlearns, hstored⟩ := ProposerAgent.steps_learnsFor (g := Given.any) (a := t.proposer)
        [] [] t.proposer.config.batchSize (fun _ hl => absurd hl List.not_mem_nil)
      refine hfold _ _ (h.withProposer hlearns) ?_ hstored
      exact (congrArg RunConfig.acceptorsSendLearns
        ((ProposerAgent.config_eq_of_steps hlearns).trans hcfg)).trans hmode

theorem logged_leaderTick (h : t.Logged asks tells node config quorum)
    (hcfg : t.proposer.config = config) (hoff : t.acceptor.Disabled) :
    (t.leaderTick env config node).2.Logged asks tells node config quorum := by
  unfold leaderTick
  split
  · have hsteps : Steps Given.any (t.proposer.leader []) (t.proposer.startLeaderLoop.leader []) :=
      ProposerAgent.steps_setPhase (Or.inl nofun)
    exact h.withProposer hsteps
  · have hprepare := logged_preparePhase env h
    split
    · next he =>
      rw [he] at hprepare
      exact hprepare
    · next he =>
      rw [he] at hprepare
      exact hprepare
  · exact h.withProposer (ProposerAgent.steps_checkPrepareTimeout env)
  · next hphase =>
    have haccept := logged_acceptPhase env h hphase
    obtain ⟨pending, hsteps, _⟩ := steps_acceptPhase (g := Given.any) env config node hphase hoff
      (fun _ _ _ _ _ _ => trivial)
    split
    · next he =>
      rw [he] at haccept
      exact haccept
    · next he =>
      rw [he] at haccept hsteps
      exact logged_commitPhase env haccept ((ProposerAgent.config_eq_of_steps hsteps).trans hcfg)
  · exact h
  · exact h

/-- **A tick of a coordinator** keeps its acceptor and its learner in step with the logs. -/
theorem logged_handleTick (h : t.Logged asks tells node config quorum)
    (hcfg : t.proposer.config = config) :
    (t.handleTick env config node).2.Logged asks tells node config quorum := by
  have hup := logged_upkeep env h hcfg
  have hsteps := steps_upkeep (g := Given.any) env config hcfg
  rw [handleTick_eq]
  split
  · exact hup
  · exact logged_leaderTick env hup ((ProposerAgent.config_eq_of_steps hsteps).trans hcfg)
      hup.acceptor.disabled

end Logged

end Trio

end PaxosWasm
