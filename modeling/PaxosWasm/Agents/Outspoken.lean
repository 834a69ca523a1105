import PaxosWasm.Agents.LearnerFrame
import PaxosWasm.Agents.OwnAcceptor
import PaxosWasm.Core.AcceptorRecords

/-!
# What a coordinator tells

Where the acceptors send the learns, the acceptor of a coordinator tells all other learners of each
value it accepts. Its own learner hears of the value only if the node has proposed it: the handler of
an `Accept` tells the others, the accept loop of a leader also its own learner.

What is accepted without a word to the others would have to come from one of the handlers of an acceptor
agent, of which only the `Accept` handler accepts, or from the accept loop of a leader. Both send the
learn in the same call, so the invariant is one of whole calls (`Outspoken.handleTick`), while in between
a value may be held that has not been told yet.
-/

namespace PaxosWasm

open Library

namespace AcceptorAgent

variable {a a' : AcceptorAgent} (env : Env)

/-! ## An acceptor agent

It tells its learners of a value once it has accepted it, so that at the end of a call there is none left
untold. -/

/-- The agent has told its learners of every value it holds. -/
def Announced (a : AcceptorAgent) : Prop :=
  ∀ slot v, a.acceptor.Holds slot v →
    ∃ s ∈ a.networkClient.sent, s.targets = a.learners ∧
      s.message.payload = .learn { slot, value := v }

/-- Nothing has been accepted, and what has been sent stays sent. -/
structure AcceptsNothing (a a' : AcceptorAgent) : Prop where
  accepted : a'.acceptor.accepted = a.acceptor.accepted
  learners : a'.learners = a.learners
  sent : a.networkClient.sent <+: a'.networkClient.sent

theorem AcceptsNothing.refl (a : AcceptorAgent) : a.AcceptsNothing a := ⟨rfl, rfl, List.prefix_rfl⟩

theorem AcceptsNothing.trans {a'' : AcceptorAgent} (h : a.AcceptsNothing a')
    (h' : a'.AcceptsNothing a'') : a.AcceptsNothing a'' :=
  ⟨h'.accepted.trans h.accepted, h'.learners.trans h.learners, h.sent.trans h'.sent⟩

theorem Announced.of_acceptsNothing (h : a.Announced) (hsame : a.AcceptsNothing a') :
    a'.Announced := by
  intro slot v hholds
  rw [Acceptor.Holds, hsame.accepted] at hholds
  obtain ⟨s, hs, htargets, hpayload⟩ := h slot v hholds
  exact ⟨s, hsame.sent.subset hs, htargets.trans hsame.learners.symm, hpayload⟩

theorem acceptsNothing_send (a : AcceptorAgent) (ts : List Node) (payload : MessagePayload) :
    a.AcceptsNothing (a.send ts payload) :=
  ⟨rfl, rfl, pieces_sent.send a ts payload⟩

theorem acceptsNothing_processPrepare (a : AcceptorAgent) (slot : Slot) (ballot : Ballot) :
    a.AcceptsNothing (a.processPrepare env slot ballot).2 :=
  ⟨(a.acceptor.prepare_frame env slot ballot).1, rfl, List.prefix_rfl⟩

theorem acceptsNothing_retryLearns (a : AcceptorAgent) (slots : List Slot) :
    a.AcceptsNothing (a.retryLearns slots) := by
  unfold retryLearns
  induction slots generalizing a with
  | nil => exact AcceptsNothing.refl a
  | cons slot slots ih =>
      exact (a.acceptsNothing_send a.learners
        (.learn { slot, value := a.acceptedOrNoOp slot })).trans (ih _)

theorem acceptsNothing_maybeFlushState (a : AcceptorAgent) :
    a.AcceptsNothing (a.maybeFlushState env) := by
  refine ⟨?_, rfl, List.prefix_rfl⟩
  show (a.acceptor.maybeFlush env).2.accepted = _
  unfold Acceptor.maybeFlush
  split <;> rfl

/-- **A value accepted and then told**: the learn makes up for the acceptance. -/
theorem Announced.accept_send (h : a.Announced) (slot : Slot) (ballot : Ballot) (value : Value) :
    ((a.processAccept env slot ballot value).2.send a.learners (.learn { slot, value })).Announced := by
  intro slot' v hholds
  have hcases : (slot' = slot ∧ v = value) ∨ a.acceptor.Holds slot' v := by
    change (a.acceptor.accept env slot ballot value).2.Holds slot' v at hholds
    rcases a.acceptor.accept_cases env slot ballot value with
      ⟨b, he, -⟩ | ⟨pv, -, -, -, he⟩ | ⟨-, -, he⟩
    · rw [he] at hholds
      exact Or.inr hholds
    · rw [he] at hholds
      exact Or.inr hholds
    · rw [he] at hholds
      exact Acceptor.holds_record hholds
  have hsent : ((a.processAccept env slot ballot value).2.send a.learners
      (.learn { slot, value })).networkClient.sent =
      a.networkClient.sent ++
        [{ targets := a.learners, message := a.message (.learn { slot, value }) }] :=
    NetworkClient.sent_sendMessageForget ..
  rw [hsent]
  rcases hcases with ⟨rfl, rfl⟩ | hold
  · exact ⟨_, List.mem_append_right _ (List.mem_singleton_self _), rfl, rfl⟩
  · obtain ⟨s, hs, htargets, hpayload⟩ := h slot' v hold
    exact ⟨s, List.mem_append_left _ hs, htargets, hpayload⟩

theorem Announced.handleMessage (h : a.Announced) (hev : a.config.isEventDriven = true)
    (hmode : a.config.acceptorsSendLearns = true) (m : NetworkMessage) :
    (a.handleMessage env m).2.Announced := by
  unfold AcceptorAgent.handleMessage
  split
  · next p hp =>
    have hprepare := a.acceptsNothing_processPrepare env p.slot p.ballot
    unfold handlePrepare
    split
    · next promise a' he =>
      rw [he] at hprepare
      dsimp only
      split
      · exact h.of_acceptsNothing (hprepare.trans (a'.acceptsNothing_send _ _))
      · exact h.of_acceptsNothing hprepare
    · next he =>
      rw [he] at hprepare
      exact h.of_acceptsNothing hprepare
  · next p hp =>
    -- what is accepted is told in the same call
    have htold := h.accept_send env p.slot p.ballot p.value
    have hconfig : (a.processAccept env p.slot p.ballot p.value).2.config = a.config := rfl
    have hlearners : (a.processAccept env p.slot p.ballot p.value).2.learners = a.learners := rfl
    unfold handleAccept
    split
    · next acc a' he =>
      obtain ⟨hacc, -⟩ := Acceptor.accepted_of_accept env
        (show (a.acceptor.accept env p.slot p.ballot p.value).1 = .accepted acc from
          congrArg Prod.fst he)
      subst hacc
      rw [he] at htold hconfig hlearners
      dsimp only at hconfig hlearners ⊢
      rw [hconfig, hev, hmode, hlearners]
      exact htold
    · next b a' he =>
      -- nothing is accepted
      have hkept := processAccept_of_rejected env (congrArg Prod.fst he)
      rw [he] at hkept
      rw [show a' = a from hkept]
      exact h
  · exact h.of_acceptsNothing (a.acceptsNothing_retryLearns _)
  · exact h

end AcceptorAgent

namespace ProposerAgent

variable (a : ProposerAgent) (env : Env)

/-! ## What the proposer agent sends

A coordinator hands its proposer the promises and acceptances that arrive. What it sends then is for
learners or clients, and no accept. -/

/-- The pieces that send nothing leave the client alone. -/
theorem silent_networkClient : Silent (fun a a' => a'.networkClient = a.networkClient) where
  refl _ := rfl
  trans h h' := h'.trans h
  core _ _ _ := rfl
  received _ _ := rfl
  responses _ _ := rfl

theorem networkClient_insertAndCheckPromises (promise : Promise) (sender : Node) :
    (a.insertAndCheckPromises promise sender).2.networkClient = a.networkClient := by
  rw [insertAndCheckPromises_snd]

theorem networkClient_processPromises (slot : Slot) (promises : List Promise)
    (result : PrepareResult) :
    ((a.processPromises slot promises).2.handlePrepareResult result).networkClient =
      a.networkClient := by
  cases result <;> rfl

theorem networkClient_handlePromise (sender : Node) (promise : Promise) :
    (a.handlePromise sender promise).networkClient = a.networkClient := by
  rcases a.handlePromise_eq sender promise with ⟨he, -⟩ | ⟨group, -, he⟩
  · rw [he, networkClient_insertAndCheckPromises]
  · rw [he, networkClient_processPromises, networkClient_insertAndCheckPromises]

/-- A prepare round sends one prepare. -/
theorem networkClient_preparePhase (slot : Slot) (ballot : Ballot) (promises : List Promise) :
    (a.preparePhase env slot ballot promises).2.networkClient =
      (a.send a.acceptors (.prepare { slot, ballot })).networkClient := by
  unfold preparePhase broadcastPrepare
  cases a.config.isEventDriven with
  | true =>
      exact silent_networkClient.foldl
        (f := fun a promise => (a.insertAndCheckPromises promise a.node).2) _
        (fun a promise => a.networkClient_insertAndCheckPromises promise a.node) promises
  | false => exact networkClient_processPromises ..

theorem networkClient_checkPrepareTimeout :
    (a.checkPrepareTimeout env).2.networkClient = a.networkClient := by
  unfold checkPrepareTimeout
  split
  · split
    · split <;> rfl
    · rfl
  · rfl

theorem acceptsOf_send {targets : List Node} {payload : MessagePayload}
    (h : payload.accept? = none) :
    acceptsOf (a.send targets payload).networkClient.sent = acceptsOf a.networkClient.sent := by
  rw [send, NetworkClient.sent_sendMessageForget, acceptsOf, List.filterMap_append]
  simp [acceptsOf, message, h]

/-- A coordinator hands its proposer promises and acceptances only, and neither is answered. -/
theorem networkClient_handleMessage (m : NetworkMessage)
    (hm : (∃ promise, m.payload = .promise promise) ∨ ∃ accepted, m.payload = .accepted accepted) :
    (a.handleMessage env m).2.networkClient = a.networkClient := by
  unfold handleMessage
  rcases hm with ⟨promise, hp⟩ | ⟨accepted, hp⟩
  · rw [hp]
    exact a.networkClient_handlePromise m.sender promise
  · rw [hp]
    exact silent_networkClient.handleAccepted a m.sender accepted

end ProposerAgent

/-! ## A coordinator

A tick of a leader has its own acceptor accept, tells the others' learners, and counts the vote at its own
learner. The three go together in `commitLocally`. -/

namespace Trio

variable {t : Trio} {i : NodeId} (env : Env) (config : RunConfig) (node : Node)

/-- **What a coordinator tells**: all others of each value its acceptor holds, and its own learner of
each value its proposer has broadcast. -/
structure Outspoken (i : NodeId) (t : Trio) : Prop where
  announced : t.acceptor.Announced
  counted : ∀ acc ∈ acceptsOf t.proposer.networkClient.sent, t.learner.learner.Counts acc.slot i

theorem Outspoken.withProposer (h : t.Outspoken i) {p : ProposerAgent}
    (hsame : acceptsOf p.networkClient.sent = acceptsOf t.proposer.networkClient.sent) :
    Outspoken i { t with proposer := p } :=
  ⟨h.announced, fun acc hacc => h.counted acc (hsame ▸ hacc)⟩

theorem Outspoken.withAcceptor (h : t.Outspoken i) {a : AcceptorAgent}
    (hsame : t.acceptor.AcceptsNothing a) : Outspoken i { t with acceptor := a } :=
  ⟨h.announced.of_acceptsNothing hsame, h.counted⟩

theorem Outspoken.withLearner (h : t.Outspoken i) {l : LearnerAgent}
    (hcounts : ∀ slot j, t.learner.learner.Counts slot j → l.learner.Counts slot j) :
    Outspoken i { t with learner := l } :=
  ⟨h.announced, fun acc hacc => hcounts acc.slot i (h.counted acc hacc)⟩

theorem Outspoken.upkeep (h : t.Outspoken i) (hmode : config.acceptorsSendLearns = true) :
    (t.upkeep config env).Outspoken i := by
  have hQ := Learner.respects_counts
  have hretry : (t.maybeRetryLearn config env).Outspoken i := by
    have heval := hQ.of_sameCore t.learner (t.learner.sameCore_evaluateRetry env)
    unfold maybeRetryLearn
    split
    · next he =>
      rw [he] at heval
      exact h.withLearner heval
    · next he =>
      rw [he] at heval
      exact h.withLearner heval
    · next slots learner he =>
      rw [he] at heval
      unfold retryLearns
      rw [if_pos hmode]
      exact (h.withLearner heval).withAcceptor (t.acceptor.acceptsNothing_retryLearns slots)
  have hdrive : ∀ {t : Trio}, t.Outspoken i → (t.driveLearner env).Outspoken i := by
    intro t h
    -- executing and reporting count no vote
    have hexecute := hQ.executeChosenLearns env t.learner
    have hcollect := hQ.of_sameCore _ ((t.learner.executeChosenLearns env).sameCore_collectExecuted
      none false)
    have hlearner := h.withLearner (fun slot j hc => hcollect slot j (hexecute slot j hc))
    unfold driveLearner
    dsimp only
    split
    · apply hlearner.withProposer
      rw [ProposerAgent.silent_networkClient.processExecuted t.proposer env (fun _ _ _ => rfl)]
    · exact hlearner
  have hboth := hdrive hretry
  show (maybeFlushStates _ config env).Outspoken i
  generalize (t.maybeRetryLearn config env).driveLearner env = t at hboth ⊢
  unfold maybeFlushStates
  split
  · exact ((hboth.withProposer (p := t.proposer.maybeFlushState env) rfl).withAcceptor
      (t.acceptor.acceptsNothing_maybeFlushState env)).withLearner (hQ.flush _ env)
  · exact hboth

theorem Outspoken.preparePhase (h : t.Outspoken i) : (t.preparePhase env).2.Outspoken i := by
  have hacceptor := t.acceptor.acceptsNothing_processPrepare env (nextSlot t.learner.getAdu)
    t.proposer.proposer.currentBallot
  unfold Trio.preparePhase
  dsimp only
  split
  · next promise a he =>
    rw [he] at hacceptor
    refine (h.withAcceptor hacceptor).withProposer ?_
    rw [ProposerAgent.networkClient_preparePhase]
    exact t.proposer.acceptsOf_send rfl
  · next he =>
    rw [he] at hacceptor
    exact h.withAcceptor hacceptor

/-- A value committed locally is told to the others and voted for at the own learner. -/
theorem commitLocally_eq (hcfg : t.Configured config) (hmode : config.acceptorsSendLearns = true)
    (slot : Slot) (value : Value) :
    (t.commitLocally env config node slot value).2 =
      { t with
        acceptor := t.acceptor.send t.acceptor.learners (.learn { slot, value })
        learner := (t.learner.recordLearn env slot value node).2 } := by
  unfold commitLocally AcceptorAgent.commitPhase
  rw [hcfg.2, hmode]
  rfl

/-! ### A tick of the leader

In the accept phase the own acceptor comes first. What it accepts is a learn in the same tick, for the
others and for the own learner. -/

/-- **One round of the accept loop**: what is broadcast is voted for at the own learner. -/
theorem Outspoken.acceptOne (h : t.Outspoken node.nodeId) (hcfg : t.Configured config)
    (hlearner : t.learner.config = config) (hmode : config.acceptorsSendLearns = true) (p : Proposal) :
    (t.acceptOne env config node p).2.Outspoken node.nodeId := by
  rcases acceptOne_cases env config node t p with ⟨e, he⟩ | ⟨-, he⟩
  · rw [he]
    exact h
  · rw [he]
    have hbroadcast : (t.broadcast env p).Configured config :=
      ⟨(frames_config.acceptPhase t.proposer env _ _ _ _).trans hcfg.1, hcfg.2⟩
    rw [commitLocally_eq env config node hbroadcast hmode]
    have hmode' : t.learner.config.acceptorsSendLearns = true := by rw [hlearner, hmode]
    refine ⟨h.announced.accept_send env p.slot p.ballot p.value, fun acc hacc =>
      (LearnerAgent.counts_recordLearn hmode' env p.slot p.value node).mpr ?_⟩
    have hsent : (t.broadcast env p).proposer.networkClient.sent = t.proposer.networkClient.sent ++
        [{ targets := t.proposer.acceptors, message := t.proposer.message (.accept p.toAccept) }] := by
      rw [broadcast, ProposerAgent.networkClient_acceptPhase]
      rfl
    change acc ∈ acceptsOf (t.broadcast env p).proposer.networkClient.sent at hacc
    rw [hsent, acceptsOf, List.filterMap_append] at hacc
    rcases List.mem_append.mp hacc with hold | hnew
    · exact Or.inr (h.counted acc hold)
    · obtain rfl : acc = p.toAccept := by
        simpa [ProposerAgent.message, MessagePayload.accept?] using hnew
      exact Or.inl ⟨rfl, rfl⟩

/-- All three agents go by the configuration of the node. -/
def Tuned (config : RunConfig) (t : Trio) : Prop := t.Configured config ∧ t.learner.config = config

theorem Tuned.acceptOne (htuned : t.Tuned config) (hmode : config.acceptorsSendLearns = true)
    (p : Proposal) : (t.acceptOne env config node p).2.Tuned config := by
  rcases acceptOne_cases env config node t p with ⟨e, he⟩ | ⟨-, he⟩
  · rw [he]
    exact htuned
  · rw [he]
    have hbroadcast : (t.broadcast env p).Configured config :=
      ⟨(frames_config.acceptPhase t.proposer env _ _ _ _).trans htuned.1.1, htuned.1.2⟩
    rw [commitLocally_eq env config node hbroadcast hmode]
    exact ⟨hbroadcast, (t.learner.config_recordLearn env p.slot p.value node).trans htuned.2⟩

theorem Outspoken.acceptEach (h : t.Outspoken node.nodeId) (htuned : t.Tuned config)
    (hmode : config.acceptorsSendLearns = true) (ps : List Proposal) :
    (t.acceptEach env config node ps).2.Outspoken node.nodeId := by
  induction ps generalizing t with
  | nil => exact h
  | cons p ps ih =>
      have hone := h.acceptOne env config node htuned.1 htuned.2 hmode p
      have htuned' := htuned.acceptOne env config node hmode p
      unfold Trio.acceptEach
      split
      · next he =>
        rw [he] at hone
        exact hone
      · next he =>
        rw [he] at hone htuned'
        exact ih hone htuned'

theorem Outspoken.acceptPhase (h : t.Outspoken node.nodeId) (htuned : t.Tuned config)
    (hmode : config.acceptorsSendLearns = true) :
    (t.acceptPhase env config node).2.Outspoken node.nodeId := by
  have hclient := ProposerAgent.silent_networkClient.proposalsFor t.proposer []
    t.proposer.config.batchSize
  have hconfig := frames_config.proposalsFor t.proposer [] t.proposer.config.batchSize
  change t.proposer.proposalsToAccept.2.networkClient = _ at hclient
  change t.proposer.proposalsToAccept.2.config = _ at hconfig
  unfold Trio.acceptPhase
  generalize t.proposer.proposalsToAccept = created at hclient hconfig
  obtain ⟨result, proposer⟩ := created
  have hcreated := h.withProposer (congrArg (fun client => acceptsOf client.sent) hclient)
  cases result with
  | error e => exact hcreated
  | ok props =>
      dsimp only
      split
      · exact hcreated
      · exact hcreated.acceptEach env config node ⟨⟨hconfig.trans htuned.1.1, htuned.1.2⟩, htuned.2⟩
          hmode props

theorem Outspoken.commitPhase (h : t.Outspoken i) (hmode : config.acceptorsSendLearns = true) :
    (t.commitPhase env config node).2.Outspoken i := by
  have hclient := ProposerAgent.silent_networkClient.responsesFor t.proposer []
    t.proposer.config.batchSize
  unfold Trio.commitPhase
  rw [hmode]
  exact h.withProposer (congrArg (fun client => acceptsOf client.sent) hclient)

theorem Outspoken.leaderTick (h : t.Outspoken node.nodeId) (htuned : t.Tuned config)
    (hmode : config.acceptorsSendLearns = true) :
    (t.leaderTick env config node).2.Outspoken node.nodeId := by
  unfold Trio.leaderTick
  split
  · exact h.withProposer rfl
  · have hprepare := h.preparePhase env
    split
    · next he =>
      rw [he] at hprepare
      exact hprepare
    · next he =>
      rw [he] at hprepare
      exact hprepare
  · refine h.withProposer ?_
    rw [ProposerAgent.networkClient_checkPrepareTimeout]
  · have haccept := h.acceptPhase env config node htuned hmode
    split
    · next he =>
      rw [he] at haccept
      exact haccept
    · next t' he =>
      rw [he] at haccept
      exact haccept.commitPhase env config node hmode
  · exact h
  · exact h

theorem Outspoken.handleTick (h : t.Outspoken node.nodeId) (htuned : (t.upkeep config env).Tuned config)
    (hmode : config.acceptorsSendLearns = true) :
    (t.handleTick env config node).2.Outspoken node.nodeId := by
  have hup := h.upkeep env config hmode
  rw [handleTick_eq]
  split
  · exact hup
  · exact hup.leaderTick env config node htuned hmode

theorem Outspoken.retryLearns (h : t.Outspoken i) (hmode : config.acceptorsSendLearns = true)
    (slots : List Slot) : (t.retryLearns config env slots).Outspoken i := by
  unfold Trio.retryLearns
  rw [if_pos hmode]
  exact h.withAcceptor (t.acceptor.acceptsNothing_retryLearns slots)

end Trio

end PaxosWasm
