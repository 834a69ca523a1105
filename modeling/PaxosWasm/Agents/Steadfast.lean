import PaxosWasm.Agents.Node

/-!
# Acceptors stand by what they hold

Without storage an acceptor agent keeps what it holds, and from then on it tells the learners nothing
else for that slot: asked again it tells the value, and it commits only what it has just accepted. A
no-op is only ever told before.
-/

namespace PaxosWasm

open Library

namespace AcceptorAgent

/-! ## The acceptor agent -/

/-- Without storage, `a'` keeps what `a` holds, and has told nothing else for those slots since `a`. -/
structure StandsBy (a a' : AcceptorAgent) : Prop where
  keeps : a.acceptor.Keeps a'.acceptor
  tells : a.acceptor.storage.enabled = false → ∀ slot v, a.acceptor.Holds slot v →
    ∀ l ∈ learnsOf a'.networkClient.sent, l.slot = slot → l.value = v ∨ l ∈ learnsOf a.networkClient.sent

variable {a a' a'' : AcceptorAgent} (env : Env)

theorem StandsBy.refl (a : AcceptorAgent) : a.StandsBy a := ⟨.refl _, fun _ _ _ _ _ hl _ => Or.inr hl⟩

theorem StandsBy.trans (h : a.StandsBy a') (h' : a'.StandsBy a'') : a.StandsBy a'' := by
  refine ⟨h.keeps.trans h'.keeps, fun hoff slot v hv l hl hslot => ?_⟩
  -- what is held at first is still held in between
  rcases h'.tells (h.keeps hoff).1 slot v (h.keeps.holds hoff hv) l hl hslot with hvalue | hl
  · exact Or.inl hvalue
  · exact h.tells hoff slot v hv l hl hslot

theorem standsBy_of_silent (hkeeps : a.acceptor.Keeps a'.acceptor)
    (hsilent : a'.networkClient = a.networkClient) : a.StandsBy a' :=
  ⟨hkeeps, fun _ _ _ _ _ hl _ => Or.inr (hsilent ▸ hl)⟩

/-- What is sent does no harm if it is no learn of another value. -/
theorem standsBy_send (a : AcceptorAgent) (ts : List Node) (payload : MessagePayload)
    (h : ∀ l, payload = .learn l → ∀ v, a.acceptor.Holds l.slot v → l.value = v) :
    a.StandsBy (a.send ts payload) := by
  refine ⟨.refl _, fun _ slot v hv l hl hslot => ?_⟩
  obtain ⟨s, hs, hp⟩ := mem_learnsOf.mp hl
  rw [send, NetworkClient.sent_sendMessageForget] at hs
  rcases List.mem_append.mp hs with hs | hs
  · exact Or.inr (mem_learnsOf.mpr ⟨s, hs, hp⟩)
  · rw [List.mem_singleton.mp hs] at hp
    exact Or.inl (h l hp v (hslot ▸ hv))

theorem standsBy_learn (a : AcceptorAgent) (ts : List Node) {slot : Slot} {value : Value}
    (h : a.acceptor.Holds slot value) : a.StandsBy (a.send ts (.learn { slot, value })) := by
  apply a.standsBy_send
  intro l hl v hv
  cases hl
  exact h.unique hv

theorem acceptedOrNoOp_of_holds {slot : Slot} {v : Value} (h : a.acceptor.Holds slot v) :
    a.acceptedOrNoOp slot = v := by
  obtain ⟨pv, hpv, hval⟩ := h
  rw [acceptedOrNoOp, Acceptor.getAccepted, hpv, Option.bind_some, hval]
  rfl

theorem standsBy_retryLearns (a : AcceptorAgent) (slots : List Slot) : a.StandsBy (a.retryLearns slots) := by
  unfold retryLearns
  induction slots generalizing a with
  | nil => exact .refl a
  | cons slot slots ih =>
      refine StandsBy.trans (a.standsBy_send a.learners _ (fun l hl v hv => ?_)) (ih _)
      cases hl
      exact acceptedOrNoOp_of_holds hv

theorem standsBy_processAccept (a : AcceptorAgent) (slot : Slot) (ballot : Ballot) (value : Value) :
    a.StandsBy (a.processAccept env slot ballot value).2 :=
  standsBy_of_silent (Acceptor.keeps_accept env slot ballot value) rfl

theorem standsBy_processPrepare (a : AcceptorAgent) (slot : Slot) (ballot : Ballot) :
    a.StandsBy (a.processPrepare env slot ballot).2 :=
  standsBy_of_silent (Acceptor.keeps_prepare env slot ballot) rfl

theorem standsBy_maybeFlushState (a : AcceptorAgent) : a.StandsBy (a.maybeFlushState env) :=
  standsBy_of_silent (Acceptor.keeps_maybeFlush env) rfl

/-- **A value that is accepted is told**, and it is the one that is held. -/
theorem standsBy_accept_learn (a : AcceptorAgent) (ts : List Node) {slot : Slot} {ballot : Ballot}
    {value : Value} {acc : Accepted} (h : (a.processAccept env slot ballot value).1 = .accepted acc) :
    a.StandsBy ((a.processAccept env slot ballot value).2.send ts (.learn { slot, value })) := by
  have haccept := a.standsBy_processAccept env slot ballot value
  -- with storage a snapshot may drop the value again, but then nothing is claimed
  by_cases hoff : a.acceptor.storage.enabled = false
  · exact haccept.trans (standsBy_learn _ ts ((Acceptor.accepted_of_accept env h).2 hoff))
  · exact ⟨haccept.keeps, fun hno => absurd hno hoff⟩

theorem standsBy_handleMessage (a : AcceptorAgent) (m : NetworkMessage) :
    a.StandsBy (a.handleMessage env m).2 := by
  unfold AcceptorAgent.handleMessage
  split
  · next p hp =>
    have hprepare := a.standsBy_processPrepare env p.slot p.ballot
    unfold handlePrepare
    split
    · next promise a' he =>
      rw [he] at hprepare
      dsimp only
      split
      · exact hprepare.trans (a'.standsBy_send _ _ nofun)
      · exact hprepare
    · next he =>
      rw [he] at hprepare
      exact hprepare
  · next p hp =>
    have haccept := a.standsBy_processAccept env p.slot p.ballot p.value
    unfold handleAccept
    split
    · next acc a' he =>
      have htold := a.standsBy_accept_learn env a'.learners (congrArg Prod.fst he)
      obtain ⟨rfl, -⟩ := Acceptor.accepted_of_accept env
        (show (a.acceptor.accept env p.slot p.ballot p.value).1 = .accepted acc from congrArg Prod.fst he)
      rw [he] at haccept htold
      dsimp only
      split
      · split
        · exact htold
        · exact haccept.trans (a'.standsBy_send _ _ nofun)
      · exact haccept
    · next he =>
      rw [he] at haccept
      exact haccept
  · exact a.standsBy_retryLearns _
  · exact .refl a

end AcceptorAgent

/-! ## A coordinator

A tick of a leader has its own acceptor accept, and tells at once what has been accepted. -/

namespace Trio

open AcceptorAgent

variable {t : Trio} (env : Env) (config : RunConfig) (node : Node)

theorem standsBy_retryLearns (slots : List Slot) :
    t.acceptor.StandsBy (t.retryLearns config env slots).acceptor := by
  unfold Trio.retryLearns
  split
  · exact t.acceptor.standsBy_retryLearns slots
  · exact .refl _

theorem standsBy_upkeep : t.acceptor.StandsBy (t.upkeep config env).acceptor := by
  have hretry : t.acceptor.StandsBy (t.maybeRetryLearn config env).acceptor := by
    unfold maybeRetryLearn
    split
    · exact .refl _
    · exact .refl _
    · next learner he => exact standsBy_retryLearns (t := { t with learner }) env config _
  have hdrive : ∀ t : Trio, (t.driveLearner env).acceptor = t.acceptor := by
    intro t
    unfold driveLearner
    dsimp only
    split <;> rfl
  have hflush : ∀ t : Trio, t.acceptor.StandsBy (t.maybeFlushStates config env).acceptor := by
    intro t
    unfold maybeFlushStates
    split
    · exact t.acceptor.standsBy_maybeFlushState env
    · exact .refl _
  apply hretry.trans
  rw [← hdrive]
  exact hflush _

/-- One round of the accept loop: what is committed has just been accepted. -/
theorem standsBy_acceptOne (p : Proposal) :
    t.acceptor.StandsBy (t.acceptOne env config node p).2.acceptor := by
  rcases acceptOne_cases env config node t p with ⟨e, he⟩ | ⟨hacc, he⟩
  · rw [he]
    exact .refl _
  · rw [he]
    have haccept := t.acceptor.standsBy_processAccept env p.slot p.ballot p.value
    have htold := fun ts => t.acceptor.standsBy_accept_learn env ts hacc
    unfold commitLocally AcceptorAgent.commitPhase
    split
    · split
      · next he =>
        split at he
        · cases he
        · obtain ⟨-, rfl⟩ := Prod.mk.inj he
          exact haccept
      · next he => split at he <;> cases he
      · next he =>
        split at he
        · obtain ⟨-, rfl⟩ := Prod.mk.inj he
          exact htold _
        · cases he
    · exact haccept

theorem standsBy_acceptEach (ps : List Proposal) :
    t.acceptor.StandsBy (t.acceptEach env config node ps).2.acceptor := by
  induction ps generalizing t with
  | nil => exact .refl _
  | cons p ps ih =>
      have hone := standsBy_acceptOne (t := t) env config node p
      unfold Trio.acceptEach
      split
      · next he =>
        rw [he] at hone
        exact hone
      · next he =>
        rw [he] at hone
        exact hone.trans ih

theorem standsBy_leaderTick : t.acceptor.StandsBy (t.leaderTick env config node).2.acceptor := by
  have hprepare : t.acceptor.StandsBy (t.preparePhase env).2.acceptor := by
    have hlocal := t.acceptor.standsBy_processPrepare env (nextSlot t.learner.getAdu)
      t.proposer.proposer.currentBallot
    unfold Trio.preparePhase
    dsimp only
    split <;> next he => rw [he] at hlocal; exact hlocal
  have haccept : t.acceptor.StandsBy (t.acceptPhase env config node).2.acceptor := by
    unfold Trio.acceptPhase
    split
    · exact .refl _
    · next props proposer he =>
      split
      · exact .refl _
      · exact standsBy_acceptEach (t := { t with proposer }) env config node props
  unfold Trio.leaderTick
  split
  · exact .refl _
  · split <;> next he => rw [he] at hprepare; exact hprepare
  · exact .refl _
  · split
    · next he =>
      rw [he] at haccept
      exact haccept
    · next he =>
      rw [he] at haccept
      rw [acceptor_commitPhase]
      exact haccept
  · exact .refl _
  · exact .refl _

theorem standsBy_handleTick : t.acceptor.StandsBy (t.handleTick env config node).2.acceptor := by
  rw [handleTick_eq]
  split
  · exact standsBy_upkeep env config
  · exact (standsBy_upkeep env config).trans (standsBy_leaderTick env config node)

end Trio

namespace PaxosCoordinator

/-! ## A node -/

/-- **Whatever is called, the acceptor of a node stands by what it holds.** -/
theorem standsBy_call (n : PaxosCoordinator) (e : Process.Event) {a : AcceptorAgent}
    (ha : n.acceptor? = some a) :
    ∃ a', (Process.call n e).2.acceptor? = some a' ∧ a.StandsBy a' := by
  by_cases hjoint : ∃ t, n.Joint t e
  · obtain ⟨t, hagents, hevent⟩ := hjoint
    obtain ⟨config, node, nodes, agents⟩ := n
    obtain rfl : agents = .coordinator t := hagents
    obtain rfl := Option.some.inj ha
    rcases hevent with ⟨env, rfl⟩ | ⟨env, slots, rfl⟩
    · exact ⟨_, rfl, Trio.standsBy_handleTick env config node⟩
    · exact ⟨_, rfl, Trio.standsBy_retryLearns env config slots⟩
  · obtain ⟨-, hacc, -, -⟩ := n.call_cases e (fun t ht => hjoint ⟨t, ht⟩)
    refine ⟨_, by rw [hacc, ha]; rfl, ?_⟩
    cases e with
    | tick env => exact a.standsBy_maybeFlushState env
    | message env m =>
        unfold onAcceptor
        dsimp only
        split
        · exact a.standsBy_handleMessage env m
        · exact .refl a
    | sendHeartbeat =>
        unfold onAcceptor
        dsimp only
        split
        · exact a.standsBy_send a.allNodes .heartbeat nofun
        · exact .refl a
    | _ => exact .refl a

end PaxosCoordinator

end PaxosWasm
