import PaxosWasm.Agents.Campaign

/-!
# Who leads

A node leads while the flag of its core proposer is set, and only a verdict of the failure detector
sets it or takes it back: ticks, messages, client requests and heartbeats leave it alone.
-/

namespace PaxosWasm

open Library

namespace ProposerAgent

/-! ## The handlers

Neither a tick nor a message says who leads. -/

/-- The agent leads as before. -/
def SameLead (a a' : ProposerAgent) : Prop := a'.proposer.isLeader = a.proposer.isLeader

theorem respects_sameLead : Respects SameLead where
  refl _ := rfl
  trans h h' := Eq.trans h' h
  core _ _ h := congrArg Proposer.Vitals.isLeader h
  received _ _ := rfl
  responses _ _ := rfl
  send _ _ _ _ := rfl
  adu _ _ _ := rfl

variable (a : ProposerAgent) (env : Env)

theorem sameLead_processPromises (slot : Slot) (promises : List Promise) (result : PrepareResult) :
    SameLead a ((a.processPromises slot promises).2.handlePrepareResult result) := by
  have hcore : SameLead a (a.processPromises slot promises).2 :=
    respects_sameLead.core a _ (a.proposer.vitals_processPrepare slot promises)
  cases result <;> exact hcore

theorem sameLead_insertAndCheckPromises (promise : Promise) (sender : Node) :
    SameLead a (a.insertAndCheckPromises promise sender).2 := by
  rw [insertAndCheckPromises_snd]
  rfl

theorem sameLead_handlePromise (sender : Node) (promise : Promise) :
    SameLead a (a.handlePromise sender promise) := by
  have hinsert := a.sameLead_insertAndCheckPromises promise sender
  rcases a.handlePromise_eq sender promise with ⟨he, _⟩ | ⟨group, _, he⟩
  · rw [he]
    exact hinsert
  · rw [he]
    exact respects_sameLead.trans hinsert (sameLead_processPromises ..)

theorem sameLead_preparePhase (slot : Slot) (ballot : Ballot) (promises : List Promise) :
    SameLead a (a.preparePhase env slot ballot promises).2 := by
  unfold preparePhase broadcastPrepare
  cases a.config.isEventDriven with
  | true =>
      have hstart : SameLead a
          ((a.send a.acceptors (.prepare { slot, ballot })).startPrepareRound env) := rfl
      apply respects_sameLead.trans hstart
      exact respects_sameLead.foldl _ (fun a p => a.sameLead_insertAndCheckPromises p a.node) promises
  | false => exact sameLead_processPromises ..

theorem sameLead_checkPrepareTimeout : SameLead a (a.checkPrepareTimeout env).2 := by
  unfold checkPrepareTimeout
  repeat' split
  all_goals rfl

theorem sameLead_handleTick : SameLead a (a.handleTick env).2 := by
  cases hphase : a.phase with
  | start =>
      simp only [handleTick, hphase]
      split
      · split
        · unfold getLearnerAdu
          split <;> rfl
        · rfl
      · rfl
  | prepareSend =>
      rw [handleTick_prepareSend hphase]
      have hraised : SameLead a { a with proposer := (a.proposer.increaseBallot env).2 } := rfl
      exact respects_sameLead.trans hraised (sameLead_preparePhase ..)
  | preparePending =>
      simp only [handleTick, hphase]
      exact a.sameLead_checkPrepareTimeout env
  | acceptCommit =>
      simp only [handleTick, hphase]
      exact respects_sameLead.acceptCommit a env
  | stop | crash =>
      simp only [handleTick, hphase]
      rfl

theorem sameLead_handleMessage (m : NetworkMessage) : SameLead a (a.handleMessage env m).2 := by
  have hR := respects_sameLead
  unfold handleMessage
  cases m.payload with
  | promise p => exact a.sameLead_handlePromise m.sender p
  | accepted acc => exact hR.handleAccepted a m.sender acc
  | retryLearns retry =>
      dsimp only
      split
      · rfl
      · exact hR.retryLearns a env retry.slots
  | executed executed => exact hR.processExecuted a env executed
  | adu adu => exact hR.adu a env adu
  | ignore | clientRequest | clientResponse | prepare | accept | learn | heartbeat | benchmark => rfl

/-! ## The tick of a coordinator -/

variable (t : Trio) (config : RunConfig) (node : Node)

theorem sameLead_trioPreparePhase : SameLead t.proposer (t.preparePhase env).2.proposer := by
  unfold Trio.preparePhase
  dsimp only
  split
  · exact sameLead_preparePhase ..
  · rfl

theorem sameLead_trioTick : SameLead t.proposer (t.handleTick env config node).2.proposer := by
  have hR := respects_sameLead
  have hup := hR.trioUpkeep t env config (fun _ _ => rfl)
  rw [Trio.handleTick_eq]
  generalize t.upkeep config env = t' at hup ⊢
  split
  · exact hup
  · apply hR.trans hup
    unfold Trio.leaderTick
    split
    · rfl
    · have hprepare := sameLead_trioPreparePhase env t'
      split <;> next he => rw [he] at hprepare; exact hprepare
    · exact t'.proposer.sameLead_checkPrepareTimeout env
    · have haccept := hR.trioAcceptPhase t' env config node
      split
      · next he =>
        rw [he] at haccept
        exact haccept
      · next t'' he =>
        rw [he] at haccept
        exact hR.trans haccept (hR.trioCommitPhase t'' env config node)
    · rfl
    · rfl

end ProposerAgent

namespace PaxosCoordinator

variable (n : PaxosCoordinator)

/-! ## Verdicts

What is left is the call with which the runner passes on the verdict of the failure detector. -/

/-- A call that is no verdict leaves the flag of the proposer agent. -/
theorem sameLead_onProposer {e : Process.Event} (he : ∀ env lid, e ≠ .failureService env lid)
    (p : ProposerAgent) : p.SameLead (n.onProposer p e).2 := by
  cases e with
  | tick env => exact p.sameLead_handleTick env
  | message env m =>
      unfold onProposer
      dsimp only
      split
      · exact p.sameLead_handleMessage env m
      · rfl
  | failureService env lid => exact absurd rfl (he env lid)
  | submitClientRequest | sendHeartbeat | retryLearns | restart => rfl

/-- **Only a verdict changes who leads.** -/
theorem isLeader_call {e : Process.Event} (he : ∀ env lid, e ≠ .failureService env lid) :
    (Process.call n e).2.isLeader = n.isLeader := by
  by_cases hjoint : ∃ t, n.Joint t e
  · obtain ⟨t, hagents, hevent⟩ := hjoint
    obtain ⟨config, node, nodes, agents⟩ := n
    obtain rfl : agents = .coordinator t := hagents
    rcases hevent with ⟨env, rfl⟩ | ⟨env, slots, rfl⟩
    · exact ProposerAgent.sameLead_trioTick env t config node
    · exact ProposerAgent.respects_sameLead.trioRetryLearns t env config slots
  · obtain ⟨hprop, _, _, _⟩ := n.call_cases e (fun t ht => hjoint ⟨t, ht⟩)
    rw [isLeader, isLeader, hprop]
    cases hp : n.proposer? with
    | none => rfl
    | some p => exact n.sameLead_onProposer he p

/-- **What a verdict does**: a node that runs a proposer leads after it exactly if it is named. -/
theorem isLeader_failureService (env : Env) (lid : Option NodeId) :
    (n.failureService env lid).isLeader =
      match lid with
      | none => n.isLeader
      | some leaderId => n.proposer?.isSome && decide (leaderId = n.node.nodeId) := by
  rw [failureService_eq, isLeader, proposer?_withProposer]
  cases hp : n.proposer? with
  | none => cases lid <;> simp [isLeader, hp]
  | some p =>
      cases lid with
      | none => simp [isLeader, hp, onProposer]
      | some leaderId =>
          cases hleads : p.proposer.isLeader <;> by_cases hself : leaderId = n.node.nodeId <;>
            simp [onProposer, hleads, hself, ProposerAgent.becomeLeader, ProposerAgent.resignLeader,
              Proposer.becomeLeader, Proposer.resignLeader]

end PaxosCoordinator

end PaxosWasm
