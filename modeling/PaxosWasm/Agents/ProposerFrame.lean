import PaxosWasm.Agents.ProposerInterface
import PaxosWasm.Core.ProposerCalls

/-!
# What the handlers of the proposer agent leave alone

Most handlers work on proposals, learns and responses, and leave the ballot, the storage, the phase and
the promises alone. A relation that the few pieces respect out of which these handlers are made is
respected by the handlers; what a handler leaves alone is one such relation.
-/

namespace PaxosWasm

open Library

/-! ## The core proposer

Most of its operations are about values, slots and proposals. The ballot, the leadership, the cursor and
the storage have operations of their own. -/

/-- What a core proposer keeps when it handles values, slots and proposals. -/
structure Proposer.Vitals where
  isLeader : Bool
  numAcceptors : Nat
  ballotDelta : Ballot
  currentBallot : Ballot
  adu : Slot
  storage : Proposer.StorageHelper

namespace Proposer

def vitals (p : Proposer) : Vitals :=
  { isLeader := p.isLeader
    numAcceptors := p.numAcceptors
    ballotDelta := p.ballotDelta
    currentBallot := p.currentBallot
    adu := p.adu
    storage := p.storage }

variable (p : Proposer)

@[simp] theorem vitals_createProposal : p.createProposal.2.vitals = p.vitals := by
  rcases p.createProposal_spec with he | ⟨value, pending, prioritized, _, he⟩
  · rw [he]
  · rw [he]
    rfl

@[simp] theorem vitals_reserveNextChosenProposal :
    p.reserveNextChosenProposal.2.vitals = p.vitals := by
  rcases p.reserveNextChosenProposal_cases with ⟨slots, _, he⟩ | ⟨slot, slots, e, _, _, he⟩
  · rw [he]
    rfl
  · rw [he]
    rfl

@[simp] theorem vitals_markProposalChosen (slot : Slot) :
    (p.markProposalChosen slot).2.vitals = p.vitals := by
  rcases p.markProposalChosen_cases slot with he | ⟨e, _, _, he⟩
  · rw [he]
  · rw [he]
    rfl

@[simp] theorem vitals_markProposalFinalized (slot : Slot) :
    (p.markProposalFinalized slot).2.vitals = p.vitals := by
  rcases p.markProposalFinalized_cases slot with he | ⟨e, _, _, he⟩
  · rw [he]
  · rw [he]
    rfl

@[simp] theorem vitals_enqueuePrioritizedRequest (req : Value) :
    (p.enqueuePrioritizedRequest req).vitals = p.vitals := by
  unfold enqueuePrioritizedRequest
  split <;> rfl

@[simp] theorem vitals_processPrepare (minSlot : Slot) (promises : List Promise) :
    (p.processPrepare minSlot promises).2.vitals = p.vitals := by
  rcases p.processPrepare_cases minSlot promises with he | ⟨_, values, he⟩
  · rw [he]
  · rw [he]
    rfl

end Proposer

def MessagePayload.prepare? : MessagePayload → Option Prepare
  | .prepare p => some p
  | _ => none

namespace ProposerAgent

/-! ## The pieces of a handler

A relation between an agent and a later one is respected by a whole handler if the pieces respect it that
the handler is made of. Those of a `Silent` relation send nothing, those of one that `Frames` may send
anything but a prepare, and where it `Respects` all of them, they may move the cursor as well. -/

/-- A relation between an agent and a later one that the pieces respect which send nothing and leave
the cursor. -/
structure Silent (R : ProposerAgent → ProposerAgent → Prop) : Prop where
  refl : ∀ a, R a a
  trans : ∀ {a a' a''}, R a a' → R a' a'' → R a a''
  core : ∀ a p, p.vitals = a.proposer.vitals → R a { a with proposer := p }
  received : ∀ a m, R a { a with inFlightAccepted := m }
  responses : ∀ a m, R a { a with clientResponses := m }

/-- A relation between an agent and a later one that the pieces respect which leave the cursor. -/
structure Frames (R : ProposerAgent → ProposerAgent → Prop) : Prop extends Silent R where
  send : ∀ a targets payload, payload.prepare? = none → R a (a.send targets payload)

/-- A relation between an agent and a later one that all the pieces respect. -/
structure Respects (R : ProposerAgent → ProposerAgent → Prop) : Prop extends Frames R where
  adu : ∀ a env adu, R a { a with proposer := a.proposer.setAdu env adu }

namespace Silent

variable {R : ProposerAgent → ProposerAgent → Prop} (hR : Silent R) (a : ProposerAgent) (env : Env)

include hR

theorem foldl {α : Type} {f : ProposerAgent → α → ProposerAgent} (h : ∀ a x, R a (f a x))
    (xs : List α) : R a (xs.foldl f a) := by
  induction xs generalizing a with
  | nil => exact hR.refl a
  | cons x xs ih => exact hR.trans (h a x) (ih (f a x))

theorem insertAndCheckAccepted (accepted : Accepted) (sender : Node) :
    R a (a.insertAndCheckAccepted accepted sender).2 := hR.received a _

theorem handleAcceptResult (slot : Slot) (result : AcceptResult) :
    R a (a.handleAcceptResult slot result) := by
  cases result with
  | accepted n => exact hR.core a _ (a.proposer.vitals_markProposalChosen slot)
  | quorumFailure | missingProposal | isEventDriven => exact hR.refl a

theorem handleAccepted (sender : Node) (payload : Accepted) :
    R a (a.handleAccepted sender payload) := by
  have hinsert := hR.insertAndCheckAccepted a payload sender
  unfold ProposerAgent.handleAccepted
  split
  · next a' he =>
    rw [he] at hinsert
    exact hR.trans hinsert (hR.handleAcceptResult a' _ _)
  · next a' he =>
    rw [he] at hinsert
    exact hinsert

theorem createProposal : R a a.createProposal.2 :=
  hR.core a _ a.proposer.vitals_createProposal

theorem proposalsFor (toAccept : List Proposal) (fuel : Nat) :
    R a (a.proposalsFor toAccept fuel).2 := by
  induction fuel generalizing a toAccept with
  | zero => exact hR.refl a
  | succ fuel ih =>
      have hcreate := hR.createProposal a
      rw [ProposerAgent.proposalsFor]
      split
      · next prop a' he =>
        rw [he] at hcreate
        split
        · exact hcreate
        · exact hR.trans hcreate (ih a' _)
      · next a' he =>
        rw [he] at hcreate
        exact hcreate

theorem learnsFor (learns : List Learn) (fuel : Nat) : R a (a.learnsFor learns fuel).2 := by
  induction fuel generalizing a learns with
  | zero => exact hR.refl a
  | succ fuel ih =>
      have hreserve : R a a.reserveNextChosenProposal.2 :=
        hR.core a _ a.proposer.vitals_reserveNextChosenProposal
      rw [ProposerAgent.learnsFor]
      split
      · next a' he =>
        rw [he] at hreserve
        exact hR.trans hreserve (ih a' _)
      · next a' he =>
        rw [he] at hreserve
        exact hreserve

theorem responsesFor (out : List ClientResponse) (fuel : Nat) :
    R a (a.responsesFor out fuel).2 := by
  induction fuel generalizing a out with
  | zero => exact hR.refl a
  | succ fuel ih =>
      rw [ProposerAgent.responsesFor]
      split
      · next resp rest _ => exact hR.trans (hR.responses a rest) (ih _ _)
      · exact hR.refl a

theorem processResult (result : ExecuteResult) : R a (a.processResult result) := by
  have hfinal := a.proposer.vitals_markProposalFinalized result.slot
  unfold ProposerAgent.processResult
  split
  · next proposer he =>
    rw [he] at hfinal
    exact hR.core a proposer hfinal
  · next value proposer he =>
    rw [he] at hfinal
    dsimp only
    split
    · have hqueued := proposer.vitals_enqueuePrioritizedRequest value
      exact hR.trans (hR.core a _ (hqueued.trans hfinal)) (hR.responses _ _)
    · exact hR.trans (hR.core a proposer hfinal) (hR.responses _ _)

/-- The results of a batch are for a leader. -/
theorem processResults (results : List ExecuteResult) :
    R a (if !a.proposer.isLeader then a else results.foldl ProposerAgent.processResult a) := by
  split
  · exact hR.refl a
  · exact hR.foldl a (fun a result => hR.processResult a result) results

/-- A batch of results may move the cursor. -/
theorem processExecuted (hadu : ∀ a env adu, R a { a with proposer := a.proposer.setAdu env adu })
    (executed : Executed) : R a (a.processExecuted env executed) := by
  have hcursor : R a (if executed.adu > a.proposer.adu then
      { a with proposer := a.proposer.setAdu env executed.adu } else a) := by
    split
    · exact hadu a env _
    · exact hR.refl a
  exact hR.trans hcursor (hR.processResults _ executed.results)

end Silent

namespace Frames

variable {R : ProposerAgent → ProposerAgent → Prop} (hR : Frames R) (a : ProposerAgent) (env : Env)

include hR

theorem acceptPhase (value : Value) (slot : Slot) (ballot : Ballot) (accepts : List Accepted) :
    R a (a.acceptPhase env value slot ballot accepts).2 := by
  have hsend := hR.send a a.acceptors (.accept { slot, ballot, value }) rfl
  unfold ProposerAgent.acceptPhase broadcastAccept
  cases a.config.isEventDriven with
  | true =>
      simp only [Bool.not_true, Bool.false_eq_true, if_false]
      exact hR.trans hsend
        (hR.foldl _ (fun a acc => hR.insertAndCheckAccepted a acc a.node) accepts)
  | false =>
      simp only [Bool.not_false, if_true]
      exact hR.trans hsend (hR.handleAcceptResult _ _ _)

theorem broadcastLearn (learn : Learn) : R a (a.broadcastLearn learn) := hR.send a _ _ rfl

theorem acceptAll (props : List Proposal) : R a (a.acceptAll env props).2 := by
  induction props generalizing a with
  | nil => exact hR.refl a
  | cons prop props ih =>
      have haccept := hR.acceptPhase a env prop.value prop.slot prop.ballot []
      rw [ProposerAgent.acceptAll]
      split
      · next a' he =>
        rw [he] at haccept
        exact hR.trans haccept (ih a')
      · next a' _ he =>
        rw [he] at haccept
        exact haccept

theorem acceptCommit : R a (a.acceptCommit env).2 := by
  have hprops : R a a.proposalsToAccept.2 := hR.proposalsFor a [] _
  unfold ProposerAgent.acceptCommit
  split
  · next he =>
    rw [he] at hprops
    exact hprops
  · next props a₁ he =>
    rw [he] at hprops
    have hall := hR.acceptAll a₁ env props
    split
    · next he' =>
      rw [he'] at hall
      exact hR.trans hprops hall
    · next a₂ he' =>
      rw [he'] at hall
      have hbefore := hR.trans hprops hall
      dsimp only
      split
      · have hlearns : R a₂ a₂.learnsToCommit.2 := hR.learnsFor a₂ [] _
        exact hR.trans hbefore (hR.trans hlearns (hR.trans
          (hR.foldl _ (fun a l => hR.broadcastLearn a l) _) (hR.responsesFor _ [] _)))
      · exact hR.trans hbefore (hR.responsesFor a₂ [] _)

theorem retrySlot (slot : Slot) : R a (retrySlot env a slot) := by
  unfold ProposerAgent.retrySlot
  split
  · exact hR.broadcastLearn a _
  · split
    · exact hR.acceptPhase a env _ _ _ _
    · exact hR.refl a

theorem retryLearns (slots : List Slot) : R a (a.retryLearns env slots) :=
  hR.foldl a (fun a slot => hR.retrySlot a env slot) slots

end Frames

/-! ## Reports of results -/

theorem Respects.processExecuted {R : ProposerAgent → ProposerAgent → Prop} (hR : Respects R)
    (a : ProposerAgent) (env : Env) (executed : Executed) : R a (a.processExecuted env executed) :=
  hR.toFrames.toSilent.processExecuted a env hR.adu executed

end ProposerAgent

end PaxosWasm
