import PaxosWasm.Agents.ProposerInterface
import PaxosWasm.Core.ProposerCalls

/-!
# Answers to learners that ask again

A leader that is asked for a slot sends the value again while the slot waits for its commit, and the
accept again while it is in flight. A slot whose proposal is chosen but not reserved yet, and a slot
that is finalized, because one learner has executed it, get no answer.
-/

namespace PaxosWasm

open Library

namespace ProposerAgent

variable {a a' : ProposerAgent}

/-- A learn as the agent broadcasts it. -/
def learnTo (a : ProposerAgent) (learn : Learn) : Sent := ⟨a.learners, a.message (.learn learn)⟩

/-- The slot waits for its commit, with this value. -/
def Committing (a : ProposerAgent) (slot : Slot) (value : Value) : Prop :=
  ∃ entry, a.proposer.proposals.get? slot = some entry ∧ entry.status = .commitPending ∧
    entry.proposal.value = value

theorem getProposalByStatus_eq_none {p : Proposer} {slot : Slot} {ps : ProposalStatus}
    (h : p.getProposalByStatus slot ps = none) {entry : ProposalEntry}
    (hget : p.proposals.get? slot = some entry) : entry.status ≠ ps := by
  intro hstatus
  simp [Proposer.getProposalByStatus, Proposer.getProposalBy, hget, Option.filter, hstatus] at h

/-! ## One slot

What is sent for a slot depends on the status of its proposal. -/

/-- The proposals that are neither in flight nor freshly chosen stay as they are. -/
def SameSettled (a a' : ProposerAgent) : Prop :=
  ∀ slot entry, entry.status ≠ .inFlight → entry.status ≠ .chosen →
    (a'.proposer.proposals.get? slot = some entry ↔ a.proposer.proposals.get? slot = some entry)

/-- Sending an accept again changes no settled proposal. -/
theorem acceptPhase_again (a : ProposerAgent) (env : Env) (value : Value) (slot : Slot)
    (ballot : Ballot) :
    let a' := (a.acceptPhase env value slot ballot []).2
    a'.networkClient.sent = a.networkClient.sent ++
        [⟨a.acceptors, a.message (.accept { slot, ballot, value })⟩] ∧
      a'.learners = a.learners ∧ a'.node = a.node ∧ SameSettled a a' := by
  intro a'
  have hchosen : ∀ a₁ : ProposerAgent, SameSettled a₁ (a₁.markProposalChosen slot).2 := by
    intro a₁ slot' entry hflight hnew
    show ((a₁.proposer.markProposalChosen slot).2.proposals.get? slot' = some entry) ↔ _
    rcases a₁.proposer.markProposalChosen_cases slot with he | ⟨e, hget, hstatus, he⟩
    · rw [he]
    · rw [he]
      dsimp only
      rw [OrdMap.get?_insert]
      split
      · next hself =>
        subst hself
        rw [hget]
        constructor
        · intro h
          exact absurd (congrArg ProposalEntry.status (Option.some.inj h)).symm hnew
        · intro h
          rw [Option.some.inj h] at hstatus
          exact absurd hstatus hflight
      · rfl
  simp only [a', acceptPhase, broadcastAccept]
  by_cases hevent : a.config.isEventDriven = true
  · simp only [hevent, Bool.not_true, Bool.false_eq_true, if_false]
    exact ⟨rfl, rfl, rfl, fun _ _ _ _ => Iff.rfl⟩
  · simp only [hevent, Bool.not_false, if_true]
    generalize processAccepted _ slot _ = result
    cases result with
    | accepted n => exact ⟨rfl, rfl, rfl, hchosen (a.send a.acceptors _)⟩
    | quorumFailure | missingProposal | isEventDriven =>
        exact ⟨rfl, rfl, rfl, fun _ _ _ _ => Iff.rfl⟩

/-- **What an answer to some slots sends and leaves**: learns for those that wait for their commit,
and no other learns. -/
structure Replied (a a' : ProposerAgent) (slots : List Slot) (new : List Sent) : Prop where
  sent : a'.networkClient.sent = a.networkClient.sent ++ new
  learners : a'.learners = a.learners
  node : a'.node = a.node
  settled : SameSettled a a'
  learns : ∀ s learn, s.message.payload = .learn learn →
    (s ∈ new ↔ s = a.learnTo learn ∧ learn.slot ∈ slots ∧ a.Committing learn.slot learn.value)

theorem replied_retrySlot (a : ProposerAgent) (env : Env) (slot : Slot) :
    ∃ new, Replied a (retrySlot env a slot) [slot] new := by
  unfold retrySlot
  split
  · next chosen hchosen =>
    have hget := Proposer.getProposalByStatus_eq_some hchosen
    refine ⟨[a.learnTo { slot, value := chosen.value }], rfl, rfl, rfl, fun _ _ _ _ => Iff.rfl, ?_⟩
    intro s learn hpayload
    rw [List.mem_singleton, List.mem_singleton]
    constructor
    · rintro rfl
      obtain rfl : _ = learn := MessagePayload.learn.inj hpayload
      exact ⟨rfl, rfl, _, hget, rfl, rfl⟩
    · rintro ⟨hs, rfl, entry, hentry, -, hvalue⟩
      rw [hget] at hentry
      obtain rfl := Option.some.inj hentry
      rw [hs]
      obtain ⟨slot, value⟩ := learn
      dsimp only at hvalue
      rw [← hvalue]
  · next hnone =>
    -- the slot does not wait for its commit
    have hout : ∀ value, ¬ a.Committing slot value := by
      rintro value ⟨entry, hget, hstatus, -⟩
      exact getProposalByStatus_eq_none hnone hget hstatus
    split
    · next inFlight _ =>
      obtain ⟨hsent, hlearners, hnode, hsettled⟩ :=
        a.acceptPhase_again env inFlight.value inFlight.slot inFlight.ballot
      refine ⟨_, hsent, hlearners, hnode, hsettled, ?_⟩
      intro s learn hpayload
      rw [List.mem_singleton, List.mem_singleton]
      constructor
      · rintro rfl
        simp [message] at hpayload
      · rintro ⟨-, rfl, hcommit⟩
        exact absurd hcommit (hout _)
    · refine ⟨[], by simp, rfl, rfl, fun _ _ _ _ => Iff.rfl, ?_⟩
      intro s learn _
      rw [List.mem_singleton]
      constructor
      · intro h
        simp at h
      · rintro ⟨-, rfl, hcommit⟩
        exact absurd hcommit (hout _)

/-! ## A request

The slots of a request are answered one after the other. -/

theorem SameSettled.committing_iff (h : SameSettled a a') {slot : Slot} {value : Value} :
    a'.Committing slot value ↔ a.Committing slot value := by
  constructor
  · rintro ⟨entry, hget, hstatus, hvalue⟩
    exact ⟨entry, (h slot entry (by simp [hstatus]) (by simp [hstatus])).mp hget, hstatus, hvalue⟩
  · rintro ⟨entry, hget, hstatus, hvalue⟩
    exact ⟨entry, (h slot entry (by simp [hstatus]) (by simp [hstatus])).mpr hget, hstatus, hvalue⟩

theorem replied_retryLearns (a : ProposerAgent) (env : Env) (slots : List Slot) :
    ∃ new, Replied a (a.retryLearns env slots) slots new := by
  unfold retryLearns
  induction slots generalizing a with
  | nil => exact ⟨[], by simp, rfl, rfl, fun _ _ _ _ => Iff.rfl, fun _ _ _ => by simp⟩
  | cons slot slots ih =>
      obtain ⟨first, h₁⟩ := a.replied_retrySlot env slot
      obtain ⟨rest, h₂⟩ := ih (retrySlot env a slot)
      rw [List.foldl_cons]
      refine ⟨first ++ rest, ?_, h₂.learners.trans h₁.learners, h₂.node.trans h₁.node, ?_, ?_⟩
      · rw [h₂.sent, h₁.sent, List.append_assoc]
      · intro slot' entry hflight hnew
        exact (h₂.settled slot' entry hflight hnew).trans (h₁.settled slot' entry hflight hnew)
      · intro s learn hpayload
        have hto : (retrySlot env a slot).learnTo learn = a.learnTo learn := by
          simp only [learnTo, message, h₁.learners, h₁.node]
        rw [List.mem_append, h₁.learns s learn hpayload, h₂.learns s learn hpayload, hto,
          h₁.settled.committing_iff, List.mem_singleton, List.mem_cons]
        grind

/-- What an agent has sent since an earlier state. -/
def sentSince (a a' : ProposerAgent) : List Sent :=
  a'.networkClient.sent.drop a.networkClient.sent.length

/-- **The reply answers all that is known**: for each slot asked for whose proposal was accepted by a
quorum, the value is sent to the learners. -/
def AnswersKnown (a a' : ProposerAgent) (slots : List Slot) : Prop :=
  ∀ slot ∈ slots, ∀ entry, a.proposer.proposals.get? slot = some entry →
    entry.status = .chosen ∨ entry.status = .commitPending ∨ entry.status = .finalized →
    a.learnTo { slot, value := entry.proposal.value } ∈ sentSince a a'

/-- **A leader answers a request for learns** for all that it knows is chosen exactly if no slot of it
is chosen but not reserved, or finalized. -/
theorem answersKnown_iff (a : ProposerAgent) (env : Env) (m : NetworkMessage) (slots : List Slot)
    (hm : m.payload = .retryLearns { slots }) (hleader : a.proposer.isLeader = true) :
    AnswersKnown a (a.handleMessage env m).2 slots ↔
      ∀ slot ∈ slots, ∀ entry, a.proposer.proposals.get? slot = some entry →
        entry.status ≠ .chosen ∧ entry.status ≠ .finalized := by
  have hhandle : (a.handleMessage env m).2 = a.retryLearns env slots := by
    simp [handleMessage, hm, hleader]
  obtain ⟨new, hnew⟩ := a.replied_retryLearns env slots
  have hsince : sentSince a (a.retryLearns env slots) = new := by
    rw [sentSince, hnew.sent, List.drop_left]
  rw [AnswersKnown, hhandle, hsince]
  refine forall₂_congr (fun slot hslot => forall₂_congr (fun entry hget => ?_))
  have hlearn := hnew.learns (a.learnTo { slot, value := entry.proposal.value }) _ rfl
  constructor
  · intro hanswer
    -- an answer means that the slot waits for its commit
    have hcommit : entry.status = .chosen ∨ entry.status = .finalized →
        entry.status = .commitPending := by
      intro hstatus
      obtain ⟨-, -, entry', hget', hpending, -⟩ := hlearn.mp (hanswer (by tauto))
      rw [hget] at hget'
      exact Option.some.inj hget' ▸ hpending
    constructor
    · intro h
      rw [hcommit (Or.inl h)] at h
      exact ProposalStatus.noConfusion h
    · intro h
      rw [hcommit (Or.inr h)] at h
      exact ProposalStatus.noConfusion h
  · rintro ⟨hchosen, hfinal⟩ hstatus
    exact hlearn.mpr ⟨rfl, hslot, entry, hget, by tauto, rfl⟩

/-- A leader with three acceptors and a learner, to which it sends the learns itself. -/
def committer : Session :=
  .start .empty .quiet ⟨1, "", .proposer⟩
    [⟨11, "", .acceptor⟩, ⟨12, "", .acceptor⟩, ⟨13, "", .acceptor⟩, ⟨21, "", .learner⟩] true
    { RunConfig.inMemory with acceptorsSendLearns := false }

def receives (i : NodeId) (payload : MessagePayload) : Env × Op :=
  (.quiet, .handleMessage ⟨⟨i, "", .acceptor⟩, payload⟩)

/-- A request is proposed in slot 1 and accepted by two of the three acceptors. -/
def firstSlotChosen : List (Env × Op) :=
  [(.quiet, .submitClientRequest Value.noOp), receives 21 (.adu 0), (.quiet, .handleTick),
    (.quiet, .handleTick), receives 11 (.promise { slot := 1, ballot := 4, accepted := [] }),
    receives 12 (.promise { slot := 1, ballot := 4, accepted := [] }), (.quiet, .handleTick),
    receives 11 (.accepted { slot := 1, ballot := 4, success := true }),
    receives 12 (.accepted { slot := 1, ballot := 4, success := true })]

/-- The learner asks for slot 1. -/
def askFirst : NetworkMessage := ⟨⟨21, "", .learner⟩, .retryLearns { slots := [1] }⟩

/-- The next tick reserves the slot, and from then on it is answered. -/
theorem reserved_slot_answered :
    let a := (run Session.step committer (firstSlotChosen ++ [(.quiet, .handleTick)])).agent
    AnswersKnown a (a.handleMessage .quiet askFirst).2 [1] := by
  refine (answersKnown_iff _ .quiet askFirst [1] rfl (by decide)).mpr ?_
  intro slot hslot entry hget
  obtain rfl := List.mem_singleton.mp hslot
  have hentry : (run Session.step committer
      (firstSlotChosen ++ [(.quiet, .handleTick)])).agent.proposer.proposals.get? 1 =
      some { proposal := { ballot := 4, slot := 1, value := Value.noOp }, status := .commitPending } := by
    decide
  rw [hentry] at hget
  cases hget
  decide

/-- **A chosen slot gets no answer** before the tick that reserves it. -/
theorem chosen_slot_unanswered :
    let a := (run Session.step committer firstSlotChosen).agent
    a.proposer.isLeader = true ∧ ¬ AnswersKnown a (a.handleMessage .quiet askFirst).2 [1] := by
  refine ⟨by decide, fun h => ?_⟩
  have hanswer := h 1 (by simp)
    { proposal := { ballot := 4, slot := 1, value := Value.noOp }, status := .chosen } (by decide)
    (Or.inl rfl)
  revert hanswer
  decide

end ProposerAgent

end PaxosWasm
