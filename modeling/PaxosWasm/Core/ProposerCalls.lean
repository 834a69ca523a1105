import PaxosWasm.Core.PhaseOne

/-!
# The core proposer, call by call

What each call can do, all its branches together. Everything later cites these cases and looks into
no call again.
-/

namespace PaxosWasm

open Library

namespace Proposer

/-! ## Phase 1 and proposals

These two move the slot counter: Phase 1 to the slot before its own, and a proposal by one. -/

/-- **A completed Phase 1** moves the slot counter unless it is past the slot, and queues values. -/
theorem processPrepare_cases (p : Proposer) (minSlot : Slot) (promises : List Promise) :
    p.processPrepare minSlot promises = (.quorumFailure, p) ∨
      p.quorum ≤ (promises.filter (fun pr => decide (pr.ballot = p.currentBallot))).length ∧
      ∃ values : List Value, p.processPrepare minSlot promises = (.success,
        { p with
          currentSlot := if p.currentSlot > minSlot then p.currentSlot else minSlot - 1
          prioritizedValues := values.foldl enqueueNew p.prioritizedValues }) := by
  unfold processPrepare
  dsimp only
  split
  · exact Or.inl rfl
  · next hquorum =>
    refine Or.inr ⟨Nat.le_of_not_lt hquorum, ?_⟩
    rw [foldl_enqueuePrioritizedRequest]
    unfold collectAcceptedValues
    split
    · next hpast => exact ⟨_, rfl⟩
    · next hpast => exact ⟨_, rfl⟩

/-- **A proposal** takes the first of the queued values, the next slot and the current ballot. -/
theorem createProposal_spec (p : Proposer) :
    p.createProposal = (none, p) ∨
      ∃ value pending prioritized,
        p.queue = value :: (prioritized ++ pending) ∧
        let prop : Proposal := { slot := p.currentSlot + 1, ballot := p.currentBallot, value }
        p.createProposal = (some prop,
          { p with
            currentSlot := p.currentSlot + 1
            pendingClientRequests := pending
            prioritizedValues := prioritized
            proposals := p.proposals.insert (p.currentSlot + 1)
              { proposal := prop, status := .inFlight } }) := by
  unfold createProposal nextValue
  split
  · exact Or.inl rfl
  · cases hprio : p.prioritizedValues with
    | cons v rest => exact Or.inr ⟨v, p.pendingClientRequests, rest, by rw [queue, hprio]; rfl, rfl⟩
    | nil =>
        cases hpend : p.pendingClientRequests with
        | nil => exact Or.inl rfl
        | cons v rest =>
            refine Or.inr ⟨v, rest, [], ?_, by simp [getNextSlot]⟩
            rw [queue, hprio, hpend]
            rfl

/-! ## The status of a proposal

Three operations change it, and nothing else of the proposal. -/

theorem getProposalByStatus_eq_some {p : Proposer} {slot : Slot} {ps : ProposalStatus}
    {prop : Proposal} (h : p.getProposalByStatus slot ps = some prop) :
    p.proposals.get? slot = some { proposal := prop, status := ps } := by
  unfold getProposalByStatus getProposalBy at h
  obtain ⟨e, he, rfl⟩ := Option.map_eq_some_iff.mp h
  obtain ⟨hget, hstatus⟩ := Option.filter_eq_some_iff.mp he
  rw [hget, ← of_decide_eq_true hstatus]

/-- Reserving a chosen slot takes it off the queue, gives out its proposal and changes only the
status. -/
theorem reserveNextChosenProposal_cases (p : Proposer) :
    (∃ slots ⊆ p.chosenSlots, p.reserveNextChosenProposal = (none, { p with chosenSlots := slots })) ∨
      ∃ slot slots e, p.chosenSlots = slot :: slots ∧ p.proposals.get? slot = some e ∧
        p.reserveNextChosenProposal = (some e.proposal,
          { p with
            chosenSlots := slots
            proposals := p.proposals.insert slot { e with status := .commitPending } }) := by
  unfold reserveNextChosenProposal
  cases hs : p.chosenSlots with
  | nil => exact Or.inl ⟨[], List.nil_subset _, congrArg (Prod.mk none) (by rw [← hs])⟩
  | cons slot rest =>
      dsimp only
      cases hget : p.proposals.get? slot with
      | none => exact Or.inl ⟨rest, List.subset_cons_self .., rfl⟩
      | some e => exact Or.inr ⟨slot, rest, e, rfl, hget, rfl⟩

/-- Only a proposal in flight is marked chosen. -/
theorem markProposalChosen_cases (p : Proposer) (slot : Slot) :
    p.markProposalChosen slot = (none, p) ∨
      ∃ e, p.proposals.get? slot = some e ∧ e.status = .inFlight ∧
        p.markProposalChosen slot = (some e.proposal.value,
          { p with
            proposals := p.proposals.insert slot { e with status := .chosen }
            chosenSlots := p.chosenSlots ++ [slot] }) := by
  unfold markProposalChosen
  cases h : p.getProposalByStatus slot .inFlight with
  | none => exact Or.inl rfl
  | some prop =>
      have hget := getProposalByStatus_eq_some h
      refine Or.inr ⟨_, hget, rfl, ?_⟩
      simp [updateProposalStatus, hget]

/-- Finalizing a slot, unless it is finalized, gives out the value of its proposal and changes only the
status. -/
theorem markProposalFinalized_cases (p : Proposer) (slot : Slot) :
    p.markProposalFinalized slot = (none, p) ∨
      ∃ e, p.proposals.get? slot = some e ∧ e.status ≠ .finalized ∧
        p.markProposalFinalized slot = (some e.proposal.value,
          { p with proposals := p.proposals.insert slot { e with status := .finalized } }) := by
  unfold markProposalFinalized
  split
  · exact Or.inl rfl
  · next hopen =>
    unfold updateProposalStatus
    cases hget : p.proposals.get? slot with
    | none => exact Or.inl rfl
    | some e =>
        refine Or.inr ⟨e, rfl, ?_, rfl⟩
        intro hstatus
        simp [getProposalBy, hget, hstatus] at hopen

/-! ## Acceptances -/

/-- A count of acceptances reaches the quorum only for a proposal in flight. -/
theorem processAccept_eq_accepted {p : Proposer} {slot : Slot} {accepts : List Accepted} {n : Nat}
    (h : p.processAccept slot accepts = .accepted n) :
    ∃ e, p.proposals.get? slot = some e ∧ e.status = .inFlight ∧
      p.quorum ≤ (accepts.filter (fun a => decide (a.slot = e.proposal.slot) &&
        decide (a.ballot = e.proposal.ballot) && a.success)).length := by
  unfold processAccept at h
  split at h
  · cases h
  · next prop hprop =>
    dsimp only at h
    split at h
    · cases h
    · next hquorum =>
      exact ⟨_, getProposalByStatus_eq_some hprop, rfl, Nat.le_of_not_lt hquorum⟩

end Proposer

end PaxosWasm
