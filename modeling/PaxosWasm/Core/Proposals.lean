import PaxosWasm.Core.ProposerCalls
import PaxosWasm.Library.Run

/-!
# The proposals of the core proposer

Over a run of the core proposer: which slots it hands out under a ballot, and how the status of a
proposal moves. A completed Phase 1 puts the slot counter back whenever the counter is not past the
first slot it is about, also when that very slot has been handed out already. A finalized proposal
stays in the queue of chosen slots it may be in, and the reservation of a chosen slot does not look
at the status.

A call is looked into once, for `step_turn`. The invariants of a run are about the fields in `Turn`, and
each has one lemma for each kind of turn: `Numbered` for the slots and the ballots that have been used,
`Ranked` for how far the proposals are. What a run must not do, a rewind or the reservation of a
finalized proposal, is said of the state before the call. The counter and the ballot are numbers without
a bound in `step`; with sums of `u64`s a call does the same until one of them overflows (`stepU64_eq`).
-/

namespace PaxosWasm

open Library

/-- In flight, chosen, reserved for its learn, finalized. -/
def ProposalStatus.rank : ProposalStatus → Nat
  | .inFlight => 0
  | .chosen => 1
  | .commitPending => 2
  | .finalized => 3

theorem ProposalStatus.rank_le (s : ProposalStatus) : s.rank ≤ 3 := by
  cases s <;> decide

theorem ProposalStatus.eq_finalized {s : ProposalStatus} (h : 3 ≤ s.rank) :
    s = .finalized := by
  cases s <;> first | rfl | exact absurd h (by decide)

namespace Proposer

/-! ## Runs

`Turn` says all that a call can do to the ballot, the slot counter, the proposals and the chosen slots.
What follows about runs is derived from it, and no call is looked into again. -/

/-- A call of the proposer interface. -/
inductive Op where
  | enqueueClientRequest (req : Value)
  | enqueuePrioritizedRequest (req : Value)
  | createProposal
  | processPrepare (minSlot : Slot) (promises : List Promise)
  | processAccept (slot : Slot) (accepts : List Accepted)
  | reserveNextChosenProposal
  | markProposalChosen (slot : Slot)
  | markProposalFinalized (slot : Slot)
  | setAdu (adu : Slot)
  | increaseBallot
  | becomeLeader
  | resignLeader
  | maybeFlush

/-- The proposer after one call. -/
def step (p : Proposer) (c : Env × Op) : Proposer :=
  match c.2 with
  | .enqueueClientRequest req => (p.enqueueClientRequest req).2
  | .enqueuePrioritizedRequest req => p.enqueuePrioritizedRequest req
  | .createProposal => p.createProposal.2
  | .processPrepare minSlot promises => (p.processPrepare minSlot promises).2
  | .processAccept _ _ => p
  | .reserveNextChosenProposal => p.reserveNextChosenProposal.2
  | .markProposalChosen slot => (p.markProposalChosen slot).2
  | .markProposalFinalized slot => (p.markProposalFinalized slot).2
  | .setAdu adu => p.setAdu c.1 adu
  | .increaseBallot => (p.increaseBallot c.1).2
  | .becomeLeader => (p.becomeLeader c.1).2
  | .resignLeader => p.resignLeader.2
  | .maybeFlush => (p.maybeFlush c.1).2

/-- The proposal the call returns, if it is a `create_proposal` that returns one. -/
def created (p : Proposer) (c : Env × Op) : List Proposal :=
  match c.2 with
  | .createProposal => p.createProposal.1.toList
  | _ => []

/-- The slot the call finalizes, if it is a `mark_proposal_finalized` that returns `Some`. -/
def finalizes (p : Proposer) (c : Env × Op) : List Slot :=
  match c.2 with
  | .markProposalFinalized slot => if (p.markProposalFinalized slot).1.isSome then [slot] else []
  | _ => []

/-! ### What a call does

All the invariants of this module follow from the few things that a call can do to the fields they are
about. -/

/-- **What a call can do** to the counters, the proposals and the queue of chosen slots. -/
inductive Turn (p p' : Proposer) (c : Env × Op) : Prop
  /-- Nothing, but for a greater ballot and fewer chosen slots. -/
  | other (hproposals : p'.proposals = p.proposals) (hchosen : p'.chosenSlots ⊆ p.chosenSlots)
      (hballot : p.currentBallot ≤ p'.currentBallot) (hslot : p'.currentSlot = p.currentSlot)
      (hcreated : p.created c = []) (hfinalizes : p.finalizes c = [])
  | prepared {minSlot : Slot} {promises : List Promise} (hop : c.2 = .processPrepare minSlot promises)
      (hquorum :
        p.quorum ≤ (promises.filter (fun pr => decide (pr.ballot = p.currentBallot))).length)
      (hproposals : p'.proposals = p.proposals) (hchosen : p'.chosenSlots = p.chosenSlots)
      (hballot : p'.currentBallot = p.currentBallot)
      (hslot : p'.currentSlot = if p.currentSlot > minSlot then p.currentSlot else minSlot - 1)
      (hcreated : p.created c = []) (hfinalizes : p.finalizes c = [])
  | proposed {prop : Proposal} (hprop : prop.slot = p.currentSlot + 1 ∧ prop.ballot = p.currentBallot)
      (hproposals : p'.proposals =
        p.proposals.insert (p.currentSlot + 1) { proposal := prop, status := .inFlight })
      (hchosen : p'.chosenSlots = p.chosenSlots) (hballot : p'.currentBallot = p.currentBallot)
      (hslot : p'.currentSlot = p.currentSlot + 1)
      (hcreated : p.created c = [prop]) (hfinalizes : p.finalizes c = [])
  | chosen {slot : Slot} {e : ProposalEntry} (he : p.proposals.get? slot = some e)
      (hstatus : e.status = .inFlight)
      (hproposals : p'.proposals = p.proposals.insert slot { e with status := .chosen })
      (hchosen : p'.chosenSlots = p.chosenSlots ++ [slot]) (hballot : p'.currentBallot = p.currentBallot)
      (hslot : p'.currentSlot = p.currentSlot)
      (hcreated : p.created c = []) (hfinalizes : p.finalizes c = [])
  | reserved {slot : Slot} {e : ProposalEntry} (hop : c.2 = .reserveNextChosenProposal)
      (hqueue : p.chosenSlots = slot :: p'.chosenSlots) (he : p.proposals.get? slot = some e)
      (hproposals : p'.proposals = p.proposals.insert slot { e with status := .commitPending })
      (hballot : p'.currentBallot = p.currentBallot) (hslot : p'.currentSlot = p.currentSlot)
      (hcreated : p.created c = []) (hfinalizes : p.finalizes c = [])
  | finalized {slot : Slot} {e : ProposalEntry} (he : p.proposals.get? slot = some e)
      (hstatus : e.status ≠ .finalized)
      (hproposals : p'.proposals = p.proposals.insert slot { e with status := .finalized })
      (hchosen : p'.chosenSlots = p.chosenSlots) (hballot : p'.currentBallot = p.currentBallot)
      (hslot : p'.currentSlot = p.currentSlot)
      (hcreated : p.created c = []) (hfinalizes : p.finalizes c = [slot])

theorem step_turn (p : Proposer) (c : Env × Op) : Turn p (p.step c) c := by
  -- a call that keeps all four is a turn of the first kind
  have hsame : ∀ {q : Proposer}, p.step c = q → q.proposals = p.proposals →
      q.chosenSlots = p.chosenSlots → p.currentBallot ≤ q.currentBallot →
      q.currentSlot = p.currentSlot → p.created c = [] → p.finalizes c = [] →
      Turn p (p.step c) c := by
    rintro _ rfl hp hc hb hs hcr hf
    exact .other hp (hc ▸ List.Subset.refl _) hb hs hcr hf
  obtain ⟨env, op⟩ := c
  cases op with
  | enqueueClientRequest req => exact hsame rfl rfl rfl (le_refl _) rfl rfl rfl
  | enqueuePrioritizedRequest req =>
      by_cases hmem : req ∈ p.prioritizedValues
      · exact hsame (if_pos hmem) rfl rfl (le_refl _) rfl rfl rfl
      · exact hsame (if_neg hmem) rfl rfl (le_refl _) rfl rfl rfl
  | createProposal =>
      rcases p.createProposal_spec with he | ⟨value, pending, prioritized, -, he⟩
      · refine hsame (q := p) (congrArg Prod.snd he) rfl rfl (le_refl _) rfl ?_ rfl
        show p.createProposal.1.toList = []
        rw [he]
        rfl
      · have hstep : p.step (env, .createProposal) = _ := congrArg Prod.snd he
        rw [hstep]
        refine @Turn.proposed _ _ _ { slot := p.currentSlot + 1, ballot := p.currentBallot, value }
          ⟨rfl, rfl⟩ rfl rfl rfl rfl ?_ rfl
        show p.createProposal.1.toList = _
        rw [he]
        rfl
  | processPrepare minSlot promises =>
      rcases p.processPrepare_cases minSlot promises with he | ⟨hquorum, queue, he⟩
      · exact hsame (q := p) (congrArg Prod.snd he) rfl rfl (le_refl _) rfl rfl rfl
      · have hstep : p.step (env, .processPrepare minSlot promises) = _ := congrArg Prod.snd he
        rw [hstep]
        exact .prepared rfl hquorum rfl rfl rfl rfl rfl rfl
  | processAccept slot accepts => exact hsame rfl rfl rfl (le_refl _) rfl rfl rfl
  | reserveNextChosenProposal =>
      rcases p.reserveNextChosenProposal_cases with
        ⟨slots, hsub, he⟩ | ⟨slot, slots, e, hqueue, hget, he⟩
      · have hstep : p.step (env, .reserveNextChosenProposal) = _ := congrArg Prod.snd he
        rw [hstep]
        exact .other rfl hsub (le_refl _) rfl rfl rfl
      · have hstep : p.step (env, .reserveNextChosenProposal) = _ := congrArg Prod.snd he
        rw [hstep]
        exact .reserved rfl hqueue hget rfl rfl rfl rfl rfl
  | markProposalChosen slot =>
      rcases p.markProposalChosen_cases slot with he | ⟨e, hget, hstatus, he⟩
      · exact hsame (q := p) (congrArg Prod.snd he) rfl rfl (le_refl _) rfl rfl rfl
      · have hstep : p.step (env, .markProposalChosen slot) = _ := congrArg Prod.snd he
        rw [hstep]
        exact .chosen hget hstatus rfl rfl rfl rfl rfl rfl
  | markProposalFinalized slot =>
      have hfin : p.finalizes (env, .markProposalFinalized slot) =
        if (p.markProposalFinalized slot).1.isSome then [slot] else [] := rfl
      rcases p.markProposalFinalized_cases slot with he | ⟨e, hget, hstatus, he⟩
      · rw [he] at hfin
        exact hsame (q := p) (congrArg Prod.snd he) rfl rfl (le_refl _) rfl rfl hfin
      · rw [he] at hfin
        have hstep : p.step (env, .markProposalFinalized slot) = _ := congrArg Prod.snd he
        rw [hstep]
        exact .finalized hget hstatus rfl rfl rfl rfl rfl hfin
  | setAdu adu => exact hsame rfl rfl rfl (le_refl _) rfl rfl rfl
  | increaseBallot => exact hsame rfl rfl rfl (Nat.le_add_right _ _) rfl rfl rfl
  | becomeLeader =>
      by_cases hl : p.isLeader
      · have hstep : p.step (env, .becomeLeader) = p := by
          show (p.becomeLeader env).2 = p
          rw [becomeLeader, if_pos hl]
        exact hsame hstep rfl rfl (le_refl _) rfl rfl rfl
      · have hstep : p.step (env, .becomeLeader) = { (p.increaseBallot env).2 with isLeader := true } := by
          show (p.becomeLeader env).2 = _
          rw [becomeLeader, if_neg hl]
        exact hsame hstep rfl rfl (Nat.le_add_right _ _) rfl rfl rfl
  | resignLeader =>
      by_cases hl : p.isLeader
      · have hstep : p.step (env, .resignLeader) = { p with isLeader := false } := by
          show p.resignLeader.2 = _
          rw [resignLeader, if_pos hl]
        exact hsame hstep rfl rfl (le_refl _) rfl rfl rfl
      · have hstep : p.step (env, .resignLeader) = p := by
          show p.resignLeader.2 = _
          rw [resignLeader, if_neg hl]
        exact hsame hstep rfl rfl (le_refl _) rfl rfl rfl
  | maybeFlush => exact hsame rfl rfl rfl (le_refl _) rfl rfl rfl

/-! ## Slots under a ballot

The counter only moves on, until Phase 1 completes and puts it back. That does no harm as long as the
slot behind it has not been used under the ballot. -/

/-- The entry of `slot` was created under `ballot`. -/
def HasBallot (m : OrdMap Slot ProposalEntry) (slot : Slot) (ballot : Ballot) : Prop :=
  ∃ e, m.get? slot = some e ∧ e.proposal.ballot = ballot

instance (m : OrdMap Slot ProposalEntry) (slot : Slot) (ballot : Ballot) :
    Decidable (HasBallot m slot ballot) :=
  decidable_of_iff ((m.get? slot).any (fun e => decide (e.proposal.ballot = ballot)) = true) (by
    rw [HasBallot]
    cases m.get? slot <;> simp)

/-- **A rewind**: a completed Phase 1 from `minSlot` on while the counter is not past it and the
proposal of that very slot is of the current ballot. -/
def Rewinds (p : Proposer) (c : Env × Op) : Prop :=
  match c.2 with
  | .processPrepare minSlot promises =>
      p.quorum ≤ (promises.filter (fun pr => decide (pr.ballot = p.currentBallot))).length ∧
        p.currentSlot ≤ minSlot ∧ HasBallot p.proposals minSlot p.currentBallot
  | _ => False

instance (p : Proposer) : ∀ c : Env × Op, Decidable (p.Rewinds c)
  | (_, .processPrepare _ _) => inferInstanceAs (Decidable (_ ∧ _ ∧ _))
  | (_, .enqueueClientRequest _) | (_, .enqueuePrioritizedRequest _) | (_, .createProposal)
  | (_, .processAccept _ _) | (_, .reserveNextChosenProposal) | (_, .markProposalChosen _)
  | (_, .markProposalFinalized _) | (_, .setAdu _) | (_, .increaseBallot) | (_, .becomeLeader)
  | (_, .resignLeader) | (_, .maybeFlush) => isFalse id

/-- **A sum past the `u64`s**: the slot behind the last one, or a ballot above the greatest one. -/
def Overflows (p : Proposer) (c : Env × Op) : Prop :=
  match c.2 with
  | .createProposal => p.isLeader = true ∧ p.queue ≠ [] ∧ 2 ^ 64 ≤ p.currentSlot + 1
  | .increaseBallot => 2 ^ 64 ≤ p.currentBallot + p.ballotDelta
  | .becomeLeader => p.isLeader = false ∧ 2 ^ 64 ≤ p.currentBallot + p.ballotDelta
  | _ => False

instance (p : Proposer) : ∀ c : Env × Op, Decidable (p.Overflows c)
  | (_, .createProposal) => inferInstanceAs (Decidable (_ ∧ _ ∧ _))
  | (_, .increaseBallot) => inferInstanceAs (Decidable (_ ≤ _))
  | (_, .becomeLeader) => inferInstanceAs (Decidable (_ ∧ _))
  | (_, .enqueueClientRequest _) | (_, .enqueuePrioritizedRequest _) | (_, .processPrepare _ _)
  | (_, .processAccept _ _) | (_, .reserveNextChosenProposal) | (_, .markProposalChosen _)
  | (_, .markProposalFinalized _) | (_, .setAdu _) | (_, .resignLeader) | (_, .maybeFlush) => isFalse id

variable {p p' : Proposer} {c : Env × Op}

/-- A change of status keeps the ballots of the entries. -/
theorem HasBallot.insert_status {m : OrdMap Slot ProposalEntry} {s slot : Slot} {b : Ballot}
    {e : ProposalEntry} (h : HasBallot m s b) (he : m.get? slot = some e) (status : ProposalStatus) :
    HasBallot (m.insert slot { e with status }) s b := by
  obtain ⟨e', he', hb⟩ := h
  by_cases hs : s = slot
  · subst hs
    obtain rfl := Option.some.inj (he.symm.trans he')
    exact ⟨_, OrdMap.get?_insert_self .., hb⟩
  · exact ⟨e', by rw [OrdMap.get?_insert, if_neg hs, he'], hb⟩

/-- The proposals created so far: no two of one ballot and slot, none above the current ballot, and
those of the current ballot in slots the counter has reached. -/
structure Numbered (log : List Proposal) (p : Proposer) : Prop where
  nodup : (log.map (fun pr => (pr.ballot, pr.slot))).Nodup
  below : ∀ pr ∈ log, pr.ballot ≤ p.currentBallot
  reached : ∀ pr ∈ log, pr.ballot = p.currentBallot →
    pr.slot ≤ p.currentSlot ∧ HasBallot p.proposals pr.slot p.currentBallot

namespace Numbered

variable {log : List Proposal}

/-- The ballot may rise, while counter and proposals stay. -/
theorem other (h : Numbered log p) (hproposals : p'.proposals = p.proposals)
    (hballot : p.currentBallot ≤ p'.currentBallot) (hslot : p'.currentSlot = p.currentSlot) :
    Numbered log p' where
  nodup := h.nodup
  below pr hpr := (h.below pr hpr).trans hballot
  reached := by
    intro pr hpr hcur
    have hsame : p.currentBallot = p'.currentBallot := le_antisymm hballot (hcur ▸ h.below pr hpr)
    rw [← hsame] at hcur ⊢
    rw [hslot, hproposals]
    exact h.reached pr hpr hcur

/-- The counter has still reached the slot of an entry that changes its status. -/
theorem insert_status (h : Numbered log p) {slot : Slot} {e : ProposalEntry} {status : ProposalStatus}
    (he : p.proposals.get? slot = some e)
    (hproposals : p'.proposals = p.proposals.insert slot { e with status })
    (hballot : p'.currentBallot = p.currentBallot) (hslot : p'.currentSlot = p.currentSlot) :
    Numbered log p' where
  nodup := h.nodup
  below := by
    rw [hballot]
    exact h.below
  reached := by
    intro pr hpr hcur
    rw [hballot] at hcur ⊢
    obtain ⟨hle, hat⟩ := h.reached pr hpr hcur
    rw [hslot, hproposals]
    exact ⟨hle, hat.insert_status he status⟩

/-- Without a rewind, a counter that goes back goes back to just before a slot that is not taken. -/
theorem prepared (h : Numbered log p) {minSlot : Slot}
    (hno : p.currentSlot ≤ minSlot → ¬ HasBallot p.proposals minSlot p.currentBallot)
    (hproposals : p'.proposals = p.proposals) (hballot : p'.currentBallot = p.currentBallot)
    (hslot : p'.currentSlot = if p.currentSlot > minSlot then p.currentSlot else minSlot - 1) :
    Numbered log p' where
  nodup := h.nodup
  below := by
    rw [hballot]
    exact h.below
  reached := by
    intro pr hpr hcur
    rw [hballot] at hcur ⊢
    obtain ⟨hle, hat⟩ := h.reached pr hpr hcur
    rw [hslot, hproposals]
    refine ⟨?_, hat⟩
    split
    · exact hle
    · next hreset =>
      have hle' := Nat.le_of_not_lt hreset
      have hne : pr.slot ≠ minSlot := by
        intro heq
        rw [heq] at hat
        exact hno hle' hat
      exact Nat.le_sub_one_of_lt (lt_of_le_of_ne (hle.trans hle') hne)

/-- The slot behind the counter has no entry of the current ballot yet. -/
theorem proposed (h : Numbered log p) {prop : Proposal}
    (hprop : prop.slot = p.currentSlot + 1 ∧ prop.ballot = p.currentBallot)
    (hproposals : p'.proposals =
      p.proposals.insert (p.currentSlot + 1) { proposal := prop, status := .inFlight })
    (hballot : p'.currentBallot = p.currentBallot) (hslot : p'.currentSlot = p.currentSlot + 1) :
    Numbered (log ++ [prop]) p' where
  nodup := by
    rw [List.map_append, List.map_singleton, List.nodup_append]
    refine ⟨h.nodup, List.nodup_singleton _, ?_⟩
    rintro _ hold _ hnew rfl
    obtain ⟨pr, hpr, heq⟩ := List.mem_map.mp hold
    obtain ⟨hb, hs⟩ := Prod.mk.inj (heq.trans (List.mem_singleton.mp hnew))
    have hle := (h.reached pr hpr (hb.trans hprop.2)).1
    rw [hs, hprop.1] at hle
    exact Nat.not_succ_le_self _ hle
  below := by
    rw [hballot]
    intro pr hpr
    rcases List.mem_append.mp hpr with hpr | hpr
    · exact h.below pr hpr
    · rw [List.mem_singleton.mp hpr]
      exact hprop.2.le
  reached := by
    rw [hballot, hslot, hproposals]
    intro pr hpr hcur
    rcases List.mem_append.mp hpr with hpr | hpr
    · obtain ⟨hle, e, he, heb⟩ := h.reached pr hpr hcur
      refine ⟨Nat.le_succ_of_le hle, e, ?_, heb⟩
      rw [OrdMap.get?_insert, if_neg (Nat.lt_succ_of_le hle).ne]
      exact he
    · rw [List.mem_singleton.mp hpr, hprop.1]
      exact ⟨le_refl _, _, OrdMap.get?_insert_self .., hprop.2⟩

theorem step (h : Numbered log p) (hno : ¬ p.Rewinds c) : Numbered (log ++ p.created c) (p.step c) := by
  cases p.step_turn c with
  | other hp _ hb hs hcr _ =>
      rw [hcr, List.append_nil]
      exact h.other hp hb hs
  | @prepared minSlot promises hop hquorum hp _ hb hs hcr _ =>
      rw [hcr, List.append_nil]
      refine h.prepared (fun hle hat => hno ?_) hp hb hs
      simp only [Rewinds, hop]
      exact ⟨hquorum, hle, hat⟩
  | proposed hprop hp _ hb hs hcr _ =>
      rw [hcr]
      exact h.proposed hprop hp hb hs
  | chosen he _ hp _ hb hs hcr _ =>
      rw [hcr, List.append_nil]
      exact h.insert_status he hp hb hs
  | reserved _ _ he hp hb hs hcr _ =>
      rw [hcr, List.append_nil]
      exact h.insert_status he hp hb hs
  | finalized he _ hp _ hb hs hcr _ =>
      rw [hcr, List.append_nil]
      exact h.insert_status he hp hb hs

end Numbered

/-! ### Numbers of 64 bits

Slots and ballots are `u64`s, and the source adds without a check. Here the three calls that add are
stated with sums that wrap around, as they do in a release build. Until one of them overflows, they are
the calls above. -/

/-- `getNextSlot`, with `current_slot + 1` on a `u64`. -/
def getNextSlotU64 (p : Proposer) : Slot × Proposer :=
  let next := nextSlot p.currentSlot
  (next, { p with currentSlot := next })

/-- `createProposal`, with the slot from `getNextSlotU64`. -/
def createProposalU64 (p : Proposer) : Option Proposal × Proposer :=
  if !p.isLeader then (none, p)
  else
    match p.nextValue with
    | (none, p) => (none, p)
    | (some value, p) =>
        let (slot, p) := p.getNextSlotU64
        let prop : Proposal := { ballot := p.currentBallot, slot, value }
        (some prop,
          { p with
            proposals := p.proposals.insert slot { proposal := prop, status := .inFlight } })

/-- `increaseBallot`, with `current_ballot + ballot_delta` on a `u64`. -/
def increaseBallotU64 (p : Proposer) (env : Env) : Ballot × Proposer :=
  let newBallot := (p.currentBallot + p.ballotDelta) % 2 ^ 64
  (newBallot,
    { p with
      currentBallot := newBallot
      storage := (p.storage.saveState env newBallot p.adu).2 })

/-- `becomeLeader`, with the ballot from `increaseBallotU64`. -/
def becomeLeaderU64 (p : Proposer) (env : Env) : Bool × Proposer :=
  if p.isLeader then (false, p)
  else
    let (_, p) := p.increaseBallotU64 env
    (true, { p with isLeader := true })

/-- The proposer after one call, with all sums on `u64`s. -/
def stepU64 (p : Proposer) (c : Env × Op) : Proposer :=
  match c.2 with
  | .createProposal => p.createProposalU64.2
  | .increaseBallot => (p.increaseBallotU64 c.1).2
  | .becomeLeader => (p.becomeLeaderU64 c.1).2
  | _ => p.step c

def createdU64 (p : Proposer) (c : Env × Op) : List Proposal :=
  match c.2 with
  | .createProposal => p.createProposalU64.1.toList
  | _ => []

theorem createProposalU64_eq (h : p.isLeader = true → p.queue ≠ [] → p.currentSlot + 1 < 2 ^ 64) :
    p.createProposalU64 = p.createProposal := by
  unfold createProposalU64 createProposal nextValue
  split
  · rfl
  · next hleader =>
    have hfits : p.queue ≠ [] → nextSlot p.currentSlot = p.currentSlot + 1 :=
      fun hqueue => nextSlot_of_lt (h (by simpa using hleader) hqueue)
    cases hprio : p.prioritizedValues with
    | cons v rest => simp [getNextSlotU64, getNextSlot, hfits (by simp [queue, hprio])]
    | nil =>
        cases hpend : p.pendingClientRequests with
        | nil => rfl
        | cons v rest => simp [getNextSlotU64, getNextSlot, hfits (by simp [queue, hpend])]

theorem increaseBallotU64_eq (env : Env) (h : p.currentBallot + p.ballotDelta < 2 ^ 64) :
    p.increaseBallotU64 env = p.increaseBallot env := by
  rw [increaseBallotU64, increaseBallot, Nat.mod_eq_of_lt h]

theorem becomeLeaderU64_eq (env : Env)
    (h : p.isLeader = false → p.currentBallot + p.ballotDelta < 2 ^ 64) :
    p.becomeLeaderU64 env = p.becomeLeader env := by
  unfold becomeLeaderU64 becomeLeader
  split
  · rfl
  · next hl => rw [increaseBallotU64_eq env (h (by simpa using hl))]

/-- **Until a sum overflows**, a call does what it does without bounds. -/
theorem stepU64_eq (hno : ¬ p.Overflows c) : p.stepU64 c = p.step c ∧ p.createdU64 c = p.created c := by
  obtain ⟨env, op⟩ := c
  cases op with
  | createProposal =>
      have hsame := p.createProposalU64_eq
        (fun hl hqueue => Nat.lt_of_not_le (fun hle => hno ⟨hl, hqueue, hle⟩))
      exact ⟨congrArg Prod.snd hsame, congrArg (fun r => r.1.toList) hsame⟩
  | increaseBallot =>
      have hsame := p.increaseBallotU64_eq env (Nat.lt_of_not_le hno)
      exact ⟨congrArg Prod.snd hsame, rfl⟩
  | becomeLeader =>
      have hsame := p.becomeLeaderU64_eq env (fun hl => Nat.lt_of_not_le (fun hle => hno ⟨hl, hle⟩))
      exact ⟨congrArg Prod.snd hsame, rfl⟩
  | _ => exact ⟨rfl, rfl⟩

/-- **Slots under a ballot**: a run of the core proposer, its sums on `u64`s, without a rewind and without
an overflow creates no two proposals of one ballot for one slot. -/
theorem slots_not_reused (p : Proposer) (calls : List (Env × Op))
    (hguard : Guarded stepU64 (fun p c => ¬ p.Rewinds c ∧ ¬ p.Overflows c) p calls) :
    ((collect stepU64 createdU64 p calls).map (fun pr => (pr.ballot, pr.slot))).Nodup := by
  have hrun : ∀ calls, Guarded stepU64 (fun p c => ¬ p.Rewinds c ∧ ¬ p.Overflows c) p calls →
      Numbered (collect stepU64 createdU64 p calls) (run stepU64 p calls) := by
    intro calls
    induction calls using List.reverseRecOn with
    | nil => exact fun _ => ⟨List.nodup_nil, nofun, nofun⟩
    | append_singleton calls c ih =>
        intro hg
        obtain ⟨hcalls, hrewinds, hfits⟩ := guarded_snoc.mp hg
        obtain ⟨hstep, hcreated⟩ := stepU64_eq hfits
        rw [collect_snoc, run_snoc, hstep, hcreated]
        exact (ih hcalls).step hrewinds
  exact (hrun calls hguard).nodup

/-! ### Three runs

In the first the proposer has its promises from the start. In the second one of them comes late, and the
third begins at the last slot. -/

/-- A leader of three acceptors whose ballot is 1, with a promise from each. -/
def leaderOfThree : Proposer := new Directory.empty .quiet true 3 1 .inMemory

def emptyPromise : Promise := { slot := 1, ballot := 1, accepted := [] }

def proposes (text : String) : List (Env × Op) :=
  [(.quiet, .enqueueClientRequest (setX text)), (.quiet, .createProposal)]

/-- Two requests, proposed in two slots. -/
def twoProposals : List (Env × Op) :=
  (.quiet, .processPrepare 1 [emptyPromise, emptyPromise]) :: (proposes "a" ++ proposes "b")

theorem slots_not_reused_two_proposals :
    ((collect stepU64 createdU64 leaderOfThree twoProposals).map (fun pr => (pr.ballot, pr.slot))).Nodup :=
  slots_not_reused leaderOfThree twoProposals (by decide)

/-- **A third promise after the first proposal**: slot 1 is handed out twice. -/
theorem slot_reused_on_late_promise :
    ¬ ((collect stepU64 createdU64 leaderOfThree
      ((.quiet, .processPrepare 1 [emptyPromise, emptyPromise]) :: proposes "a" ++
        (.quiet, .processPrepare 1 [emptyPromise, emptyPromise, emptyPromise]) :: proposes "b")).map
      (fun pr => (pr.ballot, pr.slot))).Nodup := by decide

/-- **Past the last slot**: behind slot `2 ^ 64 - 1` comes slot 0, and slot 1 is handed out twice. -/
theorem slot_reused_past_the_last :
    (collect stepU64 createdU64 leaderOfThree
      ((.quiet, .processPrepare 1 [emptyPromise, emptyPromise]) :: proposes "a" ++
        (.quiet, .processPrepare (2 ^ 64 - 1) [emptyPromise, emptyPromise]) ::
          (proposes "b" ++ proposes "c" ++ proposes "d"))).map (fun pr => (pr.ballot, pr.slot)) =
      [(1, 1), (1, 2 ^ 64 - 1), (1, 0), (1, 1)] := by decide

/-! ## The status of a proposal

A proposal is in flight, chosen, reserved for its learn and finalized, in this order. Only a reservation
takes no notice of the status: it finds the slot in a queue, and a proposal may have been finalized since
it was put there. -/

/-- No proposal is lost, and none goes back. -/
def Forward (p p' : Proposer) : Prop :=
  ∀ slot e, p.proposals.get? slot = some e →
    ∃ e', p'.proposals.get? slot = some e' ∧ e.status.rank ≤ e'.status.rank

/-- **A finalized proposal is reserved**: the first of the chosen slots has been finalized. -/
def Reopens (p : Proposer) (c : Env × Op) : Prop :=
  match c.2 with
  | .reserveNextChosenProposal =>
      ∃ slot e, p.chosenSlots.head? = some slot ∧ p.proposals.get? slot = some e ∧
        e.status = .finalized
  | _ => False

theorem Forward.refl (p : Proposer) : Forward p p := fun _ e he => ⟨e, he, le_refl _⟩

theorem Forward.trans {p p' p'' : Proposer} (h : Forward p p') (h' : Forward p' p'') :
    Forward p p'' := by
  intro slot e he
  obtain ⟨e', he', hle⟩ := h slot e he
  obtain ⟨e'', he'', hle'⟩ := h' slot e' he'
  exact ⟨e'', he'', hle.trans hle'⟩

/-- A new entry in the place of none or of one no further on. -/
theorem forward_insert {slot : Slot} {e : ProposalEntry}
    (hp : p'.proposals = p.proposals.insert slot e)
    (hle : ∀ e', p.proposals.get? slot = some e' → e'.status.rank ≤ e.status.rank) :
    Forward p p' := by
  intro s e' he'
  rw [hp, OrdMap.get?_insert]
  split
  · next hs =>
    subst hs
    exact ⟨e, rfl, hle e' he'⟩
  · exact ⟨e', he', le_refl _⟩

/-! ### What a call does to the statuses -/

/-- The slots created and the slots finalized so far. -/
structure Ranked (log : List Proposal) (done : List Slot) (p : Proposer) : Prop where
  created : ∀ slot e, p.proposals.get? slot = some e → slot ∈ log.map Proposal.slot
  queued : ∀ slot ∈ p.chosenSlots, ∃ e, p.proposals.get? slot = some e ∧ 1 ≤ e.status.rank
  finished : ∀ slot ∈ done, ∃ e, p.proposals.get? slot = some e ∧ e.status = .finalized
  nodup : done.Nodup

namespace Ranked

variable {log : List Proposal} {done : List Slot} {slot : Slot} {e : ProposalEntry}

theorem queued_of_forward (h : Ranked log done p) (hf : Forward p p') :
    ∀ slot ∈ p.chosenSlots, ∃ e, p'.proposals.get? slot = some e ∧ 1 ≤ e.status.rank := by
  intro slot hslot
  obtain ⟨e, he, hrank⟩ := h.queued slot hslot
  obtain ⟨e', he', hle⟩ := hf slot e he
  exact ⟨e', he', hrank.trans hle⟩

theorem finished_of_forward (h : Ranked log done p) (hf : Forward p p') :
    ∀ slot ∈ done, ∃ e, p'.proposals.get? slot = some e ∧ e.status = .finalized := by
  intro slot hslot
  obtain ⟨e, he, hfinal⟩ := h.finished slot hslot
  obtain ⟨e', he', hle⟩ := hf slot e he
  rw [hfinal] at hle
  exact ⟨e', he', ProposalStatus.eq_finalized hle⟩

/-- A change of status keeps the set of slots. -/
theorem created_of_insert (h : Ranked log done p) (he : p.proposals.get? slot = some e)
    {e' : ProposalEntry} (hp : p'.proposals = p.proposals.insert slot e') :
    ∀ s x, p'.proposals.get? s = some x → s ∈ log.map Proposal.slot := by
  intro s x hx
  rw [hp, OrdMap.get?_insert] at hx
  split at hx
  · next hs => exact hs ▸ h.created slot e he
  · exact h.created s x hx

/-- The proposals stay as they are, and chosen slots can only leave the queue. -/
theorem other (h : Ranked log done p) (hp : p'.proposals = p.proposals)
    (hq : p'.chosenSlots ⊆ p.chosenSlots) : Forward p p' ∧ Ranked log done p' := by
  have hf : Forward p p' := fun slot e he => ⟨e, hp ▸ he, le_refl _⟩
  exact ⟨hf, fun slot e he => h.created slot e (hp ▸ he),
    fun slot hs => h.queued_of_forward hf slot (hq hs), h.finished_of_forward hf, h.nodup⟩

theorem proposed (h : Ranked log done p) {prop : Proposal}
    (hnew : ((log ++ [prop]).map Proposal.slot).Nodup)
    (hp : p'.proposals = p.proposals.insert prop.slot e) (hq : p'.chosenSlots = p.chosenSlots) :
    Forward p p' ∧ Ranked (log ++ [prop]) done p' := by
  rw [List.map_append, List.map_singleton, List.nodup_append] at hnew
  have hfree : ∀ e, p.proposals.get? prop.slot ≠ some e :=
    fun e he => hnew.2.2 _ (h.created _ e he) _ (List.mem_singleton_self _) rfl
  have hf : Forward p p' := forward_insert hp (fun e he => absurd he (hfree e))
  refine ⟨hf, fun s x hx => ?_, ?_, h.finished_of_forward hf, h.nodup⟩
  · rw [hp, OrdMap.get?_insert] at hx
    rw [List.map_append, List.map_singleton]
    split at hx
    · next hs => exact List.mem_append_right _ (List.mem_singleton.mpr hs)
    · exact List.mem_append_left _ (h.created s x hx)
  · rw [hq]
    exact h.queued_of_forward hf

theorem chosen (h : Ranked log done p) (he : p.proposals.get? slot = some e)
    (hstatus : e.status = .inFlight)
    (hp : p'.proposals = p.proposals.insert slot { e with status := .chosen })
    (hq : p'.chosenSlots = p.chosenSlots ++ [slot]) : Forward p p' ∧ Ranked log done p' := by
  have hf : Forward p p' := by
    apply forward_insert hp
    intro e' he'
    obtain rfl := Option.some.inj (he.symm.trans he')
    rw [hstatus]
    exact Nat.zero_le _
  refine ⟨hf, h.created_of_insert he hp, ?_, h.finished_of_forward hf, h.nodup⟩
  rw [hq]
  intro s hs
  rcases List.mem_append.mp hs with hs | hs
  · exact h.queued_of_forward hf s hs
  · rw [List.mem_singleton.mp hs, hp]
    exact ⟨_, OrdMap.get?_insert_self .., show 1 ≤ ProposalStatus.chosen.rank by decide⟩

/-- The first of the chosen slots is reserved, and has not been finalized. -/
theorem reserved (h : Ranked log done p) (hqueue : p.chosenSlots = slot :: p'.chosenSlots)
    (he : p.proposals.get? slot = some e) (hopen : e.status ≠ .finalized)
    (hp : p'.proposals = p.proposals.insert slot { e with status := .commitPending }) :
    Forward p p' ∧ Ranked log done p' := by
  have hf : Forward p p' := by
    apply forward_insert hp
    intro e' he'
    obtain rfl := Option.some.inj (he.symm.trans he')
    cases hst : e.status with
    | finalized => exact absurd hst hopen
    | _ =>
        show _ ≤ ProposalStatus.commitPending.rank
        decide
  refine ⟨hf, h.created_of_insert he hp, fun s hs => ?_, h.finished_of_forward hf, h.nodup⟩
  exact h.queued_of_forward hf s (hqueue ▸ List.mem_cons_of_mem _ hs)

theorem finalized (h : Ranked log done p) (he : p.proposals.get? slot = some e)
    (hstatus : e.status ≠ .finalized)
    (hp : p'.proposals = p.proposals.insert slot { e with status := .finalized })
    (hq : p'.chosenSlots = p.chosenSlots) : Forward p p' ∧ Ranked log (done ++ [slot]) p' := by
  have hf : Forward p p' := by
    apply forward_insert hp
    intro e' _
    exact e'.status.rank_le
  refine ⟨hf, h.created_of_insert he hp, ?_, fun s hs => ?_, ?_⟩
  · rw [hq]
    exact h.queued_of_forward hf
  · rcases List.mem_append.mp hs with hs | hs
    · exact h.finished_of_forward hf s hs
    · rw [List.mem_singleton.mp hs, hp]
      exact ⟨_, OrdMap.get?_insert_self .., rfl⟩
  · -- it was not finalized before
    rw [List.nodup_append]
    refine ⟨h.nodup, List.nodup_singleton _, ?_⟩
    rintro _ hold _ hlast rfl
    rw [List.mem_singleton.mp hlast] at hold
    obtain ⟨e', he', hfinal⟩ := h.finished slot hold
    obtain rfl := Option.some.inj (he.symm.trans he')
    exact hstatus hfinal

/-- **A call that creates a slot anew and reserves nothing finalized** moves every status forward. -/
theorem step (h : Ranked log done p) (hnew : ((log ++ p.created c).map Proposal.slot).Nodup)
    (hno : ¬ p.Reopens c) :
    Forward p (p.step c) ∧ Ranked (log ++ p.created c) (done ++ p.finalizes c) (p.step c) := by
  cases p.step_turn c with
  | other hp hq _ _ hcr hfin =>
      rw [hcr, hfin, List.append_nil, List.append_nil]
      exact h.other hp hq
  | prepared _ _ hp hq _ _ hcr hfin =>
      rw [hcr, hfin, List.append_nil, List.append_nil]
      exact h.other hp (hq ▸ List.Subset.refl _)
  | proposed hprop hp hq _ _ hcr hfin =>
      rw [hcr] at hnew
      rw [hcr, hfin, List.append_nil]
      exact h.proposed hnew (hprop.1 ▸ hp) hq
  | chosen he hstatus hp hq _ _ hcr hfin =>
      rw [hcr, hfin, List.append_nil, List.append_nil]
      exact h.chosen he hstatus hp hq
  | @reserved slot e hop hqueue he hp _ _ hcr hfin =>
      rw [hcr, hfin, List.append_nil, List.append_nil]
      refine h.reserved hqueue he (fun hfinal => hno ?_) hp
      simp only [Reopens, hop]
      exact ⟨slot, e, by rw [hqueue]; rfl, he, hfinal⟩
  | finalized he hstatus hp hq _ _ hcr hfin =>
      rw [hcr, hfin, List.append_nil]
      exact h.finalized he hstatus hp hq

end Ranked

/-! ### Whole runs -/

/-- The runs that reserve nothing finalized, with all they have done. -/
theorem ranked_run {p : Proposer} {calls : List (Env × Op)} (hp : p.proposals = ∅ ∧ p.chosenSlots = [])
    (hslots : ((collect step created p calls).map Proposal.slot).Nodup)
    (hguard : Guarded step (fun p c => ¬ p.Reopens c) p calls) :
    Guarded step (fun p c => Forward p (p.step c)) p calls ∧
      Ranked (collect step created p calls) (collect step finalizes p calls) (run step p calls) := by
  induction calls using List.reverseRecOn with
  | nil =>
      refine ⟨trivial, ⟨fun slot e he => ?_, fun slot hs => ?_, nofun, List.nodup_nil⟩⟩
      · rw [run_nil, hp.1] at he
        cases he
      · rw [run_nil, hp.2] at hs
        cases hs
  | append_singleton calls c ih =>
      rw [collect_snoc] at hslots ⊢
      rw [collect_snoc, run_snoc]
      obtain ⟨hcalls, hc⟩ := guarded_snoc.mp hguard
      have hbefore : ((collect step created p calls).map Proposal.slot).Nodup := by
        rw [List.map_append] at hslots
        exact hslots.of_append_left
      obtain ⟨hforward, hranked⟩ := ih hbefore hcalls
      obtain ⟨hf, hr⟩ := hranked.step hslots hc
      exact ⟨guarded_snoc.mpr ⟨hforward, hf⟩, hr⟩

/-- A run all of whose steps go forward goes forward. -/
theorem forward_of_guarded {p : Proposer} {calls : List (Env × Op)}
    (h : Guarded step (fun p c => Forward p (p.step c)) p calls) : Forward p (run step p calls) := by
  induction calls generalizing p with
  | nil => exact Forward.refl p
  | cons c calls ih => exact h.1.trans (ih h.2)

/-- **The status of a proposal** in a run of the core proposer that creates no slot twice: it never
goes back, and no slot is finalized twice, if and only if no finalized proposal is ever reserved. -/
theorem status_forward_iff (dir : Dir) (env : Env) (isLeader : Bool) (numAcceptors : Nat)
    (initBallot : Ballot) (config : RunConfig) (calls : List (Env × Op))
    (hslots : ((collect step created (new dir env isLeader numAcceptors initBallot config)
      calls).map Proposal.slot).Nodup) :
    let p := new dir env isLeader numAcceptors initBallot config
    ((∀ before later after, calls = before ++ later ++ after →
        Forward (run step p before) (run step p (before ++ later))) ∧
      (collect step finalizes p calls).Nodup) ↔
      Guarded step (fun p c => ¬ p.Reopens c) p calls := by
  intro p
  constructor
  · rintro ⟨hforward, _⟩
    have hstep : ∀ before c after, calls = before ++ c :: after →
        ¬ (run step p before).Reopens c := by
      intro before c after hcalls hre
      have hf := hforward before [c] after (by rw [hcalls, List.append_assoc]; rfl)
      rw [run_snoc] at hf
      generalize run step p before = q at hre hf
      obtain ⟨env, op⟩ := c
      cases op
      case reserveNextChosenProposal =>
        obtain ⟨slot, e, hhead, he, hfinal⟩ := hre
        obtain ⟨e', he', hle⟩ := hf slot e he
        -- the reservation has put the proposal back
        have hback : (q.step (env, .reserveNextChosenProposal)).proposals =
            q.proposals.insert slot { e with status := .commitPending } := by
          show q.reserveNextChosenProposal.2.proposals = _
          rw [reserveNextChosenProposal]
          cases hq : q.chosenSlots with
          | nil =>
              rw [hq] at hhead
              cases hhead
          | cons s rest =>
              rw [hq] at hhead
              obtain rfl := Option.some.inj hhead
              simp only [he]
        rw [hback, OrdMap.get?_insert_self] at he'
        obtain rfl := Option.some.inj he'
        rw [hfinal] at hle
        exact absurd (show 3 ≤ 2 from hle) (by decide)
      all_goals exact hre
    exact guarded_iff_atEach.mpr hstep
  · intro hguard
    obtain ⟨hforward, hranked⟩ := ranked_run (p := p) ⟨rfl, rfl⟩ hslots hguard
    refine ⟨fun before later after hcalls => ?_, hranked.nodup⟩
    rw [hcalls, guarded_append, guarded_append] at hforward
    rw [run_append]
    exact forward_of_guarded hforward.1.2

/-- A proposal on its way: created, chosen, reserved for its learn, finalized. -/
theorem status_forward_to_the_end :
    let p := new Directory.empty .quiet true 3 1 .inMemory
    let calls : List (Env × Op) := [(.quiet, .enqueueClientRequest (setX "a")),
      (.quiet, .createProposal), (.quiet, .markProposalChosen 1),
      (.quiet, .reserveNextChosenProposal), (.quiet, .markProposalFinalized 1)]
    (∀ before later after, calls = before ++ later ++ after →
        Forward (run step p before) (run step p (before ++ later))) ∧
      (collect step finalizes p calls).Nodup := by
  intro p calls
  refine (status_forward_iff Directory.empty .quiet true 3 1 .inMemory calls (by decide)).mpr ?_
  refine ⟨fun h => h, fun h => h, fun h => h, ?_, fun h => h, trivial⟩
  rintro ⟨slot, e, hhead, he, hfinal⟩
  obtain rfl : 1 = slot := Option.some.inj hhead
  obtain rfl := Option.some.inj he
  cases hfinal

/-- **Executed before its learn is sent**: the proposal of slot 1 is finalized while it waits in the
queue of chosen slots, is reserved all the same, and is finalized a second time. -/
theorem finalized_twice :
    let p := new Directory.empty .quiet true 3 1 .inMemory
    let calls : List (Env × Op) := [(.quiet, .enqueueClientRequest (setX "a")),
      (.quiet, .createProposal), (.quiet, .markProposalChosen 1),
      (.quiet, .markProposalFinalized 1), (.quiet, .reserveNextChosenProposal),
      (.quiet, .markProposalFinalized 1)]
    ((collect step created p calls).map Proposal.slot).Nodup ∧
      ¬ ((∀ before later after, calls = before ++ later ++ after →
          Forward (run step p before) (run step p (before ++ later))) ∧
        (collect step finalizes p calls).Nodup) := by
  refine ⟨by decide, fun ⟨_, hnodup⟩ => ?_⟩
  revert hnodup
  decide

end Proposer

end PaxosWasm
