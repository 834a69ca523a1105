import PaxosWasm.Core.ProposerCalls
import PaxosWasm.Library.Run

/-!
# The ledger of a request

A request is submitted, proposed, and answered. The ledger follows one value: how often it waits in a
queue of the proposer, and how often it is outstanding in a proposal that is not finalized. A
submission adds to the first, a proposal moves from the first to the second, an answer takes from the
second; an answer that a no-op was executed in its place puts it back into the first. Together with
the answers that are final these are never more than the submissions.

The ledger is a book of numbers: no agent and no proposer occurs in it. What an agent does about a value
is a list of deeds, and a step of the account must fit its deeds (`Move`). From this alone follow the
results about a request that is submitted once (`final`). The second half computes what each operation of
the core proposer does to the account.
-/

namespace PaxosWasm

open Library

/-! ## Deeds

The history of a node as far as one value is concerned, without the node. -/

/-- What is done about requests. -/
inductive Deed where
  | submitted (req : Value)
  | proposed (prop : Proposal)
  | answered (value : Value) (resp : ClientResponse)
deriving DecidableEq, Repr

namespace Deed

def submits (v : Value) : Deed → Bool
  | .submitted req => decide (req = v)
  | _ => false

def proposes (v : Value) : Deed → Bool
  | .proposed prop => decide (prop.value = v)
  | _ => false

def answers (v : Value) : Deed → Bool
  | .answered value _ => decide (value = v)
  | _ => false

/-- The answer that a no-op was executed in the place of a command: the command is proposed again. -/
def retried (value : Value) (resp : ClientResponse) : Bool :=
  decide (resp.commandResult = .noOp) && value.command.isSome

/-- A response that leaves nothing to do. -/
def settles (v : Value) : Deed → Bool
  | .answered value resp => decide (value = v) && !retried value resp
  | _ => false

def request? : Deed → Option Value
  | .submitted req => some req
  | _ => none

def proposal? : Deed → Option Proposal
  | .proposed prop => some prop
  | _ => none

end Deed

/-- The requests submitted. -/
def requests (log : List Deed) : List Value := log.filterMap Deed.request?

/-- The proposals created. -/
def proposals (log : List Deed) : List Proposal := log.filterMap Deed.proposal?

theorem countP_submits (v : Value) (log : List Deed) :
    log.countP (Deed.submits v) = (requests log).count v := by
  induction log with
  | nil => rfl
  | cons d log ih =>
      rw [List.countP_cons, ih]
      cases d with
      | submitted req => simp [requests, Deed.request?, Deed.submits, List.count_cons]
      | proposed | answered => rfl

/-! ## The account of a value

A value that has been submitted is queued or outstanding in proposals until it is settled. Each deed moves
it from one place to another. -/

/-- Where a value is: queued, or outstanding in a proposal. -/
structure Account where
  queued : Nat
  outstanding : Nat

namespace Account

instance : Preorder Account where
  le x y := x.queued ≤ y.queued ∧ x.outstanding ≤ y.outstanding
  le_refl _ := ⟨Nat.le_refl _, Nat.le_refl _⟩
  le_trans _ _ _ h h' := ⟨h.1.trans h'.1, h.2.trans h'.2⟩

/-- A step of the account of `v`, with what it does about requests. -/
inductive Move (v : Value) (x y : Account) : List Deed → Prop
  | quiet (hle : y ≤ x) : Move v x y []
  | submitted {req : Value} (hqueued : y.queued ≤ x.queued + if req = v then 1 else 0)
      (hout : y.outstanding ≤ x.outstanding) : Move v x y [.submitted req]
  | proposed {prop : Proposal} (hqueued : y.queued + (if prop.value = v then 1 else 0) ≤ x.queued)
      (hout : y.outstanding ≤ x.outstanding + if prop.value = v then 1 else 0) :
      Move v x y [.proposed prop]
  | answered {value : Value} {resp : ClientResponse}
      (hqueued : y.queued ≤ x.queued + if value = v ∧ Deed.retried value resp then 1 else 0)
      (hout : y.outstanding + (if value = v then 1 else 0) ≤ x.outstanding) :
      Move v x y [.answered value resp]

/-- Steps one after the other. -/
inductive Moves (v : Value) : Account → Account → List Deed → Prop
  | refl {x : Account} : Moves v x x []
  | head {x y z : Account} {ds ds' : List Deed} (h : Move v x y ds) (hs : Moves v y z ds') :
      Moves v x z (ds ++ ds')

variable {v : Value} {x y z : Account} {ds ds' : List Deed}

theorem Moves.single (h : Move v x y ds) : Moves v x y ds := by
  simpa using Moves.head h .refl

theorem Moves.quiet (h : y ≤ x) : Moves v x y [] := .single (.quiet h)

theorem Moves.trans (h : Moves v x y ds) (h' : Moves v y z ds') : Moves v x z (ds ++ ds') := by
  induction h with
  | refl => exact h'
  | head hmove _ ih =>
      rw [List.append_assoc]
      exact .head hmove (ih h')

end Account

/-! ## The ledger

Whatever is queued, outstanding or settled of a value has been submitted. -/

/-- **The ledger of a value**: what is queued, outstanding or settled has been submitted, and what is
outstanding or answered has been proposed. Whatever is proposed or answered was not settled yet. -/
structure Ledger (v : Value) (log : List Deed) (x : Account) : Prop where
  submitted : x.queued + x.outstanding + log.countP (Deed.settles v) ≤ log.countP (Deed.submits v)
  proposed : x.outstanding + log.countP (Deed.answers v) ≤ log.countP (Deed.proposes v)
  unsettled : AtEach (fun before d => d.proposes v = true ∨ d.answers v = true →
    before.countP (Deed.settles v) < before.countP (Deed.submits v)) log

namespace Ledger

variable {v : Value} {x y : Account} {log ds : List Deed}

theorem nil (hqueued : x.queued = 0) (hout : x.outstanding = 0) : Ledger v [] x where
  submitted := by simp [hqueued, hout]
  proposed := by simp [hout]
  unsettled := atEach_nil _

theorem move (h : Ledger v log x) (hm : Account.Move v x y ds) : Ledger v (log ++ ds) y := by
  obtain ⟨hsub, hprop, hunsettled⟩ := h
  cases hm with
  | quiet hle =>
      obtain ⟨hq, ho⟩ := hle
      rw [List.append_nil]
      exact ⟨by omega, by omega, hunsettled⟩
  | submitted hq ho =>
      refine ⟨?_, ?_, atEach_snoc.mpr ⟨hunsettled, ?_⟩⟩
      · simp only [List.countP_append, List.countP_singleton, Deed.settles, Deed.submits,
          decide_eq_true_eq]
        grind
      · simp [Deed.answers, Deed.proposes]
        omega
      · simp [Deed.proposes, Deed.answers]
  | proposed hq ho =>
      refine ⟨?_, ?_, atEach_snoc.mpr ⟨hunsettled, ?_⟩⟩
      · simp only [List.countP_append, List.countP_singleton, Deed.settles, Deed.submits]
        grind
      · simp only [List.countP_append, List.countP_singleton, Deed.answers, Deed.proposes,
          decide_eq_true_eq]
        grind
      · -- the value comes from the queue
        simp only [Deed.proposes, Deed.answers, decide_eq_true_eq]
        grind
  | answered hq ho =>
      refine ⟨?_, ?_, atEach_snoc.mpr ⟨hunsettled, ?_⟩⟩
      · simp only [List.countP_append, List.countP_singleton, Deed.settles, Deed.submits,
          Bool.and_eq_true, decide_eq_true_eq, Bool.not_eq_true']
        grind
      · simp only [List.countP_append, List.countP_singleton, Deed.answers, Deed.proposes,
          decide_eq_true_eq]
        grind
      · -- the value comes from a proposal
        simp only [Deed.proposes, Deed.answers, decide_eq_true_eq]
        grind

theorem moves (h : Ledger v log x) (hm : Account.Moves v x y ds) : Ledger v (log ++ ds) y := by
  induction hm generalizing log with
  | refl => simpa using h
  | head hmove _ ih =>
      rw [← List.append_assoc]
      exact ih (h.move hmove)

/-- **A request submitted once**: after a final answer it is neither proposed nor answered. -/
theorem final (h : Ledger v log x) (honce : log.countP (Deed.submits v) ≤ 1) :
    AtEach (fun before d => d.proposes v = true ∨ d.answers v = true →
      ∀ d' ∈ before, d'.settles v = false) log := by
  intro before d after hlog habout d' hd'
  have hlt := h.unsettled before d after hlog habout
  have hle : before.countP (Deed.submits v) ≤ log.countP (Deed.submits v) := by
    rw [hlog]
    exact (List.sublist_append_left ..).countP_le
  have hzero : before.countP (Deed.settles v) = 0 := by omega
  exact Bool.eq_false_iff.mpr (List.countP_eq_zero.mp hzero d' hd')

end Ledger

/-! ## The account of a value at the core proposer -/

namespace Proposer

/-- The proposal carries `v` and is not finalized. -/
def outstanding (v : Value) (e : ProposalEntry) : Bool :=
  decide (e.proposal.value = v) && decide (e.status ≠ .finalized)

def account (v : Value) (p : Proposer) : Account where
  queued := p.queue.count v
  outstanding := p.proposals.values.countP (outstanding v)

variable {v : Value} {p p' : Proposer}

theorem account_congr (hproposals : p'.proposals = p.proposals)
    (hprioritized : p'.prioritizedValues = p.prioritizedValues)
    (hpending : p'.pendingClientRequests = p.pendingClientRequests) : p'.account v = p.account v := by
  rw [account, account, queue, queue, hproposals, hprioritized, hpending]

/-- A change of status that finalizes nothing, of a proposal that is not finalized. -/
theorem account_insert_status {slot : Slot} {e : ProposalEntry} {status : ProposalStatus}
    (he : p.proposals.get? slot = some e) (hopen : e.status ≠ .finalized)
    (hstatus : status ≠ .finalized) :
    (p.proposals.insert slot { e with status }).values.countP (outstanding v) =
      p.proposals.values.countP (outstanding v) := by
  have h := p.proposals.countP_values_insert slot { e with status } (outstanding v)
  rw [he] at h
  simp only [outstanding, Option.any_some, hopen, hstatus, ne_eq, not_false_eq_true] at h ⊢
  omega

/-- Finalizing a proposal of `value` takes it from the outstanding ones. -/
theorem account_insert_finalized {slot : Slot} {e : ProposalEntry}
    (he : p.proposals.get? slot = some e) (hopen : e.status ≠ .finalized) :
    (p.proposals.insert slot { e with status := .finalized }).values.countP (outstanding v) +
      (if e.proposal.value = v then 1 else 0) = p.proposals.values.countP (outstanding v) := by
  have h := p.proposals.countP_values_insert slot { e with status := .finalized } (outstanding v)
  rw [he] at h
  simpa [outstanding, hopen] using h

/-! ### Operations that move it -/

theorem move_enqueueClientRequest (req : Value) :
    Account.Move v (p.account v) ((p.enqueueClientRequest req).2.account v) [.submitted req] := by
  refine .submitted ?_ (Nat.le_refl _)
  simp only [account, queue, enqueueClientRequest, ← List.append_assoc]
  rw [List.count_append, List.count_singleton]
  simp

theorem move_createProposal {prop : Proposal} (h : p.createProposal = (some prop, p')) :
    Account.Move v (p.account v) (p'.account v) [.proposed prop] := by
  rcases p.createProposal_spec with he | ⟨value, pending, prioritized, hqueue, he⟩
  · rw [he] at h
    cases h
  · rw [he] at h
    obtain ⟨hprop, rfl⟩ := Prod.mk.inj h
    obtain rfl := Option.some.inj hprop
    apply Account.Move.proposed
    case hqueued =>
      simp only [account, hqueue, List.count_cons, beq_iff_eq]
      exact Nat.le_refl _
    case hout =>
      have hins := p.proposals.countP_values_insert (p.currentSlot + 1)
        { proposal := { slot := p.currentSlot + 1, ballot := p.currentBallot, value },
          status := .inFlight } (outstanding v)
      have hnew : outstanding v
          { proposal := { slot := p.currentSlot + 1, ballot := p.currentBallot, value },
            status := .inFlight } = decide (value = v) := by
        simp [outstanding]
      rw [hnew] at hins
      simp only [account, decide_eq_true_eq] at hins ⊢
      omega

theorem account_markProposalChosen (slot : Slot) :
    (p.markProposalChosen slot).2.account v = p.account v := by
  rcases p.markProposalChosen_cases slot with he | ⟨e, hget, hstatus, he⟩
  · rw [he]
  · rw [he, account, account]
    have hopen : e.status ≠ .finalized := by simp [hstatus]
    exact congrArg _ (account_insert_status hget hopen (by decide))

/-- No chosen slot of the list is that of a finalized proposal. -/
def Unfinished (p : Proposer) (slots : List Slot) : Prop :=
  ∀ slot ∈ slots, ∀ e, p.proposals.get? slot = some e → e.status ≠ .finalized

/-- Reserving a proposal that is not finalized leaves it outstanding. -/
theorem account_reserveNextChosenProposal {n : Nat}
    (h : p.Unfinished (p.chosenSlots.take (n + 1))) :
    p.reserveNextChosenProposal.2.account v = p.account v := by
  rcases p.reserveNextChosenProposal_cases with ⟨slots, _, he⟩ | ⟨slot, slots, e, hqueue, hget, he⟩
  · rw [he]
    exact account_congr rfl rfl rfl
  · rw [he, account, account]
    have hopen := h slot (by rw [hqueue]; exact List.mem_cons_self ..) e hget
    exact congrArg _ (account_insert_status hget hopen (by decide))

/-- An entry that is not finalized leaves unfinished what was. -/
theorem Unfinished.insert {slots : List Slot} (h : p.Unfinished slots) {slot : Slot}
    {e : ProposalEntry} (hopen : e.status ≠ .finalized)
    (hproposals : p'.proposals = p.proposals.insert slot e) : p'.Unfinished slots := by
  intro s hs e' he'
  rw [hproposals, OrdMap.get?_insert] at he'
  split at he'
  · obtain rfl := Option.some.inj he'
    exact hopen
  · exact h s hs e' he'

theorem Unfinished.reserveNextChosenProposal {n : Nat} {prop : Proposal}
    (h : p.Unfinished (p.chosenSlots.take (n + 1)))
    (hsome : p.reserveNextChosenProposal = (some prop, p')) :
    p'.Unfinished (p'.chosenSlots.take n) := by
  rcases p.reserveNextChosenProposal_cases with ⟨slots, _, he⟩ | ⟨slot, slots, e, hqueue, hget, he⟩
  · rw [he] at hsome
    cases hsome
  · rw [he] at hsome
    obtain ⟨_, rfl⟩ := Prod.mk.inj hsome
    have hrest : p.Unfinished (slots.take n) := by
      intro s hs
      apply h s
      rw [hqueue, List.take_succ_cons]
      exact List.mem_cons_of_mem _ hs
    exact hrest.insert (by simp) rfl

theorem Unfinished.createProposal {slots : List Slot} (h : p.Unfinished slots) :
    p.createProposal.2.Unfinished slots := by
  rcases p.createProposal_spec with he | ⟨value, pending, prioritized, _, he⟩
  · rwa [he]
  · rw [he]
    exact h.insert (by simp) rfl

theorem chosenSlots_createProposal (p : Proposer) :
    p.createProposal.2.chosenSlots = p.chosenSlots := by
  rcases p.createProposal_spec with he | ⟨value, pending, prioritized, _, he⟩
  · rw [he]
  · rw [he]

/-- Finalizing takes the value from the outstanding ones. -/
theorem account_markProposalFinalized (slot : Slot) :
    (p.markProposalFinalized slot).2.account v ≤ p.account v ∧
      ∀ value, (p.markProposalFinalized slot).1 = some value →
        ((p.markProposalFinalized slot).2.account v).queued = (p.account v).queued ∧
        ((p.markProposalFinalized slot).2.account v).outstanding + (if value = v then 1 else 0) =
          (p.account v).outstanding := by
  rcases p.markProposalFinalized_cases slot with he | ⟨e, hget, hopen, he⟩
  · rw [he]
    exact ⟨le_refl _, fun value h => by cases h⟩
  · rw [he]
    have hout := account_insert_finalized (v := v) hget hopen
    refine ⟨⟨Nat.le_refl _, ?_⟩, fun value h => ⟨rfl, ?_⟩⟩
    · show _ ≤ p.proposals.values.countP (outstanding v)
      rw [← hout]
      exact Nat.le_add_right _ _
    · obtain rfl := Option.some.inj h
      exact hout

theorem account_enqueuePrioritizedRequest (req : Value) :
    ((p.enqueuePrioritizedRequest req).account v).queued ≤
        (p.account v).queued + (if req = v then 1 else 0) ∧
      ((p.enqueuePrioritizedRequest req).account v).outstanding = (p.account v).outstanding := by
  unfold enqueuePrioritizedRequest
  split
  · exact ⟨Nat.le_add_right _ _, rfl⟩
  · refine ⟨?_, rfl⟩
    simp only [account, queue, List.count_append, List.count_singleton, beq_iff_eq]
    omega

/-! ### Phase 1

It may queue a value that is outstanding: the values found are queued whether the proposer knows them or
not. -/

/-- Phase 1 puts the value back into the queue. -/
def Requeues (v : Value) (p p' : Proposer) : Prop :=
  v ∉ p.prioritizedValues ∧ v ∈ p'.prioritizedValues

instance : Decidable (Requeues v p p') := inferInstanceAs (Decidable (_ ∧ _))

theorem account_processPrepare {minSlot : Slot} {promises : List Promise}
    (h : ¬ Requeues v p (p.processPrepare minSlot promises).2) :
    (p.processPrepare minSlot promises).2.account v = p.account v := by
  rcases p.processPrepare_cases minSlot promises with he | ⟨_, values, he⟩
  · rw [he]
  · obtain ⟨fresh, hfold, _, hfresh, _⟩ := foldl_enqueueNew_cases p.prioritizedValues values
    rw [he, Requeues, hfold] at h
    rw [he, hfold]
    -- what is new in the queue was not there
    have hnew : fresh.count v = 0 := List.count_eq_zero.mpr (fun hv =>
      h ⟨(hfresh v hv).2, List.mem_append_right _ hv⟩)
    simp only [account, queue, List.count_append, hnew, Nat.add_zero]

theorem account_becomeLeader (env : Env) : (p.becomeLeader env).2.account v = p.account v := by
  unfold becomeLeader
  split <;> rfl

theorem account_loadState : p.loadState.2.account v = p.account v := by
  unfold loadState
  split <;> rfl

theorem account_resignLeader : p.resignLeader.2.account v = p.account v := by
  unfold resignLeader
  split <;> rfl

end Proposer

end PaxosWasm
