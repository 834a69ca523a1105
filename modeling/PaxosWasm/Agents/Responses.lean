import PaxosWasm.Agents.PrepareTimeout
import PaxosWasm.Core.RequestLedger

/-!
# The responses to a request

What a session of the proposer agent does about the requests it is given, and why a final response is
the last thing done about a request. A response that a no-op was executed in the place of a command is
not final: the command goes back into the queue and is proposed, and answered, once more.

What a call does about one value is a list of deeds, read off the agent before the call, and the account
of the value says where it is now. `moves_call` compares the two for every call of the interface. The
ledger, which knows nothing of an agent, then says that a request submitted once is answered for good at
most once. Two slips of the agent break this: they are conditions on the calls of a session.
-/

namespace PaxosWasm

open Library

/-- The response `process_executed` makes of a result. -/
def ExecuteResult.response (result : ExecuteResult) (value : Value) : ClientResponse :=
  { clientId := value.clientId
    clientSeq := value.clientSeq
    success := result.success
    commandResult := result.cmdResult }

namespace ProposerAgent

/-! ## The deeds of a call

What a call does about requests is read off the agent before the call: the proposals it creates, and the
responses it queues. -/

/-- The proposals of `proposalsFor`, also of one that panics. -/
def createdFor (a : ProposerAgent) : Nat → List Deed
  | 0 => []
  | fuel + 1 =>
      match a.createProposal with
      | (some prop, a) =>
          .proposed prop :: if prop.slot ∈ a.slotCrashList then [] else a.createdFor fuel
      | (none, _) => []

/-- The responses one result leads to. -/
def answersTo (a : ProposerAgent) (result : ExecuteResult) : List Deed :=
  (a.proposer.markProposalFinalized result.slot).1.toList.map
    (fun value => .answered value (result.response value))

def answersFor (a : ProposerAgent) : List ExecuteResult → List Deed
  | [] => []
  | result :: results => a.answersTo result ++ (a.processResult result).answersFor results

/-- The responses of `processExecuted`. -/
def answersOf (a : ProposerAgent) (env : Env) (executed : Executed) : List Deed :=
  let a :=
    if executed.adu > a.proposer.adu then
      { a with proposer := a.proposer.setAdu env executed.adu }
    else a
  if !a.proposer.isLeader then [] else a.answersFor executed.results

/-- What a call does about requests. -/
def deeds (a : ProposerAgent) (c : Env × Op) : List Deed :=
  match c.2 with
  | .submitClientRequest req => [.submitted req]
  | .createProposal => a.createProposal.1.toList.map .proposed
  | .proposalsToAccept => a.createdFor a.config.batchSize
  | .processExecuted executed => a.answersOf c.1 executed
  | .handleMessage m =>
      match m.payload with
      | .executed executed => a.answersOf c.1 executed
      | _ => []
  | .handleTick => if a.phase = .acceptCommit then a.createdFor a.config.batchSize else []
  | _ => []

/-! ## Two slips left aside

In two situations a value is counted twice. Each is a condition on the state before a call. -/

/-- How many chosen slots a call reserves at most. -/
def reserves (a : ProposerAgent) : Op → Nat
  | .reserveNextChosenProposal => 1
  | .learnsToCommit => a.config.batchSize
  | .handleTick => if a.phase = .acceptCommit then a.config.batchSize else 0
  | _ => 0

/-- **A finalized proposal is reserved**: its slot is still among the chosen ones. -/
def Reopens (a : ProposerAgent) (c : Env × Op) : Prop :=
  ∃ slot ∈ a.proposer.chosenSlots.take (a.reserves c.2),
    (a.proposer.proposals.get? slot).map ProposalEntry.status = some .finalized

instance (a : ProposerAgent) (c : Env × Op) : Decidable (a.Reopens c) :=
  inferInstanceAs (Decidable (∃ slot ∈ _, _))

/-- The calls that may complete Phase 1. -/
def Op.preparing : Op → Bool
  | .preparePhase .. => true
  | .handleMessage m =>
      match m.payload with
      | .promise _ => true
      | _ => false
  | .handleTick => true
  | _ => false

/-- **Phase 1 takes the value back**: it was accepted, and is queued once more. -/
def Recovers (a : ProposerAgent) (c : Env × Op) (v : Value) : Prop :=
  c.2.preparing = true ∧ a.proposer.Requeues v (a.call c).2.proposer

instance (a : ProposerAgent) (c : Env × Op) (v : Value) : Decidable (a.Recovers c v) :=
  inferInstanceAs (Decidable (_ ∧ _))

/-! ## The account of a value at the agent

A value is outstanding while a proposal of it is not finalized. Few pieces of a handler change that. -/

variable {v : Value} {a a' : ProposerAgent} {c : Env × Op}

/-- How often the value is queued and outstanding. -/
def account (v : Value) (a : ProposerAgent) : Account := a.proposer.account v

theorem account_foldl {α : Type} (f : ProposerAgent → α → ProposerAgent)
    (h : ∀ a x, (f a x).account v = a.account v) (xs : List α) (a : ProposerAgent) :
    (xs.foldl f a).account v = a.account v := by
  induction xs generalizing a with
  | nil => rfl
  | cons x xs ih => rw [List.foldl_cons, ih, h]

theorem account_handleAcceptResult (a : ProposerAgent) (slot : Slot) (result : AcceptResult) :
    (a.handleAcceptResult slot result).account v = a.account v := by
  cases result with
  | accepted n => exact Proposer.account_markProposalChosen slot
  | quorumFailure | missingProposal | isEventDriven => rfl

theorem account_insertAndCheckAccepted (a : ProposerAgent) (accepted : Accepted) (sender : Node) :
    (a.insertAndCheckAccepted accepted sender).2.account v = a.account v := rfl

theorem account_insertAndCheckPromises (a : ProposerAgent) (promise : Promise) (sender : Node) :
    (a.insertAndCheckPromises promise sender).2.account v = a.account v :=
  congrArg (Proposer.account v) (a.proposer_insertAndCheckPromises promise sender)

theorem account_acceptPhase (a : ProposerAgent) (env : Env) (value : Value) (slot : Slot)
    (ballot : Ballot) (accepts : List Accepted) :
    (a.acceptPhase env value slot ballot accepts).2.account v = a.account v := by
  unfold acceptPhase broadcastAccept
  cases a.config.isEventDriven with
  | true =>
      simp only [Bool.not_true, Bool.false_eq_true, if_false]
      exact account_foldl _ (fun a acc => a.account_insertAndCheckAccepted acc a.node) accepts _
  | false =>
      simp only [Bool.not_false, if_true]
      exact account_handleAcceptResult _ _ _

/-- An accept phase that leaves its outcome to later messages leaves the proposer. -/
theorem proposer_acceptPhase_of_eventDriven {env : Env} {value : Value} {slot : Slot}
    {ballot : Ballot} (h : a.acceptPhase env value slot ballot [] = (.isEventDriven, a')) :
    a'.proposer = a.proposer ∧ a'.config = a.config := by
  unfold acceptPhase broadcastAccept at h
  cases hev : a.config.isEventDriven with
  | true =>
      simp only [hev, Bool.not_true, Bool.false_eq_true, if_false, List.foldl_nil] at h
      rw [← (Prod.mk.inj h).2]
      exact ⟨rfl, rfl⟩
  | false =>
      simp only [hev, Bool.not_false, if_true] at h
      obtain ⟨hresult, rfl⟩ := Prod.mk.inj h
      rw [hresult]
      exact ⟨rfl, rfl⟩

theorem account_handleAccepted (a : ProposerAgent) (sender : Node) (payload : Accepted) :
    (a.handleAccepted sender payload).account v = a.account v := by
  have hinsert := a.account_insertAndCheckAccepted (v := v) payload sender
  unfold handleAccepted
  split
  · next a' he =>
    rw [he] at hinsert
    exact (a'.account_handleAcceptResult _ _).trans hinsert
  · next a' he =>
    rw [he] at hinsert
    exact hinsert

theorem account_retrySlot (env : Env) (a : ProposerAgent) (slot : Slot) :
    (retrySlot env a slot).account v = a.account v := by
  unfold retrySlot
  split
  · rfl
  · split
    · exact a.account_acceptPhase env _ _ _ _
    · rfl

/-! ## Proposals

Each proposal takes its value off the queue. -/

theorem move_createProposal {prop : Proposal} (h : a.createProposal = (some prop, a')) :
    Account.Move v (a.account v) (a'.account v) [.proposed prop] := by
  obtain ⟨hprop, rfl⟩ := Prod.mk.inj h
  exact Proposer.move_createProposal (Prod.ext hprop rfl)

theorem createProposal_eq_none (h : a.createProposal = (none, a')) : a' = a := by
  unfold createProposal at h
  rcases a.proposer.createProposal_spec with he | ⟨value, pending, prioritized, _, he⟩
  · rw [he] at h
    exact (Prod.mk.inj h).2.symm
  · rw [he] at h
    cases h

theorem moves_proposalsFor (a : ProposerAgent) (toAccept : List Proposal) (fuel : Nat) :
    Account.Moves v (a.account v) ((a.proposalsFor toAccept fuel).2.account v) (a.createdFor fuel) := by
  induction fuel generalizing a toAccept with
  | zero => exact .refl
  | succ fuel ih =>
      rw [proposalsFor, createdFor]
      generalize he : a.createProposal = created
      obtain ⟨_ | prop, a'⟩ := created
      · rw [createProposal_eq_none he]
        exact .refl
      · dsimp only
        by_cases hcrash : prop.slot ∈ a'.slotCrashList
        · rw [if_pos hcrash, if_pos hcrash]
          exact .single (move_createProposal he)
        · rw [if_neg hcrash, if_neg hcrash]
          exact .head (move_createProposal he) (ih a' _)

/-- A batch of proposals leaves the chosen slots, and unfinished what was. -/
theorem unfinished_proposalsFor (a : ProposerAgent) (toAccept : List Proposal) (fuel : Nat)
    {slots : List Slot} (h : a.proposer.Unfinished slots) :
    (a.proposalsFor toAccept fuel).2.proposer.Unfinished slots ∧
      (a.proposalsFor toAccept fuel).2.proposer.chosenSlots = a.proposer.chosenSlots ∧
      (a.proposalsFor toAccept fuel).2.config = a.config := by
  induction fuel generalizing a toAccept with
  | zero => exact ⟨h, rfl, rfl⟩
  | succ fuel ih =>
      have hcreate := h.createProposal
      have hchosen := a.proposer.chosenSlots_createProposal
      rw [proposalsFor]
      split
      · next prop a' he =>
        obtain rfl : a.createProposal.2 = a' := congrArg Prod.snd he
        split
        · exact ⟨hcreate, hchosen, rfl⟩
        · obtain ⟨hunfinished, hslots, hconfig⟩ := ih a.createProposal.2 (toAccept ++ [prop]) hcreate
          exact ⟨hunfinished, hslots.trans hchosen, hconfig⟩
      · next a' he =>
        obtain rfl : a.createProposal.2 = a' := congrArg Prod.snd he
        exact ⟨hcreate, hchosen, rfl⟩

/-! ## Learns

Reserving chosen proposals and announcing them leaves the values outstanding, as long as none of them has
been finalized. -/

theorem account_learnsFor (a : ProposerAgent) (learns : List Learn) (fuel : Nat)
    (h : a.proposer.Unfinished (a.proposer.chosenSlots.take fuel)) :
    (a.learnsFor learns fuel).2.account v = a.account v := by
  induction fuel generalizing a learns with
  | zero => rfl
  | succ fuel ih =>
      have hreserve : a.reserveNextChosenProposal.2.account v = a.account v :=
        Proposer.account_reserveNextChosenProposal h
      rw [learnsFor]
      split
      · next prop a' he =>
        obtain rfl : a.reserveNextChosenProposal.2 = a' := congrArg Prod.snd he
        have hsome : a.proposer.reserveNextChosenProposal = (some prop, _) :=
          Prod.ext (congrArg Prod.fst he : a.reserveNextChosenProposal.1 = some prop) rfl
        rw [ih a.reserveNextChosenProposal.2 _ (h.reserveNextChosenProposal hsome), hreserve]
      · next a' he =>
        obtain rfl : a.reserveNextChosenProposal.2 = a' := congrArg Prod.snd he
        exact hreserve

theorem account_responsesFor (a : ProposerAgent) (out : List ClientResponse) (fuel : Nat) :
    (a.responsesFor out fuel).2.account v = a.account v := by
  induction fuel generalizing a out with
  | zero => rfl
  | succ fuel ih =>
      rw [responsesFor]
      split
      · rw [ih]
        rfl
      · rfl

/-- The accepts of a batch change nothing of the proposer, unless their loop panics. -/
theorem account_acceptAll (a : ProposerAgent) (env : Env) (props : List Proposal) :
    (a.acceptAll env props).2.account v = a.account v ∧
      ((a.acceptAll env props).1.isOk = true →
        (a.acceptAll env props).2.proposer = a.proposer ∧
          (a.acceptAll env props).2.config = a.config) := by
  induction props generalizing a with
  | nil => exact ⟨rfl, fun _ => ⟨rfl, rfl⟩⟩
  | cons prop props ih =>
      have haccount := a.account_acceptPhase (v := v) env prop.value prop.slot prop.ballot []
      rw [acceptAll]
      split
      · next a' he =>
        obtain ⟨hproposer, hconfig⟩ := proposer_acceptPhase_of_eventDriven he
        rw [he] at haccount
        obtain ⟨hacc, hok⟩ := ih a'
        exact ⟨hacc.trans haccount,
          fun h => ⟨(hok h).1.trans hproposer, (hok h).2.trans hconfig⟩⟩
      · next a' _ he =>
        rw [he] at haccount
        exact ⟨haccount, fun h => by cases h⟩

theorem moves_acceptCommit (a : ProposerAgent) (env : Env)
    (h : a.proposer.Unfinished (a.proposer.chosenSlots.take a.config.batchSize)) :
    Account.Moves v (a.account v) ((a.acceptCommit env).2.account v)
      (a.createdFor a.config.batchSize) := by
  have hprops := a.moves_proposalsFor (v := v) [] a.config.batchSize
  obtain ⟨hunfinished, hslots, hconfig⟩ := a.unfinished_proposalsFor [] a.config.batchSize h
  unfold acceptCommit proposalsToAccept
  rw [← List.append_nil (a.createdFor a.config.batchSize)]
  split
  · next he =>
    rw [he] at hprops
    simpa using hprops
  · next props a₁ he =>
    rw [he] at hprops hunfinished hslots hconfig
    refine hprops.trans (.quiet (le_of_eq ?_))
    obtain ⟨haccount, hok⟩ := a₁.account_acceptAll (v := v) env props
    split
    · next he' =>
      rw [he'] at haccount
      exact haccount
    · next a₂ he' =>
      rw [he'] at haccount hok
      obtain ⟨hproposer', hconfig'⟩ := hok rfl
      dsimp only at hproposer' hconfig' hslots hconfig ⊢
      split
      · show (responsesFor _ _ _).2.account v = _
        rw [account_responsesFor, account_foldl broadcastLearn (fun _ _ => rfl)]
        refine (a₂.account_learnsFor [] _ ?_).trans haccount
        rw [hproposer', hslots, hconfig', hconfig]
        exact hunfinished
      · show (responsesFor _ _ _).2.account v = _
        rw [account_responsesFor]
        exact haccount

/-! ## Responses

The answer to a result finalizes a proposal. Answered with a no-op, its value goes back to the queue. -/

/-- **A result answered** takes the value from the outstanding ones; it is queued again if a no-op was
executed in the place of its command. -/
theorem moves_processResult (a : ProposerAgent) (result : ExecuteResult) :
    Account.Moves v (a.account v) ((a.processResult result).account v) (a.answersTo result) := by
  obtain ⟨hle, hsome⟩ := a.proposer.account_markProposalFinalized (v := v) result.slot
  unfold answersTo processResult
  generalize a.proposer.markProposalFinalized result.slot = finalized at hle hsome ⊢
  obtain ⟨_ | value, proposer⟩ := finalized
  · exact .quiet hle
  · obtain ⟨hqueued, hout⟩ := hsome value rfl
    apply Account.Moves.single
    dsimp only at hqueued hout ⊢
    split
    · next hretry =>
      obtain ⟨hnew, hsame⟩ := proposer.account_enqueuePrioritizedRequest (v := v) value
      apply Account.Move.answered
      case hqueued =>
        have hretried : Deed.retried value (result.response value) = true := by
          simp [Deed.retried, ExecuteResult.response, hretry.1, hretry.2]
        simp only [hretried, and_true]
        exact hnew.trans (by rw [hqueued]; exact Nat.le_refl _)
      case hout =>
        show ((proposer.enqueuePrioritizedRequest value).account v).outstanding + _ ≤ _
        rw [hsame, hout]
        exact Nat.le_refl _
    · exact .answered (hqueued.le.trans (Nat.le_add_right _ _)) hout.le

theorem moves_processResults (a : ProposerAgent) (results : List ExecuteResult) :
    Account.Moves v (a.account v) ((results.foldl processResult a).account v)
      (a.answersFor results) := by
  induction results generalizing a with
  | nil => exact .refl
  | cons result results ih => exact (a.moves_processResult result).trans (ih _)

theorem moves_processExecuted (a : ProposerAgent) (env : Env) (executed : Executed) :
    Account.Moves v (a.account v) ((a.processExecuted env executed).account v)
      (a.answersOf env executed) := by
  unfold processExecuted answersOf
  have hadu : (if executed.adu > a.proposer.adu then
      { a with proposer := a.proposer.setAdu env executed.adu } else a).account v = a.account v := by
    split <;> rfl
  generalize (if executed.adu > a.proposer.adu then
    { a with proposer := a.proposer.setAdu env executed.adu } else a) = a₁ at hadu ⊢
  dsimp only
  rw [← hadu]
  split
  · exact .refl
  · exact a₁.moves_processResults executed.results

/-! ## Phase 1

The account only changes if a promise reports the value. -/

/-- Promises handled without taking the value back leave its account. -/
theorem account_processPromises {slot : Slot} {promises : List Promise} {result : PrepareResult}
    (h : ¬ a.proposer.Requeues v ((a.processPromises slot promises).2.handlePrepareResult
      result).proposer) :
    ((a.processPromises slot promises).2.handlePrepareResult result).account v = a.account v := by
  unfold account
  rw [proposer_handlePrepareResult] at h ⊢
  exact Proposer.account_processPrepare h

theorem account_handlePromise {sender : Node} {promise : Promise}
    (h : ¬ a.proposer.Requeues v (a.handlePromise sender promise).proposer) :
    (a.handlePromise sender promise).account v = a.account v := by
  have hproposer := a.proposer_insertAndCheckPromises promise sender
  have hinsert := a.account_insertAndCheckPromises (v := v) promise sender
  rcases a.handlePromise_eq sender promise with ⟨he, _⟩ | ⟨group, _, he⟩
  · rw [he, hinsert]
  · rw [he] at h ⊢
    rw [← hproposer] at h
    rw [← hinsert]
    exact account_processPromises h

theorem account_preparePhase {env : Env} {slot : Slot} {ballot : Ballot} {promises : List Promise}
    (h : ¬ a.proposer.Requeues v (a.preparePhase env slot ballot promises).2.proposer) :
    (a.preparePhase env slot ballot promises).2.account v = a.account v := by
  cases hev : a.config.isEventDriven with
  | true =>
      unfold preparePhase broadcastPrepare
      simp only [hev, Bool.not_true, Bool.false_eq_true, if_false]
      exact account_foldl _ (fun a pr => a.account_insertAndCheckPromises pr a.node) promises _
  | false =>
      obtain ⟨a', responses, _, hproposer, _, he⟩ :=
        preparePhase_of_waiting hev env slot ballot promises
      rw [he] at h ⊢
      rw [← hproposer] at h
      exact (account_processPromises h).trans (congrArg (Proposer.account v) hproposer)

theorem account_checkPrepareTimeout (a : ProposerAgent) (env : Env) :
    (a.checkPrepareTimeout env).2.account v = a.account v := by
  unfold checkPrepareTimeout
  repeat' split
  all_goals rfl

/-! ## A call -/

/-- **A call does to the account of a value what its deeds say**, unless it reserves a finalized
proposal or takes the value back in Phase 1. -/
theorem moves_call (hreopens : ¬ a.Reopens c) (hrecovers : ¬ a.Recovers c v) :
    Account.Moves v (a.account v) ((a.call c).2.account v) (a.deeds c) := by
  -- the two conditions, for the operations that need them
  have hunfinished : a.proposer.Unfinished (a.proposer.chosenSlots.take (a.reserves c.2)) := by
    intro slot hslot e he hfinal
    exact hreopens ⟨slot, hslot, by rw [he, Option.map_some, hfinal]⟩
  have hkeeps : c.2.preparing = true → ¬ a.proposer.Requeues v (a.call c).2.proposer :=
    fun hop h => hrecovers ⟨hop, h⟩
  obtain ⟨env, op⟩ := c
  cases op with
  | submitClientRequest req => exact .single (Proposer.move_enqueueClientRequest req)
  | reserveNextChosenProposal =>
      exact .quiet (Proposer.account_reserveNextChosenProposal hunfinished).le
  | createProposal =>
      show Account.Moves v _ (a.createProposal.2.account v) _
      simp only [deeds]
      generalize he : a.createProposal = created
      obtain ⟨_ | prop, a'⟩ := created
      · rw [createProposal_eq_none he]
        exact .refl
      · exact .single (move_createProposal he)
  | preparePhase slot ballot promises => exact .quiet (account_preparePhase (hkeeps rfl)).le
  | acceptPhase value slot ballot accepts =>
      exact .quiet (a.account_acceptPhase env value slot ballot accepts).le
  | broadcastLearn learn => exact .refl
  | markProposalChosen slot => exact .quiet (Proposer.account_markProposalChosen slot).le
  | markProposalFinalized slot => exact .quiet (a.proposer.account_markProposalFinalized slot).1
  | proposalsToAccept => exact a.moves_proposalsFor [] _
  | learnsToCommit => exact .quiet (a.account_learnsFor [] _ hunfinished).le
  | processExecuted executed => exact a.moves_processExecuted env executed
  | collectClientResponses => exact .quiet (a.account_responsesFor [] _).le
  | retryLearns slots =>
      exact .quiet (account_foldl _ (fun a slot => account_retrySlot env a slot) slots a).le
  | handleMessage m =>
      show Account.Moves v _ ((a.handleMessage env m).2.account v) _
      replace hkeeps : (Op.handleMessage m).preparing = true →
        ¬ a.proposer.Requeues v (a.handleMessage env m).2.proposer := hkeeps
      unfold handleMessage at hkeeps ⊢
      simp only [deeds, Op.preparing] at hkeeps ⊢
      -- only a promise and a report can move a value
      cases hm : m.payload with
      | promise promise =>
          simp only [hm] at hkeeps
          exact .quiet (account_handlePromise (hkeeps trivial)).le
      | accepted accepted => exact .quiet (a.account_handleAccepted _ _).le
      | executed executed => exact a.moves_processExecuted env executed
      | retryLearns retry =>
          dsimp only
          split
          · exact .refl
          · exact .quiet (account_foldl _ (fun a slot => account_retrySlot env a slot) _ a).le
      | adu adu => exact .refl
      | ignore | clientRequest | clientResponse | prepare | accept | learn | heartbeat | benchmark =>
          exact .refl
  | startLeaderLoop => exact .refl
  | checkPrepareTimeout => exact .quiet (a.account_checkPrepareTimeout env).le
  | becomeLeader => exact .quiet (Proposer.account_becomeLeader env).le
  | resignLeader => exact .quiet Proposer.account_resignLeader.le
  | handleTick =>
      show Account.Moves v _ ((a.handleTick env).2.account v) _
      replace hkeeps : ¬ a.proposer.Requeues v (a.handleTick env).2.proposer := hkeeps rfl
      simp only [deeds]
      cases hphase : a.phase with
      | start =>
          refine .quiet (le_of_eq ?_)
          simp only [handleTick, hphase]
          unfold getLearnerAdu
          repeat' split
          all_goals rfl
      | prepareSend =>
          rw [handleTick_prepareSend hphase] at hkeeps ⊢
          -- the new ballot makes no deed
          rw [if_neg (by simp)]
          exact .quiet (account_preparePhase
            (a := { a with proposer := (a.proposer.increaseBallot env).2 }) hkeeps).le
      | preparePending =>
          simp only [handleTick, hphase]
          exact .quiet (a.account_checkPrepareTimeout env).le
      | acceptCommit =>
          simp only [reserves, hphase, if_true] at hunfinished
          simp only [handleTick, hphase]
          exact a.moves_acceptCommit env hunfinished
      | stop | crash =>
          simp only [handleTick, hphase]
          exact .refl
  | sendHeartbeat => exact .refl
  | maybeFlushState => exact .refl

/-! ## A session

The deeds of all calls are the entries of the ledger. -/

namespace Session

/-- What a call of the session does about requests. -/
def deeds (x : Session) (c : Env × Op) : List Deed := if x.running then x.agent.deeds c else []

/-- The calls that leave a value alone, but for what their deeds say. -/
theorem ledger_step {x : Session} {log : List Deed} (h : Ledger v log (x.agent.account v))
    (hguard : x.running = true → ¬ x.agent.Reopens c ∧ ¬ x.agent.Recovers c v) :
    Ledger v (log ++ x.deeds c) ((x.step c).agent.account v) := by
  cases hon : x.running with
  | true =>
      obtain ⟨hreopens, hrecovers⟩ := hguard hon
      rw [step_of_running hon, deeds, if_pos hon]
      exact h.moves (moves_call hreopens hrecovers)
  | false =>
      rw [step_of_not_running hon, deeds, if_neg (by simp [hon]), List.append_nil]
      exact h

theorem ledger_run {x : Session} {calls : List (Env × Op)} (h : Ledger v [] (x.agent.account v))
    (hguard : Guarded Session.step
      (fun x c => x.running = true → ¬ x.agent.Reopens c ∧ ¬ x.agent.Recovers c v) x calls) :
    Ledger v (collect Session.step deeds x calls) ((run Session.step x calls).agent.account v) := by
  induction calls using List.reverseRecOn with
  | nil => exact h
  | append_singleton calls c ih =>
      obtain ⟨hcalls, hc⟩ := guarded_snoc.mp hguard
      rw [collect_snoc, run_snoc]
      exact ledger_step (ih hcalls) hc

end Session

/-- **Responses**: in a session in which no value is submitted twice, no finalized proposal is reserved
and Phase 1 takes no submitted value back, a request is neither proposed nor answered after a response
that settles it, and it has no more responses than proposals. -/
theorem responses_final (dir : Proposer.Dir) (env : Env) (node : Node) (nodes : List Node)
    (isLeader : Bool) (config : RunConfig) (calls : List (Env × Op)) :
    let x := Session.start dir env node nodes isLeader config
    let log := collect Session.step Session.deeds x calls
    (requests log).Nodup →
    Guarded Session.step (fun x c => x.running = true →
      ¬ x.agent.Reopens c ∧ ∀ v ∈ requests log, ¬ x.agent.Recovers c v) x calls →
    ∀ v ∈ requests log,
      AtEach (fun before d => d.proposes v = true ∨ d.answers v = true →
        ∀ d' ∈ before, d'.settles v = false) log ∧
      log.countP (Deed.answers v) ≤ log.countP (Deed.proposes v) := by
  intro x log hdistinct hguard v hv
  have hledger : Ledger v log ((run Session.step x calls).agent.account v) := by
    apply Session.ledger_run
    · have hnew : x.agent.account v = { queued := 0, outstanding := 0 } :=
        Proposer.account_loadState
      rw [hnew]
      exact .nil rfl rfl
    · exact hguard.mono (fun x c hg hon => ⟨(hg hon).1, (hg hon).2 v hv⟩)
  refine ⟨hledger.final ?_, (Nat.le_add_left _ _).trans hledger.proposed⟩
  rw [countP_submits]
  exact List.nodup_iff_count_le_one.mp hdistinct v

/-- A leader of three acceptors that has completed Phase 1. -/
def elect : List (Env × Op) :=
  let promise (i : Nat) : Env × Op :=
    (.quiet, .handleMessage ⟨⟨i, "", .acceptor⟩, .promise ⟨1, 4, []⟩⟩)
  [(.quiet, .startLeaderLoop), (.quiet, .handleTick), promise 11, promise 12]

/-- The learner has executed a slot. -/
def executes (slot : Slot) (success : Bool) (cmdResult : CmdResult) : Env × Op :=
  (.quiet, .handleMessage ⟨⟨21, "", .learner⟩, .executed
    { results := [{ value := setX "a", slot, success, cmdResult }], adu := slot }⟩)

/-- A request proposed, executed and answered. -/
def answeredRequest : List (Env × Op) :=
  elect ++ [(.quiet, .submitClientRequest (setX "a")), (.quiet, .handleTick),
    executes 1 true (.cmdValue none), (.quiet, .handleTick)]

/-- The leader of three acceptors. -/
def leaderOfThree : Session :=
  Session.start .empty .quiet ⟨1, "", .proposer⟩
    [⟨11, "", .acceptor⟩, ⟨12, "", .acceptor⟩, ⟨13, "", .acceptor⟩] true .inMemory

theorem responses_final_answered_request :
    let log := collect Session.step Session.deeds leaderOfThree answeredRequest
    AtEach (fun before d => d.proposes (setX "a") = true ∨ d.answers (setX "a") = true →
        ∀ d' ∈ before, d'.settles (setX "a") = false) log ∧
      log.countP (Deed.answers (setX "a")) ≤ log.countP (Deed.proposes (setX "a")) :=
  responses_final .empty .quiet ⟨1, "", .proposer⟩
    [⟨11, "", .acceptor⟩, ⟨12, "", .acceptor⟩, ⟨13, "", .acceptor⟩] true .inMemory answeredRequest
    (by decide) (by decide) (setX "a") (by decide)

/-- **A no-op in the place of a command**: the request in slot 1 is answered with a failure, proposed
again in slot 2, and answered again. -/
theorem answered_after_no_op :
    let calls := elect ++ [(.quiet, .submitClientRequest (setX "a")), (.quiet, .handleTick),
      executes 1 false .noOp, (.quiet, .handleTick), executes 2 true (.cmdValue none)]
    let log := collect Session.step Session.deeds leaderOfThree calls
    (requests log).Nodup ∧ ((proposals log).map Proposal.slot).Nodup ∧
      Guarded Session.step (fun x c => x.running = true →
        ¬ x.agent.Reopens c ∧ ∀ v ∈ requests log, ¬ x.agent.Recovers c v) leaderOfThree calls ∧
      setX "a" ∈ requests log ∧
      ¬ log.countP (Deed.answers (setX "a")) ≤ 1 ∧
      ¬ AtEach (fun before d => d.proposes (setX "a") = true →
        ∀ value resp, .answered value resp ∈ before → value = setX "a" → resp.success = true) log := by
  intro calls log
  refine ⟨by decide, by decide, by decide, by decide, by decide, fun h => ?_⟩
  have hlog : log = [.submitted (setX "a"),
      .proposed { slot := 1, ballot := 4, value := setX "a" },
      .answered (setX "a") { clientId := "c", clientSeq := 1, success := false, commandResult := .noOp },
      .proposed { slot := 2, ballot := 4, value := setX "a" },
      .answered (setX "a")
        { clientId := "c", clientSeq := 1, success := true, commandResult := .cmdValue none }] := by
    decide
  have hfail := h (log.take 3) (.proposed { slot := 2, ballot := 4, value := setX "a" }) (log.drop 4)
    (by rw [hlog]; rfl) (by decide) (setX "a")
    { clientId := "c", clientSeq := 1, success := false, commandResult := .noOp }
    (by rw [hlog]; exact List.mem_of_mem_getLast? rfl) rfl
  cases hfail

end ProposerAgent

end PaxosWasm
