import PaxosWasm.Agents.Leader
import PaxosWasm.Core.ProposerCalls

/-!
# The proposer agent implements the leader

Every handler of the agent is a sequence of leader steps. What the handlers change besides (clocks,
the queues, the responses to the clients, storage) the leader does not have.

The leader keeps what matters to the order of prepares, accepts and learns: ballot, slot counter,
proposals, the replies at hand, and the messages sent. The lemmas `steps_handleTick` and the like go
through the handlers once; the invariants of a leader are then proved of its steps, in other modules,
without a look at the agent.
-/

namespace PaxosWasm

open Library

namespace ProposerAgent

/-! ## The leader in an agent

The leader is read off the agent: the ballot, the slot and the proposals of its core, the replies it has
collected, and what it has sent. -/

def frame (a : ProposerAgent) : Leader.Frame :=
  { config := a.config
    node := a.node
    acceptors := a.acceptors
    learners := a.learners
    quorum := a.proposer.quorum
    ballotDelta := a.proposer.ballotDelta }

/-- A message this agent is expected to send. -/
def expects (a : ProposerAgent) (s : Sent) : Bool :=
  decide (s.message.sender = a.node) && s.message.payload.isProposers

/-- The leader an agent implements, while it has yet to broadcast the proposals `pending`. -/
def leader (a : ProposerAgent) (pending : List Proposal) : Leader :=
  { frame := a.frame
    phase := a.phase
    ballot := a.proposer.currentBallot
    slot := a.proposer.currentSlot
    proposals := a.proposer.proposals
    pending
    promises := a.promises
    inFlightAccepted := a.inFlightAccepted
    accepts := acceptsOf a.networkClient.sent
    learns := learnsOf a.networkClient.sent
    stray := a.networkClient.sent.filter (fun s => !a.expects s) }

open Leader

variable {g : Given} {a : ProposerAgent} {pending : List Proposal} (env : Env)

/-! ## Sending

The leader sees an `Accept` that it has pending, and a `Learn` of a proposal it has stored. -/

theorem leader_send (ts : List Node) {payload : MessagePayload}
    (hown : payload.isProposers = true) :
    (a.send ts payload).leader pending =
      { a.leader pending with
        accepts := acceptsOf a.networkClient.sent ++ payload.accept?.toList
        learns := learnsOf a.networkClient.sent ++ payload.learn?.toList } := by
  have haccepts : acceptsOf (a.send ts payload).networkClient.sent =
      acceptsOf a.networkClient.sent ++ payload.accept?.toList := by
    simp only [acceptsOf, send, NetworkClient.sent_sendMessageForget, List.filterMap_append]
    cases payload <;> rfl
  have hlearns : learnsOf (a.send ts payload).networkClient.sent =
      learnsOf a.networkClient.sent ++ payload.learn?.toList := by
    simp only [learnsOf, send, NetworkClient.sent_sendMessageForget, List.filterMap_append]
    cases payload <;> rfl
  have hstray : (a.send ts payload).networkClient.sent.filter
      (fun s => !(a.send ts payload).expects s) =
      a.networkClient.sent.filter (fun s => !a.expects s) := by
    have hexp : (a.send ts payload).expects = a.expects := rfl
    rw [hexp, send, NetworkClient.sent_sendMessageForget, List.filter_append]
    simp [message, expects, hown]
  rw [leader, haccepts, hlearns, hstray]
  rfl

/-- The leader does not see what is neither an `Accept` nor a `Learn`. -/
theorem leader_send_other (ts : List Node) {payload : MessagePayload}
    (hown : payload.isProposers = true) (hacc : payload.accept? = none)
    (hlearn : payload.learn? = none) : (a.send ts payload).leader pending = a.leader pending := by
  rw [leader_send ts hown, hacc, hlearn]
  simp [leader]

/-! ## Phase 1

Promises are filed by ballot. When the group of the highest ballot is a quorum, Phase 1 completes, and
with it the leader may advance to its accept phase. -/

theorem steps_setPhase {phase : PaxosPhase} (h : phase ≠ .acceptCommit ∨ phase = a.phase) :
    Steps g (a.leader pending) ((a.setPhase phase).leader pending) := by
  rcases h with h | rfl
  · exact .single (.setPhase _ h)
  · exact .refl

/-- Without a completed Phase 1, no advance leads to the accept phase. -/
theorem steps_advancePhase (success : Option Bool) (h : success ≠ some true) :
    Steps g (a.leader pending) ((a.advancePhase success).leader pending) := by
  refine steps_setPhase ?_
  cases hp : a.phase with
  | preparePending => rcases success with _ | ⟨_ | _⟩ <;> simp at h ⊢
  | _ => simp

/-- A promise is stored in the group of its ballot. -/
theorem insertAndCheckPromises_snd (p : Promise) (sender : Node) :
    (a.insertAndCheckPromises p sender).2 =
      { a with
        promises := a.promises.insert p.ballot
          (((a.promises.get? p.ballot).getD ∅).insert sender.nodeId p) } := by
  unfold insertAndCheckPromises
  dsimp only
  split <;> rfl

/-- The promises handed on are a group of those collected. -/
theorem insertAndCheckPromises_fst {p : Promise} {sender : Node} {b : Ballot} {ps : List Promise}
    (h : (a.insertAndCheckPromises p sender).1 = some (b, ps)) :
    ∃ group, (a.insertAndCheckPromises p sender).2.promises.get? b = some group ∧
      group.values = ps := by
  rw [insertAndCheckPromises_snd]
  unfold insertAndCheckPromises at h
  dsimp only at h
  split at h
  · next highest group hlast =>
    dsimp only at h
    split at h
    · obtain ⟨rfl, rfl⟩ := Prod.mk.inj (Option.some.inj h)
      exact ⟨group, OrdMap.mem_entries.mpr (List.mem_of_getLast? hlast), rfl⟩
    · cases h
  · cases h

theorem steps_insertPromise (pending : List Proposal) {p : Promise} {sender : Node}
    (h : g.promise p sender.nodeId) :
    Steps g (a.leader pending) ((a.insertAndCheckPromises p sender).2.leader pending) := by
  rw [insertAndCheckPromises_snd]
  exact .single (.promised _ h)

theorem steps_insertPromises {ps : List Promise} (h : ∀ p ∈ ps, g.promise p a.node.nodeId) :
    Steps g (a.leader pending)
      ((ps.foldl (fun a p => (a.insertAndCheckPromises p a.node).2) a).leader pending) := by
  induction ps generalizing a with
  | nil => exact .refl
  | cons p ps ih =>
      refine (steps_insertPromise pending (h p (List.mem_cons_self ..))).trans (ih (fun q hq => ?_))
      rw [insertAndCheckPromises_snd]
      exact h q (List.mem_cons_of_mem _ hq)

theorem steps_processPromises {slot : Slot} {ps : List Promise}
    (helected : a.config.isEventDriven = true → a.Completes ps →
      (a.leader []).Elected a.proposer.currentBallot)
    (hreset : a.Completes ps → g.resets (a.leader []) slot) :
    Steps g (a.leader [])
      (((a.processPromises slot ps).2.handlePrepareResult (a.processPromises slot ps).1).leader
        []) := by
  unfold processPromises
  rcases a.proposer.processPrepare_cases slot ps with h | ⟨hquorum, queue, h⟩
  · rw [h]
    exact .refl
  · rw [h]
    exact .single (.elected (a.leader []) rfl (fun hev => helected hev hquorum) (hreset hquorum))

theorem steps_handlePromise {sender : Node} {p : Promise} (hp : g.promise p sender.nodeId)
    (hreset : ∀ b ps, (a.insertAndCheckPromises p sender).1 = some (b, ps) → a.Completes ps →
      g.resets ((a.insertAndCheckPromises p sender).2.leader []) p.slot) :
    Steps g (a.leader []) ((a.handlePromise sender p).leader []) := by
  have hinsert := steps_insertPromise (a := a) [] hp
  have hsnd := insertAndCheckPromises_snd (a := a) p sender
  unfold handlePromise
  split
  · next b ps a' he =>
    obtain ⟨group, hgroup, hvalues⟩ := insertAndCheckPromises_fst (congrArg Prod.fst he)
    rw [he] at hinsert hreset hgroup hsnd
    dsimp only at hinsert hgroup hsnd
    have hsame : a'.Completes ps ↔ a.Completes ps := by rw [hsnd]; exact Iff.rfl
    refine hinsert.trans (steps_processPromises (fun _ hc => ⟨b, group, hgroup, ?_⟩)
      (fun hc => hreset b ps rfl (hsame.mp hc)))
    rw [hvalues]
    exact hc
  · next a' he =>
    rw [he] at hinsert
    exact hinsert

theorem steps_preparePhase (slot : Slot) (ballot : Ballot) (initial : List Promise)
    (hp : ∀ p ∈ initial, g.promise p a.node.nodeId)
    (hreset : a.config.isEventDriven = false → ∀ l, g.resets l slot) :
    Steps g (a.leader []) ((a.preparePhase env slot ballot initial).2.leader []) := by
  have hsend : (a.send a.acceptors (.prepare { slot, ballot })).leader [] = a.leader [] :=
    leader_send_other _ rfl rfl rfl
  unfold preparePhase broadcastPrepare
  cases hev : a.config.isEventDriven with
  | true =>
      rw [← hsend]
      refine (steps_advancePhase (a := { a.send _ _ with lastPrepareStart := some env.now })
        none nofun).trans (steps_insertPromises hp)
  | false =>
      rw [← hsend]
      exact steps_processPromises (a := a.send _ _) (fun h => absurd (hev.symm.trans h) (by simp))
        (fun _ => hreset hev _)

/-! ## Phase 2

The proposals of a batch are created first, and broadcast one by one. -/

/-- The acceptances handed on are those of the slot. -/
theorem insertAndCheckAccepted_fst {acc : Accepted} {sender : Node} {slot : Slot}
    {accs : List Accepted} (h : (a.insertAndCheckAccepted acc sender).1 = some (slot, accs)) :
    ∃ group, (a.insertAndCheckAccepted acc sender).2.inFlightAccepted.get? slot = some group ∧
      group.values = accs := by
  unfold insertAndCheckAccepted at h
  dsimp only at h
  split at h
  · obtain ⟨rfl, rfl⟩ := Prod.mk.inj (Option.some.inj h)
    exact ⟨_, OrdMap.get?_insert_self .., rfl⟩
  · cases h

theorem steps_insertAccepted {acc : Accepted} {sender : Node}
    (h : g.accepted (a.leader pending) acc sender.nodeId) :
    Steps g (a.leader pending) ((a.insertAndCheckAccepted acc sender).2.leader pending) :=
  .single (.accepted _ h)

theorem steps_insertAccepteds {accs : List Accepted}
    (h : ∀ acc ∈ accs, ∀ l : Leader, (a.leader pending).accepts ⊆ l.accepts →
      g.accepted l acc a.node.nodeId) :
    Steps g (a.leader pending)
      ((accs.foldl (fun a acc => (a.insertAndCheckAccepted acc a.node).2) a).leader pending) := by
  induction accs generalizing a with
  | nil => exact .refl
  | cons acc accs ih =>
      exact (steps_insertAccepted (h acc (List.mem_cons_self ..) _ (List.Subset.refl _))).trans
        (ih (fun q hq => h q (List.mem_cons_of_mem _ hq)))

/-- Only an acclaimed proposal is marked chosen. -/
theorem steps_handleAcceptResult {slot : Slot} {accs : List Accepted}
    (hacc : a.config.isEventDriven = true → ∃ group, a.inFlightAccepted.get? slot = some group ∧
      group.values = accs) :
    Steps g (a.leader pending)
      ((a.handleAcceptResult slot (a.processAccepted slot accs)).leader pending) := by
  cases hres : a.processAccepted slot accs with
  | accepted n =>
      obtain ⟨e, he, hstatus, hquorum⟩ := Proposer.processAccept_eq_accepted hres
      show Steps g _ ((a.markProposalChosen slot).2.leader pending)
      unfold markProposalChosen
      rcases a.proposer.markProposalChosen_cases slot with h | ⟨e', he', _, h⟩
      · rw [h]
      · rw [h]
        obtain rfl := Option.some.inj (he'.symm.trans he)
        refine .single (.chosen (a.leader pending) he hstatus (fun hev => ?_))
        obtain ⟨group, hgroup, rfl⟩ := hacc hev
        exact ⟨group, hgroup, hquorum⟩
  | _ => exact .refl

theorem steps_handleAccepted {sender : Node} {acc : Accepted}
    (h : g.accepted (a.leader pending) acc sender.nodeId) :
    Steps g (a.leader pending) ((a.handleAccepted sender acc).leader pending) := by
  have hinsert := steps_insertAccepted h
  unfold handleAccepted
  split
  · next slot accs a' he =>
    obtain ⟨group, hgroup, hvalues⟩ := insertAndCheckAccepted_fst (congrArg Prod.fst he)
    rw [he] at hinsert hgroup
    exact hinsert.trans (steps_handleAcceptResult (fun _ => ⟨group, hgroup, hvalues⟩))
  · next a' he =>
    rw [he] at hinsert
    exact hinsert

/-- An accept phase sends one message. -/
theorem networkClient_acceptPhase (value : Value) (slot : Slot) (ballot : Ballot)
    (initial : List Accepted) :
    (a.acceptPhase env value slot ballot initial).2.networkClient =
      (a.send a.acceptors (.accept { slot, ballot, value })).networkClient := by
  have hfold : ∀ (accs : List Accepted) (a : ProposerAgent),
      (accs.foldl (fun a acc => (a.insertAndCheckAccepted acc a.node).2) a).networkClient =
        a.networkClient := by
    intro accs
    induction accs with
    | nil => exact fun _ => rfl
    | cons acc accs ih => exact fun a => ih _
  have hresult : ∀ (res : AcceptResult) (a : ProposerAgent),
      (a.handleAcceptResult slot res).networkClient = a.networkClient := by
    intro res a
    cases res <;> rfl
  unfold acceptPhase broadcastAccept
  cases hev : a.config.isEventDriven with
  | true => exact hfold initial _
  | false => exact hresult _ _

/-! ### Proposals

The accept phase creates its proposals first and broadcasts them afterwards. -/

/-- An accept phase: the broadcast, and the acceptance of the node's own acceptor. -/
theorem steps_acceptPhase (prop : Proposal) (pending' : List Proposal) (initial : List Accepted)
    (hsend : Step g (a.leader pending)
      { a.leader pending' with accepts := (a.leader pending).accepts ++ [prop.toAccept] })
    (hacc : ∀ acc ∈ initial, ∀ l : Leader, prop.toAccept ∈ l.accepts →
      g.accepted l acc a.node.nodeId) :
    Steps g (a.leader pending)
      ((a.acceptPhase env prop.value prop.slot prop.ballot initial).2.leader pending') := by
  have hleader : (a.send a.acceptors (.accept prop.toAccept)).leader pending' =
      { a.leader pending' with accepts := (a.leader pending).accepts ++ [prop.toAccept] } := by
    rw [leader_send _ rfl]
    simp [leader, MessagePayload.accept?, MessagePayload.learn?]
  have hmem : prop.toAccept ∈ ((a.send a.acceptors (.accept prop.toAccept)).leader pending').accepts := by
    rw [hleader]
    exact List.mem_append_right _ (List.mem_singleton_self _)
  rw [← hleader] at hsend
  unfold acceptPhase broadcastAccept
  cases hev : a.config.isEventDriven with
  | true =>
      exact .head hsend (steps_insertAccepteds (fun acc hm l hl => hacc acc hm l (hl hmem)))
  | false =>
      exact .head hsend (steps_handleAcceptResult
        (fun h => absurd ((show a.config.isEventDriven = true from h).symm.trans hev) (by simp)))

/-- A new proposal is pending. -/
theorem createProposal_cases (g : Given) (h : a.phase = .acceptCommit) :
    a.createProposal = (none, a) ∨ ∃ prop a', a.createProposal = (some prop, a') ∧
      a'.phase = .acceptCommit ∧
      ∀ pending, Step g (a.leader pending) (a'.leader (pending ++ [prop])) := by
  unfold createProposal
  rcases a.proposer.createProposal_spec with hc | ⟨value, q, q', -, hc⟩
  · rw [hc]
    exact Or.inl rfl
  · rw [hc]
    exact Or.inr ⟨_, _, rfl, h, fun pending => .created (a.leader pending) h⟩

/-- The proposals of a batch are all pending afterwards, also if their creation panics. -/
theorem steps_proposalsFor (toAccept : List Proposal) (fuel : Nat) (h : a.phase = .acceptCommit) :
    ∃ pending, Steps g (a.leader toAccept) ((a.proposalsFor toAccept fuel).2.leader pending) ∧
      ∀ props, (a.proposalsFor toAccept fuel).1 = .ok props → pending = props := by
  induction fuel generalizing a toAccept with
  | zero => exact ⟨toAccept, .refl, fun props he => Except.ok.inj he⟩
  | succ fuel ih =>
      unfold proposalsFor
      rcases createProposal_cases g h with hc | ⟨prop, a', hc, h', hstep⟩
      · rw [hc]
        exact ⟨toAccept, .refl, fun props he => Except.ok.inj he⟩
      · rw [hc]
        dsimp only
        split
        · exact ⟨_, .single (hstep toAccept), fun props he => by cases he⟩
        · obtain ⟨pending, hsteps, hok⟩ := ih (toAccept ++ [prop]) h'
          exact ⟨pending, .head (hstep toAccept) hsteps, hok⟩

/-- The batch of the accept phase is broadcast as a whole, unless its loop panics. -/
theorem steps_acceptAll (props : List Proposal) :
    ∃ pending, Steps g (a.leader props) ((a.acceptAll env props).2.leader pending) ∧
      ((a.acceptAll env props).1 = .ok () → pending = []) := by
  induction props generalizing a with
  | nil => exact ⟨[], .refl, fun _ => rfl⟩
  | cons prop props ih =>
      have hphase := steps_acceptPhase (g := g) (a := a) env prop props []
        (.broadcast (a.leader (prop :: props)) rfl) (fun _ h => absurd h List.not_mem_nil)
      unfold acceptAll
      split
      · next a' he =>
        rw [he] at hphase
        obtain ⟨pending, hsteps, hok⟩ := ih (a := a')
        exact ⟨pending, hphase.trans hsteps, hok⟩
      · next res a' hne he =>
        rw [he] at hphase
        exact ⟨props, hphase, fun h => by cases h⟩

/-! ## Learns and responses

A learn is sent for a proposal that has been chosen and reserved, and again where it is asked for. -/

/-- The learn announces a stored proposal. -/
def Stored (a : ProposerAgent) (learn : Learn) : Prop :=
  ∃ slot e, a.proposer.proposals.get? slot = some e ∧
    learn = { slot := e.proposal.slot, value := e.proposal.value }

/-- A change of status keeps the stored proposals. -/
theorem Stored.insert {learn : Learn} (h : a.Stored learn) {a' : ProposerAgent} {slot : Slot}
    {e : ProposalEntry} (he : a.proposer.proposals.get? slot = some e) {status : ProposalStatus}
    (ha' : a'.proposer.proposals = a.proposer.proposals.insert slot { e with status }) :
    a'.Stored learn := by
  obtain ⟨s, e', hs, rfl⟩ := h
  rw [Stored, ha']
  by_cases hslot : s = slot
  · subst hslot
    obtain rfl := Option.some.inj (he.symm.trans hs)
    exact ⟨s, _, OrdMap.get?_insert_self .., rfl⟩
  · exact ⟨s, e', by rw [OrdMap.get?_insert_of_ne _ _ hslot]; exact hs, rfl⟩

/-- Every learn of a batch announces a stored proposal. -/
theorem steps_learnsFor (pending : List Proposal) (learns : List Learn) (fuel : Nat)
    (h : ∀ l ∈ learns, a.Stored l) :
    Steps g (a.leader pending) ((a.learnsFor learns fuel).2.leader pending) ∧
      ∀ l ∈ (a.learnsFor learns fuel).1, (a.learnsFor learns fuel).2.Stored l := by
  induction fuel generalizing a learns with
  | zero => exact ⟨.refl, h⟩
  | succ fuel ih =>
      unfold learnsFor reserveNextChosenProposal
      rcases a.proposer.reserveNextChosenProposal_cases with ⟨slots, _, hc⟩ | ⟨slot, slots, e, _, he, hc⟩
      · rw [hc]
        exact ⟨.refl, h⟩
      · rw [hc]
        have hstored : ∀ l ∈ learns ++ [{ slot := e.proposal.slot, value := e.proposal.value }],
            Stored { a with proposer := { a.proposer with
              chosenSlots := slots
              proposals := a.proposer.proposals.insert slot { e with status := .commitPending } } }
              l := by
          intro l hl
          rcases List.mem_append.mp hl with hl | hl
          · exact (h l hl).insert he rfl
          · rw [List.mem_singleton.mp hl]
            exact ⟨slot, _, OrdMap.get?_insert_self .., rfl⟩
        obtain ⟨hsteps, hall⟩ := ih _ hstored
        exact ⟨.head (.reserved (a.leader pending) he) hsteps, hall⟩

theorem steps_broadcastLearn (hmode : a.config.acceptorsSendLearns = false) {learn : Learn}
    (h : a.Stored learn) : Steps g (a.leader []) ((a.broadcastLearn learn).leader []) := by
  obtain ⟨slot, e, he, rfl⟩ := h
  unfold broadcastLearn
  rw [leader_send _ rfl]
  have hstep := Step.learned (g := g) (a.leader []) rfl hmode he (Or.inr rfl)
  simpa [leader, MessagePayload.accept?, MessagePayload.learn?] using Relation.ReflTransGen.single hstep

theorem steps_broadcastLearns (hmode : a.config.acceptorsSendLearns = false) {learns : List Learn}
    (h : ∀ l ∈ learns, a.Stored l) :
    Steps g (a.leader []) ((learns.foldl broadcastLearn a).leader []) := by
  induction learns generalizing a with
  | nil => exact .refl
  | cons l learns ih =>
      exact (steps_broadcastLearn hmode (h l (List.mem_cons_self ..))).trans
        (ih (a := a.broadcastLearn l) hmode (fun l' hl' => h l' (List.mem_cons_of_mem _ hl')))

theorem leader_responsesFor (out : List ClientResponse) (fuel : Nat) :
    (a.responsesFor out fuel).2.leader pending = a.leader pending := by
  induction fuel generalizing a out with
  | zero => rfl
  | succ fuel ih =>
      unfold responsesFor
      split
      · exact ih _
      · rfl

theorem leader_collectClientResponses :
    a.collectClientResponses.2.leader pending = a.leader pending :=
  leader_responsesFor _ _

/-- A frame keeps the configuration. -/
theorem config_eq_of_steps {a' : ProposerAgent} {pending' : List Proposal}
    (h : Steps g (a.leader pending) (a'.leader pending')) : a'.config = a.config :=
  congrArg Frame.config h.frame_eq

theorem steps_acceptCommit (h : a.phase = .acceptCommit) :
    ∃ pending, Steps g (a.leader []) ((a.acceptCommit env).2.leader pending) ∧
      ∀ r, (a.acceptCommit env).1 = .ok r → pending = [] := by
  obtain ⟨pending, hprops, hok⟩ := steps_proposalsFor (g := g) (a := a) []
    a.config.batchSize h
  unfold acceptCommit proposalsToAccept
  split
  · next e a' he =>
    rw [he] at hprops
    exact ⟨pending, hprops, fun r hr => by cases hr⟩
  · next props a₁ he =>
    rw [he] at hprops hok
    obtain rfl := hok props rfl
    obtain ⟨pending', haccepts, hok'⟩ := steps_acceptAll (g := g) (a := a₁) env pending
    split
    · next e a₂ he₂ =>
      rw [he₂] at haccepts
      exact ⟨pending', hprops.trans haccepts, fun r hr => by cases hr⟩
    · next u a₂ he₂ =>
      rw [he₂] at haccepts hok'
      obtain rfl := hok' rfl
      refine ⟨[], (hprops.trans haccepts).trans ?_, fun _ _ => rfl⟩
      rw [leader_collectClientResponses]
      cases hmode : a₂.config.acceptorsSendLearns with
      | true => exact .refl
      | false =>
          obtain ⟨hlearns, hstored⟩ := steps_learnsFor (g := g) (a := a₂) [] []
            a₂.config.batchSize (fun _ h => absurd h List.not_mem_nil)
          exact hlearns.trans
            (steps_broadcastLearns ((congrArg RunConfig.acceptorsSendLearns
              (config_eq_of_steps hlearns)).trans hmode) hstored)

theorem steps_processResult (r : ExecuteResult) :
    Steps g (a.leader pending) ((a.processResult r).leader pending) := by
  unfold processResult
  rcases a.proposer.markProposalFinalized_cases r.slot with h | ⟨e, he, _, h⟩
  · rw [h]
  · rw [h]
    have hstep := Step.finalized (g := g) (a.leader pending) he
    dsimp only
    split
    · refine .single ?_
      unfold Proposer.enqueuePrioritizedRequest
      split <;> exact hstep
    · exact .single hstep

theorem steps_processExecuted (exec : Executed) :
    Steps g (a.leader pending) ((a.processExecuted env exec).leader pending) := by
  have hfold : ∀ (rs : List ExecuteResult) (a : ProposerAgent),
      Steps g (a.leader pending) ((rs.foldl processResult a).leader pending) := by
    intro rs
    induction rs with
    | nil => exact fun _ => .refl
    | cons r rs ih => exact fun a => (steps_processResult r).trans (ih _)
  unfold processExecuted
  dsimp only
  split
  · split
    · exact .refl
    · exact hfold _ { a with proposer := a.proposer.setAdu env exec.adu }
  · split
    · exact .refl
    · exact hfold _ a

theorem steps_retrySlot (hmode : a.config.acceptorsSendLearns = false) (slot : Slot) :
    Steps g (a.leader []) ((retrySlot env a slot).leader []) := by
  unfold retrySlot
  split
  · next chosen hchosen =>
    have hget := Proposer.getProposalByStatus_eq_some hchosen
    have hstep := Step.learned (g := g) (a.leader []) rfl hmode hget (Or.inl rfl)
    unfold broadcastLearn
    rw [leader_send _ rfl]
    simpa [leader, MessagePayload.accept?, MessagePayload.learn?] using
      Relation.ReflTransGen.single hstep
  · split
    · next prop hprop =>
      have hget := Proposer.getProposalByStatus_eq_some hprop
      exact steps_acceptPhase env prop [] [] (.resent (a.leader []) rfl hget)
        (fun _ h => absurd h List.not_mem_nil)
    · exact .refl

theorem steps_retryLearns (hmode : a.config.acceptorsSendLearns = false) (slots : List Slot) :
    Steps g (a.leader []) ((a.retryLearns env slots).leader []) := by
  unfold retryLearns
  induction slots generalizing a with
  | nil => exact .refl
  | cons slot slots ih =>
      have hslot := steps_retrySlot (g := g) env hmode slot
      exact hslot.trans (ih ((congrArg RunConfig.acceptorsSendLearns
        (config_eq_of_steps hslot)).trans hmode))

/-! ## Leadership, ticks and messages

The parts together are steps of the leader. -/

theorem leader_sendHeartbeat : a.sendHeartbeat.leader pending = a.leader pending :=
  leader_send_other a.allNodes (show MessagePayload.isProposers .heartbeat = true from rfl) rfl rfl

theorem leader_getLearnerAdu : (a.getLearnerAdu env).leader pending = a.leader pending := by
  unfold getLearnerAdu
  split
  · rfl
  · exact leader_send_other (a := a) a.learners
      (show MessagePayload.isProposers (.adu 0) = true from rfl) rfl rfl

theorem leader_resignLeader : a.resignLeader.2.leader pending = a.leader pending := by
  show leader { a with proposer := a.proposer.resignLeader.2 } pending = _
  unfold Proposer.resignLeader
  split <;> rfl

/-- Leadership comes with a new ballot. -/
theorem steps_becomeLeader (h : a.proposer.isLeader = false → a.phase ≠ .acceptCommit ∨ g.usurps) :
    Steps g (a.leader []) ((a.becomeLeader env).2.leader []) := by
  show Steps g _ (leader { a with proposer := (a.proposer.becomeLeader env).2 } [])
  unfold Proposer.becomeLeader
  split
  · exact .refl
  · next hleader =>
    exact .single (.raised (a.leader []) rfl (h (by simpa using hleader)))

theorem steps_checkPrepareTimeout :
    Steps g (a.leader []) ((a.checkPrepareTimeout env).2.leader []) := by
  unfold checkPrepareTimeout
  split
  · split
    · split
      · exact steps_advancePhase (some false) (by simp)
      · exact .refl
    · exact .refl
  · exact .refl

/-- **A tick** leaves no proposal pending unless it panics. -/
theorem steps_handleTick
    (hreset : a.config.isEventDriven = false → ∀ l slot, g.resets l slot) :
    ∃ pending, Steps g (a.leader []) ((a.handleTick env).2.leader pending) ∧
      ∀ r, (a.handleTick env).1 = .ok r → pending = [] := by
  unfold handleTick
  split
  · refine ⟨[], ?_, fun _ _ => rfl⟩
    dsimp only
    split
    · split
      · rw [leader_getLearnerAdu]
      · exact steps_setPhase (Or.inl nofun)
    · exact .refl
  · next hphase =>
    have hraise := Step.raised (g := g) (a.leader []) rfl
      (Or.inl (show a.phase ≠ .acceptCommit by rw [hphase]; nofun))
    have hprepare := Relation.ReflTransGen.head hraise
      (steps_preparePhase (g := g) (a := { a with proposer := (a.proposer.increaseBallot env).2 })
        env (nextSlot a.proposer.adu) (a.proposer.increaseBallot env).1
        [] (fun _ h => absurd h List.not_mem_nil) (fun h l => hreset h l _))
    dsimp only
    split
    · next a' he =>
      rw [he] at hprepare
      exact ⟨[], hprepare, fun _ _ => rfl⟩
    · next res a' hne he =>
      rw [he] at hprepare
      exact ⟨[], hprepare, fun _ _ => rfl⟩
  · exact ⟨[], steps_checkPrepareTimeout env, fun _ _ => rfl⟩
  · next hphase => exact steps_acceptCommit env hphase
  · exact ⟨[], .refl, fun _ _ => rfl⟩
  · exact ⟨[], .refl, fun _ _ => rfl⟩

/-- What a message hands to the leader. -/
structure Admits (g : Given) (a : ProposerAgent) (m : NetworkMessage) : Prop where
  promise : ∀ p, m.payload = .promise p → g.promise p m.sender.nodeId ∧
    ∀ b ps, (a.insertAndCheckPromises p m.sender).1 = some (b, ps) → a.Completes ps →
      g.resets ((a.insertAndCheckPromises p m.sender).2.leader []) p.slot
  accepted : ∀ acc, m.payload = .accepted acc → g.accepted (a.leader []) acc m.sender.nodeId

theorem steps_handleMessage {m : NetworkMessage} (h : a.Admits g m)
    (hmode : ∀ r, m.payload = .retryLearns r → a.config.acceptorsSendLearns = false) :
    Steps g (a.leader []) ((a.handleMessage env m).2.leader []) := by
  unfold handleMessage
  split
  · next p hp => exact steps_handlePromise (h.promise p hp).1 (h.promise p hp).2
  · next acc hacc => exact steps_handleAccepted (h.accepted acc hacc)
  · next r hr =>
    dsimp only
    split
    · exact .refl
    · exact steps_retryLearns env (hmode r hr) r.slots
  · exact steps_processExecuted env _
  · exact .refl
  · exact .refl

/-- A new agent implements a leader that has done nothing yet. -/
theorem leader_new (dir : Proposer.Dir) (env : Env) (node : Node) (nodes : List Node) (isLeader : Bool)
    (config : RunConfig) :
    ∃ frame ballot, (new dir env node nodes isLeader config).leader [] =
      { frame, phase := .start, ballot, slot := 0, proposals := ∅, pending := [], promises := ∅
        inFlightAccepted := ∅, accepts := [], learns := [], stray := [] } := by
  have hload : ∀ p : Proposer, p.loadState.2.currentSlot = p.currentSlot ∧
      p.loadState.2.proposals = p.proposals := by
    intro p
    unfold Proposer.loadState
    split <;> exact ⟨rfl, rfl⟩
  refine ⟨(new dir env node nodes isLeader config).frame,
    (new dir env node nodes isLeader config).proposer.currentBallot, ?_⟩
  simp only [leader, new, hload]
  rfl

end ProposerAgent

end PaxosWasm
