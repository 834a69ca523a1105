import PaxosWasm.Agents.Campaign

/-!
# The cursor of the proposer agent

A batch of results moves the cursor forward only; a learner's answer to a request for its cursor is
taken as it is. So the cursor grows along a run as long as no such answer comes from behind, and with
it the slots from which the agent prepares: up to the last slot of a `u64`, behind which the sum of the
source wraps around to slot 0.

`Advances` says what one call does to the cursor and to the prepares, with no condition. The runs are then
about numbers only: a call without a stale answer does not take the cursor back, the last prepare is at
most one slot ahead of the cursor (`Bounded`), and so the next one is not behind it.
-/

namespace PaxosWasm

open Library

namespace ProposerAgent

variable {a a' : ProposerAgent} (env : Env)

/-! ## What keeps the cursor

Most pieces of a handler neither move the cursor nor send a prepare. A batch of results moves it on, and
only the answer to a question for the cursor sets it. -/

def preparesSent (a : ProposerAgent) : List Prepare := preparesOf a.networkClient.sent

/-- Neither the cursor nor the prepares have changed. -/
def KeepsCursor (a a' : ProposerAgent) : Prop :=
  a'.proposer.adu = a.proposer.adu ∧ a'.preparesSent = a.preparesSent

theorem frames_keepsCursor : Frames KeepsCursor where
  refl _ := ⟨rfl, rfl⟩
  trans h h' := ⟨h'.1.trans h.1, h'.2.trans h.2⟩
  send a targets payload h := by
    refine ⟨rfl, ?_⟩
    rw [preparesSent, send, NetworkClient.sent_sendMessageForget, preparesOf_snoc, preparesSent]
    simp [message, h]
  core a p h := ⟨congrArg Proposer.Vitals.adu h, rfl⟩
  received _ _ := ⟨rfl, rfl⟩
  responses _ _ := ⟨rfl, rfl⟩

theorem keepsCursor_insertAndCheckPromises (a : ProposerAgent) (promise : Promise) (sender : Node) :
    KeepsCursor a (a.insertAndCheckPromises promise sender).2 := by
  rw [insertAndCheckPromises_snd]
  exact ⟨rfl, rfl⟩

theorem keepsCursor_insertPromises (promises : List Promise) (a : ProposerAgent) :
    KeepsCursor a (promises.foldl (fun a promise => (a.insertAndCheckPromises promise a.node).2) a) :=
  frames_keepsCursor.foldl a (fun a promise => a.keepsCursor_insertAndCheckPromises promise a.node)
    promises

theorem keepsCursor_processPromises (a : ProposerAgent) (slot : Slot) (promises : List Promise)
    (result : PrepareResult) :
    KeepsCursor a ((a.processPromises slot promises).2.handlePrepareResult result) := by
  have hcore : KeepsCursor a (a.processPromises slot promises).2 :=
    frames_keepsCursor.core a _ (a.proposer.vitals_processPrepare slot promises)
  cases result <;> exact hcore

theorem keepsCursor_handlePromise (a : ProposerAgent) (sender : Node) (promise : Promise) :
    KeepsCursor a (a.handlePromise sender promise) := by
  have hinsert := a.keepsCursor_insertAndCheckPromises promise sender
  rcases a.handlePromise_eq sender promise with ⟨he, _⟩ | ⟨group, _, he⟩
  · rw [he]
    exact hinsert
  · rw [he]
    exact frames_keepsCursor.trans hinsert (keepsCursor_processPromises ..)

/-- A prepare round sends one prepare and keeps the cursor. -/
theorem preparePhase_spec (a : ProposerAgent) (slot : Slot) (ballot : Ballot)
    (promises : List Promise) :
    (a.preparePhase env slot ballot promises).2.proposer.adu = a.proposer.adu ∧
      (a.preparePhase env slot ballot promises).2.preparesSent =
        a.preparesSent ++ [({ slot, ballot } : Prepare)] := by
  have hsend : (a.send a.acceptors (.prepare { slot, ballot })).preparesSent =
      a.preparesSent ++ [({ slot, ballot } : Prepare)] := by
    rw [preparesSent, send, NetworkClient.sent_sendMessageForget, preparesOf_snoc]
    rfl
  have hrest : KeepsCursor (a.send a.acceptors (.prepare { slot, ballot }))
      (a.preparePhase env slot ballot promises).2 := by
    unfold preparePhase broadcastPrepare
    cases a.config.isEventDriven with
    | true => exact frames_keepsCursor.trans ⟨rfl, rfl⟩ (keepsCursor_insertPromises promises _)
    | false => exact keepsCursor_processPromises ..
  exact ⟨hrest.1, hrest.2.trans hsend⟩

/-- A batch of results moves the cursor forward, to the cursor of the batch. -/
theorem adu_processExecuted (a : ProposerAgent) (executed : Executed) :
    (a.processExecuted env executed).proposer.adu = max a.proposer.adu executed.adu ∧
      (a.processExecuted env executed).preparesSent = a.preparesSent := by
  unfold processExecuted
  by_cases hahead : executed.adu > a.proposer.adu
  · rw [if_pos hahead, Nat.max_eq_right (le_of_lt hahead)]
    exact frames_keepsCursor.processResults
      { a with proposer := a.proposer.setAdu env executed.adu } executed.results
  · rw [if_neg hahead, Nat.max_eq_left (Nat.le_of_not_lt hahead)]
    exact frames_keepsCursor.processResults a executed.results

/-! ## Calls

`Advances` says what one call does: it may set the cursor to what it is handed, keep it or move it on, and
send a prepare for the slot behind it. -/

/-- The cursor that a call hands to the agent as it is. -/
def Op.adu? : Op → Option Slot
  | .handleMessage m =>
      match m.payload with
      | .adu adu => some adu
      | _ => none
  | _ => none

/-- The cursor of the batch of results that a call brings. -/
def Op.executedAdu? : Op → Option Slot
  | .handleMessage m =>
      match m.payload with
      | .executed executed => some executed.adu
      | _ => none
  | .processExecuted executed => some executed.adu
  | _ => none

def Op.IsPreparePhase : Op → Prop
  | .preparePhase _ _ _ => True
  | _ => False

def Op.isTick : Op → Bool
  | .handleTick => true
  | _ => false

/-- The call is the tick with which the agent opens a round. -/
def Opens (a : ProposerAgent) (op : Op) : Prop := op.isTick = true ∧ a.phase = .prepareSend

instance (a : ProposerAgent) (op : Op) : Decidable (a.Opens op) := inferInstanceAs (Decidable (_ ∧ _))

/-- **What a call does to the cursor and to the prepares.** -/
structure Advances (op : Op) (a a' : ProposerAgent) : Prop where
  handed : ∀ adu, op.adu? = some adu → a'.proposer.adu = adu
  grows : op.adu? = none → a'.proposer.adu = op.executedAdu?.elim a.proposer.adu (max a.proposer.adu)
  keeps : ¬ op.IsPreparePhase → ¬ a.Opens op → a'.preparesSent = a.preparesSent
  opens : a.Opens op → ∃ ballot, a'.preparesSent =
    a.preparesSent ++ [({ slot := nextSlot a.proposer.adu, ballot } : Prepare)]

theorem KeepsCursor.advances {op : Op} (h : KeepsCursor a a') (hop : op.adu? = none)
    (hexecuted : op.executedAdu? = none) (hopens : ¬ a.Opens op) : Advances op a a' where
  handed _ hadu := absurd (hop.symm.trans hadu) (by simp)
  grows _ := by
    rw [hexecuted]
    exact h.1
  keeps _ _ := h.2
  opens ho := absurd ho hopens

/-- A call that brings a batch of results. -/
theorem advances_processExecuted {op : Op} (a : ProposerAgent) {executed : Executed}
    (hop : op.adu? = none) (hexecuted : op.executedAdu? = some executed.adu) (htick : op.isTick = false) :
    Advances op a (a.processExecuted env executed) where
  handed _ hadu := absurd (hop.symm.trans hadu) (by simp)
  grows _ := by
    rw [hexecuted]
    exact (a.adu_processExecuted env executed).1
  keeps _ _ := (a.adu_processExecuted env executed).2
  opens ho := absurd (htick.symm.trans ho.1) (by simp)

/-- The cursor is a `u64` as long as all that is handed to the agent is. -/
theorem Advances.fits {op : Op} (h : Advances op a a') (ha : a.proposer.adu < 2 ^ 64)
    (hadu : ∀ adu ∈ op.adu?, adu < 2 ^ 64) (hexecuted : ∀ adu ∈ op.executedAdu?, adu < 2 ^ 64) :
    a'.proposer.adu < 2 ^ 64 := by
  cases ho : op.adu? with
  | some adu =>
      rw [h.handed adu ho]
      exact hadu adu ho
  | none =>
      rw [h.grows ho]
      cases he : op.executedAdu? with
      | none => exact ha
      | some adu => exact Nat.max_lt.mpr ⟨ha, hexecuted adu he⟩

theorem advances_handleTick (a : ProposerAgent) : Advances .handleTick a (a.handleTick env).2 := by
  have hF := frames_keepsCursor
  have hkeeps : ∀ {a'}, KeepsCursor a a' → a.phase ≠ .prepareSend → Advances .handleTick a a' :=
    fun h hphase => h.advances rfl rfl (fun ho => hphase ho.2)
  cases hphase : a.phase with
  | start =>
      refine hkeeps ?_ (by simp [hphase])
      simp only [handleTick, hphase]
      split
      · split
        · unfold getLearnerAdu
          split
          · exact hF.refl a
          · exact hF.send a _ _ rfl
        · exact ⟨rfl, rfl⟩
      · exact hF.refl a
  | prepareSend =>
      rw [handleTick_prepareSend hphase]
      obtain ⟨hadu, hprepares⟩ := preparePhase_spec env
        { a with proposer := (a.proposer.increaseBallot env).2 } (nextSlot a.proposer.adu)
        (a.proposer.increaseBallot env).1 []
      have hnone : Op.handleTick.adu? = none := rfl
      refine ⟨fun adu h => ?_, fun _ => hadu, fun _ ho => absurd ⟨rfl, hphase⟩ ho, fun _ => ⟨_, hprepares⟩⟩
      rw [hnone] at h
      cases h
  | preparePending =>
      refine hkeeps ?_ (by simp [hphase])
      simp only [handleTick, hphase]
      unfold checkPrepareTimeout
      repeat' split
      all_goals exact ⟨rfl, rfl⟩
  | acceptCommit =>
      refine hkeeps ?_ (by simp [hphase])
      simp only [handleTick, hphase]
      exact hF.acceptCommit a env
  | stop | crash =>
      refine hkeeps ?_ (by simp [hphase])
      simp only [handleTick, hphase]
      exact hF.refl a

theorem advances_handleMessage (a : ProposerAgent) (m : NetworkMessage) :
    Advances (.handleMessage m) a (a.handleMessage env m).2 := by
  have hF := frames_keepsCursor
  have hkeeps : ∀ {a'}, KeepsCursor a a' → (∀ adu, m.payload ≠ .adu adu) →
      (∀ executed, m.payload ≠ .executed executed) → Advances (.handleMessage m) a a' := by
    intro a' h hadu hexecuted
    refine h.advances ?_ ?_ (fun ho => nomatch ho.1)
    · unfold Op.adu?
      dsimp only
      split
      · next adu hm => exact absurd hm (hadu adu)
      · rfl
    · unfold Op.executedAdu?
      dsimp only
      split
      · next executed hm => exact absurd hm (hexecuted executed)
      · rfl
  unfold handleMessage
  split
  · next promise hm =>
    exact hkeeps (a.keepsCursor_handlePromise m.sender promise) (by simp [hm]) (by simp [hm])
  · next accepted hm => exact hkeeps (hF.handleAccepted a m.sender accepted) (by simp [hm]) (by simp [hm])
  · next retry hm =>
    refine hkeeps ?_ (by simp [hm]) (by simp [hm])
    dsimp only
    split
    · exact hF.refl a
    · exact hF.retryLearns a env retry.slots
  · next executed hm =>
    exact a.advances_processExecuted env (by simp [Op.adu?, hm]) (by simp [Op.executedAdu?, hm]) rfl
  · next adu hm =>
    refine ⟨fun adu' h => ?_, fun h => ?_, fun _ _ => rfl, fun ho => nomatch ho.1⟩
    · simp only [Op.adu?, hm] at h
      exact Option.some.inj h
    · simp [Op.adu?, hm] at h
  · next hm => exact hkeeps (hF.refl a) (fun adu h => by simp_all) (fun executed h => by simp_all)

theorem advances_call (a : ProposerAgent) (c : Env × Op) : Advances c.2 a (a.call c).2 := by
  have hF := frames_keepsCursor
  obtain ⟨env, op⟩ := c
  cases op with
  | submitClientRequest req => exact KeepsCursor.advances ⟨rfl, rfl⟩ rfl rfl (nomatch ·.1)
  | reserveNextChosenProposal =>
      exact (hF.core a _ a.proposer.vitals_reserveNextChosenProposal).advances rfl rfl (nomatch ·.1)
  | createProposal => exact (hF.createProposal a).advances rfl rfl (nomatch ·.1)
  | preparePhase slot ballot promises =>
      have h := (a.preparePhase_spec env slot ballot promises).1
      exact ⟨nofun, fun _ => h, fun h => absurd trivial h, fun ho => nomatch ho.1⟩
  | acceptPhase value slot ballot accepts =>
      exact (hF.acceptPhase a env value slot ballot accepts).advances rfl rfl (nomatch ·.1)
  | broadcastLearn learn => exact (hF.broadcastLearn a learn).advances rfl rfl (nomatch ·.1)
  | markProposalChosen slot =>
      exact (hF.core a _ (a.proposer.vitals_markProposalChosen slot)).advances rfl rfl (nomatch ·.1)
  | markProposalFinalized slot =>
      exact (hF.core a _ (a.proposer.vitals_markProposalFinalized slot)).advances rfl rfl (nomatch ·.1)
  | proposalsToAccept => exact (hF.proposalsFor a [] _).advances rfl rfl (nomatch ·.1)
  | learnsToCommit => exact (hF.learnsFor a [] _).advances rfl rfl (nomatch ·.1)
  | processExecuted executed => exact a.advances_processExecuted env rfl rfl rfl
  | collectClientResponses => exact (hF.responsesFor a [] _).advances rfl rfl (nomatch ·.1)
  | retryLearns slots => exact (hF.retryLearns a env slots).advances rfl rfl (nomatch ·.1)
  | handleMessage m => exact a.advances_handleMessage env m
  | startLeaderLoop => exact KeepsCursor.advances ⟨rfl, rfl⟩ rfl rfl (nomatch ·.1)
  | checkPrepareTimeout =>
      refine KeepsCursor.advances ?_ rfl rfl (nomatch ·.1)
      show KeepsCursor a (a.checkPrepareTimeout env).2
      unfold checkPrepareTimeout
      repeat' split
      all_goals exact ⟨rfl, rfl⟩
  | becomeLeader =>
      refine KeepsCursor.advances ⟨?_, rfl⟩ rfl rfl (nomatch ·.1)
      show (a.proposer.becomeLeader env).2.adu = _
      unfold Proposer.becomeLeader
      split <;> rfl
  | resignLeader =>
      refine KeepsCursor.advances ⟨?_, rfl⟩ rfl rfl (nomatch ·.1)
      show a.proposer.resignLeader.2.adu = _
      unfold Proposer.resignLeader
      split <;> rfl
  | handleTick => exact a.advances_handleTick env
  | sendHeartbeat => exact (hF.send a _ _ rfl).advances rfl rfl (nomatch ·.1)
  | maybeFlushState => exact KeepsCursor.advances ⟨rfl, rfl⟩ rfl rfl (nomatch ·.1)

/-! ## Runs

While the cursor grows, so do the slots prepared, until there is no slot behind the cursor. -/

namespace Session

/-- The cursor does not go back in this call. -/
def AduGrows (x : Session) (c : Env × Op) : Prop :=
  x.agent.proposer.adu ≤ (x.step c).agent.proposer.adu

/-- **A cursor from behind**: a learner's answer below the cursor of the agent. -/
def Stale (x : Session) (c : Env × Op) : Prop :=
  x.running = true ∧ ∃ adu ∈ c.2.adu?, adu < x.agent.proposer.adu

/-- **A round past the last slot**: the tick that opens a round at the last cursor there is, after a
prepare from another slot than 0. -/
def WrapsAround (x : Session) (c : Env × Op) : Prop :=
  x.running = true ∧ x.agent.Opens c.2 ∧ x.agent.proposer.adu + 1 = 2 ^ 64 ∧
    ∃ pr ∈ x.agent.preparesSent, pr.slot ≠ 0

/-- What a call hands to the agent is a `u64`. -/
def Fits64 (c : Env × Op) : Prop :=
  (∀ adu ∈ c.2.adu?, adu < 2 ^ 64) ∧ ∀ adu ∈ c.2.executedAdu?, adu < 2 ^ 64

/-- The slots from which the agent has prepared grow. -/
def PreparesInOrder (x : Session) : Prop := (x.agent.preparesSent.map Prepare.slot).Pairwise (· ≤ ·)

instance (x : Session) (c : Env × Op) : Decidable (x.AduGrows c) :=
  inferInstanceAs (Decidable (_ ≤ _))

instance (x : Session) (c : Env × Op) : Decidable (x.Stale c) := inferInstanceAs (Decidable (_ ∧ _))

instance (x : Session) (c : Env × Op) : Decidable (x.WrapsAround c) :=
  inferInstanceAs (Decidable (_ ∧ _))

instance (c : Env × Op) : Decidable (Fits64 c) := inferInstanceAs (Decidable (_ ∧ _))

theorem aduGrows_iff (x : Session) (c : Env × Op) : x.AduGrows c ↔ ¬ x.Stale c := by
  unfold AduGrows Stale
  cases hrun : x.running with
  | false => simp [step_of_not_running hrun]
  | true =>
      have hcall := x.agent.advances_call c
      rw [step_of_running hrun]
      cases hadu : c.2.adu? with
      | none =>
          have hgrows : x.agent.proposer.adu ≤ (x.agent.call c).2.proposer.adu := by
            rw [hcall.grows hadu]
            cases c.2.executedAdu? with
            | none => exact le_refl _
            | some adu => exact Nat.le_max_left _ _
          simpa using hgrows
      | some adu => simp [hcall.handed adu hadu]

/-! ### The order of the rounds

The slot of the last prepare is at most the slot behind the cursor. So a cursor that grows has prepares
that grow with it. -/

/-- The cursor is a `u64`, and no prepare is above the next slot. -/
structure Bounded (x : Session) : Prop where
  fits : x.agent.proposer.adu < 2 ^ 64
  below : ∀ pr ∈ x.agent.preparesSent, pr.slot ≤ x.agent.proposer.adu + 1

theorem Bounded.step {x : Session} {c : Env × Op} (h : x.Bounded) (hc : Fits64 c)
    (hop : ¬ c.2.IsPreparePhase) (hgrows : x.AduGrows c) : (x.step c).Bounded := by
  unfold AduGrows at hgrows
  cases hrun : x.running with
  | false =>
      rw [step_of_not_running hrun]
      exact h
  | true =>
      have hcall := x.agent.advances_call c
      rw [step_of_running hrun] at hgrows ⊢
      refine ⟨hcall.fits h.fits hc.1 hc.2, fun pr hpr => ?_⟩
      by_cases hopens : x.agent.Opens c.2
      · obtain ⟨ballot, he⟩ := hcall.opens hopens
        replace hpr : pr ∈ (x.agent.call c).2.preparesSent := hpr
        rw [he, List.mem_append, List.mem_singleton] at hpr
        rcases hpr with hpr | rfl
        · exact (h.below pr hpr).trans (Nat.add_le_add_right hgrows 1)
        · exact (nextSlot_le _).trans (Nat.add_le_add_right hgrows 1)
      · replace hpr : pr ∈ (x.agent.call c).2.preparesSent := hpr
        rw [hcall.keeps hop hopens] at hpr
        exact (h.below pr hpr).trans (Nat.add_le_add_right hgrows 1)

/-- **One call**: the next prepare is not behind those before it, unless the sum wraps around. -/
theorem preparesInOrder_step {x : Session} {c : Env × Op} (h : x.Bounded)
    (hop : ¬ c.2.IsPreparePhase) :
    (x.step c).PreparesInOrder ↔ x.PreparesInOrder ∧ ¬ x.WrapsAround c := by
  unfold PreparesInOrder WrapsAround
  cases hrun : x.running with
  | false => simp [step_of_not_running hrun]
  | true =>
      have hcall := x.agent.advances_call c
      rw [step_of_running hrun]
      by_cases hopens : x.agent.Opens c.2
      · obtain ⟨ballot, he⟩ := hcall.opens hopens
        rw [he, List.map_append, List.pairwise_append]
        simp only [List.map_singleton, List.pairwise_singleton, List.mem_singleton, List.mem_map,
          forall_eq, forall_exists_index, and_imp, forall_apply_eq_imp_iff₂, hopens, true_and]
        refine and_congr_right (fun _ => ⟨fun hle => ?_, fun hwraps pr hpr => ?_⟩)
        · rintro ⟨hlast, pr, hpr, hne⟩
          have hzero : nextSlot x.agent.proposer.adu = 0 := by rw [nextSlot, hlast]; rfl
          exact hne (Nat.le_zero.mp (hzero ▸ hle pr hpr))
        · by_cases hlast : x.agent.proposer.adu + 1 = 2 ^ 64
          · -- past the last slot there must be no prepare but for slot 0
            have hslot : pr.slot = 0 := by
              by_contra hne
              exact hwraps ⟨hlast, pr, hpr, hne⟩
            rw [hslot]
            exact Nat.zero_le _
          · rw [nextSlot_of_lt (Nat.lt_of_le_of_ne h.fits hlast)]
            exact h.below pr hpr
      · rw [hcall.keeps hop hopens]
        simp [hopens]

theorem bounded_start {dir : Proposer.Dir} (hdir : ∀ ps ∈ dir.state, ps.adu < 2 ^ 64) (env : Env)
    (node : Node) (nodes : List Node) (isLeader : Bool) (config : RunConfig) :
    (start dir env node nodes isLeader config).Bounded := by
  refine ⟨?_, fun _ hpr => absurd hpr List.not_mem_nil⟩
  obtain ⟨state, snapshots, changelog, script⟩ := dir
  unfold start ProposerAgent.new Proposer.loadState Proposer.StorageHelper.loadState
    StorageResource.loadState
  cases hon : config.persistentStorage with
  | false => simp [Proposer.new, Proposer.StorageHelper.new, hon]
  | true =>
      cases state with
      | none => simp [Proposer.new, Proposer.StorageHelper.new, StorageResource.new, hon]
      | some ps => simpa [Proposer.new, Proposer.StorageHelper.new, StorageResource.new, hon] using hdir ps rfl

/-- While the cursor grows, the prepares of the agent's own loop are in order exactly if no round is
opened past the last slot. -/
theorem preparesInOrder_run {x : Session} {es : List (Env × Op)} (h : x.Bounded)
    (hx : x.PreparesInOrder) (hfits : ∀ c ∈ es, Fits64 c) (hop : ∀ c ∈ es, ¬ c.2.IsPreparePhase)
    (hgrows : Guarded step AduGrows x es) :
    (run step x es).Bounded ∧
      ((run step x es).PreparesInOrder ↔ Guarded step (fun x c => ¬ x.WrapsAround c) x es) := by
  induction es using List.reverseRecOn with
  | nil => exact ⟨h, iff_of_true hx trivial⟩
  | append_singleton es c ih =>
      obtain ⟨hes, hlast⟩ := guarded_snoc.mp hgrows
      have hmem : c ∈ es ++ [c] := List.mem_append_right _ (List.mem_singleton_self c)
      obtain ⟨hbounded, hiff⟩ := ih (fun c' hc' => hfits c' (List.mem_append_left _ hc'))
        (fun c' hc' => hop c' (List.mem_append_left _ hc')) hes
      rw [run_snoc, guarded_snoc, ← hiff]
      exact ⟨hbounded.step (hfits c hmem) (hop c hmem) hlast,
        preparesInOrder_step hbounded (hop c hmem)⟩

/-- **The cursor of a proposer never goes back**, and the slots it prepares from neither, exactly in
those runs in which no learner answers with a cursor below that of the agent, and in which the agent
does not prepare past the last slot of a `u64`. -/
theorem adu_grows_iff (dir : Proposer.Dir) (env : Env) (node : Node) (nodes : List Node)
    (isLeader : Bool) (config : RunConfig) (es : List (Env × Op))
    (hdir : ∀ ps ∈ dir.state, ps.adu < 2 ^ 64) (hfits : ∀ c ∈ es, Fits64 c) :
    let x := start dir env node nodes isLeader config
    Guarded step AduGrows x es ∧
        ((∀ c ∈ es, ¬ c.2.IsPreparePhase) → (run step x es).PreparesInOrder) ↔
      Guarded step (fun x c => ¬ x.Stale c) x es ∧
        ((∀ c ∈ es, ¬ c.2.IsPreparePhase) → Guarded step (fun x c => ¬ x.WrapsAround c) x es) := by
  intro x
  have hguard : Guarded step AduGrows x es ↔ Guarded step (fun x c => ¬ x.Stale c) x es :=
    ⟨fun h => h.mono (fun x c => (x.aduGrows_iff c).mp),
      fun h => h.mono (fun x c => (x.aduGrows_iff c).mpr)⟩
  rw [← hguard]
  refine and_congr_right (fun hgrows => forall_congr' (fun hop => ?_))
  exact (preparesInOrder_run (bounded_start hdir env node nodes isLeader config) List.Pairwise.nil
    hfits hop hgrows).2

/-! ### Three sessions

The cursor keeps its order in the first. The second has an answer that comes late, and the third a round
past the last slot. -/

/-- A leader with an acceptor and two learners. -/
def follower : Session :=
  .start .empty .quiet ⟨1, "", .proposer⟩
    [⟨11, "", .acceptor⟩, ⟨21, "", .learner⟩, ⟨22, "", .learner⟩] true .inMemory

def answers (i : NodeId) (adu : Slot) : Env × Op :=
  (.quiet, .handleMessage ⟨⟨i, "", .learner⟩, .adu adu⟩)

/-- The agent hears that the cursor is 5, prepares, gets `c`, and prepares again after a timeout. -/
def preparedTwice (c : Env × Op) : List (Env × Op) :=
  [(.quiet, .handleTick), answers 21 5, (.quiet, .handleTick), (.quiet, .handleTick), c,
    ({ Env.quiet with now := RunConfig.inMemory.prepareTimeout }, .handleTick), (.quiet, .handleTick)]

/-- A batch up to slot 7 comes between the two rounds. -/
theorem adu_grows_iff_executed :
    let es := preparedTwice
      (.quiet, .handleMessage ⟨⟨21, "", .learner⟩, .executed { results := [], adu := 7 }⟩)
    Guarded step AduGrows follower es ∧
      ((∀ c ∈ es, ¬ c.2.IsPreparePhase) → (run step follower es).PreparesInOrder) :=
  (adu_grows_iff .empty .quiet ⟨1, "", .proposer⟩
    [⟨11, "", .acceptor⟩, ⟨21, "", .learner⟩, ⟨22, "", .learner⟩] true .inMemory _ nofun
    (by decide)).mpr ⟨by decide, fun _ => by decide⟩

/-- **A late answer takes the cursor back**: the second learner is behind, its answer comes after the
prepare for slot 6, and the next prepare is for slot 3. -/
theorem cursor_taken_back :
    ¬ Guarded step AduGrows follower (preparedTwice (answers 22 2)) ∧
      (run step follower (preparedTwice (answers 22 2))).agent.preparesSent.map Prepare.slot = [6, 3] := by
  decide

/-- **Past the last slot**: behind the last cursor of a `u64` the next prepare is for slot 0. -/
theorem prepares_wrap_around :
    Guarded step (fun x c => ¬ x.Stale c) follower (preparedTwice (answers 22 (2 ^ 64 - 1))) ∧
      (run step follower (preparedTwice (answers 22 (2 ^ 64 - 1)))).agent.preparesSent.map
        Prepare.slot = [6, 0] := by
  decide

end Session

end ProposerAgent

end PaxosWasm
