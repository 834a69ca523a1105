import PaxosWasm.Agents.ProposerFrame

/-!
# The timeout of a prepare round

A prepare round starts the clock and makes its phase pending; the timeout stops the clock and goes
back to sending a prepare. A Phase 1 that completes advances the phase whatever it is: completed by a
promise that arrives after the timeout, it makes the phase pending again, with no clock running and so
with no timeout to come.

Only the phase and the clock matter, and most handlers leave both as they are (`respects_timer`). What is
left are the start of a round, the timeout, and the ways in which Phase 1 completes. For these a pending
round stays clocked (`clocked_call`), or the call is one that completes late and the round is not clocked
after it (`not_clocked_call`), which makes the condition of the run theorem exact.
-/

namespace PaxosWasm

open Library

namespace ProposerAgent

variable (a : ProposerAgent)

/-- A pending prepare round has its clock running. -/
def Clocked (a : ProposerAgent) : Prop := a.phase = .preparePending → a.lastPrepareStart.isSome

/-- A pending prepare round has its clock running, and the check after the timeout takes it back to
sending a prepare. -/
def Timed (a : ProposerAgent) : Prop :=
  a.phase = .preparePending → ∃ start ∈ a.lastPrepareStart, ∀ env : Env,
    a.config.prepareTimeout ≤ env.now - start →
      (a.checkPrepareTimeout env).1 = true ∧ (a.checkPrepareTimeout env).2.phase = .prepareSend

/-- **The timeout**: a check of a pending round whose clock has run for long enough. -/
theorem checkPrepareTimeout_of_elapsed {start : Nat} {env : Env} (hphase : a.phase = .preparePending)
    (hstart : a.lastPrepareStart = some start) (h : a.config.prepareTimeout ≤ env.now - start) :
    (a.checkPrepareTimeout env).1 = true ∧ (a.checkPrepareTimeout env).2.phase = .prepareSend := by
  unfold checkPrepareTimeout
  rw [if_pos hphase, hstart]
  dsimp only
  rw [if_pos h]
  exact ⟨rfl, by simp [advancePhase, setPhase, hphase]⟩

/-- A round can time out as soon as its clock is running. -/
theorem timed_iff_clocked : a.Timed ↔ a.Clocked := by
  constructor
  · intro h hphase
    obtain ⟨start, hstart, _⟩ := h hphase
    exact Option.isSome_of_mem hstart
  · intro h hphase
    obtain ⟨start, hstart⟩ := Option.isSome_iff_exists.mp (h hphase)
    exact ⟨start, hstart, fun env => a.checkPrepareTimeout_of_elapsed hphase hstart⟩

instance : Decidable a.Clocked := inferInstanceAs (Decidable (_ → _))

instance : Decidable a.Timed := decidable_of_iff _ a.timed_iff_clocked.symm

/-- **Phase 1 completes out of its round**: with the clock stopped, before the next prepare is sent. -/
def CompletesLate (a : ProposerAgent) (c : Env × Op) : Prop :=
  a.phase = .prepareSend ∧ a.lastPrepareStart = none ∧
    match c.2 with
    | .handleMessage m =>
        match m.payload with
        | .promise promise =>
            ∃ group ∈ (a.insertAndCheckPromises promise m.sender).1, a.Completes group.2
        | _ => False
    | .preparePhase slot ballot promises =>
        a.config.isEventDriven = false ∧
          a.Completes ((c.1.responses (a.message (.prepare { slot, ballot }))).filterMap (fun m =>
            match m.payload with
            | .promise promise => some promise
            | _ => none) ++ promises)
    | _ => False

/-! ## The phase and the clock

Most of a handler concerns neither. Both are changed in one go where a round starts or times out, but
where Phase 1 completes the phase is advanced alone. -/

def timer (a : ProposerAgent) : PaxosPhase × Option Nat := (a.phase, a.lastPrepareStart)

variable (env : Env)

/-- Most handlers leave the phase and the clock. -/
theorem respects_timer : Respects (fun a a' => a'.timer = a.timer) where
  refl _ := rfl
  trans h h' := h'.trans h
  send _ _ _ _ := rfl
  core _ _ _ := rfl
  adu _ _ _ := rfl
  received _ _ := rfl
  responses _ _ := rfl

theorem timer_insertAndCheckPromises (promise : Promise) (sender : Node) :
    (a.insertAndCheckPromises promise sender).2.timer = a.timer := by
  unfold insertAndCheckPromises
  dsimp only
  split <;> rfl

theorem timer_insertPromises (promises : List Promise) :
    (promises.foldl (fun a promise => (a.insertAndCheckPromises promise a.node).2) a).timer =
      a.timer := by
  induction promises generalizing a with
  | nil => rfl
  | cons promise promises ih => rw [List.foldl_cons, ih, timer_insertAndCheckPromises]

/-! ## Phase 1 and the clock

Completed while the round is pending, Phase 1 ends it. Completed once the round has timed out, it makes
the phase pending again. -/

variable {a : ProposerAgent} {c : Env × Op}

theorem clocked_of_timer_eq {a' : ProposerAgent} (h : a'.timer = a.timer) (ha : a.Clocked) : a'.Clocked := by
  obtain ⟨hphase, hstart⟩ := Prod.mk.inj h
  rw [Clocked, hphase, hstart]
  exact ha

theorem processPrepare_eq_success_iff (p : Proposer) (minSlot : Slot) (promises : List Promise) :
    (p.processPrepare minSlot promises).1 = .success ↔
      p.quorum ≤ (promises.filter (fun pr => decide (pr.ballot = p.currentBallot))).length := by
  unfold Proposer.processPrepare
  dsimp only
  split
  · next hlt => exact ⟨nofun, fun hle => absurd hlt (Nat.not_lt.mpr hle)⟩
  · next hge => exact ⟨fun _ => Nat.le_of_not_lt hge, fun _ => rfl⟩

theorem processPrepare_ne_isEventDriven (p : Proposer) (minSlot : Slot) (promises : List Promise) :
    (p.processPrepare minSlot promises).1 ≠ .isEventDriven := by
  rcases p.processPrepare_cases minSlot promises with he | ⟨_, _, he⟩
  · rw [he]
    exact nofun
  · rw [he]
    exact nofun

/-- A completed Phase 1 is in time, unless the clock is stopped and the next prepare not sent. -/
theorem clocked_handlePrepareResult (ha : a.Clocked) (result : PrepareResult)
    (hlate : a.phase = .prepareSend → a.lastPrepareStart = none → result ≠ .success) :
    (a.handlePrepareResult result).Clocked := by
  cases result with
  | success =>
      intro hpending
      simp only [handlePrepareResult, advancePhase, setPhase] at hpending ⊢
      cases hphase : a.phase with
      | prepareSend =>
          cases hstart : a.lastPrepareStart with
          | none => exact absurd rfl (hlate hphase hstart)
          | some _ => rfl
      | start | preparePending | acceptCommit | stop | crash =>
          rw [hphase] at hpending
          cases hpending
  | quorumFailure => exact ha
  | isEventDriven => exact ha

/-- Completed late, it is pending without a clock. -/
theorem not_clocked_handlePrepareResult (hphase : a.phase = .prepareSend)
    (hstart : a.lastPrepareStart = none) : ¬ (a.handlePrepareResult .success).Clocked := by
  intro h
  have hsome := h (by simp [handlePrepareResult, advancePhase, setPhase, hphase])
  rw [show (a.handlePrepareResult .success).lastPrepareStart = none from hstart] at hsome
  cases hsome

/-- A prepare round that has started has its clock running. -/
theorem clocked_startPrepareRound (a : ProposerAgent) (env : Env) : (a.startPrepareRound env).Clocked :=
  fun _ => rfl

theorem proposer_handlePrepareResult (a : ProposerAgent) (result : PrepareResult) :
    (a.handlePrepareResult result).proposer = a.proposer := by
  cases result <;> rfl

/-- What `handle_message` does with a promise. -/
theorem handlePromise_eq (a : ProposerAgent) (sender : Node) (promise : Promise) :
    a.handlePromise sender promise = (a.insertAndCheckPromises promise sender).2 ∧
        (a.insertAndCheckPromises promise sender).1 = none ∨
      ∃ group, (a.insertAndCheckPromises promise sender).1 = some group ∧
        a.handlePromise sender promise =
          ((a.insertAndCheckPromises promise sender).2.processPromises promise.slot group.2).2.handlePrepareResult
            ((a.insertAndCheckPromises promise sender).2.processPromises promise.slot group.2).1 := by
  unfold handlePromise
  split
  · next ballot promises a' he =>
    rw [he]
    exact Or.inr ⟨_, rfl, rfl⟩
  · next a' he =>
    rw [he]
    exact Or.inl ⟨rfl, rfl⟩

theorem proposer_insertAndCheckPromises (a : ProposerAgent) (promise : Promise) (sender : Node) :
    (a.insertAndCheckPromises promise sender).2.proposer = a.proposer := by
  unfold insertAndCheckPromises
  dsimp only
  split <;> rfl

theorem clocked_handlePromise (ha : a.Clocked) (sender : Node) (promise : Promise)
    (hlate : a.phase = .prepareSend → a.lastPrepareStart = none →
      ¬ ∃ group ∈ (a.insertAndCheckPromises promise sender).1, a.Completes group.2) :
    (a.handlePromise sender promise).Clocked := by
  have htimer := a.timer_insertAndCheckPromises promise sender
  have hproposer := a.proposer_insertAndCheckPromises promise sender
  rcases a.handlePromise_eq sender promise with ⟨he, _⟩ | ⟨group, hgroup, he⟩
  · rw [he]
    exact clocked_of_timer_eq htimer ha
  · rw [he]
    generalize (a.insertAndCheckPromises promise sender).2 = a' at htimer hproposer ⊢
    apply clocked_handlePrepareResult
    · exact clocked_of_timer_eq (show (a'.processPromises _ _).2.timer = a'.timer from rfl)
        (clocked_of_timer_eq htimer ha)
    · intro hphase hstart hsuccess
      obtain ⟨hphase', hstart'⟩ := Prod.mk.inj htimer
      apply hlate (hphase' ▸ hphase) (hstart' ▸ hstart)
      refine ⟨group, hgroup, ?_⟩
      have hquorum := (processPrepare_eq_success_iff ..).mp hsuccess
      rw [hproposer] at hquorum
      exact hquorum

/-! ### A prepare round

It starts the clock if it waits for promises, and otherwise is over when it returns. -/

/-- A prepare round that does not wait for its promises. -/
theorem preparePhase_of_eventDriven (hev : a.config.isEventDriven = true) (env : Env) (slot : Slot)
    (ballot : Ballot) (promises : List Promise) :
    (a.preparePhase env slot ballot promises).1 = .isEventDriven ∧
      (a.preparePhase env slot ballot promises).2.Clocked := by
  unfold preparePhase broadcastPrepare
  simp only [hev, Bool.not_true, Bool.false_eq_true, if_false, true_and]
  exact clocked_of_timer_eq (timer_insertPromises _ promises) (clocked_startPrepareRound _ _)

/-- A prepare round that waits for its promises handles them at once. -/
theorem preparePhase_of_waiting (hev : a.config.isEventDriven = false) (env : Env) (slot : Slot)
    (ballot : Ballot) (promises : List Promise) :
    ∃ (a' : ProposerAgent) (responses : List Promise), a'.timer = a.timer ∧ a'.proposer = a.proposer ∧
      responses = (env.responses (a.message (.prepare { slot, ballot }))).filterMap (fun m =>
        match m.payload with
        | .promise promise => some promise
        | _ => none) ∧
      a.preparePhase env slot ballot promises =
        ((a'.processPromises slot (responses ++ promises)).1,
          (a'.processPromises slot (responses ++ promises)).2.handlePrepareResult
            (a'.processPromises slot (responses ++ promises)).1) := by
  refine ⟨a.send a.acceptors (.prepare { slot, ballot }), _, rfl, rfl, rfl, ?_⟩
  unfold preparePhase broadcastPrepare
  rw [hev]
  rfl

/-- A tick that sends a prepare is a prepare round with the next ballot. -/
theorem handleTick_prepareSend (h : a.phase = .prepareSend) (env : Env) :
    (a.handleTick env).2 =
      (preparePhase { a with proposer := (a.proposer.increaseBallot env).2 } env
        (nextSlot a.proposer.adu) (a.proposer.increaseBallot env).1 []).2 := by
  simp only [handleTick, h]
  generalize preparePhase _ _ _ _ _ = prepared
  obtain ⟨result, a'⟩ := prepared
  cases result <;> rfl

theorem clocked_preparePhase (ha : a.Clocked) (env : Env) (slot : Slot) (ballot : Ballot)
    (promises : List Promise) (hlate : ¬ a.CompletesLate (env, .preparePhase slot ballot promises)) :
    (a.preparePhase env slot ballot promises).2.Clocked := by
  cases hev : a.config.isEventDriven with
  | true => exact (preparePhase_of_eventDriven hev env slot ballot promises).2
  | false =>
      obtain ⟨a', responses, htimer, hproposer, rfl, he⟩ :=
        preparePhase_of_waiting hev env slot ballot promises
      rw [he]
      apply clocked_handlePrepareResult
      · exact clocked_of_timer_eq ((show (a'.processPromises _ _).2.timer = a'.timer from rfl).trans htimer) ha
      · intro hphase hstart hsuccess
        obtain ⟨hphase', hstart'⟩ := Prod.mk.inj htimer
        apply hlate
        refine ⟨hphase' ▸ hphase, hstart' ▸ hstart, hev, ?_⟩
        have hquorum := (processPrepare_eq_success_iff ..).mp hsuccess
        rw [hproposer] at hquorum
        exact hquorum

theorem clocked_checkPrepareTimeout (ha : a.Clocked) (env : Env) : (a.checkPrepareTimeout env).2.Clocked := by
  unfold checkPrepareTimeout
  split
  · next hphase =>
    split
    · split
      · intro hpending
        simp [advancePhase, setPhase, hphase] at hpending
      · exact ha
    · exact ha
  · exact ha

/-! ## Calls and runs

One kind of call leaves a pending round without a clock: a late completion of Phase 1. -/

/-- **A call keeps pending rounds timed** if it does not complete Phase 1 late. -/
theorem clocked_call (ha : a.Clocked) (hlate : ¬ a.CompletesLate c) (hret : (a.call c).1 = true) :
    (a.call c).2.Clocked := by
  obtain ⟨env, op⟩ := c
  cases op with
  | submitClientRequest req => exact ha
  | reserveNextChosenProposal => exact ha
  | createProposal => exact ha
  | preparePhase slot ballot promises => exact clocked_preparePhase ha env slot ballot promises hlate
  | acceptPhase value slot ballot accepts =>
      exact clocked_of_timer_eq (respects_timer.acceptPhase a env value slot ballot accepts) ha
  | broadcastLearn learn => exact ha
  | markProposalChosen slot => exact ha
  | markProposalFinalized slot => exact ha
  | proposalsToAccept => exact clocked_of_timer_eq (respects_timer.proposalsFor a [] _) ha
  | learnsToCommit => exact clocked_of_timer_eq (respects_timer.learnsFor a [] _) ha
  | processExecuted executed => exact clocked_of_timer_eq (respects_timer.processExecuted a env executed) ha
  | collectClientResponses => exact clocked_of_timer_eq (respects_timer.responsesFor a [] _) ha
  | retryLearns slots => exact clocked_of_timer_eq (respects_timer.retryLearns a env slots) ha
  | handleMessage m =>
      show (a.handleMessage env m).2.Clocked
      unfold handleMessage
      split
      · next promise hm =>
        apply clocked_handlePromise ha
        intro hphase hstart hcompletes
        apply hlate
        refine ⟨hphase, hstart, ?_⟩
        simp only [hm]
        exact hcompletes
      · exact clocked_of_timer_eq (respects_timer.handleAccepted a _ _) ha
      · split
        · exact ha
        · exact clocked_of_timer_eq (respects_timer.retryLearns a env _) ha
      · exact clocked_of_timer_eq (respects_timer.processExecuted a env _) ha
      · exact ha
      · exact ha
  | startLeaderLoop => exact fun hpending => by cases hpending
  | checkPrepareTimeout => exact clocked_checkPrepareTimeout ha env
  | becomeLeader => exact ha
  | resignLeader => exact ha
  | handleTick =>
      replace hret : (a.handleTick env).1.isOk = true := hret
      show (a.handleTick env).2.Clocked
      unfold handleTick at hret ⊢
      split at hret
      · split
        · split
          · unfold getLearnerAdu
            split
            · exact ha
            · exact ha
          · exact fun hpending => by cases hpending
        · exact ha
      · next hphase =>
        -- a tick that waits for its promises panics
        dsimp only at hret ⊢
        cases hev : a.config.isEventDriven with
        | true =>
            obtain ⟨hres, htimed⟩ := preparePhase_of_eventDriven
              (a := { a with proposer := (a.proposer.increaseBallot env).2 }) hev env
              (nextSlot a.proposer.adu) (a.proposer.increaseBallot env).1 []
            generalize preparePhase { a with proposer := (a.proposer.increaseBallot env).2 } env
              (nextSlot a.proposer.adu) (a.proposer.increaseBallot env).1 [] = prepared at hres htimed ⊢
            obtain ⟨result, a'⟩ := prepared
            obtain rfl : result = .isEventDriven := hres
            exact htimed
        | false =>
            obtain ⟨a', responses, _, _, _, he⟩ := preparePhase_of_waiting
              (a := { a with proposer := (a.proposer.increaseBallot env).2 }) hev env
              (nextSlot a.proposer.adu) (a.proposer.increaseBallot env).1 []
            rw [he] at hret
            have hne := processPrepare_ne_isEventDriven a'.proposer (nextSlot a.proposer.adu)
              (responses ++ [])
            split at hret
            · next hres => exact absurd (congrArg Prod.fst hres) hne
            · cases hret
      · exact clocked_checkPrepareTimeout ha env
      · exact clocked_of_timer_eq (respects_timer.acceptCommit a env) ha
      · exact ha
      · exact ha
  | sendHeartbeat => exact ha
  | maybeFlushState => exact ha

/-- A call that completes Phase 1 late returns, and leaves a pending round without a clock. -/
theorem not_clocked_call (hlate : a.CompletesLate c) :
    (a.call c).1 = true ∧ ¬ (a.call c).2.Clocked := by
  obtain ⟨env, op⟩ := c
  obtain ⟨hphase, hstart, hop⟩ := hlate
  cases op
  case handleMessage m =>
    refine ⟨rfl, ?_⟩
    show ¬ (a.handleMessage env m).2.Clocked
    unfold handleMessage
    dsimp only at hop
    split at hop
    · next promise hm =>
      obtain ⟨group, hgroup, hcompletes⟩ := hop
      simp only [hm]
      rcases a.handlePromise_eq m.sender promise with ⟨_, hnone⟩ | ⟨group', hgroup', he⟩
      · rw [Option.mem_def, hnone] at hgroup
        cases hgroup
      · -- the group that completes is the one the promise belongs to
        obtain rfl := Option.some.inj (hgroup'.symm.trans hgroup)
        have htimer := a.timer_insertAndCheckPromises promise m.sender
        have hproposer := a.proposer_insertAndCheckPromises promise m.sender
        rw [he]
        generalize (a.insertAndCheckPromises promise m.sender).2 = a' at htimer hproposer ⊢
        have hsuccess : (a'.processPromises promise.slot group'.2).1 = .success := by
          apply (processPrepare_eq_success_iff ..).mpr
          rw [hproposer]
          exact hcompletes
        rw [hsuccess]
        obtain ⟨hphase', hstart'⟩ := Prod.mk.inj htimer
        exact not_clocked_handlePrepareResult (hphase'.trans hphase) (hstart'.trans hstart)
    · exact hop.elim
  case preparePhase slot ballot promises =>
    refine ⟨rfl, ?_⟩
    -- here the promises come with the call
    obtain ⟨hev, hcompletes⟩ := hop
    obtain ⟨a', responses, htimer, hproposer, rfl, he⟩ :=
      preparePhase_of_waiting hev env slot ballot promises
    show ¬ (a.preparePhase env slot ballot promises).2.Clocked
    rw [he]
    have hsuccess := (processPrepare_eq_success_iff a.proposer slot _).mpr hcompletes
    rw [← hproposer] at hsuccess
    obtain ⟨hphase', hstart'⟩ := Prod.mk.inj htimer
    simp only [processPromises]
    rw [hsuccess]
    exact not_clocked_handlePrepareResult (hphase'.trans hphase) (hstart'.trans hstart)
  all_goals exact hop.elim

/-- **Pending prepares time out**: in a run of the proposer agent, every pending prepare round has its
clock running in every state, so that a check after the timeout ends it, if and only if no call of the
run completes Phase 1 while the clock is stopped and the next prepare not sent. -/
theorem pending_timed_iff (dir : Proposer.Dir) (env : Env) (node : Node) (nodes : List Node)
    (isLeader : Bool) (config : RunConfig) (calls : List (Env × Op)) :
    let x := Session.start dir env node nodes isLeader config
    Throughout Session.step (fun x => x.running = true → x.agent.Timed) x calls ↔
      Guarded Session.step (fun x c => x.running = true → ¬ x.agent.CompletesLate c) x calls := by
  intro x
  simp only [timed_iff_clocked]
  have hstep : ∀ (x : Session) c, (x.running = true → x.agent.Clocked) →
      (x.running = true → ¬ x.agent.CompletesLate c) →
      (x.step c).running = true → (x.step c).agent.Clocked := by
    intro x c hx hlate hrun
    cases hon : x.running with
    | true =>
        rw [Session.step_of_running hon] at hrun ⊢
        exact clocked_call (hx hon) (hlate hon) hrun
    | false =>
        rw [Session.step_of_not_running hon] at hrun
        exact absurd (hon.symm.trans hrun) Bool.false_ne_true
  constructor
  · intro h
    apply guarded_iff_atEach.mpr
    rintro before c after rfl hon hlate
    obtain ⟨hret, hnot⟩ := not_clocked_call hlate
    have hnext := h (before ++ [c]) (by simp)
    rw [run_snoc, Session.step_of_running hon] at hnext
    exact hnot (hnext hret)
  · rintro h es ⟨rest, rfl⟩
    refine run_invariant_of_guarded (P := fun x : Session => x.running = true → x.agent.Clocked)
      (fun x c hx hg => hstep x c hx hg) ?_ (guarded_append.mp h).1
    exact fun _ hpending => by cases hpending

/-- **A promise after the timeout**: the round of ballot 4 has timed out when its second promise
arrives, and the phase is pending again with the clock stopped. -/
theorem pending_without_clock :
    let promise (i : Nat) : Env × Op :=
      (.quiet, .handleMessage ⟨⟨i, "", .acceptor⟩, .promise ⟨1, 4, []⟩⟩)
    ¬ Throughout Session.step (fun x => x.running = true → x.agent.Timed)
      (Session.start .empty .quiet ⟨1, "", .proposer⟩
        [⟨11, "", .acceptor⟩, ⟨12, "", .acceptor⟩, ⟨13, "", .acceptor⟩] true .inMemory)
      [(.quiet, .startLeaderLoop), (.quiet, .handleTick), promise 11,
        ({ Env.quiet with now := RunConfig.inMemory.prepareTimeout }, .handleTick), promise 12] := by
  decide

end ProposerAgent

end PaxosWasm
