import PaxosWasm.Agents.Campaign

/-!
# A coordinator and its own acceptor

A coordinator puts its prepares and its proposals to its own acceptor first, and panics if this one
refuses: below the ballot it has promised, or where it has accepted another value. A turn ends in such
a panic exactly if the acceptor is in such a state before it.
-/

namespace PaxosWasm

open Library

/-! ## Refusals of the acceptor

Over a list of proposals, the acceptor that refuses one has accepted those before it. -/

namespace Acceptor

variable (a : Acceptor) (env : Env)

/-- The acceptor has promised a higher ballot, or accepted another value. -/
def Refuses (p : Proposal) : Prop :=
  p.ballot < a.highestPromisedBallot ∨
    ∃ existing ∈ a.accepted.get? p.slot, existing.value ≠ some p.value

/-- Of the proposals, put to the acceptor one after the other, one is refused. -/
def RefusesOne (env : Env) : Acceptor → List Proposal → Prop
  | _, [] => False
  | a, p :: ps => a.Refuses p ∨ RefusesOne env (a.accept env p.slot p.ballot p.value).2 ps

theorem accept_rejected_iff (p : Proposal) :
    (∃ b, (a.accept env p.slot p.ballot p.value).1 = .rejected b) ↔ a.Refuses p := by
  unfold Refuses
  rcases a.accept_cases env p.slot p.ballot p.value with
    ⟨b, he, hwhy⟩ | ⟨pv, hle, hget, hvalue, he⟩ | ⟨hle, hget, he⟩
  · rw [he]
    exact iff_of_true ⟨b, rfl⟩ (hwhy.imp_right (fun ⟨pv, hget, hne⟩ => ⟨pv, hget, hne⟩))
  · rw [he]
    refine iff_of_false nofun ?_
    rintro (hlt | ⟨pv', hget', hne⟩)
    · exact absurd hlt (not_lt.mpr hle)
    · obtain rfl := Option.some.inj (hget.symm.trans hget')
      exact hne hvalue
  · rw [he]
    refine iff_of_false nofun ?_
    rintro (hlt | ⟨pv', hget', -⟩)
    · exact absurd hlt (not_lt.mpr hle)
    · cases hget.symm.trans hget'

end Acceptor

/-! ## Panics of a coordinator

Panics are told apart by their texts. Those over a slot of the crash list are others. -/

/-- The panics over a refusal of the node's own acceptor. -/
def OwnRefusal (e : String) : Prop :=
  e = "Local prepare failure" ∨ e = "Local acceptance failure in coordinator.accept_phase"

/-- The call ends in such a panic. -/
def EndsRefused {α : Type} : Except String α → Prop
  | .ok _ => False
  | .error e => OwnRefusal e

instance : DecidablePred OwnRefusal := fun _ => inferInstanceAs (Decidable (_ ∨ _))

instance {α : Type} : (result : Except String α) → Decidable (EndsRefused result)
  | .ok _ => inferInstanceAs (Decidable False)
  | .error e => inferInstanceAs (Decidable (OwnRefusal e))

/-- The panics over a slot of the crash list read differently. -/
theorem not_ownRefusal_crash (slot : Slot) : ¬ OwnRefusal s!"Testing crash on slot {slot}" := by
  have hhead : ∀ s : String, s!"Testing crash on slot {slot}" = s → s.toList.head? = some 'T' := by
    rintro s rfl
    simp [String.toList_append]
    exact Or.inl (by decide)
  rintro (h | h)
  · exact absurd (hhead _ h) (by decide)
  · exact absurd (hhead _ h) (by decide)

namespace Trio

variable (t : Trio) (env : Env) (config : RunConfig) (node : Node)

/-- **A turn in which the node's own acceptor refuses**: a prepare below its promise, or a proposal
it objects to. -/
def Overruled : Prop :=
  match t.proposer.phase with
  | .prepareSend => t.proposer.proposer.currentBallot < t.acceptor.acceptor.highestPromisedBallot
  | .acceptCommit =>
      match t.proposer.proposalsToAccept.1 with
      | .ok props => t.acceptor.acceptor.RefusesOne env props
      | .error _ => False
  | _ => False

/-- The agents go by the configuration of the node. -/
def Configured : Prop := t.proposer.config = config ∧ t.acceptor.config = config

theorem frames_config : ProposerAgent.Frames (fun a a' => a'.config = a.config) where
  refl _ := rfl
  trans h h' := h'.trans h
  send _ _ _ _ := rfl
  core _ _ _ := rfl
  received _ _ := rfl
  responses _ _ := rfl

theorem proposalsFor_error (a : ProposerAgent) (toAccept : List Proposal) (fuel : Nat) :
    (∃ props, (a.proposalsFor toAccept fuel).1 = .ok props) ∨
      ∃ slot : Slot, (a.proposalsFor toAccept fuel).1 = .error s!"Testing crash on slot {slot}" := by
  induction fuel generalizing a toAccept with
  | zero => exact Or.inl ⟨_, rfl⟩
  | succ fuel ih =>
      unfold ProposerAgent.proposalsFor
      split
      · next prop a' _ =>
        split
        · exact Or.inr ⟨prop.slot, rfl⟩
        · exact ih a' _
      · exact Or.inl ⟨_, rfl⟩

theorem endsRefused_preparePhase : EndsRefused (t.preparePhase env).1 ↔
    t.proposer.proposer.currentBallot < t.acceptor.acceptor.highestPromisedBallot := by
  unfold preparePhase AcceptorAgent.processPrepare
  dsimp only
  rcases t.acceptor.acceptor.prepare_cases env (nextSlot t.learner.getAdu)
    t.proposer.proposer.currentBallot with ⟨hlt, he⟩ | ⟨hle, he, -⟩
  · rw [he]
    exact iff_of_true (Or.inl rfl) hlt
  · rw [he]
    exact iff_of_false id (not_lt.mpr hle)

theorem configured_commitLocally (hcfg : t.Configured config) (slot : Slot) (value : Value) :
    (t.commitLocally env config node slot value).1 = .ok () ∧
      (t.commitLocally env config node slot value).2.Configured config ∧
      (t.commitLocally env config node slot value).2.acceptor.acceptor = t.acceptor.acceptor := by
  obtain ⟨hproposer, hacceptor⟩ := hcfg
  unfold commitLocally AcceptorAgent.commitPhase
  rw [hacceptor]
  cases config.acceptorsSendLearns with
  | true => exact ⟨rfl, ⟨hproposer, hacceptor⟩, rfl⟩
  | false => exact ⟨rfl, ⟨hproposer, hacceptor⟩, rfl⟩

/-- **One round of the accept loop** panics over a refusal, or puts the proposal to the acceptor. -/
theorem acceptOne_refused (hcfg : t.Configured config) (hev : config.isEventDriven = true)
    (p : Proposal) :
    (t.acceptor.acceptor.Refuses p ∧ EndsRefused (t.acceptOne env config node p).1) ∨
      (¬ t.acceptor.acceptor.Refuses p ∧ (t.acceptOne env config node p).1 = .ok () ∧
        (t.acceptOne env config node p).2.Configured config ∧
        (t.acceptOne env config node p).2.acceptor.acceptor =
          (t.acceptor.acceptor.accept env p.slot p.ballot p.value).2) := by
  have hrejected := t.acceptor.acceptor.accept_rejected_iff env p
  unfold acceptOne AcceptorAgent.processAccept
  dsimp only
  cases hresult : (t.acceptor.acceptor.accept env p.slot p.ballot p.value).1 with
  | rejected b => exact Or.inl ⟨hrejected.mp ⟨b, hresult⟩, Or.inr rfl⟩
  | accepted acc =>
      have hnot : ¬ t.acceptor.acceptor.Refuses p := by
        intro hrefuses
        obtain ⟨b, hb⟩ := hrejected.mpr hrefuses
        cases hresult.symm.trans hb
      dsimp only
      have hphase := frames_config.acceptPhase t.proposer env p.value p.slot p.ballot [acc]
      have hdriven : (t.proposer.acceptPhase env p.value p.slot p.ballot [acc]).1 = .isEventDriven := by
        unfold ProposerAgent.acceptPhase ProposerAgent.broadcastAccept
        rw [hcfg.1, hev]
        rfl
      have hcommit := configured_commitLocally
        { t with
          acceptor := (t.acceptor.processAccept env p.slot p.ballot p.value).2
          proposer := (t.proposer.acceptPhase env p.value p.slot p.ballot [acc]).2 }
        env config node ⟨hphase.trans hcfg.1, hcfg.2⟩ p.slot p.value
      unfold AcceptorAgent.processAccept at hcommit
      refine Or.inr ⟨hnot, ?_⟩
      rw [hdriven]
      generalize Trio.commitLocally _ env config node p.slot p.value = committed at hcommit ⊢
      obtain ⟨result, t'⟩ := committed
      obtain ⟨hok, hcfg', hsame⟩ := hcommit
      obtain rfl : result = .ok () := hok
      exact ⟨rfl, hcfg', hsame⟩

theorem endsRefused_acceptEach (hcfg : t.Configured config) (hev : config.isEventDriven = true)
    (ps : List Proposal) :
    EndsRefused (t.acceptEach env config node ps).1 ↔ t.acceptor.acceptor.RefusesOne env ps := by
  induction ps generalizing t with
  | nil => exact Iff.rfl
  | cons p ps ih =>
      unfold acceptEach Acceptor.RefusesOne
      rcases t.acceptOne_refused env config node hcfg hev p with
        ⟨hrefuses, hends⟩ | ⟨hnot, hok, hcfg', hsame⟩
      · refine iff_of_true ?_ (Or.inl hrefuses)
        split
        · next e t' he =>
          rw [he] at hends
          exact hends
        · next t' he =>
          rw [he] at hends
          exact hends.elim
      · split
        · next e t' he =>
          rw [he] at hok
          cases hok
        · next t' he =>
          rw [he] at hcfg' hsame
          rw [ih t' hcfg', hsame]
          exact (or_iff_right hnot).symm

theorem endsRefused_acceptPhase (hcfg : t.Configured config) (hev : config.isEventDriven = true) :
    EndsRefused (t.acceptPhase env config node).1 ↔
      ∃ props, t.proposer.proposalsToAccept.1 = .ok props ∧
        t.acceptor.acceptor.RefusesOne env props := by
  have hproposals := frames_config.proposalsFor t.proposer [] t.proposer.config.batchSize
  have hcrash := proposalsFor_error t.proposer [] t.proposer.config.batchSize
  change (t.proposer.proposalsToAccept.2).config = _ at hproposals
  change (∃ props, t.proposer.proposalsToAccept.1 = .ok props) ∨ ∃ slot : Slot,
    t.proposer.proposalsToAccept.1 = .error s!"Testing crash on slot {slot}" at hcrash
  unfold acceptPhase
  generalize t.proposer.proposalsToAccept = created at hproposals hcrash ⊢
  obtain ⟨result, proposer⟩ := created
  rcases hcrash with ⟨props, rfl⟩ | ⟨slot, rfl⟩
  · have heach := endsRefused_acceptEach { t with proposer } env config node
      ⟨hproposals.trans hcfg.1, hcfg.2⟩ hev props
    dsimp only
    by_cases hnil : props = []
    · subst hnil
      rw [if_pos rfl]
      refine iff_of_false id ?_
      rintro ⟨props, he, hrefused⟩
      cases he
      exact hrefused
    · rw [if_neg hnil, heach]
      constructor
      · exact fun h => ⟨props, rfl, h⟩
      · rintro ⟨props', he, hrefused⟩
        cases he
        exact hrefused
  · refine iff_of_false (not_ownRefusal_crash slot) ?_
    rintro ⟨props, he, -⟩
    cases he

/-- **A leader's turn ends in a refusal** if and only if the node is overruled. -/
theorem endsRefused_leaderTick (hcfg : t.Configured config) (hev : config.isEventDriven = true) :
    EndsRefused (t.leaderTick env config node).1 ↔ t.Overruled env := by
  have hprepare := t.endsRefused_preparePhase env
  have haccept := t.endsRefused_acceptPhase env config node hcfg hev
  unfold leaderTick Overruled
  cases hphase : t.proposer.phase with
  | prepareSend =>
      dsimp only
      rw [← hprepare]
      generalize t.preparePhase env = turn
      obtain ⟨result, t'⟩ := turn
      cases result <;> exact Iff.rfl
  | acceptCommit =>
      dsimp only
      have hmatch : (match t.proposer.proposalsToAccept.1 with
          | .ok props => t.acceptor.acceptor.RefusesOne env props
          | .error _ => False) ↔
          ∃ props, t.proposer.proposalsToAccept.1 = .ok props ∧
            t.acceptor.acceptor.RefusesOne env props := by
        cases t.proposer.proposalsToAccept.1 <;> simp
      rw [hmatch, ← haccept]
      generalize t.acceptPhase env config node = turn
      obtain ⟨result, t'⟩ := turn
      cases result <;> exact Iff.rfl
  | start | preparePending | stop | crash => exact Iff.rfl

theorem respects_config : ProposerAgent.Respects (fun a a' => a'.config = a.config) where
  toFrames := frames_config
  adu _ _ _ := rfl

theorem Configured.upkeep (hcfg : t.Configured config) : (t.upkeep config env).Configured config :=
  ⟨(respects_config.trioUpkeep t env config (fun _ _ => rfl)).trans hcfg.1,
    (respects_upkeep env config AcceptorAgent.pieces_config.respects).trans hcfg.2⟩

/-- A node that leads and is overruled after the upkeep of the tick. -/
def OverruledIn (env : Env) (config : RunConfig) : Prop :=
  (t.upkeep config env).proposer.proposer.isLeader = true ∧ (t.upkeep config env).Overruled env

theorem endsRefused_handleTick (hcfg : t.Configured config) (hev : config.isEventDriven = true) :
    EndsRefused (t.handleTick env config node).1 ↔ t.OverruledIn env config := by
  rw [handleTick_eq, OverruledIn]
  cases hleads : (t.upkeep config env).proposer.proposer.isLeader with
  | false => exact iff_of_false id (fun h => Bool.false_ne_true h.1)
  | true =>
      rw [← endsRefused_leaderTick _ env config node (Configured.upkeep t env config hcfg) hev]
      exact (and_iff_right rfl).symm

end Trio

end PaxosWasm
