import PaxosWasm.Agents.AcceptorRuns
import PaxosWasm.Agents.LearnerExecution

/-!
# What acceptors and learners report to the proposers

A promise reports values its acceptor holds; an `Adu` and an `Executed` report the cursor of their
learner, and a cursor moves over learned slots only.
-/

namespace PaxosWasm

open Library

namespace AcceptorAgent

/-! ## Promises

A promise is made of what the acceptor holds. So a fact about all values in a promise is one about the
values that acceptors hold. -/

/-- Every entry of a promise carries a value known for some slot. -/
def Known (P : Slot → Value → Prop) (p : Promise) : Prop :=
  ∀ pv ∈ p.accepted, ∃ slot, Acceptor.EntryIn P slot pv

/-- Every promise the agent has sent is known. -/
def Promising (P : Slot → Value → Prop) (a : AcceptorAgent) : Prop :=
  ∀ s ∈ a.networkClient.sent, ∀ p, s.message.payload = .promise p → Known P p

variable {P P' : Slot → Value → Prop} {a : AcceptorAgent} (env : Env)

theorem Promising.mono (hP : ∀ s v, P s v → P' s v) (h : a.Promising P) : a.Promising P' := by
  intro s hs p hp pv hpv
  obtain ⟨slot, hentry⟩ := h s hs p hp pv hpv
  exact ⟨slot, hentry.mono hP⟩

/-- A promise reports what the acceptor holds. -/
theorem known_of_processPrepare (hheld : Acceptor.MapIn P a.acceptor.accepted) {slot : Slot}
    {ballot : Ballot} {p : Promise} (h : (a.processPrepare env slot ballot).1 = .promised p) :
    Known P p := by
  replace h : (a.acceptor.prepare env slot ballot).1 = .promised p := h
  rcases a.acceptor.prepare_cases env slot ballot with ⟨_, he⟩ | ⟨_, he, _⟩
  · rw [he] at h
    cases h
  · rw [he] at h
    intro pv hpv
    rw [← PromiseResult.promised.inj h] at hpv
    obtain ⟨k, _, hk⟩ := OrdMap.mem_valuesFrom.mp hpv
    exact ⟨k, hheld k pv hk⟩

theorem Promising.send (h : a.Promising P) (ts : List Node) {payload : MessagePayload}
    (hpayload : ∀ p, payload = .promise p → Known P p) : (a.send ts payload).Promising P := by
  intro s hs p hp
  rcases List.mem_append.mp (show s ∈ a.networkClient.sent ++ _ from hs) with hs | hs
  · exact h s hs p hp
  · rw [List.mem_singleton.mp hs] at hp
    exact hpayload p hp

theorem Promising.commitPhase (h : a.Promising P) (slot : Slot) (value : Value) :
    (a.commitPhase slot value).2.Promising P := by
  unfold AcceptorAgent.commitPhase
  split
  · exact h.send _ nofun
  · exact h

theorem Promising.retryLearns (h : a.Promising P) (slots : List Slot) :
    (a.retryLearns slots).Promising P := by
  unfold AcceptorAgent.retryLearns
  induction slots generalizing a with
  | nil => exact h
  | cons slot slots ih => exact ih (h.send _ nofun)

theorem Promising.handleMessage (h : a.Promising P) (hheld : Acceptor.MapIn P a.acceptor.accepted)
    (m : NetworkMessage) : (a.handleMessage env m).2.Promising P := by
  unfold AcceptorAgent.handleMessage
  split
  · next p hp =>
    have hsame : (a.processPrepare env p.slot p.ballot).2.Promising P := h
    unfold AcceptorAgent.handlePrepare
    split
    · next q a' he =>
      rw [he] at hsame
      dsimp only
      split
      · refine hsame.send _ (fun q' hq' => ?_)
        obtain rfl := MessagePayload.promise.inj hq'
        exact known_of_processPrepare env hheld (congrArg Prod.fst he)
      · exact hsame
    · next he =>
      rw [he] at hsame
      exact hsame
  · next p hp =>
    have hsame : (a.processAccept env p.slot p.ballot p.value).2.Promising P := h
    unfold AcceptorAgent.handleAccept
    split
    · next he =>
      rw [he] at hsame
      dsimp only
      split
      · split
        · exact hsame.send _ nofun
        · exact hsame.send _ nofun
      · exact hsame
    · next he =>
      rw [he] at hsame
      exact hsame
  · exact h.retryLearns _
  · exact h

end AcceptorAgent

/-! ## Cursors

A learner agent reports its cursor with its results, and when it is asked for it. The cursor passes a slot
only when the learner holds a value for it. -/

/-- All slots up to `n`. -/
def Upto (L : Slot → Prop) (n : Slot) : Prop := ∀ s, 1 ≤ s → s ≤ n → L s

theorem upto_zero (L : Slot → Prop) : Upto L 0 :=
  fun _ h1 h0 => absurd (le_trans h1 h0) (Nat.not_succ_le_zero 0)

theorem Upto.mono {L L' : Slot → Prop} (hL : ∀ s, L s → L' s) {n : Slot} (h : Upto L n) :
    Upto L' n :=
  fun s h1 hn => hL s (h s h1 hn)

namespace LearnerAgent

/-- The cursor a message reports covers slots of `L`. -/
def Covers (L : Slot → Prop) (s : Sent) : Prop :=
  match s.message.payload with
  | .adu adu => Upto L adu
  | .executed exec => Upto L exec.adu
  | _ => True

/-- **The cursor and its reports**: they stay behind slots of `L`, those that have been learned. -/
structure Passed (L : Slot → Prop) (a : LearnerAgent) : Prop where
  cursor : Upto L a.getAdu
  reports : ∀ s ∈ a.networkClient.sent, Covers L s

/-- Every slot the learner holds a value for is in `L`. -/
def Holding (L : Slot → Prop) (a : LearnerAgent) : Prop :=
  ∀ slot value, a.learner.learned.get? slot = some value → L slot

variable {L L' : Slot → Prop} {a : LearnerAgent} (env : Env)

theorem Covers.mono (hL : ∀ s, L s → L' s) {s : Sent} (h : Covers L s) : Covers L' s := by
  unfold Covers at h ⊢
  split
  · next hp =>
    rw [hp] at h
    exact h.mono hL
  · next hp =>
    rw [hp] at h
    exact h.mono hL
  · trivial

theorem Passed.mono (hL : ∀ s, L s → L' s) (h : a.Passed L) : a.Passed L' :=
  ⟨h.cursor.mono hL, fun s hs => (h.reports s hs).mono hL⟩

/-- The rest of the agent does not matter. -/
theorem Passed.congr (h : a.Passed L) {a' : LearnerAgent} (hadu : a'.getAdu = a.getAdu)
    (hsent : a'.networkClient = a.networkClient) : a'.Passed L :=
  ⟨hadu ▸ h.cursor, hsent ▸ h.reports⟩

theorem Passed.send (h : a.Passed L) (ts : List Node) {payload : MessagePayload}
    (hpayload : Covers L { targets := ts, message := a.message payload }) :
    (a.send ts payload).Passed L := by
  refine ⟨h.cursor, fun s hs => ?_⟩
  rcases List.mem_append.mp (show s ∈ a.networkClient.sent ++ _ from hs) with hs | hs
  · exact h.reports s hs
  · rw [List.mem_singleton.mp hs]
    exact hpayload

/-- Recording a learn moves no cursor. -/
theorem Passed.recordLearn (h : a.Passed L) (slot : Slot) (value : Value) (sender : Node) :
    (a.recordLearn env slot value sender).2.Passed L := by
  refine h.congr ?_ ?_
  · rw [getAdu, learner_recordLearn]
    split
    · rcases a.learner.handleLearn_cases env { slot, value } sender with he | ⟨v, _, he⟩
      · exact congrArg (fun x => x.2.adu) he
      · rw [he]
        exact (Learner.learn_cases _ env slot v).1
    · exact (a.learner.learn_cases env slot value).1
  · unfold LearnerAgent.recordLearn
    dsimp only
    split <;> (split <;> rfl)

/-- **Execution moves the cursor over slots the learner holds.** -/
theorem Passed.executeChosenLearns (h : a.Passed L) (hheld : a.Holding L) :
    (a.executeChosenLearns env).Passed L := by
  obtain ⟨n, hlearned, _, l, hadu, _, _, _, _, he⟩ := a.executeChosenLearns_spec env
  obtain ⟨hlearner, hsent, _⟩ := frame_executeEntries
    ((List.range' (a.getAdu + 1) n).map (Learner.entryAt a.learner.learned)) { a with learner := l }
  rw [he]
  refine ⟨?_, ?_⟩
  · intro s h1 hs
    rw [getAdu, hlearner] at hs
    by_cases hold : s ≤ a.getAdu
    · exact h.cursor s h1 hold
    · have hrange : s ∈ List.range' (a.getAdu + 1) n := by
        apply List.mem_range'_1.mpr
        exact ⟨Nat.lt_of_not_le hold, by lia⟩
      obtain ⟨v, hv⟩ := hlearned s hrange
      exact hheld s v hv
  · rw [hsent]
    exact h.reports

/-! ### What is sent -/

theorem Passed.collectExecuted (h : a.Passed L) (batchSize : Option Nat) (full : Bool) :
    (a.collectExecuted batchSize full).2.Passed L ∧
      Upto L (a.collectExecuted batchSize full).1.adu := by
  obtain ⟨k, hk⟩ := a.collectExecuted_spec batchSize full
  rw [hk]
  exact ⟨h.congr rfl rfl, h.cursor⟩

theorem Passed.dispatchExecuted (h : a.Passed L) {exec : Executed} (hexec : Upto L exec.adu) :
    (a.dispatchExecuted exec).2.Passed L := by
  unfold LearnerAgent.dispatchExecuted
  split
  · exact h
  · split
    · exact h.send _ hexec
    · exact h

theorem Passed.evaluateRetry (h : a.Passed L) : (a.evaluateRetry env).2.Passed L := by
  unfold LearnerAgent.evaluateRetry
  dsimp only
  split
  · exact h
  · split <;> exact h.congr rfl rfl

theorem Passed.sendRetryLearns (h : a.Passed L) (slots : List Slot) :
    (a.sendRetryLearns slots).Passed L := by
  unfold LearnerAgent.sendRetryLearns
  split <;> exact h.send _ trivial

theorem Passed.handleEvaluateRetry (h : a.Passed L) : (a.handleEvaluateRetry env).Passed L := by
  have hretry := h.evaluateRetry env
  unfold LearnerAgent.handleEvaluateRetry
  split
  · next he =>
    rw [he] at hretry
    exact hretry
  · next he =>
    rw [he] at hretry
    exact hretry
  · next he =>
    rw [he] at hretry
    exact hretry.sendRetryLearns _

theorem Passed.maybeFlushState (h : a.Passed L) : (a.maybeFlushState env).Passed L :=
  h.congr rfl rfl

theorem Passed.sendHeartbeat (h : a.Passed L) : a.sendHeartbeat.Passed L := h.send _ trivial

theorem Passed.handleTick (h : a.Passed L) (hheld : a.Holding L) : (a.handleTick env).Passed L := by
  have hretry := h.handleEvaluateRetry env
  have hheld₁ : (a.handleEvaluateRetry env).Holding L := by
    rw [Holding, (a.sameCore_handleEvaluateRetry env).1]
    exact hheld
  unfold LearnerAgent.handleTick
  generalize a.handleEvaluateRetry env = a₁ at hretry hheld₁
  dsimp only
  split
  · exact hretry
  · have hclock : Passed L { a₁ with lastExecTime := env.now } := hretry.congr rfl rfl
    have hexec := hclock.executeChosenLearns env hheld₁
    generalize LearnerAgent.executeChosenLearns { a₁ with lastExecTime := env.now } env = a₂
      at hexec ⊢
    refine Passed.maybeFlushState env ?_
    split
    · obtain ⟨hcollect, hadu⟩ := hexec.collectExecuted (some a₂.config.messageBatchSize) false
      split
      · exact hcollect
      · exact hcollect.dispatchExecuted hadu
    · exact hexec

/-- The slots a learner holds once it has recorded the learn a message brings. -/
def HoldingAfter (L : Slot → Prop) (a : LearnerAgent) (env : Env) (m : NetworkMessage) : Prop :=
  ∀ learn, m.payload = .learn learn →
    (a.recordLearn env learn.slot learn.value m.sender).2.Holding L

theorem Passed.handleMessage (h : a.Passed L) {m : NetworkMessage} (hheld : a.HoldingAfter L env m) :
    (a.handleMessage env m).2.Passed L := by
  unfold LearnerAgent.handleMessage
  split
  · next l hl =>
    have hrecord := h.recordLearn env l.slot l.value m.sender
    have hafter := hheld l hl
    split
    · next he =>
      rw [he] at hrecord
      exact hrecord
    · next a₁ he =>
      rw [he] at hrecord hafter
      have hexec := hrecord.executeChosenLearns env hafter
      dsimp only at hexec ⊢
      generalize a₁.executeChosenLearns env = a₂ at hexec ⊢
      split
      · obtain ⟨hcollect, hadu⟩ := hexec.collectExecuted (some a₂.config.messageBatchSize) true
        have hdispatch := hcollect.dispatchExecuted hadu
        split
        · next hd =>
          rw [hd] at hdispatch
          exact hdispatch
        · next hd =>
          rw [hd] at hdispatch
          exact hdispatch
      · exact hexec
  · exact h.send _ h.cursor
  · exact h

end LearnerAgent

end PaxosWasm
