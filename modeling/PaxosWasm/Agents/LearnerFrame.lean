import PaxosWasm.Agents.Node
import PaxosWasm.Core.LearnerQuorum

/-!
# What calls do to the core learner

The core learner of a node changes in four operations only: a vote, a learn, the walk of the cursor
and a flush. A relation that these respect is respected by every call of the node.

`Learner.Respects` are the relations that are kept by the four operations. Each handler of a learner
agent and each piece of a tick is a chain of operations, and so is a call of a node
(`Learner.Respects.call`). The two instances at the end say that votes stay counted, and that no quorum
is overlooked.
-/

namespace PaxosWasm

open Library

/-- A relation between a core learner and a later one that its operations respect. -/
structure Learner.Respects (Q : Learner → Learner → Prop) : Prop where
  refl : ∀ l, Q l l
  trans : ∀ {l l' l''}, Q l l' → Q l' l'' → Q l l''
  handleLearn : ∀ l env learn sender, Q l (l.handleLearn env learn sender).2
  learn : ∀ l env slot value, Q l (l.learn env slot value).2
  execute : ∀ l env, Q l (l.toBeExecuted env).2
  flush : ∀ l env, Q l (l.maybeFlush env).2

namespace Learner.Respects

variable {Q : Learner → Learner → Prop} (hQ : Learner.Respects Q) (env : Env)

include hQ

/-! ## The learner agent

It records learns and executes; the rest of its handlers does not reach the core learner. -/

section Agent

variable (a : LearnerAgent)

theorem of_sameCore {a' : LearnerAgent} (h : a.SameCore a') : Q a.learner a'.learner := by
  rw [h.1]
  exact hQ.refl _

theorem recordLearn (slot : Slot) (value : Value) (sender : Node) :
    Q a.learner (a.recordLearn env slot value sender).2.learner := by
  rw [a.learner_recordLearn]
  split
  · exact hQ.handleLearn ..
  · exact hQ.learn ..

theorem executeChosenLearns : Q a.learner (a.executeChosenLearns env).learner := by
  have hexecute := hQ.execute a.learner env
  unfold LearnerAgent.executeChosenLearns
  split
  · next entries learner he =>
    rw [he] at hexecute
    rw [(LearnerAgent.frame_executeEntries entries _).1]
    exact hexecute
  · next learner he =>
    rw [he] at hexecute
    exact hexecute

theorem learnerTick : Q a.learner (a.handleTick env).learner := by
  have hretry := hQ.of_sameCore a (a.sameCore_handleEvaluateRetry env)
  unfold LearnerAgent.handleTick
  dsimp only
  split
  · exact hretry
  · have hexecute := hQ.trans hretry
      (hQ.executeChosenLearns env { a.handleEvaluateRetry env with lastExecTime := env.now })
    refine hQ.trans hexecute ?_
    generalize LearnerAgent.executeChosenLearns _ env = a'
    have hcollect := hQ.of_sameCore a'
      (a'.sameCore_collectExecuted (some a'.config.messageBatchSize) false)
    split
    · split
      · exact hQ.trans hcollect (hQ.flush _ env)
      · exact hQ.trans hcollect
          (hQ.trans (hQ.of_sameCore _ (LearnerAgent.sameCore_dispatchExecuted _ _)) (hQ.flush _ env))
    · exact hQ.flush _ env

/-- A learn is recorded first. -/
theorem learnerLearn {m : NetworkMessage} {learn : Learn} (hm : m.payload = .learn learn) :
    Q (a.recordLearn env learn.slot learn.value m.sender).2.learner
      (a.handleMessage env m).2.learner := by
  unfold LearnerAgent.handleMessage
  rw [hm]
  dsimp only
  split
  · next a' he =>
    rw [he]
    exact hQ.refl _
  · next a' he =>
    rw [he]
    have hexecute := hQ.executeChosenLearns env a'
    dsimp only
    generalize a'.executeChosenLearns env = a'' at hexecute ⊢
    have hcollect := hQ.of_sameCore a''
      (a''.sameCore_collectExecuted (some a''.config.messageBatchSize) true)
    split
    · have hsent := hQ.of_sameCore _ (LearnerAgent.sameCore_dispatchExecuted
        (a''.collectExecuted (some a''.config.messageBatchSize) true).2
        (a''.collectExecuted (some a''.config.messageBatchSize) true).1)
      have hall := hQ.trans hexecute (hQ.trans hcollect hsent)
      split
      · next he' =>
        rw [he'] at hall
        exact hall
      · next he' =>
        rw [he'] at hall
        exact hall
    · exact hexecute

theorem learnerMessage (m : NetworkMessage) : Q a.learner (a.handleMessage env m).2.learner := by
  cases hm : m.payload with
  | learn learn =>
      exact hQ.trans (hQ.recordLearn env a learn.slot learn.value m.sender)
        (hQ.learnerLearn env a hm)
  | _ =>
      unfold LearnerAgent.handleMessage
      rw [hm]
      exact hQ.refl _

end Agent

/-! ## A coordinator

Its learner is told of local acceptances and of learns in the same tick in which they happen. -/

section Trio

variable (t : Trio) (config : RunConfig) (node : Node)

theorem trioUpkeep : Q t.learner.learner (t.upkeep config env).learner.learner := by
  have hretry : Q t.learner.learner (t.maybeRetryLearn config env).learner.learner := by
    have heval := hQ.of_sameCore t.learner (t.learner.sameCore_evaluateRetry env)
    unfold Trio.maybeRetryLearn
    split
    · next he =>
      rw [he] at heval
      exact heval
    · next he =>
      rw [he] at heval
      exact heval
    · next slots learner he =>
      rw [he] at heval
      unfold Trio.retryLearns
      split <;> exact heval
  have hdrive : ∀ t : Trio, Q t.learner.learner (t.driveLearner env).learner.learner := by
    intro t
    have hexecute := hQ.executeChosenLearns env t.learner
    have hcollect := hQ.of_sameCore _ ((t.learner.executeChosenLearns env).sameCore_collectExecuted
      none false)
    unfold Trio.driveLearner
    dsimp only
    split <;> exact hQ.trans hexecute hcollect
  refine hQ.trans (hQ.trans hretry (hdrive _)) ?_
  show Q _ (Trio.maybeFlushStates _ _ _).learner.learner
  unfold Trio.maybeFlushStates
  split
  · exact hQ.flush _ env
  · exact hQ.refl _

theorem trioCommitLocally (slot : Slot) (value : Value) :
    Q t.learner.learner (t.commitLocally env config node slot value).2.learner.learner := by
  unfold Trio.commitLocally
  split
  · split
    · exact hQ.refl _
    · exact hQ.refl _
    · exact hQ.recordLearn env t.learner _ _ _
  · exact hQ.refl _

theorem trioAcceptOne (p : Proposal) :
    Q t.learner.learner (t.acceptOne env config node p).2.learner.learner := by
  rcases Trio.acceptOne_cases env config node t p with ⟨e, he⟩ | ⟨-, he⟩
  · rw [he]
    exact hQ.refl _
  · rw [he]
    exact hQ.trioCommitLocally env (t.broadcast env p) config node p.slot p.value

theorem trioAcceptEach (ps : List Proposal) :
    Q t.learner.learner (t.acceptEach env config node ps).2.learner.learner := by
  induction ps generalizing t with
  | nil => exact hQ.refl _
  | cons p ps ih =>
      have hone := hQ.trioAcceptOne env t config node p
      unfold Trio.acceptEach
      split
      · next he =>
        rw [he] at hone
        exact hone
      · next t' he =>
        rw [he] at hone
        exact hQ.trans hone (ih t')

theorem trioCommitPhase :
    Q t.learner.learner (t.commitPhase env config node).2.learner.learner := by
  have hfold : ∀ (learns : List Learn) (t : Trio),
      Q t.learner.learner (learns.foldl (Trio.commitOne env node) t).learner.learner := by
    intro learns
    induction learns with
    | nil => exact fun t => hQ.refl _
    | cons learn learns ih =>
        exact fun t => hQ.trans (hQ.recordLearn env t.learner learn.slot learn.value node)
          (ih (Trio.commitOne env node t learn))
  unfold Trio.commitPhase
  dsimp only
  split
  · exact hfold t.proposer.learnsToCommit.1 { t with proposer := t.proposer.learnsToCommit.2 }
  · exact hQ.refl _

theorem trioTick : Q t.learner.learner (t.handleTick env config node).2.learner.learner := by
  have hup := hQ.trioUpkeep env t config
  rw [Trio.handleTick_eq]
  split
  · exact hup
  · refine hQ.trans hup ?_
    generalize t.upkeep config env = t
    unfold Trio.leaderTick
    split
    · exact hQ.refl _
    · -- Phase 1 leaves the learner alone, whether it panics or not
      have hprepare : (t.preparePhase env).2.learner = t.learner := by
        unfold Trio.preparePhase
        dsimp only
        split <;> rfl
      split
      · next he =>
        rw [he] at hprepare
        rw [← hprepare]
        exact hQ.refl _
      · next he =>
        rw [he] at hprepare
        rw [← hprepare]
        exact hQ.refl _
    · exact hQ.refl _
    · have haccept : Q t.learner.learner (t.acceptPhase env config node).2.learner.learner := by
        unfold Trio.acceptPhase
        split
        · exact hQ.refl _
        · next props proposer _ =>
          split
          · exact hQ.refl _
          · exact hQ.trioAcceptEach env { t with proposer } config node props
      split
      · next he =>
        rw [he] at haccept
        exact haccept
      · next t' he =>
        rw [he] at haccept
        -- the commit phase runs only behind an accept phase without a panic
        exact hQ.trans haccept (hQ.trioCommitPhase env t' config node)
    · exact hQ.refl _
    · exact hQ.refl _

theorem learner_trioRetryLearns (slots : List Slot) :
    Q t.learner.learner (t.retryLearns config env slots).learner.learner := by
  unfold Trio.retryLearns
  split <;> exact hQ.refl _

end Trio

omit env in
/-- **Whatever is called**, the core learner of a node does what its operations respect. -/
theorem call (n : PaxosCoordinator) (e : Process.Event) {l : LearnerAgent} (hl : n.learner? = some l) :
    ∃ l', (Process.call n e).2.learner? = some l' ∧ Q l.learner l'.learner := by
  by_cases hjoint : ∃ t, n.Joint t e
  · obtain ⟨t, hagents, hevent⟩ := hjoint
    obtain ⟨config, node, nodes, agents⟩ := n
    obtain rfl : agents = .coordinator t := hagents
    obtain rfl := Option.some.inj hl
    rcases hevent with ⟨env, rfl⟩ | ⟨env, slots, rfl⟩
    · exact ⟨_, rfl, hQ.trioTick env t config node⟩
    · exact ⟨_, rfl, hQ.learner_trioRetryLearns env t config slots⟩
  · obtain ⟨-, -, hlearner, -⟩ := n.call_cases e (fun t ht => hjoint ⟨t, ht⟩)
    refine ⟨_, by rw [hlearner, hl]; rfl, ?_⟩
    cases e with
    | tick env => exact hQ.learnerTick env l
    | message env m =>
        unfold PaxosCoordinator.onLearner
        dsimp only
        split
        · exact hQ.learnerMessage env l m
        · exact hQ.refl _
    | sendHeartbeat =>
        unfold PaxosCoordinator.onLearner
        dsimp only
        split <;> exact hQ.refl _
    | retryLearns env slots => exact hQ.of_sameCore l (l.sameCore_sendRetryLearns slots)
    | _ => exact hQ.refl _

end Learner.Respects

namespace Learner

/-! ## Votes stay, and a quorum is seen

Where nothing is learned yet, a count is made at every vote. So the vote that completes a quorum is the
one at which the value is learned. -/

/-- The learner has counted a vote of `i` for `slot`. -/
def Counts (l : Learner) (slot : Slot) (i : NodeId) : Prop :=
  ∃ group, l.slotLearns.get? slot = some group ∧ ∃ learn, group.get? i = some learn

theorem counts_storeVote {l : Learner} {slot : Slot} {i : NodeId} (learn : Learn) (sender : Node) :
    (l.storeVote learn sender).Counts slot i ↔
      (slot = learn.slot ∧ i = sender.nodeId) ∨ l.Counts slot i := by
  unfold Counts storeVote
  dsimp only
  rw [OrdMap.get?_insert]
  by_cases hslot : slot = learn.slot
  · subst hslot
    simp only [if_true, Option.some.injEq, exists_eq_left', true_and]
    by_cases hi : i = sender.nodeId
    · subst hi
      exact iff_of_true ⟨_, OrdMap.get?_insert_self ..⟩ (Or.inl rfl)
    · rw [OrdMap.get?_insert, if_neg hi]
      cases l.slotLearns.get? learn.slot <;> simp [hi]
  · simp [hslot]

theorem slotLearns_handleLearn (l : Learner) (env : Env) (learn : Learn) (sender : Node) :
    (l.handleLearn env learn sender).2.slotLearns = (l.storeVote learn sender).slotLearns := by
  obtain ⟨order, he⟩ := l.exists_order env learn sender
  rw [he]
  exact (l.handleLearnIn_spec order env learn sender).2.2.1

theorem counts_handleLearn {l : Learner} {slot : Slot} {i : NodeId} (env : Env) (learn : Learn)
    (sender : Node) : (l.handleLearn env learn sender).2.Counts slot i ↔
      (slot = learn.slot ∧ i = sender.nodeId) ∨ l.Counts slot i := by
  unfold Counts
  rw [l.slotLearns_handleLearn]
  exact counts_storeVote learn sender

theorem slotLearns_toBeExecuted (l : Learner) (env : Env) :
    (l.toBeExecuted env).2.slotLearns = l.slotLearns ∧
      (l.toBeExecuted env).2.quorum = l.quorum := by
  obtain ⟨n, -, -, ⟨-, he⟩ | he⟩ := l.toBeExecuted_spec env
  · rw [he]
    exact ⟨rfl, rfl⟩
  · rw [he]
    exact ⟨rfl, rfl⟩

/-- **A vote counted stays counted.** -/
theorem respects_counts :
    Respects (fun l l' => ∀ slot i, l.Counts slot i → l'.Counts slot i) where
  refl _ _ _ h := h
  trans h h' slot i hcount := h' slot i (h slot i hcount)
  handleLearn _ env learn sender _ _ h := (counts_handleLearn env learn sender).mpr (Or.inr h)
  learn l env slot value slot' i h := by
    unfold Counts
    rw [(l.frame_learn env slot value).1]
    exact h
  execute l env slot i h := by
    unfold Counts
    rw [(l.slotLearns_toBeExecuted env).1]
    exact h
  flush _ _ _ _ h := h

/-! ### Quorums

An operation counts one vote at a time, and looks for a quorum as soon as it has counted it. -/

/-- **No quorum is overlooked**: where nothing is learned, no value has a quorum of votes. -/
structure Decided (l : Learner) : Prop where
  memory : l.storage.enabled = false
  quorum_pos : 0 < l.quorum
  overlooks : ∀ slot group v, l.learned.get? slot = none → l.slotLearns.get? slot = some group →
    ¬ Votes group l.quorum v

theorem storage_handleLearn {l : Learner} (hoff : l.storage.enabled = false) (env : Env)
    (learn : Learn) (sender : Node) :
    (l.handleLearn env learn sender).2.storage = l.storage := by
  rcases l.handleLearn_cases env learn sender with he | ⟨v, -, he⟩
  · rw [he]
  · rw [he]
    exact (frame_learn _ env learn.slot v).2.2 hoff

theorem Decided.handleLearn {l : Learner} (h : l.Decided) (env : Env) (learn : Learn)
    (sender : Node) : (l.handleLearn env learn sender).2.Decided := by
  have hstorage := storage_handleLearn h.memory env learn sender
  obtain ⟨order, he⟩ := l.exists_order env learn sender
  obtain ⟨-, hlearned, hvotes, hquorum⟩ := l.handleLearnIn_spec order env learn sender
  rw [he] at hstorage ⊢
  refine ⟨by rw [hstorage]; exact h.memory, by rw [hquorum]; exact h.quorum_pos, ?_⟩
  intro slot group v hnone hgroup
  rw [hlearned] at hnone
  rw [hvotes] at hgroup
  rw [hquorum]
  obtain ⟨hbefore, hfound⟩ := Option.or_eq_none_iff.mp hnone
  by_cases hslot : slot = learn.slot
  · -- a quorum for the slot of the vote would have been found
    subst hslot
    rw [if_pos rfl] at hfound
    intro hquorate
    have hneed : max 1 (l.storeVote learn sender).quorum = l.quorum := max_eq_right h.quorum_pos
    obtain ⟨w, hw⟩ := (checkQuorumIn_spec order hgroup).2 v (by rw [hneed]; exact hquorate)
    rw [hfound] at hw
    cases hw
  · refine h.overlooks slot group v hbefore ?_
    unfold storeVote at hgroup
    dsimp only at hgroup
    rwa [OrdMap.get?_insert, if_neg hslot] at hgroup

theorem respects_decided : Respects (fun l l' => l.Decided → l'.Decided) where
  refl _ h := h
  trans h h' hd := h' (h hd)
  handleLearn _ env learn sender h := h.handleLearn env learn sender
  learn l env slot value h := by
    obtain ⟨hvotes, hquorum, hstorage⟩ := l.frame_learn env slot value
    refine ⟨by rw [hstorage h.memory]; exact h.memory, by rw [hquorum]; exact h.quorum_pos, ?_⟩
    intro slot' group v hnone hgroup
    rw [l.get?_learn] at hnone
    rw [hvotes] at hgroup
    rw [hquorum]
    exact h.overlooks slot' group v (Option.or_eq_none_iff.mp hnone).1 hgroup
  execute l env h := by
    have hsnapshot : ∀ adu, l.storage.maybeSnapshot env adu l.learned =
        (.ok (), l.storage, l.learned) := by
      intro adu
      unfold StorageHelper.maybeSnapshot
      rw [if_pos (Or.inl (by simp [h.memory]))]
    obtain ⟨n, -, -, ⟨-, he⟩ | he⟩ := l.toBeExecuted_spec env
    · rw [he]
      exact h
    · rw [he, hsnapshot]
      exact ⟨h.memory, h.quorum_pos, h.overlooks⟩
  flush l env h := by
    have hflush : (l.maybeFlush env).2 = l := by
      unfold maybeFlush StorageHelper.maybeFlushChanges
      simp [h.memory]
    rw [hflush]
    exact h

end Learner

namespace LearnerAgent

variable {a : LearnerAgent} (hmode : a.config.acceptorsSendLearns = true) (env : Env)

include hmode

theorem counts_recordLearn {slot' : Slot} {i : NodeId} (slot : Slot) (value : Value) (sender : Node) :
    (a.recordLearn env slot value sender).2.learner.Counts slot' i ↔
      (slot' = slot ∧ i = sender.nodeId) ∨ a.learner.Counts slot' i := by
  rw [a.learner_recordLearn, hmode, if_pos rfl]
  exact Learner.counts_handleLearn env { slot, value } sender

omit hmode in
/-- A new agent without storage has heard nothing. -/
theorem decided_new (hash : String → Nat) (dir : Learner.Dir) (node : Node) (nodes : List Node)
    {config : RunConfig} (hmemory : config.persistentStorage = false)
    (hpos : 0 < (new hash dir env node nodes config).learner.quorum) :
    (new hash dir env node nodes config).learner.Decided := by
  have hload := learner_new_of_memory hash dir env node nodes hmemory
  refine ⟨?_, hpos, fun slot group v _ hgroup => ?_⟩
  · rw [hload]
    exact hmemory
  · rw [hload] at hgroup
    cases hgroup

/-- A learn that arrives is counted as a vote of its sender. -/
theorem counts_handleMessage {m : NetworkMessage} {learn : Learn} (hm : m.payload = .learn learn) :
    (a.handleMessage env m).2.learner.Counts learn.slot m.sender.nodeId :=
  Learner.respects_counts.learnerLearn env a hm learn.slot m.sender.nodeId
    ((counts_recordLearn hmode env learn.slot learn.value m.sender).mpr (Or.inl ⟨rfl, rfl⟩))

end LearnerAgent

end PaxosWasm
