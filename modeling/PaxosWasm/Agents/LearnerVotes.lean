import PaxosWasm.Agents.LearnerRuns
import PaxosWasm.Core.LearnerQuorum

/-!
# What a learner agent is told

Whatever a learner has learned, executed or reported, it has been told: by a quorum of the acceptors
where these send the learns, and by somebody where the proposers do.

A value is `Backed` if enough nodes have told the learner so, where "enough" is the quorum if the
acceptors send the learns and one node if the proposers do. `Sound` says that all the agent holds, has in
its buffer or has reported is backed, and that the votes it keeps are votes it was told.
-/

namespace PaxosWasm

open Library

namespace Learner

/-- The value found by a count of votes has that many voters. -/
theorem checkQuorum_eq_some {l : Learner} {slot : Slot} {value : Value}
    (h : l.checkQuorum slot = some value) :
    ∃ group, l.slotLearns.get? slot = some group ∧
      ∃ S : Finset NodeId, l.quorum ≤ S.card ∧
        ∀ i ∈ S, ∃ learn, group.get? i = some learn ∧ learn.value = value := by
  cases hgroup : l.slotLearns.get? slot with
  | none => simp [checkQuorum, hgroup] at h
  | some group =>
      obtain ⟨S, hS, hvoters⟩ := (checkQuorum_spec hgroup).1 value h
      exact ⟨group, rfl, S, (le_max_right 1 _).trans hS, hvoters⟩

end Learner

namespace LearnerAgent

/-! ## What is maintained

A learn has to be backed: by a quorum of acceptors where these send the learns, by one proposer where
these do. A learner agent records and reports nothing else (`Sound`). -/

/-- Enough nodes have told the learner so: `n` of them. -/
def Backed (told : Learn → NodeId → Prop) (n : Nat) (e : LearnedEntry) : Prop :=
  ∃ S : Finset NodeId, n ≤ S.card ∧ ∀ i ∈ S, told { slot := e.slot, value := e.value } i

/-- How many nodes have to tell the learner before it learns. -/
def needed (config : RunConfig) (quorum : Nat) : Nat :=
  if config.acceptorsSendLearns then quorum else 1

theorem needed_pos {config : RunConfig} {quorum : Nat} (h : 0 < quorum) : 0 < needed config quorum := by
  unfold needed
  split
  · exact h
  · exact Nat.one_pos

/-- A result is that of a value the learner was told; only a command has a result. -/
def Reported (told : Learn → NodeId → Prop) (n : Nat) (r : ExecuteResult) : Prop :=
  Backed told n { slot := r.slot, value := r.value } ∧
    (r.cmdResult ≠ .noOp → r.value.command.isSome = true)

/-- What a learner agent may send. -/
def Answers (told : Learn → NodeId → Prop) (n : Nat) (node : Node) (s : Sent) : Prop :=
  s.message.sender = node ∧
    match s.message.payload with
    | .adu _ => True
    | .retryLearns _ => True
    | .executed exec => ∀ r ∈ exec.results, Reported told n r
    | .heartbeat => True
    | _ => False

/-- **What a learner agent maintains.** -/
structure Sound (told : Learn → NodeId → Prop) (node : Node) (config : RunConfig) (quorum : Nat)
    (a : LearnerAgent) : Prop where
  node_eq : a.node = node
  config_eq : a.config = config
  quorum_eq : a.learner.quorum = quorum
  known : a.learner.KnownIn (Backed told (needed config quorum))
  votes : ∀ slot group, a.learner.slotLearns.get? slot = some group →
    ∀ i learn, group.get? i = some learn → learn.slot = slot ∧ told learn i
  buffered : ∀ r ∈ a.execBuffer, Reported told (needed config quorum) r
  answers : ∀ s ∈ a.networkClient.sent, Answers told (needed config quorum) node s

variable {told told' : Learn → NodeId → Prop} {node : Node} {config : RunConfig} {quorum : Nat}
  {a : LearnerAgent} (env : Env)

theorem Backed.mono (h : ∀ l i, told l i → told' l i) {n : Nat} {e : LearnedEntry}
    (he : Backed told n e) : Backed told' n e := by
  obtain ⟨S, hS, hall⟩ := he
  exact ⟨S, hS, fun i hi => h _ _ (hall i hi)⟩

theorem Reported.mono (h : ∀ l i, told l i → told' l i) {n : Nat} {r : ExecuteResult}
    (hr : Reported told n r) : Reported told' n r :=
  ⟨hr.1.mono h, hr.2⟩

/-! ## Steps that tell the learner nothing -/

theorem Sound.mono (h : ∀ l i, told l i → told' l i) (hs : a.Sound told node config quorum) :
    a.Sound told' node config quorum := by
  refine { hs with
    known := hs.known.mono (fun _ he => he.mono h)
    votes := fun slot group hgroup i l hl =>
      ⟨(hs.votes slot group hgroup i l hl).1, h _ _ (hs.votes slot group hgroup i l hl).2⟩
    buffered := fun r hr => (hs.buffered r hr).mono h
    answers := fun s hmem => ?_ }
  obtain ⟨hsender, hans⟩ := hs.answers s hmem
  refine ⟨hsender, ?_⟩
  split at hans
  · trivial
  · trivial
  · exact fun r hr => (hans r hr).mono h
  · trivial
  · exact hans

/-- The clocks and the retries do not matter. -/
theorem Sound.congr {a' : LearnerAgent} (hs : a.Sound told node config quorum)
    (hnode : a'.node = a.node) (hconfig : a'.config = a.config) (hlearner : a'.learner = a.learner)
    (hbuffer : a'.execBuffer = a.execBuffer) (hsent : a'.networkClient = a.networkClient) :
    a'.Sound told node config quorum :=
  { node_eq := hnode.trans hs.node_eq
    config_eq := hconfig.trans hs.config_eq
    quorum_eq := by rw [hlearner]; exact hs.quorum_eq
    known := by rw [hlearner]; exact hs.known
    votes := by rw [hlearner]; exact hs.votes
    buffered := by rw [hbuffer]; exact hs.buffered
    answers := by rw [hsent]; exact hs.answers }

theorem Sound.send (hs : a.Sound told node config quorum) {ts : List Node}
    {payload : MessagePayload}
    (hans : Answers told (needed config quorum) node { targets := ts, message := a.message payload }) :
    (a.send ts payload).Sound told node config quorum := by
  refine { hs with answers := fun s hmem => ?_ }
  rcases List.mem_append.mp (show s ∈ a.networkClient.sent ++ _ from hmem) with hmem | hmem
  · exact hs.answers s hmem
  · rw [List.mem_singleton.mp hmem]
    exact hans

/-! ## A learn arrives

A vote is counted once for each sender and slot. The vote that completes a quorum makes the value a
learned one. -/

/-- A value with enough backing may be learned. -/
theorem Sound.learn (hs : a.Sound told node config quorum) {slot : Slot} {value : Value}
    (hv : Backed told (needed config quorum) { slot, value }) :
    Sound told node config quorum { a with learner := (a.learner.learn env slot value).2 } := by
  have hsame : (a.learner.learn env slot value).2.quorum = a.learner.quorum ∧
      (a.learner.learn env slot value).2.slotLearns = a.learner.slotLearns := by
    unfold Learner.learn
    split <;> exact ⟨rfl, rfl⟩
  exact { hs with
    quorum_eq := hsame.1.trans hs.quorum_eq
    known := hs.known.learn env hv
    votes := by
      show ∀ slot' group, (a.learner.learn env slot value).2.slotLearns.get? slot' = some group → _
      rw [hsame.2]
      exact hs.votes }

/-- Every sender of a slot is counted once. -/
theorem Sound.vote (hs : a.Sound told node config quorum) {learn : Learn} {sender : Node}
    (htold : told learn sender.nodeId) :
    Sound told node config quorum { a with
      learner := { a.learner with
        slotLearns := a.learner.slotLearns.insert learn.slot
          (((a.learner.slotLearns.get? learn.slot).getD ∅).insert sender.nodeId learn) } } := by
  refine { hs with votes := fun slot group hgroup i l hl => ?_ }
  replace hgroup : (a.learner.slotLearns.insert learn.slot
    (((a.learner.slotLearns.get? learn.slot).getD ∅).insert sender.nodeId learn)).get? slot =
      some group := hgroup
  rw [OrdMap.get?_insert] at hgroup
  split at hgroup
  · next hslot =>
    subst hslot
    rw [← Option.some.inj hgroup, OrdMap.get?_insert] at hl
    split at hl
    · next hi =>
      rw [← Option.some.inj hl, hi]
      exact ⟨rfl, htold⟩
    · cases hold : a.learner.slotLearns.get? learn.slot with
      | none =>
          rw [hold] at hl
          cases hl
      | some old =>
          rw [hold] at hl
          exact hs.votes _ old hold i l hl
  · exact hs.votes slot group hgroup i l hl

theorem Sound.recordLearn (hs : a.Sound told node config quorum) {slot : Slot} {value : Value}
    {sender : Node} (htold : told { slot, value } sender.nodeId) :
    (a.recordLearn env slot value sender).2.Sound told node config quorum := by
  have hlearner := a.learner_recordLearn env slot value sender
  have hnode := a.node_recordLearn env slot value sender
  have hconfig := a.config_recordLearn env slot value sender
  have hbuffer := a.execBuffer_recordLearn env slot value sender
  have hsent := a.networkClient_recordLearn env slot value sender
  cases hmode : a.config.acceptorsSendLearns with
  | false =>
      rw [hmode, if_neg (by simp)] at hlearner
      have hv : Backed told (needed config quorum) { slot, value } := by
        refine ⟨{sender.nodeId}, ?_, fun i hi => ?_⟩
        · rw [needed, ← hs.config_eq, hmode]
          exact le_refl 1
        · rw [Finset.mem_singleton.mp hi]
          exact htold
      exact (hs.learn env hv).congr hnode hconfig hlearner hbuffer hsent
  | true =>
      rw [hmode, if_pos rfl] at hlearner
      have hvote := hs.vote htold
      rcases a.learner.handleLearn_cases env { slot, value } sender with he | ⟨v, hv, he⟩
      · exact hvote.congr hnode hconfig (hlearner.trans (congrArg Prod.snd he)) hbuffer hsent
      · obtain ⟨group, hgroup, S, hS, hvoters⟩ := Learner.checkQuorum_eq_some hv
        have hbacked : Backed told (needed config quorum) { slot, value := v } := by
          refine ⟨S, ?_, fun i hi => ?_⟩
          · rw [needed, ← hs.config_eq, hmode, if_pos rfl, ← hvote.quorum_eq]
            exact hS
          · obtain ⟨learn, hget, rfl⟩ := hvoters i hi
            obtain ⟨hslot, ht⟩ := hvote.votes slot group hgroup i learn hget
            rw [← hslot]
            exact ht
        exact (hvote.learn env hbacked).congr hnode hconfig
          (hlearner.trans (congrArg Prod.snd he)) hbuffer hsent

/-! ## Execution

Known entries are executed in order, and their results wait in the buffer until a batch is sent. -/

/-- Executing a known entry reports what was told. -/
theorem Sound.executeEntry (hs : a.Sound told node config quorum) {e : LearnedEntry}
    (he : Backed told (needed config quorum) e) :
    (a.executeEntry e).Sound told node config quorum := by
  refine { hs with buffered := fun r hr => ?_ }
  rcases List.mem_append.mp (show r ∈ a.execBuffer ++ _ from hr) with hr | hr
  · exact hs.buffered r hr
  · rw [List.mem_singleton.mp hr]
    refine ⟨he, fun hne => ?_⟩
    show e.value.command.isSome = true
    cases hcmd : e.value.command with
    | none => exact absurd (show (a.kvStore.apply e.value.command).1 = .noOp by rw [hcmd]; rfl) hne
    | some op => rfl

theorem Sound.executeEntries (hs : a.Sound told node config quorum) {entries : List LearnedEntry}
    (h : ∀ e ∈ entries, Backed told (needed config quorum) e) :
    (entries.foldl LearnerAgent.executeEntry a).Sound told node config quorum := by
  induction entries generalizing a with
  | nil => exact hs
  | cons e entries ih =>
      exact ih (hs.executeEntry (h e (List.mem_cons_self ..)))
        (fun e' he' => h e' (List.mem_cons_of_mem _ he'))

theorem Sound.executeChosenLearns (hs : a.Sound told node config quorum) :
    (a.executeChosenLearns env).Sound told node config quorum := by
  obtain ⟨n, hlearned, _, l, _, hquorum, hvotes, hknown, _, he⟩ := a.executeChosenLearns_spec env
  rw [he]
  refine Sound.executeEntries ?_ (fun e hmem => ?_)
  · exact ⟨hs.node_eq, hs.config_eq, hquorum.trans hs.quorum_eq, hknown _ hs.known,
      hvotes ▸ hs.votes, hs.buffered, hs.answers⟩
  · obtain ⟨slot, hslot, rfl⟩ := List.mem_map.mp hmem
    obtain ⟨value, hvalue⟩ := hlearned slot hslot
    rw [Learner.entryAt, hvalue]
    exact hs.known.2 slot value hvalue

/-- A batch comes off the buffer. -/
theorem Sound.collectExecuted (hs : a.Sound told node config quorum) (batchSize : Option Nat)
    (full : Bool) :
    (a.collectExecuted batchSize full).2.Sound told node config quorum ∧
      ∀ r ∈ (a.collectExecuted batchSize full).1.results, Reported told (needed config quorum) r := by
  have hnone : ∀ r ∈ ([] : List ExecuteResult), Reported told (needed config quorum) r :=
    fun _ hr => nomatch hr
  have htake : ∀ n, Sound told node config quorum { a with execBuffer := a.execBuffer.drop n } ∧
      ∀ r ∈ a.execBuffer.take n, Reported told (needed config quorum) r :=
    fun n => ⟨{ hs with buffered := fun r hr => hs.buffered r (List.mem_of_mem_drop hr) },
      fun r hr => hs.buffered r (List.mem_of_mem_take hr)⟩
  unfold LearnerAgent.collectExecuted
  cases batchSize with
  | none =>
      dsimp only
      split
      · exact ⟨hs, hnone⟩
      · exact htake _
  | some n =>
      dsimp only
      split
      · exact ⟨hs, hnone⟩
      · exact htake _

theorem Sound.dispatchExecuted (hs : a.Sound told node config quorum) {exec : Executed}
    (h : ∀ r ∈ exec.results, Reported told (needed config quorum) r) :
    (a.dispatchExecuted exec).2.Sound told node config quorum := by
  unfold LearnerAgent.dispatchExecuted
  split
  · exact hs
  · split
    · exact hs.send ⟨hs.node_eq, h⟩
    · exact hs

/-! ## Ticks and messages -/

theorem Sound.evaluateRetry (hs : a.Sound told node config quorum) :
    (a.evaluateRetry env).2.Sound told node config quorum := by
  unfold LearnerAgent.evaluateRetry
  dsimp only
  split
  · exact hs
  · split <;> exact hs.congr rfl rfl rfl rfl rfl

theorem Sound.sendRetryLearns (hs : a.Sound told node config quorum) (slots : List Slot) :
    (a.sendRetryLearns slots).Sound told node config quorum := by
  unfold LearnerAgent.sendRetryLearns
  split <;> exact hs.send ⟨hs.node_eq, trivial⟩

theorem Sound.handleEvaluateRetry (hs : a.Sound told node config quorum) :
    (a.handleEvaluateRetry env).Sound told node config quorum := by
  have hretry := hs.evaluateRetry env
  unfold LearnerAgent.handleEvaluateRetry
  split
  · next he =>
    rw [he] at hretry
    exact hretry
  · next he =>
    rw [he] at hretry
    exact hretry
  · next he =>
    rw [he] at hretry
    exact hretry.sendRetryLearns _

theorem Sound.maybeFlushState (hs : a.Sound told node config quorum) :
    (a.maybeFlushState env).Sound told node config quorum :=
  { hs with
    quorum_eq := hs.quorum_eq
    known := ⟨Learner.StorageHelper.filesIn_maybeFlushChanges env hs.known.1, hs.known.2⟩ }

theorem Sound.handleTick (hs : a.Sound told node config quorum) :
    (a.handleTick env).Sound told node config quorum := by
  have hretry := hs.handleEvaluateRetry env
  unfold LearnerAgent.handleTick
  generalize a.handleEvaluateRetry env = a₁ at hretry
  dsimp only
  split
  · exact hretry
  · have hclock : Sound told node config quorum { a₁ with lastExecTime := env.now } :=
      hretry.congr rfl rfl rfl rfl rfl
    have hexec := hclock.executeChosenLearns env
    generalize LearnerAgent.executeChosenLearns { a₁ with lastExecTime := env.now } env = a₂
      at hexec ⊢
    refine Sound.maybeFlushState env ?_
    split
    · obtain ⟨hcollect, hreported⟩ :=
        hexec.collectExecuted (some a₂.config.messageBatchSize) false
      split
      · exact hcollect
      · exact hcollect.dispatchExecuted hreported
    · exact hexec

theorem Sound.handleMessage (hs : a.Sound told node config quorum) {m : NetworkMessage}
    (htold : ∀ l, m.payload = .learn l → told l m.sender.nodeId) :
    (a.handleMessage env m).2.Sound told node config quorum := by
  unfold LearnerAgent.handleMessage
  split
  · next l hl =>
    have hrecord := hs.recordLearn env (htold l hl)
    split
    · next he =>
      rw [he] at hrecord
      exact hrecord
    · next a₁ he =>
      rw [he] at hrecord
      have hexec := hrecord.executeChosenLearns env
      dsimp only at hexec ⊢
      generalize a₁.executeChosenLearns env = a₂ at hexec ⊢
      split
      · obtain ⟨hcollect, hreported⟩ :=
          hexec.collectExecuted (some a₂.config.messageBatchSize) true
        have hdispatch := hcollect.dispatchExecuted hreported
        split
        · next hd =>
          rw [hd] at hdispatch
          exact hdispatch
        · next hd =>
          rw [hd] at hdispatch
          exact hdispatch
      · exact hexec
  · exact hs.send ⟨hs.node_eq, trivial⟩
  · exact hs

theorem Sound.sendHeartbeat (hs : a.Sound told node config quorum) :
    a.sendHeartbeat.Sound told node config quorum :=
  hs.send ⟨hs.node_eq, trivial⟩

/-- A new agent over known files. -/
theorem sound_new (hash : String → Nat) {dir : Learner.Dir} (nodes : List Node)
    (hquorum : (new hash dir env node nodes config).learner.quorum = quorum)
    (hfiles : Learner.FilesIn (Backed told (needed config quorum))
      (.new dir config.storageMaxSnapshots)) :
    (new hash dir env node nodes config).Sound told node config quorum :=
  { node_eq := rfl
    config_eq := rfl
    quorum_eq := hquorum
    known := ⟨hfiles, Learner.StorageHelper.loaded_known hfiles (fun _ _ h => nomatch h) 0⟩
    votes := fun _ _ h => nomatch h
    buffered := fun _ h => nomatch h
    answers := fun _ h => nomatch h }

end LearnerAgent

end PaxosWasm
