import PaxosWasm.Agents.LearnerExecution
import PaxosWasm.Agents.LearnerVotes

/-!
# Learners converge

A learner without storage that counts the votes of the acceptors ends up with what a quorum has
voted for, which depends on which votes it has heard and on nothing else: not on their order, not on
how often each was heard, not on when the learned entries were executed. Once all that is learned has
been executed, the cursor is at the first gap, and the store and the results are those of the slots
before it.

`Counted` relates the memory of a learner to a list of votes, in whatever order they have come:
`Counted.handleLearn` is its step. What it says of a value learned and of a quorum overlooked determines
the outcome (`Converging.outcome`), and two deliveries of one set of votes have the same outcome because
neither the order nor the number of times a vote comes occurs in it.
-/

namespace PaxosWasm

open Library

namespace Learner

/-- A count of votes finds a value if a quorum votes alike. -/
theorem checkQuorum_isSome {l : Learner} {slot : Slot} {group : OrdMap NodeId Learn} {v : Value}
    (hgroup : l.slotLearns.get? slot = some group) (hpos : 0 < l.quorum) {S : Finset NodeId}
    (hS : l.quorum ≤ S.card)
    (hvoters : ∀ i ∈ S, ∃ learn, group.get? i = some learn ∧ learn.value = v) :
    ∃ w, l.checkQuorum slot = some w :=
  (checkQuorum_spec hgroup).2 v ⟨S, max_le (hpos.trans_le hS) hS, hvoters⟩

end Learner

namespace LearnerAgent

variable {told told' : Learn → NodeId → Prop} {a : LearnerAgent}

/-! ## Votes

A vote is entered under its slot and its sender. Where every sender votes for one value in a slot, no two
values of the slot can have a quorum, and the order of the votes does not matter. -/

/-- Every sender votes for one value per slot, and there are at most `n` of them: fewer than two
quorums. -/
structure OneVoteEach (told : Learn → NodeId → Prop) (n : Nat) : Prop where
  single : ∀ learn learn' i, told learn i → told learn' i → learn.slot = learn'.slot → learn = learn'
  few : ∃ A : Finset NodeId, A.card ≤ n ∧ ∀ learn i, told learn i → i ∈ A

/-- No two values of a slot have a quorum behind them. -/
theorem OneVoteEach.unique {n : Nat} (h : OneVoteEach told n) {slot : Slot} {v w : Value}
    (hv : Backed told (n / 2 + 1) { slot, value := v })
    (hw : Backed told (n / 2 + 1) { slot, value := w }) : v = w := by
  obtain ⟨A, hcard, hA⟩ := h.few
  have hchosen : ∀ {v}, Backed told (n / 2 + 1) { slot, value := v } →
      Chosen A (fun i v => told { slot, value := v } i) v := by
    rintro v ⟨S, hS, hall⟩
    refine ⟨S, majority_of_card (fun i hi => hA _ i (hall i hi)) ?_, hall⟩
    have := Nat.div_le_div_right (c := 2) hcard
    omega
  refine Chosen.unique (fun i _ hi hi' => ?_) (hchosen hv) (hchosen hw)
  exact congrArg Learn.value (h.single { slot, value := v } { slot, value := w } i hi hi' rfl)

/-- **What is counted and learned** from the votes heard: each vote, and each value with a quorum. -/
structure Counted (told : Learn → NodeId → Prop) (l : Learner) : Prop where
  votes : ∀ slot i learn, (∃ group, l.slotLearns.get? slot = some group ∧ group.get? i = some learn) ↔
    learn.slot = slot ∧ told learn i
  learned : ∀ slot v, l.learned.get? slot = some v ↔ Backed told l.quorum { slot, value := v }

/-- A vote is entered under its slot and its sender. -/
theorem Counted.vote {l : Learner} (hc : Counted told l) (learn : Learn) (sender : NodeId)
    (hsingle : ∀ learn', told learn' sender → learn'.slot = learn.slot → learn' = learn)
    (slot : Slot) (i : NodeId) (learn' : Learn) :
    (∃ group, (l.slotLearns.insert learn.slot
        (((l.slotLearns.get? learn.slot).getD ∅).insert sender learn)).get? slot = some group ∧
          group.get? i = some learn') ↔
      learn'.slot = slot ∧ (told learn' i ∨ (learn' = learn ∧ i = sender)) := by
  have hold := hc.votes slot i learn'
  rw [OrdMap.get?_insert]
  by_cases hslot : slot = learn.slot
  · subst hslot
    -- the votes of the slot before
    have hgroup : ((l.slotLearns.get? learn.slot).getD ∅).get? i = some learn' ↔
        learn'.slot = learn.slot ∧ told learn' i := by
      rw [← hold]
      cases l.slotLearns.get? learn.slot with
      | none => simp
      | some group => simp
    simp only [if_true, Option.some.injEq, exists_eq_left']
    rw [OrdMap.get?_insert]
    by_cases hi : i = sender
    · subst hi
      simp only [if_true, Option.some.injEq]
      constructor
      · rintro rfl
        exact ⟨rfl, Or.inr ⟨rfl, trivial⟩⟩
      · rintro ⟨hs, ht | ⟨rfl, _⟩⟩
        · exact (hsingle learn' ht hs).symm
        · rfl
    · rw [if_neg hi, hgroup]
      simp [hi]
  · rw [if_neg hslot, hold]
    constructor
    · rintro ⟨hs, ht⟩
      exact ⟨hs, Or.inl ht⟩
    · rintro ⟨hs, ht | ⟨rfl, _⟩⟩
      · exact ⟨hs, ht⟩
      · exact absurd hs.symm hslot

/-- **A vote keeps the count**, whether it completes a quorum or not. -/
theorem Counted.handleLearn {l : Learner} (hc : Counted told l) {n : Nat}
    (hquorum : l.quorum = n / 2 + 1) (env : Env) {learn : Learn} {sender : Node}
    (hone : OneVoteEach (fun w i => told w i ∨ (w = learn ∧ i = sender.nodeId)) n) :
    Counted (fun w i => told w i ∨ (w = learn ∧ i = sender.nodeId))
      (l.handleLearn env learn sender).2 := by
  have hvotes := hc.vote learn sender.nodeId
    (fun w hw hs => hone.single w learn _ (Or.inl hw) (Or.inr ⟨rfl, rfl⟩) hs)
  have hmono : ∀ e, Backed told l.quorum e →
      Backed (fun w i => told w i ∨ (w = learn ∧ i = sender.nodeId)) l.quorum e :=
    fun e he => he.mono (fun _ _ => Or.inl)
  -- the values of the other slots have the backing they had
  have hother : ∀ slot v, slot ≠ learn.slot →
      Backed (fun w i => told w i ∨ (w = learn ∧ i = sender.nodeId)) l.quorum { slot, value := v } →
      Backed told l.quorum { slot, value := v } := by
    rintro slot v hne ⟨S, hS, hall⟩
    refine ⟨S, hS, fun i hi => (hall i hi).resolve_right ?_⟩
    rintro ⟨heq, _⟩
    exact hne (congrArg Learn.slot heq)
  unfold Learner.handleLearn
  dsimp only
  split
  · next v hv =>
    obtain ⟨hframe, hsame, _⟩ := Learner.frame_learn { l with slotLearns := _ } env learn.slot v
    obtain ⟨group, hgroup, S, hS, hvoters⟩ := Learner.checkQuorum_eq_some hv
    have hbacked : Backed (fun w i => told w i ∨ (w = learn ∧ i = sender.nodeId)) l.quorum
        { slot := learn.slot, value := v } := by
      refine ⟨S, hS, fun i hi => ?_⟩
      obtain ⟨w, hget, rfl⟩ := hvoters i hi
      obtain ⟨hs, ht⟩ := (hvotes learn.slot i w).mp ⟨group, hgroup, hget⟩
      rwa [← hs]
    refine ⟨?_, fun slot w => ?_⟩
    · rw [hframe]
      exact hvotes
    · rw [hsame, Learner.get?_learn]
      show (l.learned.get? slot).or _ = some w ↔ Backed _ l.quorum _
      by_cases hslot : slot = learn.slot
      · subst hslot
        rw [if_pos rfl]
        constructor
        · intro h
          rcases Option.or_eq_some_iff.mp h with h | ⟨_, h⟩
          · exact hmono _ ((hc.learned _ w).mp h)
          · rw [← Option.some.inj h]
            exact hbacked
        · intro h
          rw [hquorum] at h hbacked
          rw [hone.unique h hbacked]
          cases hheld : l.learned.get? learn.slot with
          | none => rfl
          | some u =>
              have hu := hmono _ ((hc.learned _ u).mp hheld)
              rw [hquorum] at hu
              rw [Option.some_or, hone.unique hu hbacked]
      · rw [if_neg hslot, Option.or_none, hc.learned slot w]
        exact ⟨hmono _, hother slot w hslot⟩
  · next hnone =>
    refine ⟨hvotes, fun slot w => ?_⟩
    show l.learned.get? slot = some w ↔ Backed _ l.quorum _
    rw [hc.learned slot w]
    refine ⟨hmono _, fun h => ?_⟩
    by_cases hslot : slot = learn.slot
    · -- a quorum would have been found
      subst hslot
      obtain ⟨S, hS, hall⟩ := h
      have hpos : 0 < l.quorum := by omega
      obtain ⟨group, hgroup, _⟩ := (hvotes learn.slot sender.nodeId learn).mpr
        ⟨rfl, Or.inr ⟨rfl, rfl⟩⟩
      obtain ⟨v, hv⟩ := Learner.checkQuorum_isSome (l := { l with slotLearns := _ }) hgroup hpos hS
          (v := w) (fun i hi => by
        obtain ⟨group', hgroup', hget⟩ := (hvotes learn.slot i { slot := learn.slot, value := w }).mpr
          ⟨rfl, hall i hi⟩
        rw [hgroup] at hgroup'
        rw [← Option.some.inj hgroup'] at hget
        exact ⟨_, hget, rfl⟩)
      have hfound : (none : Option Value) = some v := hnone.symm.trans hv
      cases hfound
    · exact hother slot w hslot h

/-! ## Deliveries

What is learned depends on the votes alone, and the cursor on the executions in between as well. -/

/-- What the learner holds. -/
def Held (a : LearnerAgent) (e : LearnedEntry) : Prop := a.learner.learned.get? e.slot = some e.value

/-- **What a learner without storage maintains** while votes are recorded and entries executed. -/
structure Converging (told : Learn → NodeId → Prop) (n : Nat) (a : LearnerAgent) : Prop where
  mode : a.config.acceptorsSendLearns = true
  memory : a.learner.storage.enabled = false
  quorum_eq : a.learner.quorum = n / 2 + 1
  counted : Counted told a.learner
  inOrder : a.InOrder a.Held
  unsent : a.networkClient.sent = []

theorem Converging.recordLearn {n : Nat} (hc : a.Converging told n) (env : Env) {slot : Slot}
    {value : Value} {sender : Node}
    (hone : OneVoteEach (fun w i => told w i ∨ (w = { slot, value } ∧ i = sender.nodeId)) n) :
    (a.recordLearn env slot value sender).2.Converging
      (fun w i => told w i ∨ (w = { slot, value } ∧ i = sender.nodeId)) n := by
  have hlearner := a.learner_recordLearn env slot value sender
  rw [hc.mode, if_pos rfl] at hlearner
  have hcounted := hc.counted.handleLearn hc.quorum_eq env hone
  have hframe : (a.learner.handleLearn env { slot, value } sender).2.quorum = a.learner.quorum ∧
      (a.learner.handleLearn env { slot, value } sender).2.storage = a.learner.storage ∧
      a.learner.learned.Extends (a.learner.handleLearn env { slot, value } sender).2.learned := by
    rcases a.learner.handleLearn_cases env { slot, value } sender with he | ⟨v, _, he⟩
    · rw [he]
      exact ⟨rfl, rfl, OrdMap.Extends.refl _⟩
    · rw [he]
      obtain ⟨_, hq, hst⟩ := Learner.frame_learn { a.learner with slotLearns := _ } env slot v
      refine ⟨hq, hst hc.memory, fun s w hw => ?_⟩
      rw [Learner.get?_learn]
      exact Option.or_eq_some_iff.mpr (Or.inl hw)
  obtain ⟨hquorum, hstorage, hext⟩ := hframe
  have hconfig := a.config_recordLearn env slot value sender
  have hsent := a.networkClient_recordLearn env slot value sender
  refine ⟨hconfig ▸ hc.mode, ?_, ?_, ?_, ?_, hsent ▸ hc.unsent⟩
  · rw [hlearner, hstorage]
    exact hc.memory
  · rw [hlearner, hquorum]
    exact hc.quorum_eq
  · rw [hlearner]
    exact hcounted
  · refine (hc.inOrder.recordLearn env slot value sender).mono (fun e he => ?_)
    rw [Held, hlearner]
    exact hext _ _ he

theorem Converging.executeChosenLearns {n : Nat} (hc : a.Converging told n) (env : Env) :
    (a.executeChosenLearns env).Converging told n ∧
      a.learner.learned.get? ((a.executeChosenLearns env).getAdu + 1) = none ∧
      (a.executeChosenLearns env).learner.learned = a.learner.learned := by
  obtain ⟨k, _, hgap, l, hadu, hquorum, hvotes, _, hmemory, he⟩ := a.executeChosenLearns_spec env
  obtain ⟨hlearned, hstorage⟩ := hmemory hc.memory
  obtain ⟨hl, hclient, hconfig⟩ := frame_executeEntries
    ((List.range' (a.getAdu + 1) k).map (Learner.entryAt a.learner.learned)) { a with learner := l }
  rw [← he] at hl hclient hconfig
  have hheld : ∀ e, a.Held e → (a.executeChosenLearns env).Held e := by
    intro e hmem
    rw [Held, hl, hlearned]
    exact hmem
  refine ⟨⟨hconfig ▸ hc.mode, ?_, ?_, ?_, ?_, hclient ▸ hc.unsent⟩, ?_, ?_⟩
  · rw [hl, hstorage]
    exact hc.memory
  · rw [hl, hquorum]
    exact hc.quorum_eq
  · refine ⟨?_, ?_⟩
    · rw [hl, hvotes]
      exact hc.counted.votes
    · rw [hl, hlearned, hquorum]
      exact hc.counted.learned
  · exact (hc.inOrder.executeChosenLearns (fun _ _ h => h) env).1.mono hheld
  · rw [getAdu, hl, hadu, Nat.add_right_comm]
    exact hgap
  · rw [hl, hlearned]

/-- The vote an event delivers. -/
def Event.vote? : Event → Option (Learn × NodeId)
  | .recordLearn _ slot value sender => some ({ slot, value }, sender.nodeId)
  | _ => none

/-- Votes and executions only. -/
def Event.Delivering : Event → Prop
  | .recordLearn _ _ _ _ => True
  | .executeChosenLearns _ => True
  | _ => False

/-! ### Deliveries of one set of votes -/

/-- **A delivery of a set of votes**: each of them at least once, no other, executions in between. -/
structure Delivers (votes : Finset (Learn × NodeId)) (events : List Event) : Prop where
  only : ∀ e ∈ events, e.Delivering
  heard : ∀ vote, (∃ e ∈ events, e.vote? = some vote) ↔ vote ∈ votes

theorem OneVoteEach.mono {n : Nat} (h : OneVoteEach told' n) (hsub : ∀ w i, told w i → told' w i) :
    OneVoteEach told n :=
  ⟨fun w w' i hw hw' => h.single w w' i (hsub w i hw) (hsub w' i hw'),
    h.few.imp (fun _ hA => ⟨hA.1, fun w i hw => hA.2 w i (hsub w i hw)⟩)⟩

/-- One delivery. -/
theorem Converging.handle {n : Nat} (hc : a.Converging told n) (hash : String → Nat) {e : Event}
    (he : e.Delivering) (hone : OneVoteEach (fun w i => told w i ∨ e.vote? = some (w, i)) n) :
    (a.handle hash e).Converging (fun w i => told w i ∨ e.vote? = some (w, i)) n := by
  cases e with
  | recordLearn env slot value sender =>
      have heq : (fun w i => told w i ∨ (Event.recordLearn env slot value sender).vote? = some (w, i)) =
          fun w i => told w i ∨ (w = { slot, value } ∧ i = sender.nodeId) := by
        funext w i
        simp [Event.vote?, eq_comm]
      rw [heq] at hone ⊢
      exact hc.recordLearn env hone
  | executeChosenLearns env =>
      have heq : (fun w i => told w i ∨ (Event.executeChosenLearns env).vote? = some (w, i)) = told := by
        funext w i
        simp [Event.vote?]
      rw [heq]
      exact (hc.executeChosenLearns env).1
  | _ => exact he.elim

/-- A run over votes each sender casts once. -/
theorem Converging.run {n : Nat} (hash : String → Nat) {events : List Event}
    (honly : ∀ e ∈ events, e.Delivering)
    (hone : OneVoteEach (fun w i => told w i ∨ ∃ e ∈ events, e.vote? = some (w, i)) n)
    (hc : a.Converging told n) :
    (Library.run (LearnerAgent.handle hash) a events).Converging
      (fun w i => told w i ∨ ∃ e ∈ events, e.vote? = some (w, i)) n := by
  induction events generalizing a told with
  | nil => simpa using hc
  | cons e events ih =>
      have hsplit : (fun w i => told w i ∨ ∃ e' ∈ e :: events, e'.vote? = some (w, i)) =
          fun w i => (told w i ∨ e.vote? = some (w, i)) ∨ ∃ e' ∈ events, e'.vote? = some (w, i) := by
        funext w i
        simp [or_assoc]
      rw [hsplit] at hone ⊢
      have hfirst := hc.handle hash (honly e (List.mem_cons_self ..)) (hone.mono (fun _ _ => Or.inl))
      exact ih (fun e' he' => honly e' (List.mem_cons_of_mem _ he')) hone hfirst

/-! ### What is held at the end

When all that can be executed has been, the cursor is at the first gap of what is learned. -/

/-- **The outcome is determined by the votes**: what is held has a quorum, the cursor is at the first
gap, and the store and the results are those of the slots before it. -/
theorem Converging.outcome {n : Nat} {b : LearnerAgent}
    (ha : a.Converging told n) (hb : b.Converging told n) (env env' : Env) :
    let a' := a.executeChosenLearns env
    let b' := b.executeChosenLearns env'
    a'.learner.learned = b'.learner.learned ∧ a'.getAdu = b'.getAdu ∧
      a'.execBuffer = b'.execBuffer ∧ a'.kvStore = b'.kvStore := by
  obtain ⟨ha', hgapA, hkeptA⟩ := ha.executeChosenLearns env
  obtain ⟨hb', hgapB, hkeptB⟩ := hb.executeChosenLearns env'
  dsimp only
  generalize a.executeChosenLearns env = a' at ha' hgapA hkeptA ⊢
  generalize b.executeChosenLearns env' = b' at hb' hgapB hkeptB ⊢
  have hlearned : a'.learner.learned = b'.learner.learned := by
    refine OrdMap.ext_get? (fun slot => Option.ext (fun v => ?_))
    rw [ha'.counted.learned, hb'.counted.learned, ha'.quorum_eq, hb'.quorum_eq]
  obtain ⟨logA, hlogA, hstoreA, hresA, _⟩ := ha'.inOrder
  obtain ⟨logB, hlogB, hstoreB, hresB, _⟩ := hb'.inOrder
  -- neither cursor can be past the other's gap
  have hcursor : a'.getAdu = b'.getAdu := by
    rw [← hkeptA] at hgapA
    rw [← hkeptB] at hgapB
    rcases lt_trichotomy a'.getAdu b'.getAdu with hlt | heq | hlt
    · have hheld := hlogB (a'.getAdu + 1) (Nat.le_add_left ..) hlt
      rw [Held, ← hlearned, hgapA] at hheld
      cases hheld
    · exact heq
    · have hheld := hlogA (b'.getAdu + 1) (Nat.le_add_left ..) hlt
      rw [Held, hlearned, hgapB] at hheld
      cases hheld
  have hagree : ∀ slot, 1 ≤ slot → slot ≤ a'.getAdu → logA slot = logB slot := by
    intro slot h1 h2
    have hA : a'.learner.learned.get? slot = some (logA slot) := hlogA slot h1 h2
    have hB : b'.learner.learned.get? slot = some (logB slot) := hlogB slot h1 (hcursor ▸ h2)
    rw [hlearned, hB] at hA
    exact (Option.some.inj hA).symm
  have hnothing : ∀ c : LearnerAgent, c.networkClient.sent = [] →
      c.sentExecuted.flatMap Executed.results ++ c.execBuffer = c.execBuffer := by
    intro c hc
    rw [sentExecuted, hc]
    rfl
  refine ⟨hlearned, hcursor, ?_, ?_⟩
  · rw [← hnothing a' ha'.unsent, hresA, ← hnothing b' hb'.unsent, hresB, ← hcursor,
      resultsOf_congr hagree]
  · rw [hstoreA, hstoreB, ← hcursor, storeOf_congr hagree]

/-! ### From the start

A new agent without storage, and then its run. -/

/-- A new agent has heard nothing. -/
theorem converging_new (hash : String → Nat) (dir : Learner.Dir) (env : Env) (node : Node)
    (nodes : List Node) {config : RunConfig} (hmode : config.acceptorsSendLearns = true)
    (hmemory : config.persistentStorage = false) (hsmall : nodes.length < 2 ^ 32) :
    (new hash dir env node nodes config).Converging (fun _ _ => False)
      (new hash dir env node nodes config).learner.numAcceptors := by
  have hload := learner_new_of_memory hash dir env node nodes hmemory
  have hacceptors : (new hash dir env node nodes config).learner.numAcceptors ≤ 2 ^ 32 := by
    have hfilter : (acceptorNodes nodes).length ≤ nodes.length := List.length_filter_le _ _
    show (acceptorNodes nodes).length + (if node.role = .coordinator then 1 else 0) ≤ 2 ^ 32
    split <;> omega
  have hquorum : (new hash dir env node nodes config).learner.quorum =
      (new hash dir env node nodes config).learner.numAcceptors / 2 + 1 :=
    asUsize_of_lt (by omega)
  refine ⟨hmode, ?_, hquorum, ⟨fun slot i learn => ?_, fun slot v => ?_⟩, ?_, rfl⟩
  · rw [hload]
    exact hmemory
  · constructor
    · rintro ⟨group, hgroup, _⟩
      rw [hload] at hgroup
      cases hgroup
    · rintro ⟨_, hfalse⟩
      exact hfalse.elim
  · constructor
    · intro hheld
      rw [hload] at hheld
      cases hheld
    · rintro ⟨S, hS, hall⟩
      rw [hquorum] at hS
      obtain ⟨i, hi⟩ := Finset.card_pos.mp (lt_of_lt_of_le (Nat.succ_pos _) hS)
      exact (hall i hi).elim
  · have hadu : (new hash dir env node nodes config).getAdu = 0 := by rw [getAdu, hload]; rfl
    rw [InOrder, hadu]
    exact ⟨fun _ => Value.noOp, fun slot h1 h0 => absurd (le_trans h1 h0) (Nat.not_succ_le_zero 0),
      rfl, rfl, fun _ h => absurd h List.not_mem_nil⟩

/-- **Learners converge**: over the same votes, of at most as many senders as there are acceptors and
each for one value per slot, the same is learned and executed with the same results, whatever the
order, the repetitions and the executions in between. A node list of a 32-bit address space is
shorter than `2 ^ 32`. -/
theorem converges (hash : String → Nat) (dir : Learner.Dir) (start start' : Env) (node : Node)
    (nodes : List Node) (config : RunConfig) (hmode : config.acceptorsSendLearns = true)
    (hmemory : config.persistentStorage = false) (hsmall : nodes.length < 2 ^ 32)
    (votes : Finset (Learn × NodeId))
    (hsingle : ∀ learn learn' i, (learn, i) ∈ votes → (learn', i) ∈ votes →
      learn.slot = learn'.slot → learn = learn')
    (hfew : (votes.image Prod.snd).card ≤ (new hash dir start node nodes config).learner.numAcceptors)
    (events events' : List Event) (h : Delivers votes events) (h' : Delivers votes events')
    (last last' : Env) :
    let a := (run (handle hash) (new hash dir start node nodes config) events).executeChosenLearns last
    let a' := (run (handle hash) (new hash dir start' node nodes config) events').executeChosenLearns last'
    a.learner.learned = a'.learner.learned ∧ a.getAdu = a'.getAdu ∧
      a.execBuffer = a'.execBuffer ∧ a.kvStore = a'.kvStore := by
  have hone : OneVoteEach (fun w i => (w, i) ∈ votes)
      (new hash dir start node nodes config).learner.numAcceptors :=
    ⟨hsingle, votes.image Prod.snd, hfew, fun w i hw => Finset.mem_image_of_mem Prod.snd hw⟩
  have hrun : ∀ (env : Env) {es : List Event}, Delivers votes es →
      (run (handle hash) (new hash dir env node nodes config) es).Converging
        (fun w i => (w, i) ∈ votes) (new hash dir start node nodes config).learner.numAcceptors := by
    intro env es hes
    have hheard : (fun w i => False ∨ ∃ e ∈ es, e.vote? = some (w, i)) = fun w i => (w, i) ∈ votes := by
      funext w i
      rw [false_or]
      exact propext (hes.heard (w, i))
    have hnew := converging_new hash dir env node nodes hmode hmemory hsmall
    have hend := hnew.run hash hes.only (by rw [hheard]; exact hone)
    rwa [hheard] at hend
  exact (hrun start h).outcome (hrun start' h') last last'

/-! ### Two deliveries -/

/-- Three acceptors. -/
def threeAcceptors : List Node :=
  [{ nodeId := 1, address := "", role := .acceptor }, { nodeId := 2, address := "", role := .acceptor },
    { nodeId := 3, address := "", role := .acceptor }]

/-- Two votes, and the same votes the other way round, one of them twice. -/
def twoVotes (first second : NodeId) : List Event :=
  [.recordLearn Env.quiet 1 (setX "a") { nodeId := first, address := "", role := .acceptor },
    .executeChosenLearns Env.quiet,
    .recordLearn Env.quiet 1 (setX "a") { nodeId := first, address := "", role := .acceptor },
    .recordLearn Env.quiet 1 (setX "a") { nodeId := second, address := "", role := .acceptor }]

theorem delivers_twoVotes {first second : NodeId}
    (h : ({first, second} : Finset NodeId) = {1, 2}) :
    Delivers {({ slot := 1, value := setX "a" }, 1), ({ slot := 1, value := setX "a" }, 2)}
      (twoVotes first second) := by
  refine ⟨by simp [twoVotes, Event.Delivering], fun vote => ?_⟩
  have hmem : ∀ i, i = first ∨ i = second ↔ i = 1 ∨ i = 2 := by
    intro i
    have := Finset.ext_iff.mp h i
    simpa using this
  have := hmem vote.2
  obtain ⟨w, i⟩ := vote
  simp only [twoVotes, List.mem_cons, List.not_mem_nil, or_false, exists_eq_or_imp, exists_eq_left,
    Event.vote?, Option.some.injEq, Prod.mk.injEq, Finset.mem_insert, Finset.mem_singleton]
  grind

theorem converges_twoVotes :
    let a := (run (handle (fun _ => 0)) (new (fun _ => 0) Directory.empty Env.quiet
      { nodeId := 4, address := "", role := .learner } threeAcceptors RunConfig.inMemory)
      (twoVotes 1 2)).executeChosenLearns Env.quiet
    let a' := (run (handle (fun _ => 0)) (new (fun _ => 0) Directory.empty Env.quiet
      { nodeId := 4, address := "", role := .learner } threeAcceptors RunConfig.inMemory)
      (twoVotes 2 1)).executeChosenLearns Env.quiet
    a.learner.learned = a'.learner.learned ∧ a.getAdu = a'.getAdu ∧
      a.execBuffer = a'.execBuffer ∧ a.kvStore = a'.kvStore :=
  converges (fun _ => 0) Directory.empty Env.quiet Env.quiet
    { nodeId := 4, address := "", role := .learner } threeAcceptors RunConfig.inMemory rfl rfl
    (by decide) {({ slot := 1, value := setX "a" }, 1), ({ slot := 1, value := setX "a" }, 2)}
    (by simp; grind) (by decide) (twoVotes 1 2) (twoVotes 2 1) (delivers_twoVotes (by decide))
    (delivers_twoVotes (by decide)) Env.quiet Env.quiet

end LearnerAgent

end PaxosWasm
