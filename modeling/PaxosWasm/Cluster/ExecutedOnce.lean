import PaxosWasm.Cluster.ClientAnswers
import PaxosWasm.Cluster.Lasting

/-!
# A command in one slot

A command is executed once if it is recorded in one slot only, and so if it is proposed in one slot
only. But Phase 1 puts what it recovers into the queue and not into its slot, so a command may be
proposed once more in an earlier slot while its own is still open, or even decided. A command that has
lost its slot to another value may well be proposed in a second one.
-/

namespace PaxosWasm

open Library

namespace LearnerAgent

/-! ## What a learner has executed

The cursor separates what has been executed from what has only been learned. -/

/-- What the learner has executed: what it has recorded for the slots up to its cursor. -/
def executed (a : LearnerAgent) : List (Slot × Value) :=
  a.learner.learned.entries.filter (fun e => decide (1 ≤ e.1 ∧ e.1 ≤ a.getAdu))

variable {a : LearnerAgent}

theorem mem_executed {slot : Slot} {v : Value} : (slot, v) ∈ a.executed ↔
    a.learner.learned.get? slot = some v ∧ 1 ≤ slot ∧ slot ≤ a.getAdu := by
  rw [executed, List.mem_filter, ← OrdMap.mem_entries]
  simp

/-- **Execution** applies the entries that follow the cursor to the store, and those are then executed. -/
theorem mem_executed_executeChosenLearns (hoff : a.learner.storage.enabled = false) (env : Env) :
    ∃ (entries : List LearnedEntry) (l : Learner),
      a.executeChosenLearns env = entries.foldl executeEntry { a with learner := l } ∧
      ∀ slot v, (slot, v) ∈ (a.executeChosenLearns env).executed ↔
        (slot, v) ∈ a.executed ∨ { slot, value := v : LearnedEntry } ∈ entries := by
  obtain ⟨n, hmem, -, l, hadu, -, -, -, hsame, he⟩ := a.executeChosenLearns_spec env
  refine ⟨_, l, he, fun slot v => ?_⟩
  obtain ⟨hlearner, -, -⟩ := frame_executeEntries
    ((List.range' (a.getAdu + 1) n).map (Learner.entryAt a.learner.learned)) { a with learner := l }
  rw [← he] at hlearner
  have hcursor : (a.executeChosenLearns env).getAdu = a.getAdu + n :=
    (congrArg Learner.adu hlearner).trans hadu
  rw [mem_executed, mem_executed, hcursor, hlearner, (hsame hoff).1, List.mem_map]
  constructor
  · rintro ⟨hv, h1, hle⟩
    by_cases hold : slot ≤ a.getAdu
    · exact Or.inl ⟨hv, h1, hold⟩
    · refine Or.inr ⟨slot, List.mem_range'_1.mpr (by lia), ?_⟩
      rw [Learner.entryAt, hv]
      rfl
  · rintro (⟨hv, h1, hle⟩ | ⟨slot', hslot', hentry⟩)
    · exact ⟨hv, h1, hle.trans (Nat.le_add_right ..)⟩
    · obtain ⟨rfl, rfl⟩ := LearnedEntry.mk.inj hentry
      obtain ⟨w, hw⟩ := hmem slot' hslot'
      obtain ⟨hlt, hle⟩ := List.mem_range'_1.mp hslot'
      exact ⟨by rw [hw]; rfl, by lia, by lia⟩

end LearnerAgent

namespace Cluster

/-! ## Slots a command has been proposed in

A command may be proposed in a second slot, by a leader that takes over or after a no-op. It is executed
once as long as it has lost every slot but one: another value has been recorded for the others. -/

/-- The value an event submits. -/
def Event.submitted? : Event → Option Value
  | .call _ (.submitClientRequest req) => some req
  | _ => none

/-- The slots and values the proposers have sent accepts or learns for. -/
def proposed (c : Cluster) : List (Slot × Value) :=
  c.values.flatMap (fun x => (acceptsOf x.sent.proposer).map (fun acc => (acc.slot, acc.value)) ++
    (learnsOf x.sent.proposer).map (fun l => (l.slot, l.value)))

/-- Some learner has recorded `v` for the slot. -/
def Recorded (c : Cluster) (slot : Slot) (v : Value) : Prop :=
  ∃ x ∈ c.values, ∃ l ∈ x.node.learner?, l.learner.learned.get? slot = some v

/-- Some learner has recorded another value for the slot. -/
def Lost (c : Cluster) (slot : Slot) (v : Value) : Prop :=
  ∃ x ∈ c.values, ∃ l ∈ x.node.learner?, ∃ w ∈ l.learner.learned.get? slot, w ≠ v

/-- **No learner executes a command in two slots.** -/
def ExecutesOnce (c : Cluster) : Prop :=
  ∀ x ∈ c.values, ∀ l ∈ x.node.learner?, ∀ p ∈ l.executed, ∀ q ∈ l.executed,
    p.2.command.isSome = true → p.2 = q.2 → p.1 = q.1

/-- **A command that the event proposes in a slot** has lost every other slot it has been proposed in. -/
def ProposesLost (hash : String → Nat) (c : Cluster) (e : Event) : Prop :=
  ∀ p ∈ (step hash c e).proposed, p ∉ c.proposed → p.2.command.isSome = true →
    ∀ q ∈ (step hash c e).proposed, p.2 = q.2 → p.1 ≠ q.1 → c.Lost q.1 q.2

/-- The learners do not disagree on whether a command has lost a slot, if it has been proposed in
another one as well. -/
def Undisputed (c : Cluster) : Prop :=
  ∀ p ∈ c.proposed, p.2.command.isSome = true → ∀ q ∈ c.proposed, p.2 = q.2 → p.1 ≠ q.1 →
    c.Recorded p.1 p.2 → ¬ c.Lost p.1 p.2

instance (c : Cluster) (slot : Slot) (v : Value) : Decidable (c.Recorded slot v) :=
  inferInstanceAs (Decidable (∃ x ∈ c.values, _))

instance (c : Cluster) (slot : Slot) (v : Value) : Decidable (c.Lost slot v) :=
  inferInstanceAs (Decidable (∃ x ∈ c.values, _))

instance : DecidablePred ExecutesOnce := fun c => inferInstanceAs (Decidable (∀ x ∈ c.values, _))

instance (hash : String → Nat) (c : Cluster) (e : Event) : Decidable (c.ProposesLost hash e) :=
  inferInstanceAs (Decidable (∀ p ∈ (step hash c e).proposed, _))

instance : DecidablePred Undisputed := fun c => inferInstanceAs (Decidable (∀ p ∈ c.proposed, _))

variable {K : Facts} {L : NodeId → Slot → Prop} {m : Membership} {config : RunConfig} {hash : String → Nat}
  {c : Cluster} {e : Event}

/-! ## What a run keeps

A command is proposed in another slot only once the slots before are lost: a learner has recorded another
value there. What is lost stays lost. -/

/-- Of any two slots a command has been proposed in, it has lost one. -/
def KeepsOneSlot (c : Cluster) : Prop :=
  ∀ p ∈ c.proposed, p.2.command.isSome = true → ∀ q ∈ c.proposed, p.2 = q.2 → p.1 ≠ q.1 →
    c.Lost p.1 p.2 ∨ c.Lost q.1 q.2

theorem mem_proposed {slot : Slot} {v : Value} : (slot, v) ∈ c.proposed ↔ ∃ i x, c.get? i = some x ∧
    ((∃ acc ∈ acceptsOf x.sent.proposer, acc.slot = slot ∧ acc.value = v) ∨
      ∃ l ∈ learnsOf x.sent.proposer, l.slot = slot ∧ l.value = v) := by
  simp only [proposed, List.mem_flatMap, OrdMap.mem_values, List.mem_append, List.mem_map,
    Prod.mk.injEq]
  constructor
  · rintro ⟨x, ⟨i, hi⟩, h⟩
    exact ⟨i, x, hi, h⟩
  · rintro ⟨i, x, hi, h⟩
    exact ⟨x, ⟨i, hi⟩, h⟩

theorem lost_iff {slot : Slot} {v : Value} :
    c.Lost slot v ↔ ∃ i w, c.learned? i slot = some w ∧ w ≠ v := by
  constructor
  · rintro ⟨x, hx, l, hl, w, hw, hne⟩
    obtain ⟨i, hi⟩ := OrdMap.mem_values.mp hx
    exact ⟨i, w, learned?_eq_some.mpr ⟨x, l, hi, hl, hw⟩, hne⟩
  · rintro ⟨i, w, hw, hne⟩
    obtain ⟨x, l, hx, hl, hw⟩ := learned?_eq_some.mp hw
    exact ⟨x, OrdMap.mem_values.mpr ⟨i, hx⟩, l, hl, w, hw, hne⟩

/-- What is lost stays lost. -/
theorem Lost.step (hfirst : c.All m (fun _ => Process.FirstLife)) (hrestart : e.isRestart = false)
    {slot : Slot} {v : Value} (h : c.Lost slot v) : (step hash c e).Lost slot v := by
  obtain ⟨i, w, hw, hne⟩ := lost_iff.mp h
  rcases step_calls hash c hrestart with he | ⟨j, x, e', hx, -, -, he⟩
  · rw [he]
    exact h
  · obtain ⟨_, _, _, hlife⟩ := hfirst j x hx
    rw [he]
    exact lost_iff.mpr ⟨i, w, learned?_called hx hlife e' hw, hne⟩

theorem KeepsOneSlot.step (h : c.KeepsOneSlot) (hfirst : c.All m (fun _ => Process.FirstLife))
    (hrestart : e.isRestart = false) (hlost : c.ProposesLost hash e) :
    (step hash c e).KeepsOneSlot := by
  intro p hp hcommand q hq hvalue hslot
  by_cases hnew : p ∈ c.proposed
  · by_cases hnew' : q ∈ c.proposed
    · rcases h p hnew hcommand q hnew' hvalue hslot with hl | hl
      · exact Or.inl (hl.step hfirst hrestart)
      · exact Or.inr (hl.step hfirst hrestart)
    · refine Or.inl (Lost.step hfirst hrestart ?_)
      exact hlost q hq hnew' (hvalue ▸ hcommand) p hp hvalue.symm (Ne.symm hslot)
  · exact Or.inr (Lost.step hfirst hrestart (hlost p hp hnew hcommand q hq hvalue hslot))

/-! ## From proposals to executions

What a learner executes it has been told, and what it is told has been proposed in that slot. -/

/-- **What a learner is told**, unless it is a no-op, has been proposed in that slot. -/
theorem Sound.told_proposed (hs : c.Sound K L m config) {l : Learn} {i : NodeId}
    (hl : c.heard.learns l i) (hcommand : l.value.command.isSome = true) :
    (l.slot, l.value) ∈ c.proposed := by
  obtain ⟨x, hx, hl⟩ := hl
  obtain ⟨node, _, _, hsound⟩ := hs i x hx
  rw [mem_proposed]
  rcases hl with hl | hl
  · exact ⟨i, x, hx, Or.inr ⟨l, hl, rfl, rfl⟩⟩
  · obtain ⟨s, hmem, hp⟩ := mem_learnsOf.mp hl
    have hans := (hsound.sent.acceptor s hmem).2
    rw [hp] at hans
    rcases hans with hno | ⟨⟨b, q, y, hy, hasked⟩, _⟩
    · rw [hno] at hcommand
      cases hcommand
    · exact ⟨q, y, hy, Or.inl ⟨_, hasked, rfl, rfl⟩⟩

/-- **What a learner has recorded**, unless it is a no-op, has been proposed in that slot. -/
theorem Sound.proposed (hs : c.Sound K L m config) {i : NodeId} {slot : Slot} {v : Value}
    (hv : c.learned? i slot = some v) (hcommand : v.command.isSome = true) :
    (slot, v) ∈ c.proposed := by
  obtain ⟨x, l, hx, hl, hv⟩ := learned?_eq_some.mp hv
  obtain ⟨node, _, _, hsound⟩ := hs i x hx
  obtain ⟨S, hcard, hall⟩ := (hsound.now.learner l hl).1.known.2 slot v hv
  obtain ⟨j, hj⟩ := Finset.card_pos.mp ((LearnerAgent.needed_pos (Nat.succ_pos _)).trans_le hcard)
  exact hs.told_proposed (hall j hj) hcommand

theorem keepsOneSlot_start {launch : Launch} : (start launch m).KeepsOneSlot := by
  have hsilent : All m (fun _ x => x.sent.proposer = []) (start launch m) := by
    refine all_start (fun _ _ x hx => ?_)
    obtain ⟨n, hn, rfl⟩ := Option.map_eq_some_iff.mp hx
    simp only [Process.sent, PaxosCoordinator.logs_new hn, List.append_nil]
  rintro ⟨slot, v⟩ hp
  obtain ⟨i, x, hx, h⟩ := mem_proposed.mp hp
  obtain ⟨_, _, _, hsent⟩ := hsilent i x hx
  rw [hsent] at h
  rcases h with ⟨acc, hacc, -⟩ | ⟨l, hl, -⟩
  · exact absurd hacc List.not_mem_nil
  · exact absurd hl List.not_mem_nil

theorem keepsOneSlot_run {launch : Launch} (hmemory : launch.config.persistentStorage = false)
    {es : List Event} (hrestart : NoRestarts es)
    (hlost : Guarded (step launch.hash) (ProposesLost launch.hash) (start launch m) es) :
    (run (step launch.hash) (start launch m) es).KeepsOneSlot := by
  induction es using List.reverseRecOn with
  | nil => exact keepsOneSlot_start
  | append_singleton es e ih =>
      have hes : NoRestarts es := fun e' he' => hrestart e' (List.mem_append_left _ he')
      obtain ⟨hbefore, hnow⟩ := guarded_snoc.mp hlost
      rw [run_snoc]
      exact (ih hes hbefore).step (firstLife_run hmemory hes)
        (hrestart e (List.mem_append_right _ (List.mem_singleton_self e))) hnow

/-- A command that has kept one slot is executed in no other. -/
theorem KeepsOneSlot.executesOnce (h : c.KeepsOneSlot) (hs : c.Sound K L m config)
    (hundisputed : c.Undisputed) : c.ExecutesOnce := by
  intro x hx l hl p hp q hq hcommand hvalue
  by_contra hslot
  obtain ⟨i, hi⟩ := OrdMap.mem_values.mp hx
  obtain ⟨slot, v⟩ := p
  obtain ⟨slot', w⟩ := q
  obtain rfl : v = w := hvalue
  obtain ⟨hv, -, -⟩ := LearnerAgent.mem_executed.mp hp
  obtain ⟨hv', -, -⟩ := LearnerAgent.mem_executed.mp hq
  have hproposed := hs.proposed (learned?_eq_some.mpr ⟨x, l, hi, hl, hv⟩) hcommand
  have hproposed' := hs.proposed (learned?_eq_some.mpr ⟨x, l, hi, hl, hv'⟩) hcommand
  rcases h _ hproposed hcommand _ hproposed' rfl hslot with hlost | hlost
  · exact hundisputed _ hproposed hcommand _ hproposed' rfl hslot ⟨x, hx, l, hl, hv⟩ hlost
  · exact hundisputed _ hproposed' hcommand _ hproposed rfl (Ne.symm hslot) ⟨x, hx, l, hl, hv'⟩ hlost

/-- **No command is executed twice**: where nothing is stored and no node is restarted, in every state
of a run in which a command is proposed in a new slot only once it has lost those before, and the
learners do not disagree on what a command has lost, no learner has executed a command in two slots. -/
theorem executes_once (launch : Launch) (m : Membership)
    (hmemory : launch.config.persistentStorage = false) (hfresh : ∀ i, (launch.dirs i).Fresh)
    (es : List Event) (hrestart : NoRestarts es)
    (hlost : Guarded (step launch.hash) (ProposesLost launch.hash) (start launch m) es)
    (hundisputed : Throughout (step launch.hash) Undisputed (start launch m) es) :
    Throughout (step launch.hash) ExecutesOnce (start launch m) es := by
  intro es' hes
  have hrestart' : NoRestarts es' := fun e he => hrestart e (hes.subset he)
  obtain ⟨rest, rfl⟩ := hes
  exact (keepsOneSlot_run hmemory hrestart' (guarded_append.mp hlost).1).executesOnce
    (sound_run hfresh es') (hundisputed es' (List.prefix_append ..))

theorem executes_once_accepted_request :
    Throughout (step (Launch.led .inMemory).hash) ExecutesOnce (start (.led .inMemory) sevenNodes)
      (acceptedBy 0) :=
  executes_once (.led .inMemory) sevenNodes rfl (Launch.fresh_idle .inMemory) _ (by decide) (by decide)
    (by decide)

/-! ## A value that is recovered in another slot

Values recovered in Phase 1 are queued without their slots. Where a slot before them is empty, they move up. -/

/-- Node 1 proposes the requests of clients `"c"` and `"d"` in slots 1 and 2; acceptors 11 and 12 accept
the second only. Node 2 takes over. -/
def secondAcceptedFirst : List Event :=
  (acceptedBy 0).take 9 ++
    [.call 1 (.submitClientRequest (setX "a")), .call 1 (.submitClientRequest othersRequest),
      .call 1 (.tick .quiet), .deliver 1 .proposer 3 11 .quiet, .deliver 1 .proposer 3 12 .quiet,
      .deliver 11 .acceptor 1 21 .quiet, .deliver 12 .acceptor 1 21 .quiet,
      .call 2 (.failureService .quiet (some 2)), .call 2 (.tick { Env.quiet with now := 10000 }),
      .deliver 2 .proposer 0 21 .quiet, .deliver 21 .learner 1 2 .quiet, .call 2 (.tick .quiet),
      .call 2 (.tick .quiet), .deliver 2 .proposer 1 11 .quiet, .deliver 2 .proposer 1 12 .quiet,
      .deliver 11 .acceptor 2 2 .quiet, .deliver 12 .acceptor 2 2 .quiet, .call 2 (.tick .quiet),
      .deliver 2 .proposer 2 11 .quiet, .deliver 2 .proposer 2 12 .quiet,
      .deliver 11 .acceptor 3 21 .quiet, .deliver 12 .acceptor 3 21 .quiet]

/-- **A recovered value loses its slot**: node 2 finds no value for slot 1 and `othersRequest` for slot 2,
and proposes that in slot 1. Learner 21 executes it in both. -/
theorem recovered_executed_twice :
    ¬ (1 ≡ 2 [MOD sevenNodes.acceptorIds.card]) ∧ NoRestarts secondAcceptedFirst ∧
      Fifo secondAcceptedFirst ∧
      (secondAcceptedFirst.filterMap Event.submitted?).count othersRequest = 1 ∧
      ¬ Throughout (step (Launch.led .inMemory).hash) ExecutesOnce (start (.led .inMemory) sevenNodes)
        secondAcceptedFirst := by
  refine ⟨by decide, by decide, by decide, by decide, fun honce => ?_⟩
  exact absurd honce.last (by decide)

end Cluster

end PaxosWasm
