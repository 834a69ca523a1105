import PaxosWasm.Agents.Replica
import PaxosWasm.Cluster.Lasting

/-!
# The cluster as a replicated machine

Where nothing is stored, no node is restarted and the learners agree, the learners of a cluster are
replicas of one key-value store: what they have recorded is one log, which grows, and whatever they
report is what a single store would have answered.

`Shows` is the abstraction: the log that the learners have recorded, the replicas with their stores, and
the results that were reported. Each event of a cluster in which nothing is stored is a run of the
abstract machine, of no step, one, or several (`Shows.step`), and so is a run.
-/

namespace PaxosWasm

open Library

namespace Process

variable {x : Process}

/-- A process in its first life, whose learner agent is a replica. -/
structure Replicates (x : Process) : Prop where
  firstLife : x.FirstLife
  replica : ∀ l, x.node.learner? = some l → l.Replica

theorem Replicates.called (h : x.Replicates) (e : Event) : (x.called e).Replicates := by
  refine ⟨h.firstLife.called e, fun l' hl' => ?_⟩
  have hsome := (x.node.isSome_call e).2.2
  rw [show (call x.node e).2.learner? = some l' from hl'] at hsome
  obtain ⟨l, hl⟩ := Option.isSome_iff_exists.mp hsome.symm
  obtain ⟨l'', hl'', hsteps⟩ := x.node.learnerSteps_call e hl
  obtain rfl := Option.some.inj (hl''.symm.trans hl')
  exact ((h.replica l hl).steps hsteps).1

end Process

namespace Cluster

/-! ## The log of a cluster

A slot is decided when some learner has recorded a value for it. Where the learners agree, it does not
matter which of them is asked. -/

/-- The learner agent on the node `i`. -/
def learner? (c : Cluster) (i : NodeId) : Option LearnerAgent :=
  (c.get? i).bind (fun x => x.node.learner?)

/-- What some learner has recorded for a slot. -/
def decided (c : Cluster) (slot : Slot) : Option Value :=
  c.values.findSome? (fun x => x.node.learner?.bind (fun l => l.learner.learned.get? slot))

/-- A learner has reported the result. -/
def Reports (c : Cluster) (r : ExecuteResult) : Prop :=
  ∃ x ∈ c.values, ∃ l ∈ x.node.learner?, ∃ exec ∈ l.sentExecuted, r ∈ exec.results

instance (c : Cluster) (r : ExecuteResult) : Decidable (c.Reports r) :=
  inferInstanceAs (Decidable (∃ x ∈ c.values, _))

/-- **What of a cluster a replicated key-value store shows**: the log, the learners' cursors and stores,
and the results they have reported. -/
structure Shows (c : Cluster) (x : Replicated KvStore.machine NodeId) : Prop where
  decided : x.decided = c.decided
  replica : ∀ i, x.replica i = (c.learner? i).map (fun l => (l.getAdu, l.kvStore))
  told : ∀ slot v res, (slot, v, res) ∈ x.told ↔
    ∃ r, c.Reports r ∧ r.slot = slot ∧ r.value = v ∧ r.cmdResult = res

variable {m : Membership} {config : RunConfig} {hash : String → Nat} {c c' : Cluster} {e : Event}

theorem learner?_insert {j : NodeId} {x : Process} (i : NodeId) :
    learner? (c.insert j x) i = if i = j then x.node.learner? else c.learner? i := by
  rw [learner?, OrdMap.get?_insert]
  split
  · rfl
  · rfl

theorem learned?_eq_learner? (c : Cluster) (i : NodeId) (slot : Slot) :
    c.learned? i slot = (c.learner? i).bind (fun l => l.learner.learned.get? slot) := by
  rw [learner?, Option.bind_assoc]
  rfl

theorem learner?_eq_some {i : NodeId} {l : LearnerAgent} :
    c.learner? i = some l ↔ ∃ x, c.get? i = some x ∧ x.node.learner? = some l :=
  Option.bind_eq_some_iff

theorem reports_iff {r : ExecuteResult} : c.Reports r ↔
    ∃ i l, c.learner? i = some l ∧ ∃ exec ∈ l.sentExecuted, r ∈ exec.results := by
  constructor
  · rintro ⟨x, hx, l, hl, hr⟩
    obtain ⟨i, hi⟩ := OrdMap.mem_values.mp hx
    exact ⟨i, l, learner?_eq_some.mpr ⟨x, hi, hl⟩, hr⟩
  · rintro ⟨i, l, hl, hr⟩
    obtain ⟨x, hx, hxl⟩ := learner?_eq_some.mp hl
    exact ⟨x, OrdMap.mem_values.mpr ⟨i, hx⟩, l, hxl, hr⟩

/-! ## What a cluster shows

Each learner agent is a replica, with its own records for its log. These are parts of one log as long as
the learners agree. -/

theorem All.replica (h : c.All m (fun _ => Process.Replicates)) {i : NodeId} {l : LearnerAgent}
    (hl : c.learner? i = some l) : l.Replica := by
  obtain ⟨x, hx, hl⟩ := learner?_eq_some.mp hl
  obtain ⟨_, _, _, hreplicates⟩ := h i x hx
  exact hreplicates.replica l hl

theorem learnersAgree_iff : c.LearnersAgree ↔
    ∀ x ∈ c.values, ∀ l ∈ x.node.learner?, ∀ y ∈ c.values, ∀ l' ∈ y.node.learner?,
      ∀ p ∈ l.learner.learned.entries, ∀ v ∈ l'.learner.learned.get? p.1, p.2 = v := by
  constructor
  · intro h x hx l hl y hy l' hl' p hp v hv
    obtain ⟨i, hi⟩ := OrdMap.mem_values.mp hx
    obtain ⟨j, hj⟩ := OrdMap.mem_values.mp hy
    exact h i j p.1 p.2 v (learned?_eq_some.mpr ⟨x, l, hi, hl, OrdMap.mem_entries.mpr hp⟩)
      (learned?_eq_some.mpr ⟨y, l', hj, hl', hv⟩)
  · intro h i j slot v w hv hw
    obtain ⟨x, l, hx, hl, hv⟩ := learned?_eq_some.mp hv
    obtain ⟨y, l', hy, hl', hw⟩ := learned?_eq_some.mp hw
    exact h x (OrdMap.mem_values.mpr ⟨i, hx⟩) l hl y (OrdMap.mem_values.mpr ⟨j, hy⟩) l' hl' (slot, v)
      (OrdMap.mem_entries.mp hv) w hw

instance : DecidablePred LearnersAgree := fun _ => decidable_of_iff _ learnersAgree_iff.symm

/-- **The log**: where the learners agree, it has what any of them has recorded. -/
theorem decided_eq_some (hagree : c.LearnersAgree) {slot : Slot} {v : Value} :
    c.decided slot = some v ↔ ∃ i l, c.learner? i = some l ∧ l.learner.learned.get? slot = some v := by
  have hrecorded : ∀ {w}, c.decided slot = some w →
      ∃ i l, c.learner? i = some l ∧ l.learner.learned.get? slot = some w := by
    intro w hw
    obtain ⟨x, hx, hl⟩ := List.exists_of_findSome?_eq_some hw
    obtain ⟨l, hl, hw⟩ := Option.bind_eq_some_iff.mp hl
    obtain ⟨i, hi⟩ := OrdMap.mem_values.mp hx
    exact ⟨i, l, learner?_eq_some.mpr ⟨x, hi, hl⟩, hw⟩
  constructor
  · exact hrecorded
  · rintro ⟨i, l, hl, hv⟩
    obtain ⟨x, hx, hxl⟩ := learner?_eq_some.mp hl
    cases hd : c.decided slot with
    | none =>
        have hnone := List.findSome?_eq_none_iff.mp hd x (OrdMap.mem_values.mpr ⟨i, hx⟩)
        rw [hxl, Option.bind_some, hv] at hnone
        cases hnone
    | some w =>
        obtain ⟨j, l', hl', hw⟩ := hrecorded hd
        congr 1
        refine hagree j i slot w v ?_ ?_
        · rw [learned?_eq_learner?, hl', Option.bind_some, hw]
        · rw [learned?_eq_learner?, hl, Option.bind_some, hv]

theorem grows_decided (hagree : c.LearnersAgree) {i : NodeId} {l : LearnerAgent}
    (hl : c.learner? i = some l) : Grows l.learner.learned.get? c.decided :=
  fun _ _ hv => (decided_eq_some hagree).mpr ⟨i, l, hl, hv⟩

/-- **Reports are true** of the log. -/
theorem All.truthful (hall : c.All m (fun _ => Process.Replicates)) (hagree : c.LearnersAgree)
    {r : ExecuteResult} (hr : c.Reports r) : LearnerAgent.Truthful c.decided r := by
  obtain ⟨i, l, hl, exec, hexec, hmem⟩ := reports_iff.mp hr
  exact ((hall.replica hl).reported exec hexec r hmem).mono (grows_decided hagree hl)

/-- A cluster whose nodes are all replicas, and whose learners agree, shows a replicated machine. -/
theorem exists_shows (hall : c.All m (fun _ => Process.Replicates)) (hagree : c.LearnersAgree) :
    ∃ x, c.Shows x := by
  refine ⟨{ decided := c.decided
            replica := fun i => (c.learner? i).map (fun l => (l.getAdu, l.kvStore))
            told := { p | ∃ r, c.Reports r ∧ r.slot = p.1 ∧ r.value = p.2.1 ∧ r.cmdResult = p.2.2 }
            reaches := ?_
            truthful := ?_ }, rfl, fun _ => rfl, fun _ _ _ => Iff.rfl⟩
  · intro i n kv hi
    obtain ⟨l, hl, he⟩ := Option.map_eq_some_iff.mp hi
    obtain ⟨rfl, rfl⟩ := Prod.mk.inj he
    exact (hall.replica hl).reaches.mono (grows_decided hagree hl)
  · rintro slot v res ⟨r, hr, rfl, rfl, rfl⟩
    exact (hall.truthful hagree hr).yields

/-! ## One event

An event moves the learner of one node. The log grows by what it records, and its replica goes on over the
grown log. -/

/-- The learner of a node that is called goes on; the others stay. -/
theorem onward_called (hall : c.All m (fun _ => Process.Replicates)) {j : NodeId} {x : Process}
    (hx : c.get? j = some x) (e : Process.Event) {i : NodeId} {l : LearnerAgent}
    (hl : c.learner? i = some l) :
    ∃ l', learner? (c.insert j (x.called e)) i = some l' ∧ l.Onward l' := by
  rw [learner?_insert]
  by_cases hi : i = j
  · subst hi
    obtain ⟨y, hy, hyl⟩ := learner?_eq_some.mp hl
    obtain rfl := Option.some.inj (hx.symm.trans hy)
    obtain ⟨l', hl', hsteps⟩ := x.node.learnerSteps_call e hyl
    exact ⟨l', by rw [if_pos rfl]; exact hl', ((hall.replica hl).steps hsteps).2⟩
  · exact ⟨l, by rw [if_neg hi]; exact hl, .refl l⟩

theorem Reports.called {r : ExecuteResult} (hr : c.Reports r)
    (hall : c.All m (fun _ => Process.Replicates)) {j : NodeId} {x : Process} (hx : c.get? j = some x)
    (e : Process.Event) : Reports (c.insert j (x.called e)) r := by
  obtain ⟨i, l, hl, exec, hexec, hmem⟩ := reports_iff.mp hr
  obtain ⟨l', hl', honward⟩ := onward_called hall hx e hl
  exact reports_iff.mpr ⟨i, l', hl', exec, honward.sent hexec, hmem⟩

theorem All.replicates_step (hall : c.All m (fun _ => Process.Replicates))
    (hrestart : e.isRestart = false) : All m (fun _ => Process.Replicates) (Cluster.step hash c e) :=
  hall.called hrestart (fun _ _ _ e' _ _ _ hx => hx.called e')

/-- **Every event is a run of the replicated machine.** -/
theorem Shows.step {x : Replicated KvStore.machine NodeId} (h : c.Shows x)
    (hall : c.All m (fun _ => Process.Replicates)) (hrestart : e.isRestart = false)
    (hagree : (Cluster.step hash c e).LearnersAgree) (hbefore : c.LearnersAgree) :
    ∃ y, x.Run y ∧ (Cluster.step hash c e).Shows y := by
  rcases step_calls hash c hrestart with he | ⟨j, p, e', hp, -, -, he⟩
  · rw [he]
    exact ⟨x, .refl, h⟩
  · have hnext : All m (fun _ => Process.Replicates) (Cluster.step hash c e) :=
      hall.replicates_step hrestart
    obtain ⟨y, hy⟩ := exists_shows hnext hagree
    refine ⟨y, Replicated.run_of_grows ?_ ?_ ?_, hy⟩
    · rw [h.decided, hy.decided]
      intro slot v hv
      obtain ⟨i, l, hl, hv⟩ := (decided_eq_some hbefore).mp hv
      obtain ⟨l', hl', honward⟩ := onward_called hall hp e' hl
      exact (decided_eq_some hagree).mpr ⟨i, l', by rw [he]; exact hl', honward.grows slot v hv⟩
    · -- what was reported stays reported
      rintro ⟨slot, v, res⟩ hmem
      obtain ⟨r, hr, hres⟩ := (h.told slot v res).mp hmem
      exact (hy.told slot v res).mpr ⟨r, by rw [he]; exact hr.called hall hp e', hres⟩
    · -- only the node that is called executes
      have hothers : ∀ i, i ≠ j → y.replica i = x.replica i := by
        intro i hi
        rw [hy.replica, h.replica, he, learner?_insert, if_neg hi]
      cases hl : c.learner? j with
      | none =>
          refine Or.inl (funext (fun i => ?_))
          by_cases hi : i = j
          · subst hi
            have hnone : (p.called e').node.learner? = none := by
              have hsome := (p.node.isSome_call e').2.2
              rw [learner?, hp, Option.bind_some] at hl
              rw [hl] at hsome
              exact Option.not_isSome_iff_eq_none.mp (ne_true_of_eq_false hsome)
            rw [hy.replica, h.replica, he, learner?_insert, if_pos rfl, hnone, hl]
          · exact hothers i hi
      | some l =>
          obtain ⟨l', hl', honward⟩ := onward_called hall hp e' hl
          refine Or.inr ⟨j, l.getAdu, l'.getAdu, l.kvStore, l'.kvStore, ?_, honward.cursor, ?_, hothers⟩
          · rw [h.replica, hl]
            rfl
          · rw [hy.replica, he, hl']
            rfl

/-! ## Runs -/

theorem learner_start {launch : Launch} (hmemory : launch.config.persistentStorage = false) {i : NodeId}
    {l : LearnerAgent} (hl : (start launch m).learner? i = some l) :
    l.getAdu = 0 ∧ l.kvStore = .new ∧ l.learner.learned = ∅ ∧ l.sentExecuted = [] := by
  have hnew : All m (fun _ x => ∀ l, x.node.learner? = some l → ∃ hash dir env node nodes,
      l = LearnerAgent.new hash dir env node nodes launch.config) (start launch m) := by
    refine all_start (fun node _ x hx l hl => ?_)
    obtain ⟨n, hn, rfl⟩ := Option.map_eq_some_iff.mp hx
    exact ⟨_, _, _, _, _, PaxosCoordinator.learner?_new hn hl⟩
  obtain ⟨x, hx, hxl⟩ := learner?_eq_some.mp hl
  obtain ⟨_, _, _, hall⟩ := hnew i x hx
  obtain ⟨hash, dir, env, node, nodes, rfl⟩ := hall l hxl
  have hlearner := LearnerAgent.learner_new_of_memory hash dir env node nodes hmemory
  refine ⟨?_, rfl, ?_, rfl⟩
  · rw [LearnerAgent.getAdu, hlearner]
    rfl
  · rw [hlearner]
    rfl

theorem replicates_start {launch : Launch} (hmemory : launch.config.persistentStorage = false) :
    All m (fun _ => Process.Replicates) (start launch m) := by
  refine all_start (fun node _ x hx => ⟨Process.firstLife_start hmemory hx, fun l hl => ?_⟩)
  obtain ⟨n, hn, rfl⟩ := Option.map_eq_some_iff.mp hx
  rw [PaxosCoordinator.learner?_new hn hl]
  exact LearnerAgent.replica_new _ _ _ _ _ hmemory

theorem replicates_run {launch : Launch} (hmemory : launch.config.persistentStorage = false)
    {es : List Event} (hrestart : NoRestarts es) :
    All m (fun _ => Process.Replicates) (run (step launch.hash) (start launch m) es) :=
  run_invariant_of_mem (E := fun e : Event => e.isRestart = false)
    (fun _ _ hc he => hc.replicates_step he) (replicates_start hmemory) hrestart

/-- The key-value store of a cluster that has just been started. -/
def idleMachine (launch : Launch) (m : Membership) : Replicated KvStore.machine NodeId :=
  .idle KvStore.machine (fun i => ((start launch m).learner? i).isSome)

theorem shows_start {launch : Launch} (hmemory : launch.config.persistentStorage = false) :
    (start launch m).Shows (idleMachine launch m) := by
  refine ⟨funext (fun slot => ?_), fun i => ?_, fun slot v res => ?_⟩
  · refine (List.findSome?_eq_none_iff.mpr (fun x hx => ?_)).symm
    obtain ⟨i, hi⟩ := OrdMap.mem_values.mp hx
    cases hl : x.node.learner? with
    | none => rfl
    | some l =>
        obtain ⟨-, -, hlearned, -⟩ := learner_start hmemory (learner?_eq_some.mpr ⟨x, hi, hl⟩)
        rw [Option.bind_some, hlearned, OrdMap.get?_empty]
  · show (if ((start launch m).learner? i).isSome then some (0, KvStore.new) else none) = _
    cases hl : (start launch m).learner? i with
    | none => rfl
    | some l =>
        obtain ⟨hadu, hstore, -, -⟩ := learner_start hmemory hl
        rw [Option.map_some, hadu, hstore]
        rfl
  · refine iff_of_false (fun h => h) ?_
    rintro ⟨r, hr, -⟩
    obtain ⟨i, l, hl, exec, hexec, -⟩ := reports_iff.mp hr
    rw [(learner_start hmemory hl).2.2.2] at hexec
    exact absurd hexec List.not_mem_nil

/-- **A run of the cluster is one of the replicated machine**, from a state it shows to another. -/
theorem Shows.run {x : Replicated KvStore.machine NodeId} {es : List Event} (h : c.Shows x)
    (hall : c.All m (fun _ => Process.Replicates)) (hrestart : NoRestarts es)
    (hagree : Throughout (Cluster.step hash) LearnersAgree c es) :
    ∃ y, x.Run y ∧ (Library.run (Cluster.step hash) c es).Shows y := by
  obtain ⟨y, hrun, -, -, hy⟩ := run_simulates (E := fun e : Event => e.isRestart = false)
    (R := fun c x => c.All m (fun _ => Process.Replicates) ∧ c.LearnersAgree ∧ c.Shows x)
    (by
      intro c e x hrestart hagree hx
      obtain ⟨hall, hbefore, hx⟩ := hx
      obtain ⟨y, hrun, hy⟩ := hx.step hall hrestart hagree hbefore
      exact ⟨y, hrun, hall.replicates_step hrestart, hagree, hy⟩)
    hrestart hagree ⟨hall, hagree [] List.nil_prefix, h⟩
  exact ⟨y, hrun, hy⟩

/-- **The cluster refines a replicated key-value store**: where nothing is stored, no node is restarted
and the learners agree in every state, the store gets to what the cluster shows in one state of a run,
and from there to what it shows in any later one. -/
theorem cluster_replicates (launch : Launch) (m : Membership)
    (hmemory : launch.config.persistentStorage = false) (es es' : List Event)
    (hrestart : NoRestarts (es ++ es'))
    (hagree : Throughout (step launch.hash) LearnersAgree (start launch m) (es ++ es')) :
    ∃ x y, (idleMachine launch m).Run x ∧ (run (step launch.hash) (start launch m) es).Shows x ∧
      x.Run y ∧ (run (step launch.hash) (start launch m) (es ++ es')).Shows y := by
  obtain ⟨hbefore, hafter⟩ := throughout_append.mp hagree
  have hfirst : NoRestarts es := fun e he => hrestart e (List.mem_append_left _ he)
  obtain ⟨x, hrun, hx⟩ := (shows_start (m := m) hmemory).run (replicates_start hmemory) hfirst hbefore
  obtain ⟨y, hrun', hy⟩ := hx.run (replicates_run hmemory hfirst)
    (fun e he => hrestart e (List.mem_append_right _ he)) hafter
  rw [run_append]
  exact ⟨x, y, hrun, hx, hrun', hy⟩

theorem cluster_replicates_second_learn :
    ∃ x y, (idleMachine (.led .inMemory) sevenNodes).Run x ∧
      (run (step (Launch.led .inMemory).hash) (start (.led .inMemory) sevenNodes)
        ((acceptedBy 0).take 14)).Shows x ∧ x.Run y ∧
      (run (step (Launch.led .inMemory).hash) (start (.led .inMemory) sevenNodes)
        ((acceptedBy 0).take 14 ++ (acceptedBy 0).drop 14)).Shows y :=
  cluster_replicates (.led .inMemory) sevenNodes rfl _ _ (by decide) (by decide)

end Cluster

end PaxosWasm
