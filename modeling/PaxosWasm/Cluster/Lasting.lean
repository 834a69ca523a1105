import PaxosWasm.Agents.LearnerFrame
import PaxosWasm.Cluster.Broadcasts

/-!
# What a cluster without restarts keeps

Where no node is restarted and nothing is stored, an acceptor keeps what it has accepted and a learner
what it has recorded, and what a node has sent it has sent since its start.
-/

namespace PaxosWasm

open Library

namespace Learner

/-- **What is recorded stays recorded**, where nothing is stored. -/
theorem respects_recorded :
    Respects (fun l l' => l.storage.enabled = false → l'.storage.enabled = false ∧
      l.learned.Extends l'.learned) where
  refl _ hoff := ⟨hoff, OrdMap.Extends.refl _⟩
  trans h h' hoff := ⟨(h' (h hoff).1).1, (h hoff).2.trans (h' (h hoff).1).2⟩
  handleLearn l env learn sender hoff := by
    rw [storage_handleLearn hoff env learn sender]
    refine ⟨hoff, fun slot v hv => ?_⟩
    rcases l.handleLearn_cases env learn sender with he | ⟨w, -, he⟩
    · rw [he]
      exact hv
    · rw [he, get?_learn]
      exact Option.or_eq_some_iff.mpr (Or.inl hv)
  learn l env slot value hoff := by
    rw [(l.frame_learn env slot value).2.2 hoff]
    refine ⟨hoff, fun slot' v hv => ?_⟩
    rw [get?_learn]
    exact Option.or_eq_some_iff.mpr (Or.inl hv)
  execute l env hoff := by
    obtain ⟨n, -, -, ⟨-, he⟩ | he⟩ := l.toBeExecuted_spec env
    · rw [he]
      exact ⟨hoff, OrdMap.Extends.refl _⟩
    · have hsnapshot : l.storage.maybeSnapshot env (l.adu + n) l.learned = (.ok (), l.storage, l.learned) := by
        unfold StorageHelper.maybeSnapshot
        rw [if_pos (Or.inl (by simp [hoff]))]
      rw [he, hsnapshot]
      exact ⟨hoff, OrdMap.Extends.refl _⟩
  flush l env hoff := by
    have hflush : (l.maybeFlush env).2 = l := by
      unfold maybeFlush StorageHelper.maybeFlushChanges
      simp [hoff]
    rw [hflush]
    exact ⟨hoff, OrdMap.Extends.refl _⟩

end Learner

/-! ## Processes in their first life -/

/-- The learner agent of a new node is a new one. -/
theorem PaxosCoordinator.learner?_new {hash : String → Nat} {dirs : Dirs} {env : Env} {node : Node}
    {nodes : List Node} {isLeader : Bool} {config : RunConfig} {n : PaxosCoordinator}
    {l : LearnerAgent} (h : new hash dirs env node nodes isLeader config = some n)
    (hl : n.learner? = some l) : l = LearnerAgent.new hash dirs.learner env node nodes config := by
  obtain ⟨agents, hagents, rfl⟩ := Option.map_eq_some_iff.mp h
  unfold newAgents at hagents
  cases hrole : node.role <;> rw [hrole] at hagents <;> cases hagents <;>
    first
      | exact (Option.some.inj hl).symm
      | cases hl

namespace Process

variable {m : Membership} {node : Node} {config : RunConfig} {hash : String → Nat} {x : Process}

/-- **The first life of a process** without storage: it has sent nothing before its start, and its
learner stores nothing. -/
structure FirstLife (x : Process) : Prop where
  past : x.past = { proposer := [], acceptor := [], learner := [] }
  learner : ∀ l, x.node.learner? = some l → l.learner.storage.enabled = false

theorem FirstLife.sent_eq (h : x.FirstLife) : x.sent = x.node.logs := by
  rw [sent, h.past]
  rfl

/-- A process after a call that restarts nothing. -/
def called (x : Process) (e : Event) : Process :=
  { x with node := (call x.node e).2, running := (call x.node e).1 }

theorem FirstLife.called (h : x.FirstLife) (e : Event) : (x.called e).FirstLife := by
  refine ⟨h.past, fun l' hl' => ?_⟩
  have hsome := (x.node.isSome_call e).2.2
  rw [show (call x.node e).2.learner? = some l' from hl'] at hsome
  obtain ⟨l, hl⟩ := Option.isSome_iff_exists.mp hsome.symm
  obtain ⟨l'', hl'', hkeeps⟩ := Learner.respects_recorded.call x.node e hl
  obtain rfl := Option.some.inj (hl''.symm.trans hl')
  exact (hkeeps (h.learner l hl)).1

theorem firstLife_start {dirs : PaxosCoordinator.Dirs} {env : Env} {isLeader : Bool}
    (hmemory : config.persistentStorage = false)
    (hstart : start hash dirs env m node isLeader config = some x) : x.FirstLife := by
  obtain ⟨n, hn, rfl⟩ := Option.map_eq_some_iff.mp hstart
  refine ⟨rfl, fun l hl => ?_⟩
  rw [PaxosCoordinator.learner?_new hn hl, LearnerAgent.learner_new_of_memory hash dirs.learner env node (m.others node) hmemory]
  exact hmemory

end Process

namespace Cluster

variable {m : Membership} {config : RunConfig} {hash : String → Nat} {c : Cluster} {e : Event}

/-! ## Runs of a cluster

Without a restart an event is a call of one node. So what a call keeps is kept by the cluster. -/

/-- **An event that restarts nothing** does nothing, or one running node takes the call it amounts to. -/
theorem step_calls (hash : String → Nat) (c : Cluster) (hrestart : e.isRestart = false) :
    step hash c e = c ∨ ∃ j x e', c.get? j = some x ∧ Serves c e j e' ∧ x.running = true ∧
      step hash c e = c.insert j (x.called e') := by
  rcases step_cases hash c e with he | ⟨j, x, e', hx, hserves, he⟩
  · exact Or.inl he
  · rcases Process.step_cases hash x e' with ⟨env, isLeader, k, n, rfl, -⟩ | ⟨-, hrun, hcall⟩ | hsame
    · cases hserves
      cases hrestart
    · exact Or.inr ⟨j, x, e', hx, hserves, hrun, by rw [he, hcall]; rfl⟩
    · refine Or.inl (he.trans (OrdMap.ext_get? (fun i => ?_)))
      rw [hsame, OrdMap.get?_insert]
      split
      · next hi => rw [hi, hx]
      · rfl

theorem All.called {P : Node → Process → Prop} (h : c.All m P) (hrestart : e.isRestart = false)
    (keep : ∀ node ∈ m.nodes, ∀ x e', c.get? node.nodeId = some x → Serves c e node.nodeId e' →
      x.running = true → P node x → P node (x.called e')) : All m P (Cluster.step hash c e) := by
  rcases step_calls hash c hrestart with he | ⟨j, x, e', hx, hserves, hrun, he⟩
  · rw [he]
    exact h
  · obtain ⟨node, hnode, rfl, hp⟩ := h j x hx
    rw [he]
    exact h.insert hnode (keep node hnode x e' hx hserves hrun hp)

theorem firstLife_run {launch : Launch} (hmemory : launch.config.persistentStorage = false)
    {es : List Event} (hrestart : NoRestarts es) :
    All m (fun _ => Process.FirstLife) (run (step launch.hash) (start launch m) es) := by
  refine run_invariant_of_mem (E := fun e : Event => e.isRestart = false) (fun c e hc he => ?_) ?_ hrestart
  · exact hc.called he (fun _ _ x e' _ _ _ hx => hx.called e')
  · exact all_start (fun _ _ _ hx => Process.firstLife_start hmemory hx)

/-- **What an acceptor holds it keeps**. -/
theorem accepted?_called {node : Node} {x : Process} (hx : c.get? node.nodeId = some x)
    (hs : x.node.SetUp m node config) (hmemory : config.persistentStorage = false)
    (e' : Process.Event) {i : NodeId} {slot : Slot} {v : Value} (h : c.accepted? i slot = some v) :
    accepted? (c.insert node.nodeId (x.called e')) i slot = some v := by
  obtain ⟨y, a, hy, ha, hholds⟩ := accepted?_eq_some.mp h
  rw [accepted?_eq_some]
  by_cases hi : i = node.nodeId
  · subst hi
    obtain rfl := Option.some.inj (hx.symm.trans hy)
    obtain ⟨a', ha', hkeeps⟩ := x.node.keeps_call e' ha
    obtain ⟨hconfig, hoff⟩ := hs.acceptor a ha
    exact ⟨_, a', OrdMap.get?_insert_self .., ha',
      hkeeps.2.holds (hoff (by rw [hconfig, hmemory])) hholds⟩
  · exact ⟨y, a, by rw [OrdMap.get?_insert, if_neg hi]; exact hy, ha, hholds⟩

/-- **What a learner has recorded it keeps**. -/
theorem learned?_called {j : NodeId} {x : Process} (hx : c.get? j = some x) (hfirst : x.FirstLife)
    (e' : Process.Event) {i : NodeId} {slot : Slot} {v : Value} (h : c.learned? i slot = some v) :
    learned? (c.insert j (x.called e')) i slot = some v := by
  obtain ⟨y, l, hy, hl, hv⟩ := learned?_eq_some.mp h
  rw [learned?_eq_some]
  by_cases hi : i = j
  · subst hi
    obtain rfl := Option.some.inj (hx.symm.trans hy)
    obtain ⟨l', hl', hkeeps⟩ := Learner.respects_recorded.call x.node e' hl
    exact ⟨_, l', OrdMap.get?_insert_self .., hl', (hkeeps (hfirst.learner l hl)).2 slot v hv⟩
  · exact ⟨y, l, by rw [OrdMap.get?_insert, if_neg hi]; exact hy, hl, hv⟩

end Cluster

end PaxosWasm
