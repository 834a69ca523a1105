import PaxosWasm.Agents.MainLoop
import PaxosWasm.Cluster.History
import PaxosWasm.Cluster.LearnerAgreement

/-!
# A deployment

One main loop per node, over one network. The components act in any order, messages that have been
sent may be handed to a main loop at any time, and the host may start a component again over its files.
The nodes under the main loops are a cluster: whatever the components do, the nodes take at most one
event, so that what is proved of every run of a cluster holds of every run of a deployment.

`event?` is the simulation, and `cluster_step` what it is worth: an event of the deployment is one event
of the cluster of its nodes or none. The rest of the module prepares its use. What the components keep
of their start is an invariant over acts (`all_run`), and values that reach a node have been asked for by
a client or by a demo client (`Requested`), so that a history of the cluster is one of the deployment.
-/

namespace PaxosWasm

open Library

/-- What the components of a deployment are started with. -/
structure Rollout extends Launch where
  canBind : NodeId → String → Bool
  /-- `demo_client_requests`, if there is a demo client. -/
  demo : Option Nat

/-- The component of a node, what it had sent before its last start, and what its failure detector has
been told since. -/
structure Component where
  loop : MainLoop
  past : Logs
  told : List FailureDetector.Event

namespace Component

/-- The node of the component, as a process of the cluster. -/
def process (x : Component) : Process := x.loop.process x.past

def act (R : Rollout) (j : NodeId) (x : Component) (a : MainLoop.Act) : Component :=
  { x with loop := x.loop.act (R.canBind j) a, told := x.told ++ (x.loop.detection? a).toList }

/-- The host starts the component with what it was started with before. -/
def restart (R : Rollout) (j : NodeId) (x : Component) (env : Env) (k : Nat) : Component :=
  let paxos := x.loop.runner.paxos
  match MainLoop.new R.hash (paxos.dirs k) env (R.canBind j) paxos.node paxos.nodes (R.isLeader j)
    paxos.config R.demo with
  | some loop => { loop, past := x.process.sent, told := [] }
  | none => x

end Component

/-- The components of a deployment, by node id. -/
abbrev Deployment := OrdMap NodeId Component

namespace Deployment

/-- An event of a deployment: an act of the component `j`, the arrival at it of the `k`-th message an
agent of the node `i` has sent, or its restart. -/
inductive Event where
  | act (j : NodeId) (a : MainLoop.Act)
  | deliver (i : NodeId) (outlet : Outlet) (k : Nat) (j : NodeId) (env : Env)
  | restart (j : NodeId) (env : Env) (k : Nat)

def Event.isRestart : Event → Bool
  | .restart _ _ _ => true
  | _ => false

/-- The cluster of the nodes. -/
def cluster (d : Deployment) : Cluster := d.map Component.process

def update (d : Deployment) (j : NodeId) (f : Component → Component) : Deployment :=
  match d.get? j with
  | none => d
  | some x => d.insert j (f x)

/-- No message comes from nowhere: an arrival is no act. -/
def step (R : Rollout) (d : Deployment) : Event → Deployment
  | .act _ (.message _ _) => d
  | .act j a => d.update j (fun x => x.act R j a)
  | .deliver i outlet k j env =>
      match d.cluster.message? i outlet k j with
      | none => d
      | some msg => d.update j (fun x => x.act R j (.message env msg))
  | .restart j env k => d.update j (fun x => x.restart R j env k)

def startNode (R : Rollout) (m : Membership) (node : Node) : Option (NodeId × Component) :=
  (MainLoop.new R.hash (R.dirs node.nodeId) (R.env node.nodeId) (R.canBind node.nodeId) node (m.others node)
    (R.isLeader node.nodeId) R.config R.demo).map
    (fun loop => (node.nodeId, { loop, past := { proposer := [], acceptor := [], learner := [] }, told := [] }))

def start (R : Rollout) (m : Membership) : Deployment :=
  OrdMap.insertAll ∅ (m.nodes.filterMap (startNode R m))

/-- The event of the cluster that an event of the deployment amounts to, if any. -/
def event? (R : Rollout) (d : Deployment) : Event → Option Cluster.Event
  | .act _ (.message _ _) => none
  | .act j a => (d.get? j).bind (fun x => (x.loop.event? a).map (.call j))
  | .deliver i outlet k j env =>
      match d.get? j with
      | none => none
      | some x => if x.loop.stopped = none then some (.deliver i outlet k j env) else none
  | .restart j env k => some (.call j (.restart env (R.isLeader j) k))

/-! ## One component

A component is seen as the process of its node: an act of the one is at most one call of the other. -/

variable {R : Rollout} {m : Membership} {d : Deployment}

theorem process_new (hash : String → Nat) (dirs : PaxosCoordinator.Dirs) (env : Env) (canBind : String → Bool)
    (node : Node) (nodes : List Node) (isLeader : Bool) (config : RunConfig) (demo : Option Nat) (past : Logs) :
    (MainLoop.new hash dirs env canBind node nodes isLeader config demo).map (fun loop => loop.process past) =
      (PaxosCoordinator.new hash dirs env node nodes isLeader config).map (fun paxos =>
        { node := paxos, running := true, past }) := by
  rw [MainLoop.new, Option.map_map]
  congr 1
  funext paxos
  simp only [Function.comp, MainLoop.process, MainLoop.ticked, Process.mk.injEq, and_true, true_and]
  split_ifs <;> rfl

theorem process_act (x : Component) (j : NodeId) (a : MainLoop.Act) :
    (x.act R j a).process = run (Process.step R.hash) x.process (x.loop.event? a).toList :=
  MainLoop.process_act R.hash x.past x.loop a

theorem process_restart (x : Component) (j : NodeId) (env : Env) (k : Nat) :
    (x.restart R j env k).process = x.process.step R.hash (.restart env (R.isLeader j) k) := by
  have hnew := process_new R.hash (x.loop.runner.paxos.dirs k) env (R.canBind j) x.loop.runner.paxos.node
    x.loop.runner.paxos.nodes (R.isLeader j) x.loop.runner.paxos.config R.demo x.process.sent
  unfold Component.restart
  dsimp only
  split
  · next loop hloop =>
    rw [hloop] at hnew
    obtain ⟨paxos, hpaxos, he⟩ := Option.map_eq_some_iff.mp hnew.symm
    have hnode : PaxosCoordinator.new R.hash (x.process.node.dirs k) env x.process.node.node
      x.process.node.nodes (R.isLeader j) x.process.node.config = some paxos := hpaxos
    simp only [Process.step, hnode]
    exact he.symm
  · next hloop =>
    rw [hloop] at hnew
    have hnone : PaxosCoordinator.new R.hash (x.process.node.dirs k) env x.process.node.node
      x.process.node.nodes (R.isLeader j) x.process.node.config = none :=
      Option.map_eq_none_iff.mp hnew.symm
    simp only [Process.step, hnone]

/-- An act that is no arrival calls the node with no message. -/
theorem event?_ne_message {x : MainLoop} {a : MainLoop.Act} (ha : ∀ env msg, a ≠ .message env msg)
    {e : Process.Event} (he : x.event? a = some e) : ∀ env msg, e ≠ .message env msg := by
  rintro env msg rfl
  unfold MainLoop.event? at he
  cases a <;> grind

/-! ## The cluster of a deployment

The nodes of the components are a cluster. What arrives at a component has been sent by another one, so
that its arrival is a delivery. -/

@[simp] theorem get?_cluster (d : Deployment) (j : NodeId) :
    d.cluster.get? j = (d.get? j).map Component.process := OrdMap.get?_map ..

theorem cluster_insert (j : NodeId) (x : Component) :
    cluster (OrdMap.insert d j x) = OrdMap.insert d.cluster j x.process := OrdMap.map_insert ..

/-- The nodes of a new deployment are a new cluster. -/
theorem cluster_start (R : Rollout) (m : Membership) :
    (start R m).cluster = Cluster.start R.toLaunch m := by
  have hnode : ∀ node, (startNode R m node).map (fun p => (p.1, p.2.process)) =
      Cluster.startNode R.toLaunch m node := by
    intro node
    have hnew := process_new R.hash (R.dirs node.nodeId) (R.env node.nodeId) (R.canBind node.nodeId) node
      (m.others node) (R.isLeader node.nodeId) R.config R.demo { proposer := [], acceptor := [], learner := [] }
    rw [Cluster.startNode, Process.start, ← hnew, startNode, Option.map_map, Option.map_map]
    rfl
  rw [cluster, start, OrdMap.map_insertAll, OrdMap.map_empty, List.map_filterMap, Cluster.start]
  simp only [hnode]

/-- An act that is no arrival, of a component that there is. -/
theorem cluster_act {j : NodeId} {x : Component} (hx : d.get? j = some x) {a : MainLoop.Act}
    (ha : ∀ env msg, a ≠ .message env msg) :
    cluster (OrdMap.insert d j (x.act R j a)) =
      run (Cluster.step R.hash) d.cluster ((x.loop.event? a).map (Cluster.Event.call j)).toList := by
  have hprocess : d.cluster.get? j = some x.process := by rw [get?_cluster, hx]; rfl
  rw [cluster_insert, process_act]
  cases he : x.loop.event? a with
  | none => exact OrdMap.insert_of_get? hprocess
  | some e =>
      have hcall : Cluster.step R.hash d.cluster (.call j e) = d.cluster.update R.hash j e := by
        have hno := event?_ne_message ha he
        cases e with
        | message env msg => exact absurd rfl (hno env msg)
        | _ => rfl
      show _ = Cluster.step R.hash d.cluster (.call j e)
      rw [hcall, Cluster.update, hprocess]
      rfl

/-- **An event of the deployment is at most one event of the cluster.** -/
theorem cluster_step (R : Rollout) (d : Deployment) (e : Event) :
    (step R d e).cluster = run (Cluster.step R.hash) d.cluster (event? R d e).toList := by
  cases e with
  | act j a =>
      have hact : (∀ env msg, a ≠ .message env msg) → (d.update j (fun x => x.act R j a)).cluster =
          run (Cluster.step R.hash) d.cluster
            ((d.get? j).bind (fun x => (x.loop.event? a).map (Cluster.Event.call j))).toList := by
        intro ha
        unfold update
        cases hx : d.get? j with
        | none => rfl
        | some x => exact cluster_act hx ha
      cases a with
      | message env msg => rfl
      | _ => exact hact nofun
  | deliver i outlet k j env =>
      unfold step event?
      dsimp only
      cases hx : d.get? j with
      | none =>
          -- no such component: nothing happens on either side
          have hsame : ∀ f, d.update j f = d := by
            intro f
            rw [update, hx]
          split
          · rfl
          · rw [hsame]
            rfl
      | some x =>
          have hprocess : d.cluster.get? j = some x.process := by rw [get?_cluster, hx]; rfl
          -- a message that has been sent reaches the process of the component
          have hdeliver : ∀ msg, d.cluster.message? i outlet k j = some msg →
              Cluster.step R.hash d.cluster (.deliver i outlet k j env) =
                OrdMap.insert d.cluster j (x.process.step R.hash (.message env msg)) := by
            intro msg hmsg
            rw [Cluster.step, hmsg]
            dsimp only
            rw [Cluster.update, hprocess]
          dsimp only
          split
          · next hnone =>
            split
            · show _ = Cluster.step R.hash d.cluster (.deliver i outlet k j env)
              rw [Cluster.step, hnone]
            · rfl
          · next msg hmsg =>
            rw [update, hx]
            dsimp only
            rw [cluster_insert, process_act]
            split
            · next hrun =>
              have hevent : x.loop.event? (.message env msg) = some (.message env msg) := if_pos hrun
              rw [hevent]
              exact (hdeliver msg hmsg).symm
            · next hstop =>
              -- a loop that has stopped reads nothing
              have hevent : x.loop.event? (.message env msg) = none := if_neg hstop
              rw [hevent]
              exact OrdMap.insert_of_get? hprocess
  | restart j env k =>
      show (d.update j (fun x => x.restart R j env k)).cluster =
        d.cluster.update R.hash j (.restart env (R.isLeader j) k)
      unfold update Cluster.update
      rw [get?_cluster]
      cases hx : d.get? j with
      | none => rfl
      | some x =>
          show cluster (OrdMap.insert d j (x.restart R j env k)) = _
          rw [cluster_insert, process_restart]
          rfl

theorem step_act {j : NodeId} {a : MainLoop.Act} (ha : ∀ env msg, a ≠ .message env msg) :
    step R d (.act j a) = d.update j (fun x => x.act R j a) := by
  cases a with
  | message env msg => exact absurd rfl (ha env msg)
  | _ => rfl

/-! ## Turns

A main loop takes whole turns. Each is a number of acts, and other components may act in between. -/

/-- What an act needs: a message for the component `j` has been sent by some other node. -/
def Available (d : Deployment) (j : NodeId) : MainLoop.Act → Prop
  | .message _ msg => ∃ i outlet k, i ≠ j ∧ d.cluster.message? i outlet k j = some msg
  | _ => True

theorem Available.insert {j : NodeId} {a : MainLoop.Act} (h : d.Available j a) (x : Component) :
    Available (OrdMap.insert d j x) j a := by
  cases a with
  | message env msg =>
      obtain ⟨i, outlet, k, hi, hmsg⟩ := h
      refine ⟨i, outlet, k, hi, ?_⟩
      rw [cluster_insert, ← hmsg, Cluster.message?, Cluster.message?, OrdMap.get?_insert_of_ne _ _ hi]
  | _ => exact h

/-- An act that has what it needs is an event. -/
theorem exists_event {j : NodeId} {x : Component} (hx : d.get? j = some x) {a : MainLoop.Act}
    (ha : d.Available j a) :
    ∃ e : Event, e.isRestart = false ∧ step R d e = OrdMap.insert d j (x.act R j a) := by
  have hupdate : d.update j (fun x => x.act R j a) = OrdMap.insert d j (x.act R j a) := by
    rw [update, hx]
  have hact : (∀ env msg, a ≠ .message env msg) →
      ∃ e : Event, e.isRestart = false ∧ step R d e = OrdMap.insert d j (x.act R j a) :=
    fun hno => ⟨.act j a, rfl, (step_act hno).trans hupdate⟩
  cases a with
  | message env msg =>
      obtain ⟨i, outlet, k, -, hmsg⟩ := ha
      refine ⟨.deliver i outlet k j env, rfl, ?_⟩
      rw [step, hmsg]
      exact hupdate
  | _ => exact hact nofun

/-- Acts that have what they need are a run. -/
theorem exists_run {j : NodeId} {x : Component} (hx : d.get? j = some x) {as : List MainLoop.Act}
    (has : ∀ a ∈ as, d.Available j a) :
    ∃ es : List Event, (∀ e ∈ es, e.isRestart = false) ∧
      run (step R) d es = OrdMap.insert d j (run (Component.act R j) x as) := by
  induction as generalizing d x with
  | nil => exact ⟨[], nofun, (OrdMap.insert_of_get? hx).symm⟩
  | cons a as ih =>
      obtain ⟨e, he, hstep⟩ := exists_event (R := R) hx (has a List.mem_cons_self)
      obtain ⟨es, hes, hrun⟩ := ih (d := OrdMap.insert d j (x.act R j a)) (OrdMap.get?_insert_self ..)
        (fun a' ha' => (has a' (List.mem_cons_of_mem a ha')).insert _)
      refine ⟨e :: es, List.forall_mem_cons.mpr ⟨he, hes⟩, ?_⟩
      rw [run_cons, hstep, hrun, run_cons]
      apply OrdMap.ext_get?
      intro i
      simp only [OrdMap.get?_insert]
      split <;> rfl

/-- **A turn of a main loop is a run of the deployment.** -/
theorem exists_run_turn {j : NodeId} {x : Component} (hx : d.get? j = some x)
    (hgo : x.loop.shouldStop = false) {t : Turn}
    (ht : ∀ p ∈ t.messages, d.Available j (.message p.1 p.2)) :
    ∃ es : List Event, (∀ e ∈ es, e.isRestart = false) ∧ ∃ y : Component,
      y.loop = x.loop.turn (R.canBind j) t ∧ y.past = x.past ∧
      run (step R) d es = OrdMap.insert d j y := by
  have havailable : ∀ a ∈ x.loop.acts t, d.Available j a := by
    intro a ha
    simp only [MainLoop.acts, List.mem_cons, List.mem_append, List.mem_map, List.mem_replicate,
      List.not_mem_nil, or_false] at ha
    rcases ha with rfl | rfl | rfl | ((⟨req, -, rfl⟩ | ⟨p, hp, rfl⟩) | ⟨-, rfl⟩) | rfl
    case inr.inr.inr.inl.inl.inr => exact ht p hp
    all_goals trivial
  have hpast : ∀ y a, y.past = x.past → (Component.act R j y a).past = x.past := fun _ _ h => h
  obtain ⟨es, hes, hrun⟩ := exists_run (R := R) hx havailable
  refine ⟨es, hes, _, ?_, ?_, hrun⟩
  · rw [MainLoop.turn_eq_run hgo]
    exact (List.foldl_hom Component.loop (fun _ _ => rfl)).symm
  · exact run_invariant hpast rfl _

/-! ## What the components keep

An invariant of one component is one of all, as an event is an act of one of them. -/

/-- Every component, with its node, meets `P`. -/
def All (m : Membership) (P : Node → Component → Prop) (d : Deployment) : Prop :=
  ∀ j x, d.get? j = some x → ∃ node ∈ m.nodes, node.nodeId = j ∧ P node x

/-- **An event does nothing, or one component acts or is restarted.** -/
theorem step_cases (R : Rollout) (d : Deployment) (e : Event) :
    step R d e = d ∨ ∃ j x y, d.get? j = some x ∧ step R d e = OrdMap.insert d j y ∧
      ((∃ a, y = x.act R j a) ∨ ∃ env k, y = x.restart R j env k) := by
  have hupdate : ∀ j f, (∀ x, (∃ a, f x = x.act R j a) ∨ ∃ env k, f x = x.restart R j env k) →
      d.update j f = d ∨ ∃ i x y, d.get? i = some x ∧ d.update j f = OrdMap.insert d i y ∧
        ((∃ a, y = x.act R i a) ∨ ∃ env k, y = x.restart R i env k) := by
    intro j f hf
    unfold update
    cases hx : d.get? j with
    | none => exact Or.inl rfl
    | some x => exact Or.inr ⟨j, x, f x, hx, rfl, hf x⟩
  cases e with
  | act j a =>
      cases a with
      | message env msg => exact Or.inl rfl
      | _ => exact hupdate j _ (fun _ => Or.inl ⟨_, rfl⟩)
  | deliver i outlet k j env =>
      unfold step
      dsimp only
      split
      · exact Or.inl rfl
      · exact hupdate j _ (fun _ => Or.inl ⟨_, rfl⟩)
  | restart j env k => exact hupdate j _ (fun _ => Or.inr ⟨env, k, rfl⟩)

/-- **Invariants of the components**: what they start with and no act or restart takes from them. -/
theorem all_run {P : Node → Component → Prop}
    (hstart : ∀ node ∈ m.nodes, ∀ loop, MainLoop.new R.hash (R.dirs node.nodeId) (R.env node.nodeId)
      (R.canBind node.nodeId) node (m.others node) (R.isLeader node.nodeId) R.config R.demo = some loop →
        P node { loop, past := { proposer := [], acceptor := [], learner := [] }, told := [] })
    (hact : ∀ node ∈ m.nodes, ∀ x a, P node x → P node (x.act R node.nodeId a))
    (hrestart : ∀ node ∈ m.nodes, ∀ x env k, P node x → P node (x.restart R node.nodeId env k))
    (es : List Event) : All m P (run (step R) (start R m) es) := by
  refine run_invariant (P := All m P) (fun d e hd => ?_) (fun j x hx => ?_) es
  · rcases step_cases R d e with he | ⟨j, x, y, hx, he, hy⟩
    · rw [he]
      exact hd
    · obtain ⟨node, hnode, rfl, hp⟩ := hd j x hx
      have hnew : P node y := by
        rcases hy with ⟨a, rfl⟩ | ⟨env, k, rfl⟩
        · exact hact node hnode x a hp
        · exact hrestart node hnode x env k hp
      intro i z hz
      rw [he, OrdMap.get?_insert] at hz
      split at hz
      · next hi =>
        obtain rfl := Option.some.inj hz
        exact ⟨node, hnode, hi.symm, hnew⟩
      · exact hd i z hz
  · rcases OrdMap.get?_insertAll_cases hx with hx | hx
    · rw [OrdMap.get?_empty] at hx
      cases hx
    · obtain ⟨node, hnode, he⟩ := List.mem_filterMap.mp hx
      obtain ⟨loop, hloop, hpair⟩ := Option.map_eq_some_iff.mp he
      obtain ⟨rfl, rfl⟩ := Prod.mk.inj hpair
      exact ⟨node, hnode, rfl, hstart node hnode loop hloop⟩

/-- What a component keeps of its start: the settings of its node, and the name of its demo client. -/
structure Settled (R : Rollout) (m : Membership) (node : Node) (x : Component) : Prop where
  setUp : x.process.node.SetUp m node R.config
  node_eq : x.loop.runner.node = node
  clientId : x.loop.demoClient.map DemoClient.clientId = R.demo.map (fun _ => s!"client-{node.nodeId}")
  requests : x.loop.demoClientRequests = R.demo.getD 0

theorem settled_new {dirs : PaxosCoordinator.Dirs} {env : Env} {canBind : String → Bool} {node : Node}
    {isLeader : Bool} {loop : MainLoop} {past : Logs} {told : List FailureDetector.Event}
    (hnode : node ∈ m.nodes)
    (h : MainLoop.new R.hash dirs env canBind node (m.others node) isLeader R.config R.demo = some loop) :
    Settled R m node { loop, past, told } := by
  obtain ⟨paxos, hpaxos, rfl⟩ := Option.map_eq_some_iff.mp h
  refine ⟨PaxosCoordinator.setUp_new hnode hpaxos, rfl, ?_, rfl⟩
  rw [Option.map_map]
  rfl

theorem Settled.act {node : Node} {x : Component} (hnode : node ∈ m.nodes) (h : Settled R m node x)
    (j : NodeId) (a : MainLoop.Act) : Settled R m node (x.act R j a) := by
  obtain ⟨hkeep, -, hclient, hrequests⟩ := MainLoop.sameSettings_act (R.canBind j) x.loop a
  refine ⟨?_, hkeep.trans h.node_eq, hclient.trans h.clientId, hrequests.trans h.requests⟩
  rw [process_act]
  exact run_invariant (P := fun p : Process => p.node.SetUp m node R.config)
    (fun _ e hp => Process.setUp_step hnode hp e) h.setUp _

theorem Settled.restart {node : Node} {x : Component} (hnode : node ∈ m.nodes) (h : Settled R m node x)
    (j : NodeId) (env : Env) (k : Nat) : Settled R m node (x.restart R j env k) := by
  unfold Component.restart
  dsimp only
  split
  · next loop hloop =>
    obtain ⟨hnode', hnodes, hconfig⟩ : x.loop.runner.paxos.node = node ∧
        x.loop.runner.paxos.nodes = m.others node ∧ x.loop.runner.paxos.config = R.config :=
      ⟨h.setUp.node_eq, h.setUp.nodes_eq, h.setUp.config_eq⟩
    rw [hnode', hnodes, hconfig] at hloop
    exact settled_new hnode hloop
  · exact h

theorem settled_run (R : Rollout) (m : Membership) (es : List Event) :
    All m (Settled R m) (run (step R) (start R m) es) :=
  all_run (fun _ hnode _ hloop => settled_new hnode hloop)
    (fun _ hnode _ a hx => hx.act hnode _ a) (fun _ hnode _ env k hx => hx.restart hnode _ env k) es

/-! ## Refinement

A run of a deployment is a run of its cluster, with what the clients have asked for as its requests. So
what holds over all runs of clusters holds of deployments. -/

/-- What the demo client of the node `i` may ask. -/
def Demo (R : Rollout) (i : NodeId) (v : Value) : Prop :=
  ∃ seq < R.demo.getD 0, v = { command := some .demo, clientId := s!"client-{i}", clientSeq := seq }

/-- A value a client asks the node `i` for in the run, or a demo client. -/
def Requested (R : Rollout) (es : List Event) (i : NodeId) (v : Value) : Prop :=
  .act i (.request v) ∈ es ∨ Demo R i v

/-- The events of the cluster that a run of the deployment amounts to. -/
def events (R : Rollout) (d : Deployment) (es : List Event) : List Cluster.Event :=
  collect (step R) (fun d e => (event? R d e).toList) d es

theorem cluster_run (R : Rollout) (d : Deployment) (es : List Event) :
    (run (step R) d es).cluster = run (Cluster.step R.hash) d.cluster (events R d es) :=
  run_projects (cluster_step R)

theorem throughout_cluster {P : Cluster → Prop} (R : Rollout) (d : Deployment) (es : List Event) :
    Throughout (step R) (fun d => P d.cluster) d es ↔
      Throughout (Cluster.step R.hash) P d.cluster (events R d es) :=
  throughout_projects (cluster_step R)

/-- What an act of a component amounts to is a call its main loop makes. -/
theorem event?_act {j : NodeId} {a : MainLoop.Act} {e' : Cluster.Event}
    (h : event? R d (.act j a) = some e') :
    ∃ x p, d.get? j = some x ∧ x.loop.event? a = some p ∧ e' = .call j p := by
  have hbind : (d.get? j).bind (fun x => (x.loop.event? a).map (Cluster.Event.call j)) = some e' := by
    cases a with
    | message env msg => cases h
    | _ => exact h
  obtain ⟨x, hx, hmap⟩ := Option.bind_eq_some_iff.mp hbind
  obtain ⟨p, hp, rfl⟩ := Option.map_eq_some_iff.mp hmap
  exact ⟨x, p, hx, hp, rfl⟩

theorem event?_deliver {i j : NodeId} {outlet : Outlet} {k : Nat} {env : Env} {e' : Cluster.Event}
    (h : event? R d (.deliver i outlet k j env) = some e') : e' = .deliver i outlet k j env := by
  unfold event? at h
  grind

/-- Only a restart of a component restarts its node. -/
theorem isRestart_event? {e : Event} {e' : Cluster.Event} (h : event? R d e = some e') :
    e'.isRestart = e.isRestart := by
  cases e with
  | act j a =>
      obtain ⟨x, p, -, hp, rfl⟩ := event?_act h
      cases p with
      | restart env isLeader k =>
          unfold MainLoop.event? at hp
          cases a <;> grind
      | _ => rfl
  | deliver i outlet k j env =>
      rw [event?_deliver h]
      rfl
  | restart j env k =>
      cases h
      rfl

theorem noRestarts_events {es : List Event} (h : ∀ e ∈ es, e.isRestart = false) :
    Cluster.NoRestarts (events R d es) := by
  intro e' he'
  obtain ⟨before, e, after, rfl, hout⟩ := mem_collect.mp he'
  rw [isRestart_event? (Option.mem_toList.mp hout)]
  exact h e (List.mem_append_right _ List.mem_cons_self)

/-- A main loop submits what it is asked for, or what its demo client asks. -/
theorem requested_loop {node : Node} {x : Component} (h : Settled R m node x) {a : MainLoop.Act} {v : Value}
    (he : x.loop.event? a = some (.submitClientRequest v)) : a = .request v ∨ Demo R node.nodeId v := by
  unfold MainLoop.event? at he
  split at he
  · cases a with
    | demo now =>
        dsimp only at he
        split at he
        · cases he
        · next helper hdemo =>
          split at he
          · cases he
          · next hready =>
            simp only [not_or, not_le] at hready
            have hname := h.clientId
            rw [hdemo] at hname
            obtain ⟨_, -, hname⟩ := Option.map_eq_some_iff.mp hname.symm
            cases he
            refine Or.inr ⟨helper.clientSeq, ?_, ?_⟩
            · rw [← h.requests]
              exact hready.2.2
            · rw [DemoClient.request, hname]
    | _ => grind
  · cases he

/-- What is submitted to the node of a component has been asked for. -/
theorem requested_event? (hall : d.All m (Settled R m)) {e : Event} {i : NodeId} {v : Value}
    (h : event? R d e = some (.call i (.submitClientRequest v))) : e = .act i (.request v) ∨ Demo R i v := by
  cases e with
  | act j a =>
      obtain ⟨x, p, hx, hp, hcall⟩ := event?_act h
      obtain ⟨rfl, rfl⟩ := Cluster.Event.call.inj hcall
      obtain ⟨node, -, rfl, hsettled⟩ := hall i x hx
      exact (requested_loop hsettled hp).imp_left (fun ha => by rw [ha])
  | deliver i' outlet k j env => cases event?_deliver h
  | restart j env k => cases h

theorem requested_events {es : List Event} {i : NodeId} {v : Value}
    (h : .call i (.submitClientRequest v) ∈ events R (start R m) es) : Requested R es i v := by
  obtain ⟨before, e, after, rfl, hout⟩ := mem_collect.mp h
  rcases requested_event? (settled_run R m before) (Option.mem_toList.mp hout) with rfl | hdemo
  · exact Or.inl (List.mem_append_right _ List.mem_cons_self)
  · exact Or.inr hdemo

/-- **A deployment has one history**: where nothing is stored, the acceptors send the learns and no
component is restarted, a run in which no acceptor accepts another value for a slot it has called a no-op
has one list of values that explains every state, and whatever a learner reports has been asked for. -/
theorem deployment_history (R : Rollout) (m : Membership) (hev : R.config.isEventDriven = true)
    (hmode : R.config.acceptorsSendLearns = true) (hmemory : R.config.persistentStorage = false)
    (hfresh : ∀ i, (R.dirs i).Fresh) (es : List Event) (hrestart : ∀ e ∈ es, e.isRestart = false)
    (hkeeps : Throughout (step R) (fun d => d.cluster.KeepsNoOps) (start R m) es) :
    ∃ log : List Value, Throughout (step R) (fun d => Cluster.Explains log d.cluster ∧
      ∀ r, d.cluster.Reports r → r.value = .noOp ∨ ∃ i, Requested R es i r.value) (start R m) es := by
  have hcluster : ∀ {es}, (∀ e ∈ es, e.isRestart = false) →
      Throughout (step R) (fun d => d.cluster.KeepsNoOps) (start R m) es →
      Cluster.NoRestarts (events R (start R m) es) ∧ Throughout (Cluster.step R.hash) Cluster.LearnersAgree
        (Cluster.start R.toLaunch m) (events R (start R m) es) := by
    intro es hrestart hkeeps
    have hrestart' : Cluster.NoRestarts (events R (start R m) es) := noRestarts_events hrestart
    rw [throughout_cluster, cluster_start] at hkeeps
    refine ⟨hrestart', fun es' hes => ?_⟩
    exact (Cluster.sound_run hfresh es').learned_unique
      ((Cluster.unheard_run hmode (fun e he => hrestart' e (hes.subset he))).mono (fun _ _ hx => hx.2))
      hmemory hmode (hkeeps es' hes)
  obtain ⟨hno, hagree⟩ := hcluster hrestart hkeeps
  obtain ⟨log, hlog⟩ := Cluster.exists_history hmemory hno hagree
  refine ⟨log, fun es' hes => ⟨?_, fun r hr => ?_⟩⟩
  · have hexplains : Throughout (Cluster.step R.hash) (Cluster.Explains log)
        (Cluster.start R.toLaunch m) (events R (start R m) es) := fun es' hes => (hlog es' hes).1
    rw [← cluster_start, ← throughout_cluster] at hexplains
    exact hexplains es' hes
  · -- a result that is reported is the answer to a value that has been learned
    have hfirst : ∀ e ∈ es', e.isRestart = false := fun e he => hrestart e (hes.subset he)
    obtain ⟨hno', hagree'⟩ := hcluster hfirst (fun es'' hes'' => hkeeps es'' (hes''.trans hes))
    rw [cluster_run, cluster_start] at hr
    have htrue := (Cluster.replicates_run (m := m) hmemory hno').truthful hagree'.last hr
    obtain ⟨i, l, hl, hrecord⟩ := (Cluster.decided_eq_some hagree'.last).mp htrue.yields.decided
    obtain ⟨x, hx, hxl⟩ := Cluster.learner?_eq_some.mp hl
    rcases (Cluster.submitted_run hev hfresh (events R (start R m) es')).learned i x l hx hxl _ _ hrecord
      with hnoOp | ⟨j, hsubmit⟩
    · exact Or.inl hnoOp
    · exact Or.inr ⟨j, (requested_events hsubmit).imp_left (fun hmem => hes.subset hmem)⟩

/-- The proposer of node 1 starts as leader, and any address can be bound. -/
def ledRollout : Rollout := { Launch.led .inMemory with canBind := fun _ _ => true, demo := none }

/-- The main loop of node 1 gets a request, which two acceptors accept and learner 21 reports. -/
def servedOnce : List Event :=
  [.act 1 (.tick { Env.quiet with now := 10000 }), .deliver 1 .proposer 0 21 .quiet,
    .deliver 21 .learner 0 1 .quiet, .act 1 (.tick .quiet), .act 1 (.tick .quiet),
    .deliver 1 .proposer 1 11 .quiet, .deliver 1 .proposer 1 12 .quiet,
    .deliver 11 .acceptor 0 1 .quiet, .deliver 12 .acceptor 0 1 .quiet,
    .act 1 (.request (setX "a")), .act 1 (.tick .quiet),
    .deliver 1 .proposer 2 11 .quiet, .deliver 1 .proposer 2 12 .quiet,
    .deliver 11 .acceptor 1 21 .quiet, .deliver 12 .acceptor 1 21 .quiet,
    .act 21 (.tick { Env.quiet with now := 10000 })]

set_option maxRecDepth 4000 in
theorem deployment_history_served_request :
    ∃ log : List Value, Throughout (step ledRollout) (fun d => Cluster.Explains log d.cluster ∧
      ∀ r, d.cluster.Reports r → r.value = .noOp ∨ ∃ i, Requested ledRollout servedOnce i r.value)
      (start ledRollout Cluster.sevenNodes) servedOnce :=
  deployment_history ledRollout Cluster.sevenNodes rfl rfl rfl (Launch.fresh_idle .inMemory) servedOnce
    (by decide) (by decide)

example : (run (step ledRollout) (start ledRollout Cluster.sevenNodes) servedOnce).cluster.Reports
    (Cluster.resultOfSet 1 (setX "a")) := by
  decide

end Deployment

end PaxosWasm
