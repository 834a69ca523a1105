import PaxosWasm.Cluster.ClientListener
import PaxosWasm.Cluster.Deployment

/-!
# Electing a leader

Every component picks the highest proposer that its failure detector takes for alive, and its node leads
if that is itself. Nothing is sent about it: components agree on a leader only as far as they hear the
same nodes. Those that do, while their last two checks lie within a period of quiet, see one leader, and
it is the only one among them that leads.

`Elects` is what a component that takes part keeps: its failure detector is the one of all it has been
told since its start, and its node leads exactly if it is the leader that was picked. In a group all
components see the same nodes, and so the same leader, and one of them only is that node.
-/

namespace PaxosWasm

open Library

/-! ## The flag of a new node -/

namespace PaxosCoordinator

variable {hash : String → Nat} {dirs : Dirs} {env : Env} {node : Node} {nodes : List Node}
  {isLeader : Bool} {config : RunConfig} {n : PaxosCoordinator}

/-- A new node runs a proposer if it can lead, and leads if it is told to. -/
theorem isLeader_new (h : new hash dirs env node nodes isLeader config = some n) :
    (node.CanLead → n.proposer?.isSome) ∧ (n.proposer?.isSome → n.isLeader = isLeader) := by
  constructor
  · intro hlead
    obtain ⟨agents, hagents, rfl⟩ := Option.map_eq_some_iff.mp h
    unfold newAgents at hagents
    rcases hlead with hrole | hrole
    · rw [hrole] at hagents
      cases hagents
      rfl
    · rw [hrole] at hagents
      cases hagents
      rfl
  · intro hsome
    obtain ⟨p, hp⟩ := Option.isSome_iff_exists.mp hsome
    have hload : ∀ p : Proposer, p.loadState.2.isLeader = p.isLeader := by
      intro p
      unfold Proposer.loadState
      split <;> rfl
    rw [PaxosCoordinator.isLeader, hp, proposer?_new h hp]
    exact hload _

end PaxosCoordinator

/-- The proposer of a node that can lead stays. -/
theorem Process.canLead_step {m : Membership} {node : Node} {config : RunConfig} (hnode : node ∈ m.nodes)
    (hcan : node.CanLead) (hash : String → Nat) (p : Process) (e : Process.Event)
    (h : p.node.SetUp m node config ∧ p.node.proposer?.isSome) :
    (p.step hash e).node.SetUp m node config ∧ (p.step hash e).node.proposer?.isSome := by
  refine ⟨Process.setUp_step hnode h.1 e, ?_⟩
  rcases Process.step_cases hash p e with ⟨env, isLeader, k, n, -, hnew, he⟩ | ⟨-, -, he⟩ | he
  · rw [he]
    rw [h.1.node_eq] at hnew
    exact (PaxosCoordinator.isLeader_new hnew).1 hcan
  · rw [he]
    exact ((p.node.isSome_call e).1).trans h.2
  · rw [he]
    exact h.2

/-! ## One component

The node follows the verdicts of its failure detector: from its start on it leads if it is the leader
that its detector sees. -/

/-- The nodes that can lead. -/
def Membership.candidates (m : Membership) : Set NodeId := {id | ∃ node ∈ m.nodes, node.CanLead ∧ node.nodeId = id}

theorem Membership.mem_others_append {m : Membership} {node x : Node} (hnode : node ∈ m.nodes) :
    x ∈ m.others node ++ [node] ↔ x ∈ m.nodes := by
  rw [Membership.others_eq_erase hnode]
  exact ((List.perm_append_singleton _ _).trans (List.perm_cons_erase hnode).symm).mem_iff

/-- The host has the highest node that can lead start as leader. -/
def Rollout.LeadsTop (R : Rollout) (m : Membership) : Prop :=
  ∀ node ∈ m.nodes, node.CanLead → (R.isLeader node.nodeId = true ↔ IsGreatest m.candidates node.nodeId)

/-- **The leader of a failure detector** is the highest candidate that it has not missed twice. -/
theorem leader_run_iff {m : Membership} {node : Node} (hnode : node ∈ m.nodes)
    (told : List FailureDetector.Event) {l : NodeId} :
    (run FailureDetector.step (.new node (m.others node) Runner.failureDelta) told).leaderDetector.lastLeader =
        some l ↔
      IsGreatest {id | id ∈ m.candidates ∧ FailureDetector.misses node.nodeId id told < 2} l := by
  have hkept := FailureDetector.kept_run node (m.others node) Runner.failureDelta told
  have hnodup : ((m.others node ++ [node]).map Node.nodeId).Nodup := Runner.nodup_others hnode
  have hstate := fun y (hy : y ∈ m.nodes) => FailureDetector.stateOf_run
    (List.mem_map_of_mem ((Membership.mem_others_append hnode).mpr hy))
    (List.nodup_iff_count_le_one.mp hnodup y.nodeId) Runner.failureDelta told
  generalize run FailureDetector.step (.new node (m.others node) Runner.failureDelta) told = d at *
  have hset : {id | id ∈ d.leaderDetector.proposers ∧ d.stateOf id ≠ .dead} =
      {id | id ∈ m.candidates ∧ FailureDetector.misses node.nodeId id told < 2} := by
    ext id
    have hmem : id ∈ d.leaderDetector.proposers ↔ id ∈ m.candidates := by
      rw [hkept.proposers, LeaderDetector.mem_proposers_new]
      exact exists_congr (fun y => and_congr_left' (Membership.mem_others_append hnode))
    refine (and_congr_left' hmem).trans (and_congr_right (fun hid => ?_))
    obtain ⟨y, hy, -, rfl⟩ := hid
    rw [hstate y hy, ne_eq, FailureDetector.afterMisses_eq_dead, not_le]
  rw [hkept.agrees.leader_eq_some_iff, hset]

namespace Component

variable {R : Rollout} {m : Membership} {node : Node} {x : Component}

/-- **A component that takes part in elections**: its failure detector has taken what it has been told
since the start, and its node leads exactly if the failure detector has picked it. -/
structure Elects (R : Rollout) (m : Membership) (node : Node) (x : Component) : Prop where
  settled : Deployment.Settled R m node x
  canLead : node.CanLead → x.process.node.proposer?.isSome
  detector : x.loop.runner.failureDetector =
    run FailureDetector.step (.new node (m.others node) Runner.failureDelta) x.told
  follows : node.CanLead → ∀ l, x.loop.runner.failureDetector.leaderDetector.lastLeader = some l →
    (x.process.node.isLeader = true ↔ l = node.nodeId)

theorem Elects.watches (h : x.Elects R m node) (hnode : node ∈ m.nodes) :
    x.loop.runner.failureDetector.Watches := by
  rw [h.detector]
  exact (FailureDetector.kept_run node (m.others node) Runner.failureDelta x.told).watches
    (Runner.nodup_others hnode)

/-- **The leader a component sees** is the highest candidate that it has not missed twice. -/
theorem Elects.leader_eq_some_iff (h : x.Elects R m node) (hnode : node ∈ m.nodes) {l : NodeId} :
    x.loop.runner.failureDetector.leaderDetector.lastLeader = some l ↔
      IsGreatest {id | id ∈ m.candidates ∧ FailureDetector.misses node.nodeId id x.told < 2} l := by
  rw [h.detector]
  exact leader_run_iff hnode x.told

/-- A node that leads can lead. -/
theorem Elects.canLead_of_isLeader (h : x.Elects R m node) (hleads : x.process.node.isLeader = true) :
    node.CanLead := by
  refine (h.settled.setUp.proposer_role ?_).symm
  cases hp : x.process.node.proposer? with
  | none =>
      rw [PaxosCoordinator.isLeader, hp] at hleads
      cases hleads
  | some p => rfl

theorem elects_new {dirs : PaxosCoordinator.Dirs} {env : Env} {canBind : String → Bool} {loop : MainLoop}
    {past : Logs} (hnode : node ∈ m.nodes) (htop : R.LeadsTop m)
    (h : MainLoop.new R.hash dirs env canBind node (m.others node) (R.isLeader node.nodeId) R.config R.demo =
      some loop) : Elects R m node { loop, past, told := [] } := by
  have hsettled : Deployment.Settled R m node { loop, past, told := [] } := Deployment.settled_new hnode h
  obtain ⟨paxos, hpaxos, rfl⟩ := Option.map_eq_some_iff.mp h
  obtain ⟨hlead, hflag⟩ := PaxosCoordinator.isLeader_new hpaxos
  refine ⟨hsettled, hlead, rfl, fun hcan l hl => ?_⟩
  have hgreatest : IsGreatest m.candidates l := by
    have hstart := (leader_run_iff hnode []).mp hl
    simpa [FailureDetector.misses] using hstart
  show paxos.isLeader = true ↔ _
  rw [hflag (hlead hcan), htop node hnode hcan]
  exact ⟨fun hself => hgreatest.unique hself, fun hself => hself ▸ hgreatest⟩

/-- A verdict makes exactly the node lead that it names. -/
theorem Elects.follows_checker (h : x.Elects R m node) (hnode : node ∈ m.nodes) (hcan : node.CanLead)
    (env : Env) {l : NodeId} (hl : x.loop.runner.failureDetector.checker.2.leaderDetector.lastLeader = some l) :
    (x.process.node.failureService env x.loop.runner.failureDetector.checker.1).isLeader = true ↔
      l = node.nodeId := by
  rw [PaxosCoordinator.isLeader_failureService, (h.watches hnode).verdict_of_some hl, h.settled.setUp.node_eq,
    h.canLead hcan]
  by_cases hsame : x.loop.runner.failureDetector.leaderDetector.lastLeader = some l
  · rw [if_pos hsame]
    exact h.follows hcan l hsame
  · rw [if_neg hsame]
    simp

theorem Elects.act (h : x.Elects R m node) (hnode : node ∈ m.nodes) (a : MainLoop.Act) :
    (x.act R node.nodeId a).Elects R m node := by
  refine ⟨h.settled.act hnode node.nodeId a, fun hcan => ?_, ?_, fun hcan l hl => ?_⟩
  · rw [Deployment.process_act]
    have hkeep := run_invariant (P := fun p : Process => p.node.SetUp m node R.config ∧ p.node.proposer?.isSome)
      (Process.canLead_step hnode hcan R.hash) (And.intro h.settled.setUp (h.canLead hcan))
      (x.loop.event? a).toList
    exact hkeep.2
  · show (x.loop.act _ a).runner.failureDetector = run _ _ (x.told ++ _)
    rw [MainLoop.failureDetector_act, h.detector, run_append]
  · rcases MainLoop.verdict_cases (R.canBind node.nodeId) x.loop a with ⟨env, hdetector, hpaxos⟩ | ⟨hdetector, hflag⟩
    · show (x.loop.act _ a).runner.paxos.isLeader = true ↔ _
      rw [hpaxos]
      refine h.follows_checker hnode hcan env ?_
      rw [← hdetector]
      exact hl
    · show (x.loop.act _ a).runner.paxos.isLeader = true ↔ _
      rw [hflag]
      refine h.follows hcan l ?_
      rw [← hdetector]
      exact hl

theorem Elects.restart (h : x.Elects R m node) (hnode : node ∈ m.nodes) (htop : R.LeadsTop m) (env : Env)
    (k : Nat) : (x.restart R node.nodeId env k).Elects R m node := by
  unfold Component.restart
  dsimp only
  split
  · next loop hloop =>
    obtain ⟨hnode', hnodes, hconfig⟩ : x.loop.runner.paxos.node = node ∧
        x.loop.runner.paxos.nodes = m.others node ∧ x.loop.runner.paxos.config = R.config :=
      ⟨h.settled.setUp.node_eq, h.settled.setUp.nodes_eq, h.settled.setUp.config_eq⟩
    rw [hnode', hnodes, hconfig] at hloop
    exact elects_new hnode htop hloop
  · exact h

end Component

/-! ## The deployment

Components that hear the same nodes see the same leader, whatever they have seen before. -/

namespace Deployment

variable {R : Rollout} {m : Membership} {d : Deployment}

theorem elects_run (htop : R.LeadsTop m) (es : List Event) :
    All m (Component.Elects R m) (run (step R) (start R m) es) :=
  all_run (fun _ hnode _ hloop => Component.elects_new hnode htop hloop)
    (fun _ hnode _ a hx => hx.act hnode a) (fun _ hnode _ env k hx => hx.restart hnode htop env k) es

/-- The leader that the component `i` sees. -/
def leader? (d : Deployment) (i : NodeId) : Option NodeId :=
  (d.get? i).bind (fun x => x.loop.runner.failureDetector.leaderDetector.lastLeader)

/-- Whether the node `i` leads. -/
def leads (d : Deployment) (i : NodeId) : Bool := (d.get? i).any (fun x => x.loop.runner.paxos.isLeader)

/-- The component `i` takes the node `j` for alive: it has not missed it in two checks in a row. -/
def Hears (d : Deployment) (i j : NodeId) : Prop :=
  ∃ x ∈ d.get? i, FailureDetector.misses i j x.told < 2

instance (d : Deployment) (i j : NodeId) : Decidable (d.Hears i j) :=
  inferInstanceAs (Decidable (∃ x ∈ d.get? i, _))

/-- **A group**: its components hear each other, and no other node. -/
structure Group (m : Membership) (G : Finset NodeId) (d : Deployment) : Prop where
  here : ∀ i ∈ G, (d.get? i).isSome
  hears : ∀ i ∈ G, ∀ node ∈ m.nodes, d.Hears i node.nodeId ↔ node.nodeId ∈ G

/-- **One leader per group**: in every run, however its components have acted, heard each other and been
restarted, all components of a group see one leader, the highest of them that can lead, and exactly that
one leads. -/
theorem one_leader_per_group (R : Rollout) (m : Membership) (htop : R.LeadsTop m) (es : List Event)
    {G : Finset NodeId} (hG : (run (step R) (start R m) es).Group m G) :
    let d := run (step R) (start R m) es
    ∀ i ∈ G, (∀ l, d.leader? i = some l ↔ IsGreatest {id | id ∈ m.candidates ∧ id ∈ G} l) ∧
      (d.leads i = true ↔ IsGreatest {id | id ∈ m.candidates ∧ id ∈ G} i) := by
  intro d i hi
  obtain ⟨x, hx⟩ := Option.isSome_iff_exists.mp (hG.here i hi)
  obtain ⟨node, hnode, rfl, helects⟩ := elects_run (m := m) htop es i x hx
  have hset : {id | id ∈ m.candidates ∧ FailureDetector.misses node.nodeId id x.told < 2} =
      {id | id ∈ m.candidates ∧ id ∈ G} := by
    ext id
    refine and_congr_right (fun hid => ?_)
    obtain ⟨y, hy, -, rfl⟩ := hid
    rw [← hG.hears node.nodeId hi y hy, Hears, hx]
    simp
  have hleader : ∀ l, x.loop.runner.failureDetector.leaderDetector.lastLeader = some l ↔
      IsGreatest {id | id ∈ m.candidates ∧ id ∈ G} l := by
    intro l
    rw [helects.leader_eq_some_iff hnode, hset]
  have hflag : d.leads node.nodeId = x.process.node.isLeader := by
    rw [leads, hx]
    rfl
  refine ⟨fun l => ?_, ?_⟩
  · rw [leader?, hx]
    exact hleader l
  · rw [hflag]
    constructor
    · intro hleads
      have hcan := helects.canLead_of_isLeader hleads
      -- the group has a candidate, so that there is a leader to see
      have hfinite : {id | id ∈ m.candidates ∧ id ∈ G}.Finite :=
        G.finite_toSet.subset (fun _ hid => hid.2)
      obtain ⟨l, hl, hmax⟩ := Set.exists_max_image _ id hfinite ⟨_, ⟨node, hnode, hcan, rfl⟩, hi⟩
      have hgreatest : IsGreatest {id | id ∈ m.candidates ∧ id ∈ G} l := ⟨hl, hmax⟩
      obtain rfl := (helects.follows hcan l ((hleader l).mpr hgreatest)).mp hleads
      exact hgreatest
    · intro hgreatest
      obtain ⟨y, hy, hcan, hid⟩ := hgreatest.1.1
      obtain rfl := List.inj_on_of_nodup_map m.nodup hy hnode hid
      exact (helects.follows hcan y.nodeId ((hleader _).mpr hgreatest)).mpr rfl

/-- Node 2 starts as leader, and any address can be bound. -/
def eldestRollout : Rollout :=
  { Launch.idle .inMemory with isLeader := fun i => i == 2, canBind := fun _ _ => true, demo := none }

theorem candidates_sevenNodes : Cluster.sevenNodes.candidates = {1, 2} := by
  ext id
  simp [Membership.candidates, Cluster.sevenNodes, Node.CanLead, eq_comm]

/-- Nodes 1 and 11 hear each other, and nobody else: node 2 is lost. -/
def leaderLost : List Event :=
  [.act 1 (.failureCheck { Env.quiet with now := 500 }), .act 11 (.failureCheck { Env.quiet with now := 500 }),
    .act 1 (.sendHeartbeat 600), .act 11 (.sendHeartbeat 600),
    .deliver 1 .proposer 0 11 .quiet, .deliver 11 .acceptor 0 1 .quiet,
    .act 1 (.failureCheck { Env.quiet with now := 1000 }), .act 11 (.failureCheck { Env.quiet with now := 1000 })]

theorem group_leaderLost :
    Group Cluster.sevenNodes {1, 11} (run (step eldestRollout) (start eldestRollout Cluster.sevenNodes) leaderLost) where
  here := by decide
  hears := by decide

theorem one_leader_per_group_leader_lost :
    let d := run (step eldestRollout) (start eldestRollout Cluster.sevenNodes) leaderLost
    d.leader? 1 = some 1 ∧ d.leads 1 = true ∧ d.leader? 11 = some 1 ∧ d.leads 11 = false := by
  intro d
  have htop : eldestRollout.LeadsTop Cluster.sevenNodes := by
    intro node hnode hcan
    rw [candidates_sevenNodes]
    have hid : node.nodeId ∈ Cluster.sevenNodes.candidates := ⟨node, hnode, hcan, rfl⟩
    rw [candidates_sevenNodes] at hid
    obtain hid | hid : node.nodeId = 1 ∨ node.nodeId = 2 := hid
    · simp [hid, eldestRollout, IsGreatest, upperBounds]
    · simp [hid, eldestRollout, IsGreatest, upperBounds]
  have hgreatest : IsGreatest {id | id ∈ Cluster.sevenNodes.candidates ∧ id ∈ ({1, 11} : Finset NodeId)} 1 := by
    simp [candidates_sevenNodes, IsGreatest, upperBounds]
  have h := one_leader_per_group eldestRollout Cluster.sevenNodes htop leaderLost group_leaderLost
  obtain ⟨hsees, hleads⟩ := h 1 (by decide)
  obtain ⟨hsees', hleads'⟩ := h 11 (by decide)
  refine ⟨(hsees 1).mpr hgreatest, hleads.mpr hgreatest, (hsees' 1).mpr hgreatest, ?_⟩
  exact eq_false_of_ne_true (fun hno => absurd (hgreatest.unique (hleads'.mp hno)) (by decide))

end Deployment

end PaxosWasm
