import PaxosWasm.Agents.Node

/-!
# The nodes of a cluster

A node is started with the list of the other nodes, and counts the acceptors in it to find its
quorum. Over a list of different nodes, that is a majority of the acceptors of the cluster.
-/

namespace PaxosWasm

open Library

/-- The nodes of a cluster. -/
structure Membership where
  nodes : List Node
  nodup : (nodes.map Node.nodeId).Nodup
  /-- A `usize` has 32 bits. -/
  small : nodes.length < 2 ^ 32

namespace Membership

variable (m : Membership)

/-- The nodes a node is told about at its start. -/
def others (node : Node) : List Node := m.nodes.filter (fun x => decide (x.nodeId ≠ node.nodeId))

/-- The nodes that run an acceptor. -/
def acceptorIds : Finset NodeId := ((acceptorNodes m.nodes).map Node.nodeId).toFinset

def quorum : Nat := m.acceptorIds.card / 2 + 1

/-! ### Quorums

A proposer and a learner take their quorum from the nodes they are started with. All come to the same. -/

theorem card_acceptorIds : m.acceptorIds.card = (acceptorNodes m.nodes).length := by
  rw [acceptorIds, List.toFinset_card_of_nodup, List.length_map]
  exact m.nodup.sublist (List.filter_sublist.map _)

theorem card_acceptorIds_lt : m.acceptorIds.card < 2 ^ 32 := by
  rw [card_acceptorIds]
  exact lt_of_le_of_lt (List.length_filter_le ..) m.small

variable {m} {node : Node}

theorem mem_acceptorIds_of_role (hnode : node ∈ m.nodes)
    (hrole : node.role = .acceptor ∨ node.role = .coordinator) : node.nodeId ∈ m.acceptorIds := by
  rw [acceptorIds, List.mem_toFinset]
  exact List.mem_map_of_mem (List.mem_filter.mpr ⟨hnode, decide_eq_true hrole⟩)

/-- A quorum of acceptors is a majority. -/
theorem majority_of_quorum {S : Finset NodeId} (hsub : S ⊆ m.acceptorIds) (hcard : m.quorum ≤ S.card) :
    Majority m.acceptorIds S :=
  majority_of_card hsub hcard

theorem others_eq_erase (hnode : node ∈ m.nodes) : m.others node = m.nodes.erase node := by
  rw [(List.Nodup.of_map _ m.nodup).erase_eq_filter]
  refine List.filter_congr (fun x hx => ?_)
  by_cases h : x = node
  · simp [h]
  · have hid : x.nodeId ≠ node.nodeId := fun hid => h (List.inj_on_of_nodup_map m.nodup hx hnode hid)
    simp [h, hid]

/-- The acceptors a node counts, itself included. -/
theorem length_acceptorNodes (hnode : node ∈ m.nodes) (hrole : node.role ≠ .acceptor) :
    (acceptorNodes (m.others node)).length + (if node.role = .coordinator then 1 else 0) =
      m.acceptorIds.card := by
  rw [card_acceptorIds, others_eq_erase hnode, acceptorNodes, acceptorNodes,
    ← List.countP_eq_length_filter, ← List.countP_eq_length_filter, List.countP_erase]
  by_cases hcoord : node.role = .coordinator
  · have hpos : 0 < m.nodes.countP (fun x => decide (x.role = .acceptor ∨ x.role = .coordinator)) :=
      List.countP_pos_iff.mpr ⟨node, hnode, by simp [hcoord]⟩
    simp only [hnode, hcoord, or_true, decide_true, and_self, if_true]
    omega
  · simp [hcoord, hrole]

theorem quorum_eq (hnode : node ∈ m.nodes) (hrole : node.role ≠ .acceptor) :
    asUsize (((acceptorNodes (m.others node)).length +
      (if node.role = .coordinator then 1 else 0)) / 2 + 1) = m.quorum := by
  have hlt := m.card_acceptorIds_lt
  rw [length_acceptorNodes hnode hrole]
  exact asUsize_of_lt (by omega)

theorem quorum_newProposer (hnode : node ∈ m.nodes) (hrole : node.role ≠ .acceptor)
    (dir : Proposer.Dir) (env : Env) (isLeader : Bool) (config : RunConfig) :
    (ProposerAgent.new dir env node (m.others node) isLeader config).proposer.quorum = m.quorum := by
  have hload : ∀ p : Proposer, p.loadState.2.quorum = p.quorum := by
    intro p
    unfold Proposer.loadState
    split <;> rfl
  exact (hload _).trans (quorum_eq hnode hrole)

theorem quorum_newLearner (hnode : node ∈ m.nodes) (hrole : node.role ≠ .acceptor)
    (hash : String → Nat) (dir : Learner.Dir) (env : Env) (config : RunConfig) :
    (LearnerAgent.new hash dir env node (m.others node) config).learner.quorum = m.quorum :=
  quorum_eq hnode hrole

end Membership

/-! ## What a node keeps of its start

A node is given the others and its own settings when it starts. No call changes them, and a restart uses
them again. -/

namespace PaxosCoordinator

/-- **What a node keeps of its start**: its settings, the role of its agents, and the quorum it
counts to. -/
structure SetUp (m : Membership) (node : Node) (config : RunConfig) (n : PaxosCoordinator) : Prop where
  node_eq : n.node = node
  nodes_eq : n.nodes = m.others node
  config_eq : n.config = config
  proposer_role : n.proposer?.isSome → node.role = .proposer ∨ node.role = .coordinator
  acceptor_role : n.acceptor?.isSome → node.role = .acceptor ∨ node.role = .coordinator
  learner_role : n.learner?.isSome → node.role = .learner ∨ node.role = .coordinator
  proposer : ∀ p, n.proposer? = some p →
    p.config = config ∧ p.node = node ∧ p.proposer.quorum = m.quorum
  acceptor : ∀ a, n.acceptor? = some a → a.config = config ∧ a.Disabled

variable {m : Membership} {node : Node} {config : RunConfig} {n : PaxosCoordinator}

theorem setUp_new {hash : String → Nat} {dirs : Dirs} {env : Env} {isLeader : Bool}
    (hnode : node ∈ m.nodes) (h : new hash dirs env node (m.others node) isLeader config = some n) :
    n.SetUp m node config := by
  obtain ⟨agents, hagents, rfl⟩ := Option.map_eq_some_iff.mp h
  have hprop (hrole : node.role ≠ .acceptor) :
      let p := ProposerAgent.new dirs.proposer env node (m.others node) isLeader config
      p.config = config ∧ p.node = node ∧ p.proposer.quorum = m.quorum :=
    ⟨rfl, rfl, Membership.quorum_newProposer hnode hrole dirs.proposer env isLeader config⟩
  have hacc :
      let a := AcceptorAgent.new hash dirs.acceptor env node (m.others node) config
      a.config = config ∧ a.Disabled := by
    refine ⟨rfl, fun hoff => ?_⟩
    exact hoff
  unfold newAgents at hagents
  generalize ProposerAgent.new dirs.proposer env node (m.others node) isLeader config = p₀
    at hagents hprop
  generalize AcceptorAgent.new hash dirs.acceptor env node (m.others node) config = a₀
    at hagents hacc
  split at hagents
  · next hrole =>
    obtain rfl := Option.some.inj hagents
    exact ⟨rfl, rfl, rfl, fun _ => Or.inl hrole, nofun, nofun,
      fun p hp => Option.some.inj hp ▸ hprop (by rw [hrole]; nofun), fun a ha => (by cases ha)⟩
  · next hrole =>
    obtain rfl := Option.some.inj hagents
    exact ⟨rfl, rfl, rfl, nofun, fun _ => Or.inl hrole, nofun, fun p hp => (by cases hp),
      fun a ha => Option.some.inj ha ▸ hacc⟩
  · next hrole =>
    obtain rfl := Option.some.inj hagents
    exact ⟨rfl, rfl, rfl, nofun, nofun, fun _ => Or.inl hrole, fun p hp => (by cases hp),
      fun a ha => (by cases ha)⟩
  · next hrole =>
    obtain rfl := Option.some.inj hagents
    exact ⟨rfl, rfl, rfl, fun _ => Or.inr hrole, fun _ => Or.inr hrole, fun _ => Or.inr hrole,
      fun p hp => Option.some.inj hp ▸ hprop (by rw [hrole]; nofun),
      fun a ha => Option.some.inj ha ▸ hacc⟩
  · cases hagents

/-- The proposer agent of a new node is a new one. -/
theorem proposer?_new {hash : String → Nat} {dirs : Dirs} {env : Env} {nodes : List Node}
    {isLeader : Bool} {p : ProposerAgent}
    (h : new hash dirs env node nodes isLeader config = some n) (hp : n.proposer? = some p) :
    p = ProposerAgent.new dirs.proposer env node nodes isLeader config := by
  obtain ⟨agents, hagents, rfl⟩ := Option.map_eq_some_iff.mp h
  unfold newAgents at hagents
  generalize ProposerAgent.new dirs.proposer env node nodes isLeader config = p₀ at hagents
  split at hagents
  · obtain rfl := Option.some.inj hagents
    exact (Option.some.inj hp).symm
  · obtain rfl := Option.some.inj hagents
    cases hp
  · obtain rfl := Option.some.inj hagents
    cases hp
  · obtain rfl := Option.some.inj hagents
    exact (Option.some.inj hp).symm
  · cases hagents

/-- A new node has sent nothing. -/
theorem logs_new {hash : String → Nat} {dirs : Dirs} {env : Env} {nodes : List Node}
    {isLeader : Bool} (h : new hash dirs env node nodes isLeader config = some n) :
    n.logs = { proposer := [], acceptor := [], learner := [] } := by
  obtain ⟨agents, hagents, rfl⟩ := Option.map_eq_some_iff.mp h
  unfold newAgents at hagents
  split at hagents
  · obtain rfl := Option.some.inj hagents
    rfl
  · obtain rfl := Option.some.inj hagents
    rfl
  · obtain rfl := Option.some.inj hagents
    rfl
  · obtain rfl := Option.some.inj hagents
    rfl
  · cases hagents

/-- A call changes no role. -/
theorem isSome_call (n : PaxosCoordinator) (e : Process.Event) :
    (Process.call n e).2.proposer?.isSome = n.proposer?.isSome ∧
      (Process.call n e).2.acceptor?.isSome = n.acceptor?.isSome ∧
      (Process.call n e).2.learner?.isSome = n.learner?.isSome := by
  by_cases hjoint : ∃ t, n.Joint t e
  · obtain ⟨t, hagents, hevent⟩ := hjoint
    obtain ⟨config, node, nodes, agents⟩ := n
    obtain rfl : agents = .coordinator t := hagents
    rcases hevent with ⟨env, rfl⟩ | ⟨env, slots, rfl⟩ <;> exact ⟨rfl, rfl, rfl⟩
  · obtain ⟨hp, ha, hl, _⟩ := n.call_cases e (fun t ht => hjoint ⟨t, ht⟩)
    rw [hp, ha, hl]
    simp

/-- The steps of a proposer agent change none of its settings. -/
theorem SetUp.of_steps {g : Leader.Given} {p p' : ProposerAgent} {pending : List Proposal}
    (hs : n.SetUp m node config) (hp : n.proposer? = some p)
    (h : Leader.Steps g (p.leader []) (p'.leader pending)) :
    p'.config = config ∧ p'.node = node ∧ p'.proposer.quorum = m.quorum := by
  obtain ⟨hconfig, hnode, hquorum⟩ := hs.proposer p hp
  have hframe : p'.frame = p.frame := h.frame_eq
  exact ⟨(congrArg Leader.Frame.config hframe).trans hconfig,
    (congrArg Leader.Frame.node hframe).trans hnode,
    (congrArg Leader.Frame.quorum hframe).trans hquorum⟩

/-- Nothing is asked of a call that anything may happen in. -/
theorem SetUp.allows_any (hs : n.SetUp m node config) {p : ProposerAgent} (hp : n.proposer? = some p)
    (e : Process.Event) : n.Allows Leader.Given.any p e :=
  { config_eq := (hs.proposer p hp).1.trans hs.config_eq.symm
    disabled := fun a ha => (hs.acceptor a ha).2
    message := fun _ _ _ => ⟨fun _ _ => ⟨trivial, fun _ _ _ _ => trivial⟩, fun _ _ => trivial⟩
    usurps := fun _ _ _ => Or.inr trivial
    promise := fun _ _ _ => trivial
    resets := fun _ _ _ => trivial
    locally := fun _ _ _ _ _ _ _ _ => trivial }

theorem SetUp.call (hs : n.SetUp m node config) (e : Process.Event) :
    (Process.call n e).2.SetUp m node config := by
  obtain ⟨hnode, hconfig, hnodes⟩ := n.sameSetup_call e
  obtain ⟨hprop, hacc, hlearn⟩ := n.isSome_call e
  refine ⟨hnode.trans hs.node_eq, hnodes.trans hs.nodes_eq, hconfig.trans hs.config_eq,
    fun h => hs.proposer_role (hprop ▸ h), fun h => hs.acceptor_role (hacc ▸ h),
    fun h => hs.learner_role (hlearn ▸ h), fun p' hp' => ?_, fun a' ha' => ?_⟩
  · rw [hp'] at hprop
    obtain ⟨p, hp⟩ := Option.isSome_iff_exists.mp hprop.symm
    obtain ⟨p'', pending, hp'', hsteps, _⟩ := steps_call hp (hs.allows_any hp e)
    obtain rfl := Option.some.inj (hp''.symm.trans hp')
    exact hs.of_steps hp hsteps
  · rw [ha'] at hacc
    obtain ⟨a, ha⟩ := Option.isSome_iff_exists.mp hacc.symm
    obtain ⟨a'', ha'', hkeeps⟩ := n.keeps_call e ha
    obtain rfl := Option.some.inj (ha''.symm.trans ha')
    exact ⟨hkeeps.1.trans (hs.acceptor a ha).1, hkeeps.disabled (hs.acceptor a ha).2⟩

end PaxosCoordinator

namespace Process

/-- A node of `m` before anything has been called. -/
def start (hash : String → Nat) (dirs : PaxosCoordinator.Dirs) (env : Env) (m : Membership)
    (node : Node) (isLeader : Bool) (config : RunConfig) : Option Process :=
  (PaxosCoordinator.new hash dirs env node (m.others node) isLeader config).map (fun n =>
    { node := n, running := true, past := { proposer := [], acceptor := [], learner := [] } })

variable {m : Membership} {node : Node} {config : RunConfig} {hash : String → Nat}

theorem setUp_start {dirs : PaxosCoordinator.Dirs} {env : Env} {isLeader : Bool} {x : Process}
    (hnode : node ∈ m.nodes) (h : start hash dirs env m node isLeader config = some x) :
    x.node.SetUp m node config := by
  obtain ⟨n, hn, rfl⟩ := Option.map_eq_some_iff.mp h
  exact PaxosCoordinator.setUp_new hnode hn

/-- **What an event does**: a restart over the node's files, a call of a running node, or nothing. -/
theorem step_cases (hash : String → Nat) (x : Process) (e : Event) :
    (∃ env isLeader k n, e = .restart env isLeader k ∧
      PaxosCoordinator.new hash (x.node.dirs k) env x.node.node x.node.nodes isLeader x.node.config =
        some n ∧ step hash x e = { node := n, running := true, past := x.sent }) ∨
    ((∀ env isLeader k, e ≠ .restart env isLeader k) ∧ x.running = true ∧
      step hash x e = { x with node := (call x.node e).2, running := (call x.node e).1 }) ∨
    step hash x e = x := by
  cases e with
  | restart env isLeader k =>
      cases hnew : PaxosCoordinator.new hash (x.node.dirs k) env x.node.node x.node.nodes isLeader
        x.node.config with
      | some n => exact Or.inl ⟨env, isLeader, k, n, rfl, hnew, by rw [step, hnew]⟩
      | none => exact Or.inr (Or.inr (by rw [step, hnew]))
  | _ =>
      unfold step
      dsimp only
      split
      · next hrun => exact Or.inr (Or.inl ⟨nofun, hrun, rfl⟩)
      · exact Or.inr (Or.inr rfl)

theorem setUp_step (hnode : node ∈ m.nodes) {x : Process} (hs : x.node.SetUp m node config)
    (e : Event) : (step hash x e).node.SetUp m node config := by
  rcases step_cases hash x e with ⟨env, isLeader, k, n, rfl, hnew, he⟩ | ⟨_, _, he⟩ | he
  · rw [he]
    rw [hs.node_eq, hs.nodes_eq, hs.config_eq] at hnew
    exact PaxosCoordinator.setUp_new hnode hnew
  · rw [he]
    exact hs.call e
  · rw [he]
    exact hs

end Process

end PaxosWasm
