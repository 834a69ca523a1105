import PaxosWasm.Cluster.Election

/-!
# Launching a deployment

`runner-ws`: the configuration lists the nodes and the clusters they run in, and one host runs each
cluster. A host starts the nodes of its cluster, tells each of them all other nodes that are active in any
cluster, and has the active node with the highest id lead. The document is taken as read; what it says of
logging is left out.
-/

namespace PaxosWasm

open Library

/-! ## The configuration of the hosts -/

/-- The `nodes` and `clusters` of `config.yaml`. -/
structure Config where
  nodes : List Node
  clusters : OrdMap Nat (List NodeId)

/-- What a host runs a component with. -/
structure Launched where
  node : Node
  others : List Node
  isLeader : Bool

namespace Config

/-- Why a host does not start. -/
inductive LoadError where
  /-- `expect("must have at least one active node")` -/
  | noActiveNode
  | noCluster (clusterId : Nat)
deriving DecidableEq, Repr

/-! ### What is started

A host starts the nodes of its own cluster. Who leads and which nodes there are it works out from the
whole configuration. -/

/-- The ids of the nodes in any cluster. -/
def activeIds (c : Config) : List NodeId := c.clusters.values.flatten

def activeNodes (c : Config) : List Node := c.nodes.filter (fun n => c.activeIds.contains n.nodeId)

/-- The highest id among the active nodes. -/
def leaderId? (c : Config) : Option NodeId := (c.activeNodes.map Node.nodeId).max?

/-- The leader and the nodes of one cluster. -/
def load (c : Config) (clusterId : Nat) : Except LoadError (NodeId × List Node) :=
  match c.leaderId? with
  | none => .error .noActiveNode
  | some leaderId =>
      match c.clusters.get? clusterId with
      | none => .error (.noCluster clusterId)
      | some ids => .ok (leaderId, c.activeNodes.filter (fun n => ids.contains n.nodeId))

/-- What a host starts. -/
def runCluster (c : Config) (clusterId : Nat) : Except LoadError (List Launched) :=
  (c.load clusterId).map (fun p =>
    p.2.map (fun node =>
      { node
        others := c.activeNodes.filter (fun n => decide (n.nodeId ≠ node.nodeId))
        isLeader := decide (node.nodeId = p.1) }))

/-- What the hosts of all clusters start. -/
def launched (c : Config) : List Launched :=
  c.clusters.keys.flatMap (fun clusterId => (c.runCluster clusterId).toOption.getD [])

variable {c : Config}

theorem mem_activeNodes {node : Node} : node ∈ c.activeNodes ↔
    node ∈ c.nodes ∧ ∃ clusterId ids, c.clusters.get? clusterId = some ids ∧ node.nodeId ∈ ids := by
  simp only [activeNodes, activeIds, List.mem_filter, List.contains_iff_mem, List.mem_flatten,
    OrdMap.mem_values]
  grind

theorem leaderId?_eq_some {l : NodeId} :
    c.leaderId? = some l ↔ IsGreatest {id | ∃ node ∈ c.activeNodes, node.nodeId = id} l := by
  rw [leaderId?, LeaderDetector.isGreatest_of_max?]
  simp

/-! ## One membership

The active nodes are a membership if none is listed twice. Each host then starts its nodes as members of
it. -/

/-- A configuration that lists no node twice. -/
structure WellFormed (c : Config) : Prop where
  nodup : (c.nodes.map Node.nodeId).Nodup
  small : c.nodes.length < 2 ^ 32

/-- The active nodes. -/
def membership (c : Config) (h : c.WellFormed) : Membership where
  nodes := c.activeNodes
  nodup := h.nodup.sublist (List.filter_sublist.map _)
  small := (List.length_filter_le ..).trans_lt h.small

/-- What an active node is to be started with. -/
def launch (c : Config) (node : Node) : Launched :=
  { node
    others := c.activeNodes.filter (fun n => decide (n.nodeId ≠ node.nodeId))
    isLeader := decide (c.leaderId? = some node.nodeId) }

/-- A host starts the active nodes of its cluster. -/
theorem runCluster_eq {clusterId : Nat} {ids : List NodeId} (h : c.clusters.get? clusterId = some ids) :
    (c.runCluster clusterId).toOption.getD [] =
      (c.activeNodes.filter (fun n => ids.contains n.nodeId)).map c.launch := by
  unfold runCluster load
  cases hleader : c.leaderId? with
  | none =>
      have hnone : c.activeNodes = [] := by
        rw [leaderId?, List.max?_eq_none_iff] at hleader
        exact List.map_eq_nil_iff.mp hleader
      rw [hnone]
      rfl
  | some leaderId =>
      rw [h]
      refine List.map_congr_left (fun node _ => ?_)
      simp only [launch, hleader, Option.some.injEq, eq_comm]

/-- No two clusters share a node. -/
def Separate (c : Config) : Prop :=
  c.clusters.keys.Pairwise (fun k k' => ∀ ids ∈ c.clusters.get? k, ∀ ids' ∈ c.clusters.get? k',
    ∀ id ∈ ids, id ∉ ids')

instance : DecidablePred Separate := fun c => inferInstanceAs (Decidable (c.clusters.keys.Pairwise _))

/-- **Every active node is started once**, if no two clusters share one. -/
theorem launched_perm (hc : c.WellFormed) (hseparate : c.Separate) :
    c.launched.Perm (c.activeNodes.map c.launch) := by
  have hnodup : c.activeNodes.Nodup := List.Nodup.of_map _ (c.membership hc).nodup
  let group := fun k => c.activeNodes.filter (fun n => ((c.clusters.get? k).getD []).contains n.nodeId)
  have hlaunched : c.launched = (c.clusters.keys.flatMap group).map c.launch := by
    rw [launched, List.map_flatMap]
    refine List.flatMap_congr (fun k hk => ?_)
    obtain ⟨ids, hids⟩ := OrdMap.mem_keys.mp hk
    simp only [runCluster_eq hids, group, hids, Option.getD_some]
  rw [hlaunched]
  refine List.Perm.map _ ((List.perm_ext_iff_of_nodup ?_ hnodup).mpr (fun node => ?_))
  · refine List.nodup_flatMap.mpr ⟨fun k _ => hnodup.filter _, ?_⟩
    refine hseparate.imp_of_mem (fun {k k'} hk hk' hids => ?_)
    obtain ⟨ids, hk⟩ := OrdMap.mem_keys.mp hk
    obtain ⟨ids', hk'⟩ := OrdMap.mem_keys.mp hk'
    intro node hnode hnode'
    simp only [group, hk, hk', Option.getD_some, List.mem_filter, List.contains_iff_mem] at hnode hnode'
    exact hids ids hk ids' hk' node.nodeId hnode.2 hnode'.2
  · simp only [List.mem_flatMap, group, List.mem_filter, List.contains_iff_mem]
    constructor
    · rintro ⟨_, _, hnode, _⟩
      exact hnode
    · intro hnode
      obtain ⟨-, k, ids, hk, hid⟩ := mem_activeNodes.mp hnode
      exact ⟨k, OrdMap.mem_keys.mpr ⟨ids, hk⟩, hnode, by rw [hk]; exact hid⟩

/-! ## The deployment that is started -/

/-- The hosts have the highest active node lead. -/
def rollout (c : Config) (R : Rollout) : Rollout :=
  { R with isLeader := fun i => decide (c.leaderId? = some i) }

/-- **Who leads at the start**: the highest node that can lead, if the highest active node is one. -/
theorem leadsTop_iff (hc : c.WellFormed) (R : Rollout) :
    (c.rollout R).LeadsTop (c.membership hc) ↔ ((c.membership hc).candidates.Nonempty →
      ∃ node ∈ c.activeNodes, node.CanLead ∧ c.leaderId? = some node.nodeId) := by
  constructor
  · intro htop hsome
    have hfinite : (c.membership hc).candidates.Finite := by
      refine (c.activeNodes.map Node.nodeId).toFinset.finite_toSet.subset ?_
      rintro _ ⟨node, hnode, -, rfl⟩
      exact List.mem_toFinset.mpr (List.mem_map_of_mem hnode)
    obtain ⟨l, hl, hmax⟩ := Set.exists_max_image _ id hfinite hsome
    obtain ⟨node, hnode, hcan, rfl⟩ := id hl
    exact ⟨node, hnode, hcan, of_decide_eq_true ((htop node hnode hcan).mpr ⟨hl, hmax⟩)⟩
  · intro hleader node hnode hcan
    obtain ⟨top, htop, hcantop, hid⟩ := hleader ⟨_, node, hnode, hcan, rfl⟩
    have hgreatest : IsGreatest (c.membership hc).candidates top.nodeId := by
      refine ⟨⟨top, htop, hcantop, rfl⟩, ?_⟩
      rintro _ ⟨y, hy, -, rfl⟩
      exact (leaderId?_eq_some.mp hid).2 ⟨y, hy, rfl⟩
    show decide (c.leaderId? = some node.nodeId) = true ↔ _
    rw [decide_eq_true_iff, hid, Option.some.injEq]
    exact ⟨fun hself => hself ▸ hgreatest, fun hself => hgreatest.unique hself⟩

end Config

namespace Deployment

def startLaunched (R : Rollout) (s : Launched) : Option (NodeId × Component) :=
  let id := s.node.nodeId
  (MainLoop.new R.hash (R.dirs id) (R.env id) (R.canBind id) s.node s.others s.isLeader R.config R.demo).map
    (fun loop => (id, { loop, past := { proposer := [], acceptor := [], learner := [] }, told := [] }))

/-- What the hosts of all clusters have started. -/
def boot (R : Rollout) (c : Config) : Deployment :=
  OrdMap.insertAll ∅ (c.launched.filterMap (startLaunched R))

variable {R : Rollout} {c : Config}

/-- **The hosts start one deployment** of all active nodes, whichever clusters they are grouped into. -/
theorem boot_eq_start (hc : c.WellFormed) (hseparate : c.Separate) :
    boot R c = start (c.rollout R) (c.membership hc) := by
  have hperm := (c.launched_perm hc hseparate).filterMap (startLaunched R)
  rw [List.filterMap_map] at hperm
  refine OrdMap.insertAll_congr (fun p => hperm.mem_iff) (fun id x y hx hy => ?_)
  obtain ⟨node, hnode, hx⟩ := List.mem_filterMap.mp (hperm.mem_iff.mp hx)
  obtain ⟨node', hnode', hy⟩ := List.mem_filterMap.mp (hperm.mem_iff.mp hy)
  obtain ⟨loop, hloop, hpair⟩ := Option.map_eq_some_iff.mp hx
  obtain ⟨loop', hloop', hpair'⟩ := Option.map_eq_some_iff.mp hy
  have hid : node.nodeId = node'.nodeId := (congrArg Prod.fst hpair).trans (congrArg Prod.fst hpair').symm
  obtain rfl := List.inj_on_of_nodup_map (c.membership hc).nodup hnode hnode' hid
  exact congrArg Prod.snd (Option.some.inj (hx.symm.trans hy))

/-- **What a configuration starts**: if it lists no node twice and its clusters share none, the hosts start
every active node exactly once, and what they start is the deployment of all active nodes; the highest node
that can lead starts as leader, as the failure detectors expect it, exactly if no active node is higher. -/
theorem hosts_launch (c : Config) (hc : c.WellFormed) (hseparate : c.Separate) (R : Rollout) :
    c.launched.Perm (c.activeNodes.map c.launch) ∧
      boot R c = start (c.rollout R) (c.membership hc) ∧
      ((c.rollout R).LeadsTop (c.membership hc) ↔ ((c.membership hc).candidates.Nonempty →
        ∃ node ∈ c.activeNodes, node.CanLead ∧ c.leaderId? = some node.nodeId)) :=
  ⟨c.launched_perm hc hseparate, boot_eq_start hc hseparate, c.leadsTop_iff hc R⟩

/-- The `nodes` and `clusters` of `runner-ws/src/config.yaml`. -/
def shippedConfig : Config where
  nodes :=
    [⟨1, "127.0.0.1:50051", .learner⟩, ⟨2, "127.0.0.1:50052", .learner⟩, ⟨3, "127.0.0.1:50053", .learner⟩,
      ⟨4, "127.0.0.1:50054", .acceptor⟩, ⟨5, "127.0.0.1:50055", .acceptor⟩, ⟨6, "127.0.0.1:50056", .acceptor⟩,
      ⟨7, "127.0.0.1:50057", .proposer⟩, ⟨8, "127.0.0.1:50058", .proposer⟩, ⟨9, "127.0.0.1:50059", .proposer⟩]
  clusters := OrdMap.insertAll ∅ ((List.range' 1 9).map (fun id => (id, [id])))

theorem hosts_launch_shipped :
    shippedConfig.launched.Perm (shippedConfig.activeNodes.map shippedConfig.launch) ∧
      ∃ m : Membership, m.nodes = shippedConfig.nodes ∧
        boot ledRollout shippedConfig = start (shippedConfig.rollout ledRollout) m ∧
        (shippedConfig.rollout ledRollout).LeadsTop m := by
  have hc : shippedConfig.WellFormed := ⟨by decide, by decide⟩
  obtain ⟨hperm, hboot, hleads⟩ := hosts_launch shippedConfig hc (by decide) ledRollout
  have hall : shippedConfig.activeNodes = shippedConfig.nodes := by decide
  exact ⟨hperm, shippedConfig.membership hc, hall, hboot, hleads.mpr (fun _ => by decide)⟩

end Deployment

end PaxosWasm
