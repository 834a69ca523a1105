import PaxosWasm.Cluster.NodeSound
import PaxosWasm.Library.Run

/-!
# The cluster

The nodes of a cluster run side by side. An event either calls one node, or brings it a message that
some node has sent to it: messages are never taken back, so they may arrive late, out of order, more
than once, or not at all. The reply to a message is not passed on: where the agents are event driven
they send their answers as messages of their own.
-/

namespace PaxosWasm

open Library

/-- The agents of a node, as senders. -/
inductive Outlet where
  | proposer
  | acceptor
  | learner
deriving DecidableEq

def Outlet.log : Outlet → Logs → List Sent
  | .proposer => Logs.proposer
  | .acceptor => Logs.acceptor
  | .learner => Logs.learner

/-- What every node of a cluster is started with. -/
structure Launch where
  hash : String → Nat
  config : RunConfig
  dirs : NodeId → PaxosCoordinator.Dirs
  env : NodeId → Env
  isLeader : NodeId → Bool

/-- Every node starts over empty directories, and none as leader. -/
def Launch.idle (config : RunConfig) : Launch where
  hash := fun _ => 0
  config := config
  dirs := fun _ => .empty
  env := fun _ => .quiet
  isLeader := fun _ => false

theorem Launch.fresh_idle (config : RunConfig) (i : NodeId) : ((Launch.idle config).dirs i).Fresh :=
  ⟨[], [], [], rfl⟩

/-- The proposer of node 1 starts as leader. -/
def Launch.led (config : RunConfig) : Launch := { Launch.idle config with isLeader := fun i => i == 1 }

/-- The processes of a cluster, by node id. -/
abbrev Cluster := OrdMap NodeId Process

namespace Cluster

/-- An event of the cluster: a call of the node `i`, or the arrival at the node `j` of the `k`-th
message an agent of the node `i` has sent. -/
inductive Event where
  | call (i : NodeId) (e : Process.Event)
  | deliver (i : NodeId) (outlet : Outlet) (k : Nat) (j : NodeId) (env : Env)

/-- The connection an event delivers a message over, and the number of the message. -/
def Event.passage? : Event → Option ((NodeId × Outlet × NodeId) × Nat)
  | .call _ _ => none
  | .deliver i outlet k j _ => some ((i, outlet, j), k)

/-- Over each connection messages arrive in the order in which they were sent, and none twice. -/
def Fifo (es : List Event) : Prop :=
  (es.filterMap Event.passage?).Pairwise (fun p q => p.1 = q.1 → p.2 < q.2)

instance (es : List Event) : Decidable (Fifo es) := inferInstanceAs (Decidable (List.Pairwise _ _))

def Event.isRestart : Event → Bool
  | .call _ (.restart _ _ _) => true
  | _ => false

/-- No event of the run restarts a node. -/
def NoRestarts (es : List Event) : Prop := ∀ e ∈ es, e.isRestart = false

instance (es : List Event) : Decidable (NoRestarts es) := inferInstanceAs (Decidable (∀ e ∈ es, _))

/-- The `k`-th message of an agent of the node `i`, if it goes to the node `j`. -/
def message? (c : Cluster) (i : NodeId) (outlet : Outlet) (k : Nat) (j : NodeId) :
    Option NetworkMessage :=
  match c.get? i with
  | none => none
  | some x =>
      match (outlet.log x.sent)[k]? with
      | none => none
      | some s => if j ∈ s.targets.map Node.nodeId then some s.message else none

/-- Have the node `j` take an event. -/
def update (hash : String → Nat) (c : Cluster) (j : NodeId) (e : Process.Event) : Cluster :=
  match c.get? j with
  | none => c
  | some x => c.insert j (x.step hash e)

/-- No message comes from nowhere: an arrival is no call. -/
def step (hash : String → Nat) (c : Cluster) : Event → Cluster
  | .call _ (.message _ _) => c
  | .call i e => c.update hash i e
  | .deliver i outlet k j env =>
      match c.message? i outlet k j with
      | none => c
      | some m => c.update hash j (.message env m)

def startNode (launch : Launch) (m : Membership) (node : Node) : Option (NodeId × Process) :=
  (Process.start launch.hash (launch.dirs node.nodeId) (launch.env node.nodeId) m node
    (launch.isLeader node.nodeId) launch.config).map (fun x => (node.nodeId, x))

/-- The cluster before anything has been called. -/
def start (launch : Launch) (m : Membership) : Cluster :=
  OrdMap.insertAll ∅ (m.nodes.filterMap (startNode launch m))

/-! ## What an event does

A delivery is a call of the node that gets the message, and so are all others; one that cannot take place does
nothing. -/

/-- The event of the node `j` that an event of the cluster amounts to. -/
inductive Serves (c : Cluster) : Event → NodeId → Process.Event → Prop
  | call {j : NodeId} {e : Process.Event} (h : ∀ env m, e ≠ .message env m) : Serves c (.call j e) j e
  | deliver {i j : NodeId} {outlet : Outlet} {k : Nat} {env : Env} {y : Process} {s : Sent}
      (hy : c.get? i = some y) (hs : (outlet.log y.sent)[k]? = some s)
      (hj : j ∈ s.targets.map Node.nodeId) :
      Serves c (.deliver i outlet k j env) j (.message env s.message)

variable {hash : String → Nat} {c : Cluster}

theorem message?_eq_some {i j : NodeId} {outlet : Outlet} {k : Nat} {msg : NetworkMessage}
    (h : c.message? i outlet k j = some msg) :
    ∃ y s, c.get? i = some y ∧ (outlet.log y.sent)[k]? = some s ∧ j ∈ s.targets.map Node.nodeId ∧
      s.message = msg := by
  unfold message? at h
  split at h
  · cases h
  · next y hy =>
    split at h
    · cases h
    · next s hs =>
      split at h
      · next hj => exact ⟨y, s, hy, hs, hj, Option.some.inj h⟩
      · cases h

theorem update_cases (c : Cluster) (j : NodeId) (e : Process.Event) :
    c.update hash j e = c ∨
      ∃ x, c.get? j = some x ∧ c.update hash j e = c.insert j (x.step hash e) := by
  unfold update
  split
  · exact Or.inl rfl
  · next x hx => exact Or.inr ⟨x, hx, rfl⟩

/-- **An event does nothing, or one node takes the event it amounts to.** -/
theorem step_cases (hash : String → Nat) (c : Cluster) (e : Event) :
    step hash c e = c ∨ ∃ j x e', c.get? j = some x ∧ Serves c e j e' ∧
      step hash c e = c.insert j (x.step hash e') := by
  have hcall : ∀ j e', (∀ env m, e' ≠ .message env m) →
      c.update hash j e' = c ∨ ∃ j' x e'', c.get? j' = some x ∧ Serves c (.call j e') j' e'' ∧
        c.update hash j e' = c.insert j' (x.step hash e'') := by
    intro j e' hno
    rcases c.update_cases j e' with he | ⟨x, hx, he⟩
    · exact Or.inl he
    · exact Or.inr ⟨j, x, e', hx, .call hno, he⟩
  cases e with
  | call j e' =>
      cases e' with
      | message env m => exact Or.inl rfl
      | _ => exact hcall _ _ nofun
  | deliver i outlet k j env =>
      show (match c.message? i outlet k j with
        | none => c
        | some m => c.update hash j (.message env m)) = c ∨ _
      cases hm : c.message? i outlet k j with
      | none => exact Or.inl rfl
      | some msg =>
          obtain ⟨y, s, hy, hs, hj, rfl⟩ := message?_eq_some hm
          rcases c.update_cases j (.message env s.message) with he | ⟨x, hx, he⟩
          · exact Or.inl he
          · refine Or.inr ⟨j, x, _, hx, .deliver hy hs hj, ?_⟩
            rw [← he]
            simp only [step, hm]

/-! ## Invariants

To show something of all nodes, it is enough to show that the events of a node keep it. -/

/-- Every node of the cluster, with its process, meets `P`. -/
def All (m : Membership) (P : Node → Process → Prop) (c : Cluster) : Prop :=
  ∀ i x, c.get? i = some x → ∃ node ∈ m.nodes, node.nodeId = i ∧ P node x

variable {m : Membership} {P : Node → Process → Prop}

theorem All.mono {P' : Node → Process → Prop} (hP : ∀ node x, P node x → P' node x)
    (h : c.All m P) : c.All m P' := by
  intro i x hx
  obtain ⟨node, hnode, hi, hp⟩ := h i x hx
  exact ⟨node, hnode, hi, hP node x hp⟩

theorem All.insert (h : c.All m P) {node : Node} {x : Process} (hnode : node ∈ m.nodes)
    (hx : P node x) : All m P (OrdMap.insert c node.nodeId x) := by
  intro i y hy
  rw [OrdMap.get?_insert] at hy
  split at hy
  · next hi =>
    obtain rfl := Option.some.inj hy
    exact ⟨node, hnode, hi.symm, hx⟩
  · exact h i y hy

/-- **A step of the cluster** keeps what every event keeps of the node that takes it. -/
theorem All.step (h : c.All m P) (e : Event)
    (keep : ∀ node ∈ m.nodes, ∀ x e', c.get? node.nodeId = some x → Serves c e node.nodeId e' →
      P node x → P node (x.step hash e')) : All m P (step hash c e) := by
  rcases step_cases hash c e with he | ⟨j, x, e', hx, hserves, he⟩
  · rw [he]
    exact h
  · obtain ⟨node, hnode, rfl, hp⟩ := h j x hx
    rw [he]
    exact h.insert hnode (keep node hnode x e' hx hserves hp)

theorem all_start {launch : Launch}
    (hstart : ∀ node ∈ m.nodes, ∀ x, Process.start launch.hash (launch.dirs node.nodeId)
      (launch.env node.nodeId) m node (launch.isLeader node.nodeId) launch.config = some x → P node x) :
    All m P (start launch m) := by
  intro i x hx
  rcases OrdMap.get?_insertAll_cases hx with hx | hx
  · rw [OrdMap.get?_empty] at hx
    cases hx
  · obtain ⟨node, hnode, he⟩ := List.mem_filterMap.mp hx
    obtain ⟨y, hy, hpair⟩ := Option.map_eq_some_iff.mp he
    obtain ⟨rfl, rfl⟩ := Prod.mk.inj hpair
    exact ⟨node, hnode, rfl, hstart node hnode y hy⟩

/-- A node starts under its own id. -/
theorem get?_start {launch : Launch} {node : Node} {x : Process} (hnode : node ∈ m.nodes)
    (hx : Process.start launch.hash (launch.dirs node.nodeId) (launch.env node.nodeId) m node
      (launch.isLeader node.nodeId) launch.config = some x) :
    (start launch m).get? node.nodeId = some x := by
  have hself : startNode launch m node = some (node.nodeId, x) := by
    rw [startNode, hx]
    rfl
  refine OrdMap.get?_insertAll_of_agree (fun y hy => ?_) (List.mem_filterMap.mpr ⟨node, hnode, hself⟩)
  obtain ⟨node', hnode', he⟩ := List.mem_filterMap.mp hy
  obtain ⟨z, _, hpair⟩ := Option.map_eq_some_iff.mp he
  -- no other node has that id
  obtain rfl := List.inj_on_of_nodup_map m.nodup hnode' hnode (congrArg Prod.fst hpair)
  exact congrArg Prod.snd (Option.some.inj (he.symm.trans hself))

/-- Two proposers, three acceptors and two learners. -/
def sevenNodes : Membership :=
  { nodes := [⟨1, "", .proposer⟩, ⟨2, "", .proposer⟩, ⟨11, "", .acceptor⟩, ⟨12, "", .acceptor⟩,
      ⟨13, "", .acceptor⟩, ⟨21, "", .learner⟩, ⟨22, "", .learner⟩]
    nodup := by decide
    small := by decide }

end Cluster

end PaxosWasm
