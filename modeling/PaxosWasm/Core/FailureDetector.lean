import PaxosWasm.Core.LeaderDetector
import PaxosWasm.Library.Run

/-!
# The failure detector

`core/failure-detector`: a heartbeat marks its sender as seen, and a `checker` call sweeps over all
nodes: a node that was seen is alive, one that was missed once is suspected, one that was missed
again is dead. The leader detector hears of deaths and returns during the sweep, and the last leader
it answers with is the verdict of the call. Logging is left out.

The leader detector has its own picture of the nodes, which is changed in the course of a sweep, node
after node. `Sweep.Agrees` says what the two pictures have to do with each other at every point of it,
and the leader is read off the states of the nodes by it. Most lemmas are about a turn, and a few about
the whole sweep.
-/

namespace PaxosWasm

open Library

inductive FailureState where
  | alive
  | suspected
  | dead
deriving DecidableEq, Repr

/-- The state of a node after a check that has heard from it, or missed it. -/
def FailureState.next (heard : Bool) (s : FailureState) : FailureState :=
  if heard then .alive else if s = .alive then .suspected else .dead

/-- The calls of a sweep on the leader detector. -/
inductive Notice where
  | suspect (id : NodeId)
  | restore (id : NodeId)
deriving DecidableEq, Repr

/-! ## The detector

The loop of `checker` goes over all the nodes, and calls the leader detector as it goes. `Sweep` holds the
variables of this loop. -/

structure FailureDetector where
  localId : NodeId
  allNodes : List Node
  leaderDetector : LeaderDetector
  stateMap : OrdMap NodeId FailureState
  seen : OrdMap NodeId Bool

namespace FailureDetector

def new (node : Node) (others : List Node) (_delta : Nat) : FailureDetector :=
  let all := others ++ [node]
  { localId := node.nodeId
    allNodes := all
    leaderDetector := .new all
    stateMap := all.foldl (fun map node => map.insert node.nodeId .alive) ∅
    seen := ∅ }

/-- `states.get(&id).copied().unwrap_or(FailureState::Alive)` -/
def stateOf (d : FailureDetector) (id : NodeId) : FailureState := (d.stateMap.get? id).getD .alive

/-- `seen.get(&id).copied().unwrap_or(false)` -/
def sees (d : FailureDetector) (id : NodeId) : Bool := (d.seen.get? id).getD false

/-- The variables of the loop of `checker`, and the calls it has made on the leader detector. -/
structure Sweep where
  states : OrdMap NodeId FailureState
  seen : OrdMap NodeId Bool
  leaderDetector : LeaderDetector
  newLeader : Option NodeId
  notices : List Notice

namespace Sweep

def stateOf (w : Sweep) (id : NodeId) : FailureState := (w.states.get? id).getD .alive

def sees (w : Sweep) (id : NodeId) : Bool := (w.seen.get? id).getD false

/-- Call the leader detector; a leader it answers with is the new leader so far. -/
def tell (w : Sweep) (notice : Notice) : Sweep :=
  let (leader, leaderDetector) :=
    match notice with
    | .suspect id => w.leaderDetector.suspect id
    | .restore id => w.leaderDetector.restore id
  { w with
    leaderDetector
    newLeader := leader.or w.newLeader
    notices := w.notices ++ [notice] }

/-- One turn of the loop of `checker`. -/
def visit (w : Sweep) (node : Node) : Sweep :=
  let id := node.nodeId
  let current := w.stateOf id
  let heard := w.sees id
  let w := { w with seen := w.seen.retain (fun k => decide (k ≠ id)) }
  if heard then
    let w := if current ≠ .alive then w.tell (.restore id) else w
    { w with states := w.states.insert id .alive }
  else
    match current with
    | .alive => { w with states := w.states.insert id .suspected }
    | .suspected => { w with states := w.states.insert id .dead }.tell (.suspect id)
    | .dead => w

end Sweep

/-- The loop of `checker` over some nodes. -/
def sweep (d : FailureDetector) (nodes : List Node) : Sweep :=
  nodes.foldl Sweep.visit
    { states := d.stateMap
      seen := d.seen
      leaderDetector := d.leaderDetector
      newLeader := none
      notices := [] }

def checker (d : FailureDetector) : Option NodeId × FailureDetector :=
  let w := d.sweep d.allNodes
  (w.newLeader, { d with leaderDetector := w.leaderDetector, stateMap := w.states, seen := ∅ })

/-- The calls a `checker` call makes on the leader detector. -/
def notices (d : FailureDetector) : List Notice := (d.sweep d.allNodes).notices

def heartbeat (d : FailureDetector) (sender : NodeId) : FailureDetector :=
  { d with seen := (d.seen.insert sender true).insert d.localId true }

def aliveNodes (d : FailureDetector) : List NodeId :=
  (d.allNodes.filter (fun node => decide (d.stateOf node.nodeId ≠ .dead))).map Node.nodeId

/-! ## One turn

The turn of a node concerns its own state and mark only, and tells the leader detector at most one
thing. -/

/-- What a turn tells the leader detector: a node seen again is restored, one missed for the second
time is suspected. -/
def notice? (heard : Bool) (current : FailureState) (id : NodeId) : Option Notice :=
  if heard then (if current = .alive then none else some (.restore id))
  else if current = .suspected then some (.suspect id) else none

namespace Sweep

variable (w : Sweep) (node : Node)

/-- A call of the leader detector, whatever it is about. -/
theorem tell_eq (notice : Notice) :
    ∃ id b, notice = (if b then .suspect id else .restore id) ∧
      w.tell notice =
        { w with
          leaderDetector := (w.leaderDetector.mark id b).2
          newLeader := (w.leaderDetector.mark id b).1.or w.newLeader
          notices := w.notices ++ [notice] } := by
  cases notice with
  | suspect id => exact ⟨id, true, rfl, rfl⟩
  | restore id => exact ⟨id, false, rfl, rfl⟩

/-- **One turn**: the state of the node moves on, it counts as not seen from now on, and the leader
detector hears of it as `notice?` says. -/
theorem visit_eq :
    ∃ states seen,
      (∀ id, (states.get? id).getD .alive =
        if id = node.nodeId then (w.stateOf id).next (w.sees id) else w.stateOf id) ∧
      (∀ id, (seen.get? id).getD false = if id = node.nodeId then false else w.sees id) ∧
      w.visit node =
        (match notice? (w.sees node.nodeId) (w.stateOf node.nodeId) node.nodeId with
          | none => { w with states, seen }
          | some notice => { w with states, seen }.tell notice) := by
  -- the node counts as not seen from now on, and its state moves on
  have hseen : ∀ id, ((w.seen.retain (fun k => decide (k ≠ node.nodeId))).get? id).getD false =
      if id = node.nodeId then false else w.sees id := by
    intro id
    rw [OrdMap.get?_retain]
    by_cases h : id = node.nodeId <;> simp [h, sees]
  have hstate : ∀ s, s = (w.stateOf node.nodeId).next (w.sees node.nodeId) →
      ∀ id, ((w.states.insert node.nodeId s).get? id).getD .alive =
        if id = node.nodeId then (w.stateOf id).next (w.sees id) else w.stateOf id := by
    intro s hs id
    rw [OrdMap.get?_insert]
    by_cases h : id = node.nodeId
    · simp [h, hs]
    · simp [h, stateOf]
  cases hheard : w.sees node.nodeId with
  | true =>
      refine ⟨_, _, hstate .alive (by simp [hheard, FailureState.next]), hseen, ?_⟩
      cases hcurrent : w.stateOf node.nodeId <;>
        simp [visit, hheard, hcurrent, notice?, tell]
  | false =>
      cases hcurrent : w.stateOf node.nodeId with
      | alive =>
          refine ⟨_, _, hstate .suspected (by simp [hheard, hcurrent, FailureState.next]), hseen, ?_⟩
          simp [visit, hheard, hcurrent, notice?]
      | suspected =>
          refine ⟨_, _, hstate .dead (by simp [hheard, hcurrent, FailureState.next]), hseen, ?_⟩
          simp [visit, hheard, hcurrent, notice?]
      | dead =>
          -- a dead node that is missed stays dead: its state is not written
          refine ⟨w.states, _, ?_, hseen, ?_⟩
          · intro id
            by_cases h : id = node.nodeId
            · simp only [h, if_true, hheard]
              rw [show (w.states.get? node.nodeId).getD .alive = .dead from hcurrent, hcurrent]
              rfl
            · simp [h, stateOf]
          · simp [visit, hheard, hcurrent, notice?]

@[simp] theorem stateOf_tell (notice : Notice) (id : NodeId) :
    (w.tell notice).stateOf id = w.stateOf id := by
  obtain ⟨_, _, _, h⟩ := w.tell_eq notice
  rw [h]
  rfl

@[simp] theorem sees_tell (notice : Notice) (id : NodeId) : (w.tell notice).sees id = w.sees id := by
  obtain ⟨_, _, _, h⟩ := w.tell_eq notice
  rw [h]
  rfl

theorem stateOf_visit (id : NodeId) :
    (w.visit node).stateOf id =
      if id = node.nodeId then (w.stateOf id).next (w.sees id) else w.stateOf id := by
  obtain ⟨states, seen, hstates, -, h⟩ := w.visit_eq node
  rw [h, ← hstates]
  split
  · rfl
  · rw [stateOf_tell]
    rfl

theorem sees_visit (id : NodeId) :
    (w.visit node).sees id = if id = node.nodeId then false else w.sees id := by
  obtain ⟨states, seen, -, hseen, h⟩ := w.visit_eq node
  rw [h, ← hseen]
  split
  · rfl
  · rw [sees_tell]
    rfl

theorem notices_visit :
    (w.visit node).notices =
      w.notices ++ (notice? (w.sees node.nodeId) (w.stateOf node.nodeId) node.nodeId).toList := by
  obtain ⟨states, seen, -, -, h⟩ := w.visit_eq node
  rw [h]
  split
  · next hnone => simp [hnone]
  · next notice hsome =>
    obtain ⟨id, b, -, htell⟩ := tell_eq { w with states, seen } notice
    rw [htell, hsome]
    rfl

/-! ## The leader detector during a sweep

Its suspects are the dead proposers before a sweep and after each turn of it. -/

/-- **The two detectors agree**: the suspected proposers are the dead ones, and the leader is up to
date. -/
structure Agrees : Prop where
  elected : w.leaderDetector.Elected
  suspects : ∀ id ∈ w.leaderDetector.proposers,
    w.leaderDetector.suspects id = decide (w.stateOf id = .dead)

/-- What a turn does to the leader detector and to the verdict: nothing, or one mark. -/
theorem leader_visit :
    (notice? (w.sees node.nodeId) (w.stateOf node.nodeId) node.nodeId = none ∧
        (w.visit node).leaderDetector = w.leaderDetector ∧ (w.visit node).newLeader = w.newLeader) ∨
      ∃ b, b = decide ((w.visit node).stateOf node.nodeId = .dead) ∧
        (w.visit node).leaderDetector = (w.leaderDetector.mark node.nodeId b).2 ∧
        (w.visit node).newLeader = (w.leaderDetector.mark node.nodeId b).1.or w.newLeader := by
  have hstate := w.stateOf_visit node node.nodeId
  rw [if_pos rfl] at hstate
  obtain ⟨states, seen, -, -, h⟩ := w.visit_eq node
  cases hheard : w.sees node.nodeId <;> cases hcurrent : w.stateOf node.nodeId <;>
    simp only [hheard, hcurrent, notice?, FailureState.next, reduceCtorEq, if_true, if_false,
      Bool.false_eq_true] at h hstate ⊢
  case true.suspected | true.dead =>
    refine Or.inr ⟨false, by simp [hstate], ?_⟩
    rw [h]
    exact ⟨rfl, rfl⟩
  case false.suspected =>
    refine Or.inr ⟨true, by simp [hstate], ?_⟩
    rw [h]
    exact ⟨rfl, rfl⟩
  all_goals
    rw [h]
    exact Or.inl ⟨trivial, rfl, rfl⟩

@[simp] theorem proposers_visit :
    (w.visit node).leaderDetector.proposers = w.leaderDetector.proposers := by
  obtain ⟨-, h, -⟩ | ⟨b, -, h, -⟩ := w.leader_visit node <;> rw [h]
  exact LeaderDetector.proposers_mark ..

variable {w} {node}

/-- Without a notice, whether a node is dead does not change. -/
theorem dead_of_notice?_eq_none {heard : Bool} {current : FailureState} {id : NodeId}
    (h : notice? heard current id = none) : current.next heard = .dead ↔ current = .dead := by
  cases heard <;> cases current <;> simp_all [notice?, FailureState.next]

theorem Agrees.visit (hw : w.Agrees) : (w.visit node).Agrees := by
  have hstate := w.stateOf_visit node
  obtain ⟨hnone, hld, -⟩ | ⟨b, hb, hld, -⟩ := w.leader_visit node
  · refine ⟨by rw [hld]; exact hw.elected, fun id hid => ?_⟩
    rw [hld] at hid ⊢
    rw [hw.suspects id hid, hstate]
    split
    · next hid =>
      subst hid
      simp [dead_of_notice?_eq_none hnone]
    · rfl
  · refine ⟨by rw [hld]; exact hw.elected.mark _ _, fun id hid => ?_⟩
    rw [hld, LeaderDetector.proposers_mark] at hid
    rw [hld, LeaderDetector.suspects_mark]
    by_cases hself : id = node.nodeId
    · subst hself
      rw [if_pos ⟨rfl, hid⟩]
      exact hb
    · rw [if_neg (fun h => hself h.1), hw.suspects id hid, hstate, if_neg hself]

/-- The leader, by the states of the nodes. -/
theorem Agrees.leader_eq_some_iff (hw : w.Agrees) {l : NodeId} :
    w.leaderDetector.lastLeader = some l ↔
      IsGreatest {id | id ∈ w.leaderDetector.proposers ∧ w.stateOf id ≠ .dead} l := by
  rw [hw.elected, LeaderDetector.recomputeLeader_eq_some_iff]
  have hset : {id | id ∈ w.leaderDetector.proposers ∧ w.leaderDetector.suspects id = false} =
      {id | id ∈ w.leaderDetector.proposers ∧ w.stateOf id ≠ .dead} := by
    ext id
    exact and_congr_right (fun hid => by simp [hw.suspects id hid])
  rw [hset]

theorem Agrees.leader_eq_none_iff (hw : w.Agrees) :
    w.leaderDetector.lastLeader = none ↔
      ∀ id ∈ w.leaderDetector.proposers, w.stateOf id = .dead := by
  rw [hw.elected, LeaderDetector.recomputeLeader_eq_none_iff]
  exact forall₂_congr (fun id hid => by simp [hw.suspects id hid])

end Sweep

/-! ## A sweep

Every node has one turn, in the order of the list, and nothing else changes. -/

section Sweeping

variable (d : FailureDetector)

/-- What holds of the state before a sweep and is kept by each turn holds after the sweep. -/
theorem sweep_snoc (nodes : List Node) (node : Node) :
    d.sweep (nodes ++ [node]) = (d.sweep nodes).visit node := by
  rw [sweep, List.foldl_append]
  rfl

variable {d} {nodes : List Node}

theorem sweep_of_notMem {id : NodeId} (h : id ∉ nodes.map Node.nodeId) :
    (d.sweep nodes).stateOf id = d.stateOf id ∧ (d.sweep nodes).sees id = d.sees id := by
  induction nodes using List.reverseRecOn with
  | nil => exact ⟨rfl, rfl⟩
  | append_singleton nodes node ih =>
      simp only [List.map_append, List.map_cons, List.map_nil, List.mem_append, List.mem_singleton,
        not_or] at h
      rw [sweep_snoc, Sweep.stateOf_visit, Sweep.sees_visit, if_neg h.2, if_neg h.2]
      exact ih h.1

/-- **A sweep** moves the state of each node on once, if the node is in the list once. -/
theorem stateOf_sweep {id : NodeId} (honce : (nodes.map Node.nodeId).count id ≤ 1) :
    (d.sweep nodes).stateOf id =
      if id ∈ nodes.map Node.nodeId then (d.stateOf id).next (d.sees id) else d.stateOf id := by
  induction nodes using List.reverseRecOn with
  | nil => rfl
  | append_singleton nodes node ih =>
      rw [List.map_append, List.map_singleton, List.count_append] at honce
      rw [sweep_snoc, Sweep.stateOf_visit, List.map_append, List.map_singleton]
      by_cases hself : id = node.nodeId
      · have hout : id ∉ nodes.map Node.nodeId := by
          rw [← List.count_eq_zero]
          simp only [hself, List.count_singleton_self] at honce ⊢
          omega
        obtain ⟨hstate, hsees⟩ := sweep_of_notMem (d := d) hout
        rw [if_pos hself, hstate, hsees, if_pos (by simp [hself])]
      · rw [if_neg hself, ih (by omega)]
        simp [hself]

/-- A sweep suspects the nodes that it misses for the second time. -/
theorem suspect_mem_notices_sweep {id : NodeId} (honce : (nodes.map Node.nodeId).count id ≤ 1) :
    .suspect id ∈ (d.sweep nodes).notices ↔
      id ∈ nodes.map Node.nodeId ∧ d.stateOf id = .suspected ∧ d.sees id = false := by
  induction nodes using List.reverseRecOn with
  | nil => simp [sweep]
  | append_singleton nodes node ih =>
      rw [List.map_append, List.map_singleton, List.count_append] at honce
      rw [sweep_snoc, Sweep.notices_visit, List.mem_append, ih (by omega), List.map_append,
        List.map_singleton, List.mem_append, List.mem_singleton]
      by_cases hself : id = node.nodeId
      · have hout : id ∉ nodes.map Node.nodeId := by
          rw [← List.count_eq_zero]
          simp only [hself, List.count_singleton_self] at honce ⊢
          omega
        obtain ⟨hstate, hsees⟩ := sweep_of_notMem (d := d) hout
        rw [← hself, hstate, hsees]
        cases d.sees id <;> cases d.stateOf id <;> simp [notice?, hout]
      · cases (d.sweep nodes).sees node.nodeId <;> cases (d.sweep nodes).stateOf node.nodeId <;>
          simp [notice?, hself]

@[simp] theorem proposers_sweep :
    (d.sweep nodes).leaderDetector.proposers = d.leaderDetector.proposers := by
  induction nodes using List.reverseRecOn with
  | nil => rfl
  | append_singleton nodes node ih => rw [sweep_snoc, Sweep.proposers_visit, ih]

variable (d) in
/-- The failure detector and its leader detector agree. -/
def Agrees : Prop := (d.sweep []).Agrees

theorem Agrees.sweep (h : d.Agrees) (nodes : List Node) : (d.sweep nodes).Agrees := by
  induction nodes using List.reverseRecOn with
  | nil => exact h
  | append_singleton nodes node ih =>
      rw [sweep_snoc]
      exact ih.visit

/-! ## Checks and heartbeats -/

theorem Agrees.checker (h : d.Agrees) : d.checker.2.Agrees :=
  ⟨(h.sweep d.allNodes).elected, (h.sweep d.allNodes).suspects⟩

theorem Agrees.leader_eq_some_iff (h : d.Agrees) {l : NodeId} :
    d.leaderDetector.lastLeader = some l ↔
      IsGreatest {id | id ∈ d.leaderDetector.proposers ∧ d.stateOf id ≠ .dead} l :=
  Sweep.Agrees.leader_eq_some_iff h

theorem Agrees.leader_eq_none_iff (h : d.Agrees) :
    d.leaderDetector.lastLeader = none ↔ ∀ id ∈ d.leaderDetector.proposers, d.stateOf id = .dead :=
  Sweep.Agrees.leader_eq_none_iff h

theorem stateOf_checker {id : NodeId} (honce : (d.allNodes.map Node.nodeId).count id ≤ 1) :
    d.checker.2.stateOf id =
      if id ∈ d.allNodes.map Node.nodeId then (d.stateOf id).next (d.sees id) else d.stateOf id :=
  stateOf_sweep honce

@[simp] theorem sees_checker (id : NodeId) : d.checker.2.sees id = false := rfl

@[simp] theorem proposers_checker :
    d.checker.2.leaderDetector.proposers = d.leaderDetector.proposers :=
  proposers_sweep

theorem sees_heartbeat (sender id : NodeId) :
    (d.heartbeat sender).sees id = (decide (id = sender ∨ id = d.localId) || d.sees id) := by
  rw [sees, heartbeat]
  dsimp only
  rw [OrdMap.get?_insert, OrdMap.get?_insert]
  by_cases hlocal : id = d.localId
  · simp [hlocal]
  · by_cases hsender : id = sender
    · simp [hsender]
    · simp [hlocal, hsender, sees]

end Sweeping

end FailureDetector

end PaxosWasm
