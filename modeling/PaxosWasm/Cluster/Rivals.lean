import PaxosWasm.Agents.OwnAcceptor
import PaxosWasm.Cluster.Interleaving
import PaxosWasm.Cluster.PhaseOneRounds

/-!
# Rival leaders

A coordinator panics if its own acceptor refuses what it prepares or proposes, as it does after it
has promised a higher ballot to a rival. A run is free of these panics if and only if no leader is
overruled in it.
-/

namespace PaxosWasm

open Library

/-! ## Runs of the cluster

The condition on a tick of a coordinator is taken over to the events of a cluster. -/

namespace Cluster

/-- The coordinator that runs under the id `i`. -/
def coordinator? (c : Cluster) (i : NodeId) : Option (PaxosCoordinator × Trio) :=
  match c.get? i with
  | none => none
  | some x =>
      match x.running, x.node.agents with
      | true, .coordinator t => some (x.node, t)
      | _, _ => none

/-- In this event a coordinator panics over a refusal of its own acceptor. -/
def RefusesItself (c : Cluster) : Event → Prop
  | .call i (.tick env) =>
      ∃ n ∈ c.coordinator? i, EndsRefused (n.2.handleTick env n.1.config n.1.node).1
  | _ => False

/-- **In this event a leader is overruled**: its turn is to prepare below the promise of its own
acceptor, or to propose what this one refuses. -/
def Overruled (c : Cluster) : Event → Prop
  | .call i (.tick env) => ∃ n ∈ c.coordinator? i, n.2.OverruledIn env n.1.config
  | _ => False

instance (c : Cluster) : DecidablePred c.RefusesItself
  | .call i (.tick _) => inferInstanceAs (Decidable (∃ n ∈ c.coordinator? i, _))
  | .call _ (.message _ _) | .call _ (.failureService _ _) | .call _ (.submitClientRequest _)
  | .call _ (.retryLearns _ _) | .call _ .sendHeartbeat | .call _ (.restart _ _ _)
  | .deliver _ _ _ _ _ => inferInstanceAs (Decidable False)

theorem coordinator?_eq_some {c : Cluster} {i : NodeId} {n : PaxosCoordinator} {t : Trio}
    (h : c.coordinator? i = some (n, t)) :
    ∃ x, c.get? i = some x ∧ x.node = n ∧ n.agents = .coordinator t := by
  unfold coordinator? at h
  split at h
  · cases h
  · next x hx =>
    split at h
    · next t' hrun hagents =>
      obtain ⟨rfl, rfl⟩ := Prod.mk.inj (Option.some.inj h)
      exact ⟨x, hx, rfl, hagents⟩
    · cases h

variable {m : Membership} {config : RunConfig} {c : Cluster}

theorem refusesItself_iff (hc : c.All m (fun node x => x.node.SetUp m node config))
    (hev : config.isEventDriven = true) (e : Event) : c.RefusesItself e ↔ c.Overruled e := by
  unfold RefusesItself Overruled
  split
  · next i env =>
    refine exists_congr (fun n => and_congr_right (fun hn => ?_))
    obtain ⟨n, t⟩ := n
    obtain ⟨x, hx, rfl, hagents⟩ := coordinator?_eq_some hn
    obtain ⟨node, _, -, hset⟩ := hc i x hx
    have hcfg : t.Configured config := by
      constructor
      · exact (hset.proposer t.proposer (by rw [PaxosCoordinator.proposer?, hagents])).1
      · exact (hset.acceptor t.acceptor (by rw [PaxosCoordinator.acceptor?, hagents])).1
    rw [hset.config_eq]
    exact t.endsRefused_handleTick env config _ hcfg hev
  · exact Iff.rfl

/-- **Competing coordinators**: a run crashes no node over a refusal of its own acceptor if and only
if no leader is overruled in it, whatever the nodes take for the leader and in whatever order they are
called and messages arrive. -/
theorem never_refuse_iff (launch : Launch) (m : Membership)
    (hev : launch.config.isEventDriven = true) (es : List Event) :
    Guarded (step launch.hash) (fun c e => ¬ c.RefusesItself e) (start launch m) es ↔
      Guarded (step launch.hash) (fun c e => ¬ c.Overruled e) (start launch m) es := by
  refine guarded_congr (P := fun c => c.All m (fun node x => x.node.SetUp m node launch.config))
    ?_ (fun c e hc => not_congr (refusesItself_iff hc hev e)) ?_ es
  · exact fun c e hc => hc.step e (fun node hnode x e' _ _ hx => Process.setUp_step hnode hx e')
  · exact all_start (fun node hnode x hx => Process.setUp_start hnode hx)

def tick (i : NodeId) : Event := .call i (.tick .quiet)

/-- The `k`-th message of an agent of the node `i` arrives at the node `j`. -/
def passes (i : NodeId) (outlet : Outlet) (k : Nat) (j : NodeId) : Event :=
  .deliver i outlet k j .quiet

/-- Node 1 starts as leader, completes Phase 1 with the promise of node 2, and gets a request. -/
def firstLeads : List Event :=
  [tick 1, tick 1, passes 1 .proposer 0 2, passes 2 .acceptor 0 1,
    .call 1 (.submitClientRequest Value.noOp)]

/-- Node 3 takes itself for the leader, and its prepare reaches node 1. -/
def rivalPrepares : List Event :=
  [.call 3 (.failureService .quiet (some 3)), tick 3, tick 3, passes 3 .proposer 0 1]

/-- As long as node 1 is alone, it proposes without a refusal. -/
theorem never_refuse_iff_alone :
    Guarded (step (fun _ => 0)) (fun c e => ¬ c.Overruled e)
      (start (.led .inMemory) threeCoordinators) (firstLeads ++ [tick 1]) :=
  (never_refuse_iff (.led .inMemory) threeCoordinators rfl _).mp (by decide)

/-- **A rival crashes the leader**: the prepare for ballot 6 has reached node 1, which panics when it
starts Phase 1 with its own ballot, and in Phase 2 when it makes its next proposal. -/
theorem rival_crashes_leader :
    ¬ Guarded (step (fun _ => 0)) (fun c e => ¬ c.RefusesItself e)
        (start (.led .inMemory) threeCoordinators) (rivalPrepares ++ [tick 1, tick 1]) ∧
      ¬ Guarded (step (fun _ => 0)) (fun c e => ¬ c.RefusesItself e)
        (start (.led .inMemory) threeCoordinators) (firstLeads ++ rivalPrepares ++ [tick 1]) := by
  decide

end Cluster

end PaxosWasm
