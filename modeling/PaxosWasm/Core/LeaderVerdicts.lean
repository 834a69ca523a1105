import PaxosWasm.Core.FailureRuns

/-!
# What a check says of the leader

The verdict of a `checker` call is overwritten along the sweep, by each change to another leader, but
not by the loss of the last one. So the verdict is the leader after the call, if that is a new one;
when the call leaves no leader at all, it is the last node of the list that was not dead before the
call, unless that node was the leader.
-/

namespace PaxosWasm

open Library

namespace FailureDetector

/-- **A failure detector at work** over different nodes. -/
structure Watches (d : FailureDetector) : Prop where
  agrees : d.Agrees
  nodup : (d.allNodes.map Node.nodeId).Nodup
  proposers : ∀ id, id ∈ d.leaderDetector.proposers ↔
    ∃ x ∈ d.allNodes, x.CanLead ∧ x.nodeId = id

theorem Kept.watches {node : Node} {others : List Node} {d : FailureDetector}
    (h : Kept node others d) (hnodup : ((others ++ [node]).map Node.nodeId).Nodup) : d.Watches where
  agrees := h.agrees
  nodup := by rw [h.allNodes]; exact hnodup
  proposers id := by rw [h.proposers, h.allNodes, LeaderDetector.mem_proposers_new]

variable {d : FailureDetector}

/-! ## The verdict along a sweep

One visit of the sweep, and from it the verdict as long as there is a leader in the end. -/

/-- A turn overwrites the verdict when it changes the leader to some other. -/
theorem Sweep.newLeader_visit (w : Sweep) (node : Node) :
    (w.visit node).newLeader =
      (if (w.visit node).leaderDetector.lastLeader ≠ w.leaderDetector.lastLeader then
        (w.visit node).leaderDetector.lastLeader else none).or w.newLeader := by
  obtain ⟨-, hld, hnew⟩ | ⟨b, -, hld, hnew⟩ := w.leader_visit node
  · simp [hld, hnew]
  · rw [hnew, hld, LeaderDetector.mark_fst]

/-- A turn that leaves no leader leaves the verdict. -/
theorem Sweep.newLeader_visit_of_none {w : Sweep} {node : Node}
    (h : (w.visit node).leaderDetector.lastLeader = none) :
    (w.visit node).newLeader = w.newLeader := by
  rw [newLeader_visit, h]
  split <;> rfl

/-- **While there is a leader**, the verdict is that leader, if it is another than before the call.
No leader can be lost and won again within one call, since a node has only one turn. -/
theorem newLeader_sweep_of_some (h : d.Agrees) {nodes : List Node}
    (hnodup : (nodes.map Node.nodeId).Nodup) {l : NodeId}
    (hl : (d.sweep nodes).leaderDetector.lastLeader = some l) :
    (d.sweep nodes).newLeader = if d.leaderDetector.lastLeader = some l then none else some l := by
  induction nodes using List.reverseRecOn with
  | nil =>
      have hfirst : d.leaderDetector.lastLeader = some l := hl
      rw [if_pos hfirst]
      rfl
  | append_singleton nodes x ih =>
      rw [List.map_append, List.map_singleton] at hnodup
      obtain ⟨hnodes, -, hdisjoint⟩ := List.nodup_append.mp hnodup
      have hout : x.nodeId ∉ nodes.map Node.nodeId := fun hx => hdisjoint _ hx _ (by simp) rfl
      rw [sweep_snoc] at hl ⊢
      rw [Sweep.newLeader_visit]
      by_cases hsame : ((d.sweep nodes).visit x).leaderDetector.lastLeader =
          (d.sweep nodes).leaderDetector.lastLeader
      · rw [if_neg (not_not.mpr hsame)]
        exact ih hnodes (hsame.symm.trans hl)
      · rw [if_pos hsame, hl]
        -- the new leader was none before the call: some node above it would have to lose its turn
        suffices hne : d.leaderDetector.lastLeader ≠ some l by simp [hne]
        intro hfirst
        have hbefore := h.leader_eq_some_iff.mp hfirst
        have hafter := (h.sweep nodes).visit.leader_eq_some_iff.mp hl
        rw [hl, eq_comm, (h.sweep nodes).leader_eq_some_iff] at hsame
        have hstate := (d.sweep nodes).stateOf_visit x
        have hself := (sweep_of_notMem (d := d) hout).1
        have hmem : l ∈ (d.sweep nodes).leaderDetector.proposers ∧ (d.sweep nodes).stateOf l ≠ .dead := by
          refine ⟨proposers_sweep ▸ hbefore.1.1, ?_⟩
          by_cases hlx : l = x.nodeId
          · rw [hlx, hself, ← hlx]
            exact hbefore.1.2
          · have := hafter.1.2
            rwa [hstate, if_neg hlx] at this
        obtain ⟨m, hm, hlt⟩ : ∃ m, (m ∈ (d.sweep nodes).leaderDetector.proposers ∧
            (d.sweep nodes).stateOf m ≠ .dead) ∧ l < m := by
          by_contra hno
          exact hsame ⟨hmem, fun m hm => not_lt.mp (fun hlt => hno ⟨m, hm, hlt⟩)⟩
        by_cases hmx : m = x.nodeId
        · refine absurd (hbefore.2 ⟨by simpa using hm.1, ?_⟩) (not_le.mpr hlt)
          rw [hmx, ← hself, ← hmx]
          exact hm.2
        · refine absurd (hafter.2 ⟨by simpa using hm.1, ?_⟩) (not_le.mpr hlt)
          rw [hstate, if_neg hmx]
          exact hm.2

/-! ## The end of all leaders

No leader is left exactly if the check finds every node dead that can lead (`Doomed`). -/

/-- The nodes that can lead and are not dead, in the order of the list. -/
def electable (d : FailureDetector) : List NodeId :=
  (d.allNodes.filter (fun x => decide (x.CanLead ∧ d.stateOf x.nodeId ≠ .dead))).map Node.nodeId

/-- The next check will find every node that can lead dead. -/
def Doomed (d : FailureDetector) : Prop :=
  ∀ x ∈ d.allNodes, x.CanLead → d.sees x.nodeId = false ∧ d.stateOf x.nodeId ≠ .alive

instance (d : FailureDetector) : Decidable d.Doomed :=
  inferInstanceAs (Decidable (∀ x ∈ d.allNodes, _))

theorem next_eq_dead {heard : Bool} {s : FailureState} :
    s.next heard = .dead ↔ heard = false ∧ s ≠ .alive := by
  cases heard <;> cases s <;> simp [FailureState.next]

theorem Watches.stateOf_checker (h : d.Watches) {x : Node} (hx : x ∈ d.allNodes) :
    d.checker.2.stateOf x.nodeId = (d.stateOf x.nodeId).next (d.sees x.nodeId) := by
  rw [FailureDetector.stateOf_checker (List.nodup_iff_count_le_one.mp h.nodup _),
    if_pos (List.mem_map_of_mem hx)]

/-- A check leaves no leader exactly when all that can lead are doomed. -/
theorem Watches.leader_checker_eq_none_iff (h : d.Watches) :
    d.checker.2.leaderDetector.lastLeader = none ↔ d.Doomed := by
  rw [h.agrees.checker.leader_eq_none_iff, proposers_checker]
  constructor
  · intro hdead x hx hlead
    rw [← next_eq_dead, ← h.stateOf_checker hx]
    exact hdead _ ((h.proposers _).mpr ⟨x, hx, hlead, rfl⟩)
  · intro hdoomed id hid
    obtain ⟨x, hx, hlead, rfl⟩ := (h.proposers id).mp hid
    rw [h.stateOf_checker hx]
    exact next_eq_dead.mpr (hdoomed x hx hlead)

/-- Among the doomed, those whose turn is over are dead. -/
theorem Watches.leader_sweep_eq_none (h : d.Watches) (hdoomed : d.Doomed) (pre post : List Node)
    (hall : d.allNodes = pre ++ post)
    (hpost : ∀ x ∈ post, x.CanLead → d.stateOf x.nodeId = .dead) :
    (d.sweep pre).leaderDetector.lastLeader = none := by
  have hpre : (pre.map Node.nodeId).Nodup := by
    have := h.nodup
    rw [hall, List.map_append] at this
    exact (List.nodup_append.mp this).1
  rw [(h.agrees.sweep pre).leader_eq_none_iff, proposers_sweep]
  intro id hid
  obtain ⟨x, hx, hlead, rfl⟩ := (h.proposers id).mp hid
  rw [stateOf_sweep (List.nodup_iff_count_le_one.mp hpre _)]
  split
  · exact next_eq_dead.mpr (hdoomed x hx hlead)
  · next hout =>
    rw [hall, List.mem_append] at hx
    rcases hx with hx | hx
    · exact absurd (List.mem_map_of_mem hx) hout
    · exact hpost x hx hlead

/-- The turns after the last death say nothing more. -/
theorem Watches.newLeader_sweep_append (h : d.Watches) (hdoomed : d.Doomed) (pre mid post : List Node)
    (hall : d.allNodes = pre ++ (mid ++ post))
    (hpost : ∀ x ∈ mid ++ post, x.CanLead → d.stateOf x.nodeId = .dead) :
    (d.sweep (pre ++ mid)).newLeader = (d.sweep pre).newLeader := by
  induction mid using List.reverseRecOn generalizing post with
  | nil => rw [List.append_nil]
  | append_singleton mid x ih =>
      have hnone := h.leader_sweep_eq_none hdoomed (pre ++ (mid ++ [x])) post
        (by simp [hall]) (fun y hy => hpost y (List.mem_append_right _ hy))
      rw [← List.append_assoc, sweep_snoc] at hnone ⊢
      rw [Sweep.newLeader_visit_of_none hnone]
      exact ih (x :: post) (by simp [hall]) (fun y hy => hpost y (by simpa using hy))

theorem Watches.leader_eq_none_of_electable (h : d.Watches) (hnil : d.electable = []) :
    d.leaderDetector.lastLeader = none := by
  rw [h.agrees.leader_eq_none_iff]
  intro id hid
  obtain ⟨x, hx, hlead, rfl⟩ := (h.proposers id).mp hid
  by_contra halive
  have hmem : x.nodeId ∈ d.electable :=
    List.mem_map_of_mem (List.mem_filter.mpr ⟨hx, by simp [hlead, halive]⟩)
  simp [hnil] at hmem

theorem exists_last_electable {ids : List NodeId} {id : NodeId} (h : d.electable = ids ++ [id]) :
    ∃ pre z post, d.allNodes = pre ++ z :: post ∧ z.CanLead ∧ d.stateOf z.nodeId ≠ .dead ∧
      z.nodeId = id ∧ ∀ x ∈ post, x.CanLead → d.stateOf x.nodeId = .dead := by
  obtain ⟨nodes, last, hfilter, -, hlast⟩ := List.map_eq_append_iff.mp h
  obtain ⟨z, rfl, hid⟩ := List.map_eq_singleton_iff.mp hlast
  obtain ⟨pre, rest, hall, -, hrest⟩ := List.filter_eq_append_iff.mp hfilter
  obtain ⟨mid, post, rfl, -, hz, hpost⟩ := List.filter_eq_cons_iff.mp hrest
  obtain ⟨hlead, halive⟩ := of_decide_eq_true hz
  refine ⟨pre ++ mid, z, post, by rw [hall, List.append_assoc], hlead, halive, hid, ?_⟩
  intro x hx hxlead
  by_contra hxalive
  exact List.filter_eq_nil_iff.mp hpost x hx (by simp [hxlead, hxalive])

/-- **When a check leaves no leader**, its verdict is the last node of the list that was not dead
before the call, unless that one was the leader. -/
theorem Watches.verdict_of_doomed (h : d.Watches) (hdoomed : d.Doomed) :
    d.checker.1 =
      if d.electable.getLast? = d.leaderDetector.lastLeader then none else d.electable.getLast? := by
  show (d.sweep d.allNodes).newLeader = _
  rcases List.eq_nil_or_concat' d.electable with hnil | ⟨ids, id, hconcat⟩
  · -- all that can lead were dead before
    have hdead : ∀ x ∈ d.allNodes, x.CanLead → d.stateOf x.nodeId = .dead := by
      simpa [electable, List.filter_eq_nil_iff] using hnil
    rw [hnil, h.leader_eq_none_of_electable hnil]
    exact h.newLeader_sweep_append hdoomed [] d.allNodes []
      (by simp) (by simpa using hdead)
  · -- the last electable node has its turn when all others are dead
    obtain ⟨pre, z, post, hall, hlead, halive, hid, hpost⟩ := exists_last_electable hconcat
    have hnodup := h.nodup
    rw [hall, List.map_append, List.map_cons] at hnodup
    obtain ⟨hpre, hrest, hdisjoint⟩ := List.nodup_append.mp hnodup
    have hout : ∀ y ∈ z :: post, y.nodeId ∉ pre.map Node.nodeId :=
      fun y hy hin => hdisjoint _ hin _ (List.mem_map_of_mem hy) rfl
    have hleader : (d.sweep pre).leaderDetector.lastLeader = some id := by
      rw [(h.agrees.sweep pre).leader_eq_some_iff, proposers_sweep]
      refine ⟨⟨(h.proposers id).mpr ⟨z, by simp [hall], hlead, hid⟩, ?_⟩, ?_⟩
      · rw [← hid, (sweep_of_notMem (hout z (by simp))).1]
        exact halive
      · rintro m ⟨hm, hmalive⟩
        obtain ⟨y, hy, hylead, rfl⟩ := (h.proposers m).mp hm
        by_cases hin : y.nodeId ∈ pre.map Node.nodeId
        · rw [stateOf_sweep (List.nodup_iff_count_le_one.mp hpre _), if_pos hin] at hmalive
          exact absurd (next_eq_dead.mpr (hdoomed y hy hylead)) hmalive
        · rw [(sweep_of_notMem hin).1] at hmalive
          rw [hall, List.mem_append, List.mem_cons] at hy
          rcases hy with hy | rfl | hy
          · exact absurd (List.mem_map_of_mem hy) hin
          · exact le_of_eq hid
          · exact absurd (hpost y hy hylead) hmalive
    have hlast := h.leader_sweep_eq_none hdoomed (pre ++ [z]) post (by simp [hall])
      hpost
    have hrest := h.newLeader_sweep_append hdoomed (pre ++ [z]) post []
      (by simp [hall]) (by simpa using hpost)
    have hgetLast : d.electable.getLast? = some id := by rw [hconcat, List.getLast?_concat]
    rw [sweep_snoc] at hlast
    calc (d.sweep d.allNodes).newLeader
        = (d.sweep (pre ++ [z])).newLeader := by rw [← hrest, hall, List.append_assoc]; rfl
      _ = (d.sweep pre).newLeader := by rw [sweep_snoc, Sweep.newLeader_visit_of_none hlast]
      _ = if d.leaderDetector.lastLeader = some id then none else some id :=
          newLeader_sweep_of_some h.agrees hpre hleader
      _ = _ := by rw [hgetLast]; simp only [eq_comm]

/-- **The verdict of a check**, when a leader is left. -/
theorem Watches.verdict_of_some (h : d.Watches) {l : NodeId}
    (hl : d.checker.2.leaderDetector.lastLeader = some l) :
    d.checker.1 = if d.leaderDetector.lastLeader = some l then none else some l :=
  newLeader_sweep_of_some h.agrees h.nodup hl

/-! ## Truthful verdicts

A verdict is truthful if it names the leader the detector is left with, when that is a new one. Only a
check that leaves no leader can say something else. -/

/-- **The next check reports the leader truthfully**: a leader it names is the leader now, is not
dead and was not the leader before, and a new leader is named. -/
def Truthful (d : FailureDetector) : Prop :=
  let (verdict, d') := d.checker
  (∀ l, verdict = some l →
    d'.leaderDetector.lastLeader = some l ∧ d'.stateOf l ≠ .dead ∧
      d.leaderDetector.lastLeader ≠ some l) ∧
  (∀ l, d'.leaderDetector.lastLeader = some l → d.leaderDetector.lastLeader ≠ some l →
    verdict = some l)

/-- Every node that can lead is dead after the next check, and the leader is not the last of them in
the list to be alive before it. -/
def LeadersLost (d : FailureDetector) : Prop :=
  d.Doomed ∧ d.electable.getLast? ≠ d.leaderDetector.lastLeader

instance (d : FailureDetector) : Decidable d.LeadersLost := inferInstanceAs (Decidable (_ ∧ _))

/-- A check is truthful unless it finds the last leaders dead in one go. -/
theorem Watches.truthful_iff (h : d.Watches) : d.Truthful ↔ ¬ d.LeadersLost := by
  rw [LeadersLost, ← h.leader_checker_eq_none_iff]
  cases hl : d.checker.2.leaderDetector.lastLeader with
  | some l =>
      have hverdict := h.verdict_of_some hl
      have halive := ((h.agrees.checker.leader_eq_some_iff).mp hl).1.2
      simp only [Truthful, hl, hverdict, reduceCtorEq, false_and, not_false_iff, iff_true]
      grind
  | none =>
      have hverdict := h.verdict_of_doomed (h.leader_checker_eq_none_iff.mp hl)
      simp only [Truthful, hl, hverdict, true_and, not_not, reduceCtorEq, false_and, imp_false,
        IsEmpty.forall_iff, implies_true, and_true]
      constructor
      · intro hnone
        by_contra hne
        rw [if_neg hne] at hnone
        cases hlast : d.electable.getLast? with
        | some l => exact hnone l hlast
        | none =>
            -- nobody was electable before, so there was no leader
            rw [hlast, h.leader_eq_none_of_electable (List.getLast?_eq_none_iff.mp hlast)] at hne
            exact hne rfl
      · intro heq l
        simp [heq]

/-- **The verdicts of a failure detector over any run**: the check after it is truthful exactly when
it does not find the last leaders dead in one go. -/
theorem truthful_run_iff (node : Node) (others : List Node) (delta : Nat)
    (hnodup : ((others ++ [node]).map Node.nodeId).Nodup) (es : List Event) :
    (run step (new node others delta) es).Truthful ↔
      ¬ (run step (new node others delta) es).LeadersLost :=
  ((kept_run node others delta es).watches hnodup).truthful_iff

theorem truthful_after_loss : (run step (new localNode pair 10) [.checker, .heartbeat 2]).Truthful :=
  (truthful_run_iff localNode pair 10 (by decide) _).mpr (by decide)

/-- Nodes 3 and 1 are dead after the second check; it names node 1, which is not the leader. -/
theorem dead_leader_named :
    let d := run step (new localNode pair 10) [.checker]
    d.checker.1 = some 1 ∧ d.checker.2.leaderDetector.lastLeader = none ∧ d.checker.2.stateOf 1 = .dead ∧
      ¬ d.Truthful := by
  refine ⟨by decide, by decide, by decide, fun h => ?_⟩
  have := (h.1 1 (by decide)).1
  revert this
  decide

end FailureDetector

end PaxosWasm
