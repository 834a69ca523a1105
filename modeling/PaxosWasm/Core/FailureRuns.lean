import PaxosWasm.Core.FailureDetector

/-!
# The failure detector over its runs

Heartbeats from any senders and checks come in any order. The state of a node says how many of the
last checks have missed it, and the leader detector follows: the leader is the highest proposer that
is not dead. The local node counts as seen when any other node is, so that a node that hears nobody
gives itself up.

A run is described by who was heard before which check (`History`), and the states of the nodes are
computed from that: a node is as many steps away from being alive as it has been missed in a row
(`stateOf_run`). A heartbeat from anyone counts for the local node as well, so it is missed by a check
exactly when no heartbeat has come since the one before.
-/

namespace PaxosWasm

open Library

namespace FailureDetector

/-! ## Runs -/

inductive Event where
  | heartbeat (sender : NodeId)
  | checker
deriving DecidableEq

def step (d : FailureDetector) : Event → FailureDetector
  | .heartbeat sender => d.heartbeat sender
  | .checker => d.checker.2

/-- Who has been heard: before each check, since the check before it; and since the last check. -/
structure History where
  checks : List (List NodeId)
  pending : List NodeId

def History.step (h : History) : Event → History
  | .heartbeat sender => { h with pending := h.pending ++ [sender] }
  | .checker => { checks := h.checks ++ [h.pending], pending := [] }

def history (es : List Event) : History := run History.step { checks := [], pending := [] } es

/-- A node is heard by its own heartbeats; a heartbeat from any sender counts for the local node. -/
def hears (localId id : NodeId) (heard : List NodeId) : Bool :=
  heard.contains id || (decide (id = localId) && !heard.isEmpty)

/-- **How many of the most recent checks, one after the other, found the node unseen.** -/
def misses (localId id : NodeId) (es : List Event) : Nat :=
  ((history es).checks.reverse.takeWhile (fun heard => !hears localId id heard)).length

/-- The state of a node that was missed so many times. -/
def afterMisses : Nat → FailureState
  | 0 => .alive
  | 1 => .suspected
  | _ => .dead

@[simp] theorem history_nil : history [] = { checks := [], pending := [] } := rfl

@[simp] theorem history_snoc (es : List Event) (e : Event) :
    history (es ++ [e]) = (history es).step e := run_snoc _ _ _ _

variable {localId id : NodeId} {es : List Event}

theorem hears_snoc {heard : List NodeId} {sender : NodeId} :
    hears localId id (heard ++ [sender]) =
      (decide (id = sender ∨ id = localId) || hears localId id heard) := by
  by_cases hlocal : id = localId
  · simp [hears, hlocal]
  · by_cases hsender : id = sender <;> simp [hears, hlocal, hsender]

theorem misses_heartbeat (sender : NodeId) :
    misses localId id (es ++ [.heartbeat sender]) = misses localId id es := by
  simp [misses, History.step]

theorem misses_checker :
    misses localId id (es ++ [.checker]) =
      if hears localId id (history es).pending then 0 else misses localId id es + 1 := by
  simp only [misses, history_snoc, History.step, List.reverse_append, List.reverse_cons,
    List.reverse_nil, List.nil_append, List.cons_append, List.takeWhile_cons]
  split <;> simp_all

theorem next_afterMisses (heard : Bool) (n : Nat) :
    (afterMisses n).next heard = afterMisses (if heard then 0 else n + 1) := by
  cases heard with
  | true => rfl
  | false => match n with | 0 | 1 | n + 2 => rfl

theorem afterMisses_eq_dead {n : Nat} : afterMisses n = .dead ↔ 2 ≤ n := by
  match n with | 0 | 1 | n + 2 => simp [afterMisses]

/-! ## The states of the nodes -/

section Start

variable (node : Node) (others : List Node) (delta : Nat)

theorem stateOf_new (id : NodeId) : (new node others delta).stateOf id = .alive := by
  have hloop : ∀ (nodes : List Node) (map : OrdMap NodeId FailureState),
      (map.get? id).getD .alive = .alive →
      ((nodes.foldl (fun map node => map.insert node.nodeId .alive) map).get? id).getD .alive =
        .alive := by
    intro nodes
    induction nodes with
    | nil => intro map h; exact h
    | cons node nodes ih =>
        intro map h
        apply ih
        rw [OrdMap.get?_insert]
        split
        · rfl
        · exact h
  exact hloop _ ∅ rfl

theorem agrees_new : (new node others delta).Agrees where
  elected := LeaderDetector.elected_new _
  suspects id _ := by
    have hstate := stateOf_new node others delta id
    have hsus := LeaderDetector.suspects_new (others ++ [node]) id
    refine hsus.trans (decide_eq_false ?_).symm
    show (new node others delta).stateOf id ≠ .dead
    rw [hstate]
    exact FailureState.noConfusion

variable {delta}

/-- What a run leaves of the construction. -/
structure Kept (d : FailureDetector) : Prop where
  localId : d.localId = node.nodeId
  allNodes : d.allNodes = others ++ [node]
  proposers : d.leaderDetector.proposers = (LeaderDetector.new (others ++ [node])).proposers
  agrees : d.Agrees

theorem kept_new : Kept node others (new node others delta) :=
  ⟨rfl, rfl, rfl, agrees_new node others delta⟩

variable {node others}

theorem Kept.step {d : FailureDetector} (h : Kept node others d) (e : Event) :
    Kept node others (d.step e) := by
  cases e with
  | heartbeat sender => exact ⟨h.localId, h.allNodes, h.proposers, h.agrees.elected, h.agrees.suspects⟩
  | checker => exact ⟨h.localId, h.allNodes, proposers_checker.trans h.proposers, h.agrees.checker⟩

variable (node others delta) in
theorem kept_run (es : List Event) : Kept node others (run step (new node others delta) es) :=
  run_invariant (fun _ e h => h.step e) (kept_new node others) es

/-- **What the detector has seen**: the nodes heard since the last check. -/
theorem sees_run (es : List Event) (id : NodeId) :
    (run step (new node others delta) es).sees id = hears node.nodeId id (history es).pending := by
  induction es using List.reverseRecOn with
  | nil => simp [hears, new, sees]
  | append_singleton es e ih =>
      have hlocal := (kept_run node others delta es).localId
      rw [run_snoc, history_snoc]
      cases e with
      | heartbeat sender =>
          show ((run step _ es).heartbeat sender).sees id = _
          rw [sees_heartbeat, ih, hlocal]
          exact hears_snoc.symm
      | checker => simp [step, History.step, hears]

/-- **What the detector knows of a node**: how many of the last checks have missed it. -/
theorem stateOf_run {id : NodeId} (hmem : id ∈ (others ++ [node]).map Node.nodeId)
    (honce : ((others ++ [node]).map Node.nodeId).count id ≤ 1) (delta : Nat) (es : List Event) :
    (run step (new node others delta) es).stateOf id = afterMisses (misses node.nodeId id es) := by
  induction es using List.reverseRecOn with
  | nil => exact stateOf_new node others delta id
  | append_singleton es e ih =>
      have hall := (kept_run node others delta es).allNodes
      rw [run_snoc]
      cases e with
      | heartbeat sender =>
          rw [misses_heartbeat, ← ih]
          rfl
      | checker =>
          show (run step _ es).checker.2.stateOf id = _
          rw [stateOf_checker (by rw [hall]; exact honce), hall, if_pos hmem, ih, sees_run,
            next_afterMisses, misses_checker]

/-- **Failure detector and leader detector stay consistent.** After a check, the state of a node
counts the last checks that missed it, the suspected proposers are the dead ones, and the leader is
the highest of the others. -/
theorem detectors_consistent (node : Node) (others : List Node) (delta : Nat)
    (hnodup : ((others ++ [node]).map Node.nodeId).Nodup) (es : List Event) :
    let d := run step (new node others delta) (es ++ [.checker])
    let missed := fun x : Node => misses node.nodeId x.nodeId (es ++ [.checker])
    (∀ x ∈ others ++ [node],
      (d.stateOf x.nodeId = .alive ↔ missed x = 0) ∧
      (d.stateOf x.nodeId = .suspected ↔ missed x = 1) ∧
      (d.stateOf x.nodeId = .dead ↔ 2 ≤ missed x)) ∧
    (∀ x ∈ others ++ [node], x.CanLead →
      (d.leaderDetector.suspects x.nodeId = true ↔ d.stateOf x.nodeId = .dead)) ∧
    (∀ l, d.leaderDetector.lastLeader = some l ↔
      IsGreatest {id | ∃ x ∈ others ++ [node], x.CanLead ∧ x.nodeId = id ∧ d.stateOf id ≠ .dead} l) ∧
    (d.leaderDetector.lastLeader = none ↔
      ∀ x ∈ others ++ [node], x.CanLead → d.stateOf x.nodeId = .dead) := by
  intro d missed
  have hkept : Kept node others d := kept_run node others delta _
  -- the proposers of the leader detector are the nodes that can lead
  have hproposer : ∀ id, id ∈ d.leaderDetector.proposers ↔
      ∃ x ∈ others ++ [node], x.CanLead ∧ x.nodeId = id := by
    intro id
    rw [hkept.proposers, LeaderDetector.mem_proposers_new]
  refine ⟨?_, ?_, ?_, ?_⟩
  · intro x hx
    have hstate : d.stateOf x.nodeId = afterMisses (missed x) :=
      stateOf_run (List.mem_map_of_mem hx) (List.nodup_iff_count_le_one.mp hnodup _) delta _
    rw [hstate]
    match missed x with | 0 | 1 | n + 2 => simp [afterMisses]
  · intro x hx hlead
    have hsus := hkept.agrees.suspects x.nodeId ((hproposer _).mpr ⟨x, hx, hlead, rfl⟩)
    exact (Bool.eq_iff_iff.mp hsus).trans decide_eq_true_iff
  · intro l
    have hset : {id | id ∈ d.leaderDetector.proposers ∧ d.stateOf id ≠ .dead} =
        {id | ∃ x ∈ others ++ [node], x.CanLead ∧ x.nodeId = id ∧ d.stateOf id ≠ .dead} := by
      ext id
      show (id ∈ d.leaderDetector.proposers ∧ _) ↔ _
      rw [hproposer]
      grind
    rw [hkept.agrees.leader_eq_some_iff, hset]
  · rw [hkept.agrees.leader_eq_none_iff]
    constructor
    · intro hdead x hx hlead
      exact hdead _ ((hproposer _).mpr ⟨x, hx, hlead, rfl⟩)
    · intro hdead id hid
      obtain ⟨x, hx, hlead, rfl⟩ := (hproposer id).mp hid
      exact hdead x hx hlead

/-- A coordinator with one acceptor and one other coordinator. -/
def pair : List Node :=
  [{ nodeId := 2, address := "127.0.0.1:50012", role := .acceptor },
   { nodeId := 3, address := "127.0.0.1:50013", role := .coordinator }]

def localNode : Node := { nodeId := 1, address := "127.0.0.1:50011", role := .coordinator }

theorem detectors_consistent_after_loss :
    let d := run step (new localNode pair 10) ([.checker, .heartbeat 2] ++ [.checker])
    d.stateOf 3 = .dead ∧ d.leaderDetector.lastLeader = some 1 := by
  have h := detectors_consistent localNode pair 10 (by decide) [.checker, .heartbeat 2]
  refine ⟨?_, ?_⟩
  · exact ((h.1 ⟨3, "127.0.0.1:50013", .coordinator⟩ (by decide)).2.2).mpr (by decide)
  · decide

/-! ## The local node -/

/-- A call leaves the local node alive and does not suspect it. -/
def SparesLocal (d : FailureDetector) (e : Event) : Prop :=
  d.localId ∈ (d.step e).aliveNodes ∧ (e = .checker → .suspect d.localId ∉ d.notices)

instance (d : FailureDetector) (e : Event) : Decidable (SparesLocal d e) :=
  inferInstanceAs (Decidable (_ ∧ _))

/-- Two checks in a row come without a heartbeat from anyone before either. -/
def Isolated (es : List Event) : Prop := [[], []] <:+: (history es).checks

instance (es : List Event) : Decidable (Isolated es) := inferInstanceAs (Decidable (_ <:+: _))

theorem hears_local (localId : NodeId) (heard : List NodeId) :
    hears localId localId heard = !heard.isEmpty := by
  cases heard <;> simp [hears]

theorem two_le_misses_local :
    2 ≤ misses localId localId es ↔ [[], []] <:+ (history es).checks := by
  rw [← List.reverse_prefix, misses]
  simp only [hears_local]
  generalize (history es).checks.reverse = checks
  match checks with
  | [] => simp
  | [heard] => cases heard <;> simp
  | heard :: heard' :: checks => cases heard <;> cases heard' <;> simp

/-- **A node declares itself dead exactly when it hears nobody for two checks in a row.** -/
theorem spares_local_iff (node : Node) (others : List Node) (delta : Nat)
    (hother : ∀ x ∈ others, x.nodeId ≠ node.nodeId) (es : List Event) :
    Guarded step SparesLocal (new node others delta) es ↔ ¬ Isolated es := by
  have hmem : node.nodeId ∈ (others ++ [node]).map Node.nodeId := by simp
  have honce : ((others ++ [node]).map Node.nodeId).count node.nodeId ≤ 1 := by
    rw [List.map_append, List.count_append, List.count_eq_zero.mpr]
    · simp
    · intro h
      obtain ⟨x, hx, hid⟩ := List.mem_map.mp h
      exact hother x hx hid
  -- the local node is alive as long as fewer than two checks in a row have missed it
  have halive : ∀ es, node.nodeId ∈ (run step (new node others delta) es).aliveNodes ↔
      misses node.nodeId node.nodeId es < 2 := by
    intro es
    have hall := (kept_run node others delta es).allNodes
    have hstate := stateOf_run hmem honce delta es
    rw [← not_le, ← afterMisses_eq_dead, ← hstate]
    simp only [aliveNodes, hall, List.mem_map, List.mem_filter, decide_eq_true_iff]
    constructor
    · rintro ⟨x, ⟨-, hx⟩, hid⟩
      rwa [hid] at hx
    · intro h
      exact ⟨node, ⟨by simp, h⟩, rfl⟩
  induction es using List.reverseRecOn with
  | nil => simp [Guarded, Isolated]
  | append_singleton es e ih =>
      have hkept := kept_run node others delta es
      refine (guarded_snoc.trans (and_congr_left' ih)).trans ?_
      rw [SparesLocal, hkept.localId, ← run_snoc step, halive]
      cases e with
      | heartbeat sender =>
          have hchecks : (history (es ++ [.heartbeat sender])).checks = (history es).checks := by
            simp [History.step]
          rw [misses_heartbeat, ← not_le, two_le_misses_local, Isolated, Isolated, hchecks]
          have := @List.IsSuffix.isInfix _ [[], []] (history es).checks
          grind
      | checker =>
          have hchecks : (history (es ++ [.checker])).checks =
              (history es).checks ++ [(history es).pending] := by
            simp [History.step]
          -- a check that suspects the local node is the second one to miss it
          have hsuspects : .suspect node.nodeId ∈ (run step (new node others delta) es).notices →
              2 ≤ misses node.nodeId node.nodeId (es ++ [.checker]) := by
            intro h
            rw [notices, suspect_mem_notices_sweep (by rw [hkept.allNodes]; exact honce), sees_run,
              stateOf_run hmem honce delta] at h
            obtain ⟨-, hsuspected, hunseen⟩ := h
            rw [misses_checker, hunseen]
            rcases hm : misses node.nodeId node.nodeId es with _ | _ | n
            · simp [hm, afterMisses] at hsuspected
            · simp
            · simp [hm, afterMisses] at hsuspected
          rw [← not_le]
          rw [two_le_misses_local, hchecks] at hsuspects ⊢
          rw [Isolated, Isolated, hchecks, List.infix_concat_iff]
          grind

theorem spares_local_while_heard :
    Guarded step SparesLocal (new localNode pair 10) [.checker, .heartbeat 2, .checker] :=
  (spares_local_iff localNode pair 10 (by decide) _).mpr (by decide)

/-- Nobody is heard before two checks: the second suspects the local node, and it is dead. -/
theorem isolated_node_dies :
    ¬ Guarded step SparesLocal (new localNode pair 10) [.checker, .checker] ∧
    1 ∉ (run step (new localNode pair 10) [.checker, .checker]).aliveNodes := by
  decide

end Start

end FailureDetector

end PaxosWasm
