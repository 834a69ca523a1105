import PaxosWasm.Agents.Runner
import PaxosWasm.Cluster.Membership

/-!
# The client listener

A runner binds the listener at its start, when its node is the leader, and again at each failure
check that names its node. It holds the listener for good, so that a node that loses the leadership
and wins it back binds the address a second time, and panics.
-/

namespace PaxosWasm

open Library

namespace FailureDetector

variable {d : FailureDetector} {node : Node} {others : List Node}

/-! ## Who wins a check

A check names a new leader when the one there is has not been heard. The local node is named if it is the
last of those left that can lead. -/

/-- **The local node wins the leadership** in the next check: it is not the leader, all above it will
be dead, and it stays, or goes last of all. -/
def Wins (d : FailureDetector) : Prop :=
  d.leaderDetector.lastLeader ≠ some d.localId ∧
  (∀ x ∈ d.allNodes, x.CanLead → d.localId < x.nodeId →
    d.sees x.nodeId = false ∧ d.stateOf x.nodeId ≠ .alive) ∧
  (d.sees d.localId = true ∨ d.stateOf d.localId = .alive ∨
    (d.stateOf d.localId = .suspected ∧ d.Doomed))

instance (d : FailureDetector) : Decidable d.Wins :=
  inferInstanceAs (Decidable (_ ∧ (∀ x ∈ d.allNodes, _) ∧ _))

/-- The local node is last in the list. -/
theorem Kept.getLast?_electable (h : Kept node others d) (hlead : node.CanLead) :
    d.electable.getLast? = some node.nodeId ↔ d.stateOf node.nodeId ≠ .dead := by
  constructor
  · intro hlast
    obtain ⟨x, hx, hid⟩ := List.mem_map.mp (List.mem_of_getLast? hlast)
    have hx := (List.mem_filter.mp hx).2
    rw [← hid]
    exact (of_decide_eq_true hx).2
  · intro halive
    rw [electable, h.allNodes, List.filter_append, List.map_append]
    simp [hlead, halive]

/-- **A check names the local node** exactly when it wins the leadership. -/
theorem Watches.verdict_local_iff (hw : d.Watches) (h : Kept node others d) (hlead : node.CanLead) :
    d.checker.1 = some node.nodeId ↔ d.Wins := by
  have hmem : node ∈ d.allNodes := by simp [h.allNodes]
  rw [Wins, h.localId]
  cases hl : d.checker.2.leaderDetector.lastLeader with
  | some l =>
      have hdoomed : ¬ d.Doomed := by
        simp [← hw.leader_checker_eq_none_iff, hl]
      obtain ⟨⟨hl₁, hl₂⟩, hgreatest⟩ := hw.agrees.checker.leader_eq_some_iff.mp hl
      rw [proposers_checker] at hl₁
      obtain ⟨y, hy, hylead, rfl⟩ := (hw.proposers l).mp hl₁
      rw [hw.stateOf_checker hy, Ne, next_eq_dead] at hl₂
      -- a node above the leader is dead after the call
      have habove : ∀ x ∈ d.allNodes, x.CanLead → y.nodeId < x.nodeId →
          d.sees x.nodeId = false ∧ d.stateOf x.nodeId ≠ .alive := by
        intro x hx hxlead hlt
        rw [← next_eq_dead, ← hw.stateOf_checker hx]
        by_contra halive
        refine absurd (hgreatest ⟨?_, halive⟩) (not_le.mpr hlt)
        rw [proposers_checker]
        exact (hw.proposers _).mpr ⟨x, hx, hxlead, rfl⟩
      rw [hw.verdict_of_some hl]
      constructor
      · intro hverdict
        split at hverdict
        · simp at hverdict
        · next hne =>
          have hid := Option.some.inj hverdict
          rw [hid] at hne hl₂ habove
          refine ⟨hne, habove, ?_⟩
          grind
      · rintro ⟨hne, hhigher, hstays⟩
        have hid : y.nodeId = node.nodeId := by
          rcases lt_trichotomy y.nodeId node.nodeId with hlt | heq | hgt
          · exact absurd (habove node hmem hlead hlt) (by grind)
          · exact heq
          · exact absurd (hhigher y hy hylead hgt) hl₂
        rw [hid, if_neg hne]
  | none =>
      have hdoomed := hw.leader_checker_eq_none_iff.mp hl
      have hself := hdoomed node hmem hlead
      have hlast := h.getLast?_electable hlead
      rw [hw.verdict_of_doomed hdoomed]
      constructor
      · intro hverdict
        split at hverdict
        · simp at hverdict
        · next hne =>
          rw [hverdict] at hne
          refine ⟨fun heq => hne heq.symm, fun x hx hxlead _ => hdoomed x hx hxlead, ?_⟩
          refine Or.inr (Or.inr ⟨?_, hdoomed⟩)
          have hdead := hlast.mp hverdict
          cases hs : d.stateOf node.nodeId <;> simp_all
      · rintro ⟨hne, -, hstays⟩
        have halive : d.stateOf node.nodeId ≠ .dead := by
          rcases hstays with hsees | halive | ⟨hsuspected, -⟩
          · simp [hself.1] at hsees
          · exact absurd halive hself.2
          · simp [hsuspected]
        rw [hlast.mpr halive, if_neg (fun heq => hne heq.symm)]

end FailureDetector

namespace Runner

variable {r : Runner} {canBind : String → Bool} {m : Membership} {node : Node} {config : RunConfig}

/-! ## The runner

A runner binds the listener when it starts as the leader, and at every check that names its own node. The
listener is never closed. -/

/-- **What a runner keeps**: its settings, the failure detector of its node, and the one address its
listener can hold. -/
structure Steady (m : Membership) (node : Node) (config : RunConfig) (r : Runner) : Prop where
  node_eq : r.node = node
  config_eq : r.config = config
  detector : FailureDetector.Kept node (m.others node) r.failureDetector
  listener : r.clientSvr.listener = none ∨ r.clientSvr.listener = some (clientAddress node config)

theorem nodup_others (hnode : node ∈ m.nodes) : ((m.others node ++ [node]).map Node.nodeId).Nodup := by
  rw [Membership.others_eq_erase hnode]
  refine List.Perm.nodup_iff (List.Perm.map _ ?_) |>.mpr m.nodup
  exact (List.perm_append_singleton _ _).trans (List.perm_cons_erase hnode).symm

theorem exists_of_map_eq_ok {ε α β : Type} {x : Except ε α} {f : α → β} {b : β}
    (h : x.map f = .ok b) : ∃ a, x = .ok a ∧ f a = b := by
  cases x with
  | error e => cases h
  | ok a => exact ⟨a, rfl, Except.ok.inj h⟩

theorem setupListener_cases {c c' : ClientServer} {addr : String}
    (h : c.setupListener canBind addr = .ok c') : c'.listener = some addr := by
  unfold ClientServer.setupListener at h
  split at h
  · cases h
  · split at h
    · cases h
      rfl
    · cases h

theorem new_ne_boundTwice {hash : String → Nat} {dirs : PaxosCoordinator.Dirs} {env : Env}
    {nodes : List Node} {isLeader : Bool} :
    new hash dirs env canBind node nodes isLeader config ≠ .error .boundTwice := by
  unfold new
  split
  · simp
  · cases isLeader with
    | false => simp [Except.map]
    | true => cases hbind : canBind (clientAddress node config) <;>
        simp [ClientServer.setupListener, ClientServer.new, Except.map, hbind]

theorem steady_new {hash : String → Nat} {dirs : PaxosCoordinator.Dirs} {env : Env} {isLeader : Bool}
    (h : new hash dirs env canBind node (m.others node) isLeader config = .ok r) :
    r.Steady m node config := by
  unfold new at h
  split at h
  · cases h
  · obtain ⟨c, hc, rfl⟩ := exists_of_map_eq_ok h
    refine ⟨rfl, rfl, @FailureDetector.kept_new node (m.others node) failureDelta, ?_⟩
    cases isLeader with
    | false =>
        obtain rfl := Except.ok.inj hc
        exact Or.inl rfl
    | true =>
        rw [if_pos rfl] at hc
        exact Or.inr (setupListener_cases hc)

theorem Steady.handleMessage (h : r.Steady m node config) (env : Env) (msg : NetworkMessage) :
    (r.handleMessage env msg).Steady m node config := by
  refine ⟨h.node_eq, h.config_eq, ?_, h.listener⟩
  unfold Runner.handleMessage
  dsimp only
  split
  · exact h.detector.step (.heartbeat msg.sender.nodeId)
  · exact h.detector

/-- **What a failure check does**: nothing, when it is not due; else it sweeps, and binds the listener
if the sweep has named its node. -/
theorem Steady.failureCheck_eq (h : r.Steady m node config) (hlead : node.CanLead) (env : Env) :
    r.failureCheck canBind env =
      if r.Due env then
        let r' :=
          { r with
            lastFailureCheck := env.now
            failureDetector := r.failureDetector.checker.2
            paxos := r.paxos.failureService env r.failureDetector.checker.1 }
        if r.failureDetector.checker.1 = some node.nodeId then
          (r.clientSvr.setupListener canBind (clientAddress node config)).map
            (fun clientSvr => { r' with clientSvr })
        else .ok r'
      else .ok r := by
  unfold failureCheck
  by_cases hdue : r.Due env
  · rw [if_pos hdue, if_pos hdue]
    cases hverdict : r.failureDetector.checker.1 with
    | none => simp [hverdict]
    | some l =>
        rcases hlead with hrole | hrole <;>
          by_cases hl : l = node.nodeId <;>
            simp [hverdict, h.node_eq, h.config_eq, hrole, hl]
  · rw [if_neg hdue, if_neg hdue]

theorem Steady.failureCheck {r' : Runner} (h : r.Steady m node config) (hlead : node.CanLead)
    {env : Env} (hr : r.failureCheck canBind env = .ok r') : r'.Steady m node config := by
  rw [h.failureCheck_eq hlead] at hr
  split at hr
  · dsimp only at hr
    split at hr
    · obtain ⟨c, hc, rfl⟩ := exists_of_map_eq_ok hr
      exact ⟨h.node_eq, h.config_eq, h.detector.step .checker, Or.inr (setupListener_cases hc)⟩
    · obtain rfl := Except.ok.inj hr
      exact ⟨h.node_eq, h.config_eq, h.detector.step .checker, h.listener⟩
  · obtain rfl := Except.ok.inj hr
    exact h

/-! ## Leadership regained

The second call finds the address bound by the first, and panics. -/

/-- **Leadership regained**: a due failure check finds the listener bound, and the node about to win
the leadership. -/
def Regains (r : Runner) : Event → Prop
  | .message _ _ => False
  | .failureCheck env => r.Due env ∧ r.clientSvr.listener ≠ none ∧ r.failureDetector.Wins

instance (r : Runner) : ∀ e, Decidable (r.Regains e)
  | .message _ _ => isFalse id
  | .failureCheck _ => inferInstanceAs (Decidable (_ ∧ _))

/-- A call binds a bound address exactly when the node regains the leadership. -/
theorem Steady.boundTwice_iff (h : r.Steady m node config) (canBind : String → Bool) (hnode : node ∈ m.nodes)
    (hlead : node.CanLead) (e : Event) :
    step canBind (.ok r) e = .error .boundTwice ↔ r.Regains e := by
  cases e with
  | message env msg => simp [step, Regains]
  | failureCheck env =>
      have hwins := (h.detector.watches (nodup_others hnode)).verdict_local_iff h.detector hlead
      show r.failureCheck canBind env = _ ↔ _ ∧ _ ∧ _
      rw [h.failureCheck_eq hlead, ← hwins]
      by_cases hdue : r.Due env
      · by_cases hverdict : r.failureDetector.checker.1 = some node.nodeId
        · rw [if_pos hdue, if_pos hverdict, ClientServer.setupListener]
          rcases h.listener with hfree | hheld
          · cases hbind : canBind (clientAddress node config) <;> simp [hfree, Except.map]
          · simp [hheld, hdue, hverdict, Except.map]
        · simp [hdue, hverdict]
      · simp [hdue]

/-! ## Runs -/

/-- The condition on the steps of a run. -/
def KeepsLead (x : Except Panic Runner) (e : Event) : Prop :=
  match x with
  | .ok r => ¬ r.Regains e
  | .error _ => True

instance (x : Except Panic Runner) (e : Event) : Decidable (KeepsLead x e) :=
  match x with
  | .ok _ => inferInstanceAs (Decidable (¬ _))
  | .error _ => isTrue trivial

theorem run_error (p : Panic) (es : List Event) : run (step canBind) (.error p) es = .error p := by
  induction es with
  | nil => rfl
  | cons e es ih => exact ih

theorem steady_step {x : Except Panic Runner} (hlead : node.CanLead)
    (h : ∀ r, x = .ok r → r.Steady m node config) (e : Event) :
    ∀ r, step canBind x e = .ok r → r.Steady m node config := by
  intro r' hr'
  cases x with
  | error p => cases hr'
  | ok r =>
      cases e with
      | message env msg =>
          obtain rfl := Except.ok.inj hr'
          exact (h r rfl).handleMessage env msg
      | failureCheck env => exact (h r rfl).failureCheck hlead hr'

/-- **The client listener is bound at most once** in exactly those runs in which the node does not
regain the leadership. -/
theorem bound_once_iff (hash : String → Nat) (dirs : PaxosCoordinator.Dirs) (env : Env)
    (canBind : String → Bool) (m : Membership) (node : Node) (isLeader : Bool) (config : RunConfig)
    (hnode : node ∈ m.nodes) (hlead : node.CanLead) (es : List Event) :
    let x := new hash dirs env canBind node (m.others node) isLeader config
    run (step canBind) x es ≠ .error .boundTwice ↔ Guarded (step canBind) KeepsLead x es := by
  intro x
  suffices hgen : ∀ x : Except Panic Runner, (∀ r, x = .ok r → r.Steady m node config) →
      x ≠ .error .boundTwice →
      (run (step canBind) x es ≠ .error .boundTwice ↔ Guarded (step canBind) KeepsLead x es) from
    hgen x (fun _ hr => steady_new hr) new_ne_boundTwice
  clear x
  induction es with
  | nil => intro x _ hx; simp [Guarded, hx]
  | cons e es ih =>
      intro x hsteady hx
      rw [run_cons]
      cases x with
      | error p =>
          have := ih (.error p) hsteady hx
          simpa [Guarded, KeepsLead, step] using this
      | ok r =>
          have htwice := (hsteady r rfl).boundTwice_iff canBind hnode hlead e
          by_cases hregains : r.Regains e
          · rw [htwice.mpr hregains, run_error]
            simp [Guarded, KeepsLead, hregains]
          · rw [ih _ (steady_step hlead hsteady e) (fun h => hregains (htwice.mp h))]
            simp [Guarded, KeepsLead, hregains]

/-- A proposer with an acceptor. -/
def oneOfEach : Membership :=
  { nodes := [⟨1, "127.0.0.1:50051", .acceptor⟩, ⟨2, "127.0.0.1:50052", .proposer⟩]
    nodup := by decide
    small := by decide }

/-- The runner of its proposer, the leader. -/
def leading : Except Panic Runner :=
  new (fun _ => 0) .empty .quiet (fun _ => true) ⟨2, "127.0.0.1:50052", .proposer⟩
    (oneOfEach.others ⟨2, "127.0.0.1:50052", .proposer⟩) true .shipped

def checkAt (now : Nat) : Event := .failureCheck { Env.quiet with now }

def heard : Event := .message .quiet ⟨⟨1, "127.0.0.1:50051", .acceptor⟩, .heartbeat⟩

theorem bound_once_while_heard :
    run (step (fun _ => true)) leading [checkAt 500, heard, checkAt 1000] ≠ .error .boundTwice :=
  (bound_once_iff _ _ _ _ oneOfEach _ _ _ (by decide) (Or.inr rfl) _).mpr (by decide)

/-- The proposer hears nobody for two checks, and gives itself up; a heartbeat brings it back. -/
theorem regained_lead_binds_twice :
    run (step (fun _ => true)) leading ([checkAt 500, checkAt 1000, heard] ++ [checkAt 1500]) =
      .error .boundTwice := by
  have hsteady : ∀ r, run (step (fun _ => true)) leading [checkAt 500, checkAt 1000, heard] = .ok r →
      r.Steady oneOfEach ⟨2, "127.0.0.1:50052", .proposer⟩ .shipped :=
    run_invariant (P := fun x : Except Panic Runner => ∀ r, x = .ok r → r.Steady oneOfEach _ .shipped)
      (fun _ e h => steady_step (Or.inr rfl) h e) (fun _ h => steady_new h) _
  have hregains : ∃ r, run (step (fun _ => true)) leading [checkAt 500, checkAt 1000, heard] = .ok r ∧
      r.Regains (checkAt 1500) := ⟨_, rfl, by decide⟩
  obtain ⟨r, hr, hregains⟩ := hregains
  rw [run_snoc, hr]
  exact ((hsteady r hr).boundTwice_iff _ (by decide) (Or.inr rfl) _).mpr hregains

end Runner

end PaxosWasm
