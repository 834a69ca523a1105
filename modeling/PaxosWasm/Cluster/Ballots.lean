import PaxosWasm.Cluster.Interleaving

/-!
# Ballots

A proposer starts with its node id as ballot and raises it by the number of acceptors. So the ballots
of two proposers are disjoint exactly if their ids differ modulo that number.
-/

namespace PaxosWasm

open Library

/-! ## Progressions of ballots

The ballots of a node start at its id and grow by the number of acceptors. -/

/-- Ballots reached from `i` in steps of `n`; nothing else is restricted. -/
def Facts.ofBallots (i : NodeId) (n : Nat) : Facts where
  value := fun _ => True
  adu := fun _ => True
  ballot := fun b => ∃ k, b = i + k * n
  zero := trivial
  delta := n
  raise := fun b ⟨k, hk⟩ => ⟨k + 1, by rw [hk, Nat.add_assoc, Nat.succ_mul]⟩

/-- Anything may have been sent. -/
def Heard.any : Heard := ⟨fun _ _ => True, fun _ _ => True⟩

theorem Heard.le_any (h : Heard) : h.Le .any := ⟨fun _ _ _ => trivial, fun _ _ _ => trivial⟩

theorem Heard.knows_any (i : NodeId) (n : Nat) (msg : NetworkMessage) :
    Heard.any.Knows (.ofBallots i n) msg := by
  unfold Knows
  split
  · exact fun _ _ _ _ => trivial
  all_goals trivial

/-- Two progressions with the same step share a number exactly if they start in one residue class. -/
theorem progressions_meet {x y n : Nat} : (∃ k l, x + k * n = y + l * n) ↔ x ≡ y [MOD n] := by
  constructor
  · rintro ⟨k, l, h⟩
    have := congrArg (· % n) h
    simpa [Nat.ModEq] using this
  · intro h
    rcases Nat.le_total x y with hxy | hyx
    · obtain ⟨k, hk⟩ := (Nat.modEq_iff_dvd' hxy).mp h
      exact ⟨k, 0, by rw [Nat.mul_comm]; omega⟩
    · obtain ⟨k, hk⟩ := (Nat.modEq_iff_dvd' hyx).mp h.symm
      exact ⟨0, k, by rw [Nat.mul_comm k]; omega⟩

/-- A proposer that finds no state keeps its ballot. -/
theorem Proposer.currentBallot_loadState {p : Proposer} (h : p.storage.store.dir.state = none) :
    p.loadState.2.currentBallot = p.currentBallot := by
  unfold loadState StorageHelper.loadState StorageResource.loadState
  rw [h]
  cases p.storage.enabled <;> rfl

namespace Cluster

/-- The ballot of the proposer on the node `i`. -/
def ballot? (c : Cluster) (i : NodeId) : Option Ballot :=
  (c.get? i).bind (fun x => x.node.proposer?.map (fun p => p.proposer.currentBallot))

/-- The node `i` uses the ballot `b` in some state of the run. -/
def Uses (launch : Launch) (m : Membership) (es : List Event) (i : NodeId) (b : Ballot) : Prop :=
  Sometime (step launch.hash) (fun c => c.ballot? i = some b) (start launch m) es

/-- Every ballot fits a `u64`. -/
def Fits64 (c : Cluster) : Prop :=
  ∀ x ∈ c.values, ∀ p ∈ x.node.proposer?, p.proposer.currentBallot < 2 ^ 64

instance : DecidablePred Fits64 := fun c => inferInstanceAs (Decidable (∀ x ∈ c.values, _))

theorem ballot?_eq_some {c : Cluster} {i : NodeId} {b : Ballot} : c.ballot? i = some b ↔
    ∃ x p, c.get? i = some x ∧ x.node.proposer? = some p ∧ p.proposer.currentBallot = b := by
  simp [ballot?, Option.bind_eq_some_iff]

theorem fits64_iff {c : Cluster} : c.Fits64 ↔ ∀ i b, c.ballot? i = some b → b < 2 ^ 64 := by
  constructor
  · intro h i b hb
    obtain ⟨x, p, hx, hp, rfl⟩ := ballot?_eq_some.mp hb
    exact h x (OrdMap.mem_values.mpr ⟨i, hx⟩) p hp
  · intro h x hx p hp
    obtain ⟨i, hi⟩ := OrdMap.mem_values.mp hx
    exact h i _ (ballot?_eq_some.mpr ⟨x, p, hi, hp, rfl⟩)

variable {launch : Launch} {m : Membership}

/-- **Every node of every run** uses ballots reached from its id. -/
theorem uses_ofNode (hfresh : ∀ i, (launch.dirs i).Fresh) {es : List Event} {i : NodeId} {b : Ballot}
    (h : Uses launch m es i b) : ∃ k, b = i + k * m.acceptorIds.card := by
  obtain ⟨es', _, hb⟩ := h
  have hsuits : ∀ node : Node, PaxosCoordinator.Suits (.ofBallots node.nodeId m.acceptorIds.card) m
      node launch.config := fun node => ⟨Or.inr (fun _ => trivial), ⟨0, by simp⟩, rfl⟩
  have hinv : All m (fun node x => x.Sound (.ofBallots node.nodeId m.acceptorIds.card) (fun _ => True)
      .any m node launch.config) (run (step launch.hash) (start launch m) es') := by
    refine run_invariant (fun c e hc => ?_) ?_ es'
    · refine hc.step e (fun node hnode x e' _ _ hx => ?_)
      refine (hx.step launch.hash hnode (hsuits node) (fun _ _ _ => trivial) (fun _ _ => trivial) ?_ ?_ ?_).mono
        (Heard.le_any _)
      · exact fun l _ => ⟨fun _ _ _ => trivial, fun _ _ _ _ _ _ _ _ => trivial⟩
      · exact ⟨fun _ msg _ => Heard.knows_any _ _ msg, fun _ _ => trivial⟩
      · exact Or.inl (fun _ => trivial)
    · exact all_start (fun node hnode x hx => Process.sound_start hnode (hsuits node)
        (hfresh node.nodeId) hx)
  obtain ⟨x, p, hx, hget, rfl⟩ := ballot?_eq_some.mp hb
  obtain ⟨node, _, rfl, hsound⟩ := hinv i x hx
  exact (hsound.now.proposer p hget).core.ballot

/-! ## A proposer that keeps losing the leadership

Each verdict of the failure detector that makes a node leader raises its ballot by one step. So every
ballot of its progression is used in some run, and two progressions that meet have a run with one ballot
for two proposers. -/

/-- The proposer of `node` runs, leads or not, and has the ballot `b`. -/
def Holds (m : Membership) (node : Node) (leads : Bool) (b : Ballot) (c : Cluster) : Prop :=
  ∃ x p, c.get? node.nodeId = some x ∧ x.running = true ∧ x.node.node = node ∧
    x.node.proposer? = some p ∧ p.proposer.ballotDelta = m.acceptorIds.card ∧
    p.proposer.isLeader = leads ∧ p.proposer.currentBallot = b

/-- The failure detector of the node `i` takes the node `j` for the leader. -/
def verdict (i j : NodeId) : Event := .call i (.failureService .quiet (some j))

variable {node : Node} {hash : String → Nat} {c : Cluster} {b : Ballot} {leads : Bool}

theorem Holds.ballot? (h : Holds m node leads b c) : c.ballot? node.nodeId = some b := by
  obtain ⟨x, p, hx, _, _, hp, _, _, hb⟩ := h
  exact ballot?_eq_some.mpr ⟨x, p, hx, hp, hb⟩

/-- A verdict raises the ballot of a node that becomes leader, and no other ballot. -/
theorem Holds.verdict (h : Holds m node leads b c) (hash : String → Nat) (j : NodeId) :
    Holds m node (decide (j = node.nodeId))
        (if j = node.nodeId ∧ leads = false then b + m.acceptorIds.card else b)
        (step hash c (verdict node.nodeId j)) ∧
      ∀ i, i ≠ node.nodeId →
        (step hash c (Cluster.verdict node.nodeId j)).ballot? i = c.ballot? i := by
  obtain ⟨x, p, hx, hrun, hself, hp, hdelta, rfl, rfl⟩ := h
  have hstep : step hash c (Cluster.verdict node.nodeId j) = c.insert node.nodeId
      { x with node := x.node.failureService .quiet (some j), running := true } := by
    show c.update hash node.nodeId _ = _
    rw [update, hx]
    simp only [Process.step, hrun, if_true, Process.call]
  rw [hstep]
  refine ⟨⟨_, (x.node.onProposer p (.failureService .quiet (some j))).2, OrdMap.get?_insert_self ..,
    rfl, ?_, ?_, ?_⟩, fun i hi => ?_⟩
  · exact (x.node.sameSetup_call (.failureService .quiet (some j))).1.trans hself
  · show (x.node.failureService .quiet (some j)).proposer? = _
    rw [PaxosCoordinator.failureService_eq, PaxosCoordinator.proposer?_withProposer, hp]
    rfl
  · rw [← hdelta]
    simp only [PaxosCoordinator.onProposer, hself]
    by_cases hj : j = node.nodeId
    · cases hleads : p.proposer.isLeader <;>
        simp [hj, hleads, ProposerAgent.becomeLeader, Proposer.becomeLeader, Proposer.increaseBallot]
    · cases hleads : p.proposer.isLeader <;>
        simp [hj, hleads, ProposerAgent.resignLeader, Proposer.resignLeader]
  · rw [Cluster.ballot?, Cluster.ballot?, OrdMap.get?_insert, if_neg hi]

/-- The leadership is handed to the node `i`, and then to the node `j`, `k` times over. -/
def rounds (i j : NodeId) : Nat → List Event
  | 0 => []
  | k + 1 => verdict i i :: verdict i j :: rounds i j k

/-- **Each round raises the ballot of the node once**, and no other ballot. -/
theorem Holds.rounds (h : Holds m node false b c) (hash : String → Nat) {j : NodeId}
    (hj : j ≠ node.nodeId) (k : Nat) (hfits : c.Fits64) (hb : b + k * m.acceptorIds.card < 2 ^ 64) :
    (run (step hash) c (Cluster.rounds node.nodeId j k)).ballot? node.nodeId =
        some (b + k * m.acceptorIds.card) ∧
      Throughout (step hash) Fits64 c (Cluster.rounds node.nodeId j k) := by
  induction k generalizing b c with
  | zero =>
      refine ⟨?_, throughout_nil.mpr hfits⟩
      rw [Nat.zero_mul]
      exact h.ballot?
  | succ k ih =>
      rw [Nat.succ_mul] at hb
      obtain ⟨hgain, hothers⟩ := h.verdict hash node.nodeId
      obtain ⟨hlose, hothers'⟩ := hgain.verdict hash j
      simp only [hj, decide_true, decide_false, and_self, false_and, if_true, if_false] at hgain hlose
      have hfits₁ : (step hash c (Cluster.verdict node.nodeId node.nodeId)).Fits64 := by
        refine fits64_iff.mpr (fun i b' hb' => ?_)
        by_cases hi : i = node.nodeId
        · rw [hi, hgain.ballot?] at hb'
          obtain rfl := Option.some.inj hb'
          lia
        · rw [hothers i hi] at hb'
          exact fits64_iff.mp hfits i b' hb'
      have hfits₂ : (step hash (step hash c (Cluster.verdict node.nodeId node.nodeId))
          (Cluster.verdict node.nodeId j)).Fits64 := by
        refine fits64_iff.mpr (fun i b' hb' => ?_)
        by_cases hi : i = node.nodeId
        · rw [hi, hlose.ballot?] at hb'
          obtain rfl := Option.some.inj hb'
          lia
        · rw [hothers' i hi] at hb'
          exact fits64_iff.mp hfits₁ i b' hb'
      obtain ⟨hball, hall⟩ := ih hlose hfits₂ (by lia)
      refine ⟨?_, throughout_cons.mpr ⟨hfits, throughout_cons.mpr ⟨hfits₁, hall⟩⟩⟩
      rw [Nat.succ_mul, Nat.add_comm (k * _), ← Nat.add_assoc]
      exact hball

variable {config : RunConfig}

/-! ### The run up to a collision

The lower of two ids of one residue class is raised by the number of acceptors until it meets the other. -/

/-- A new proposer over an empty directory has its node id as ballot. -/
theorem currentBallot_new (nodes : List Node) (isLeader : Bool) :
    (ProposerAgent.new .empty .quiet node nodes isLeader config).proposer.currentBallot = node.nodeId := by
  rw [ProposerAgent.new]
  exact Proposer.currentBallot_loadState rfl

theorem ballot?_start {i : NodeId} (hb : (start (.idle config) m).ballot? i = some b) :
    ∃ node ∈ m.nodes, node.nodeId = b := by
  have hinv : All m (fun node x => ∀ p, x.node.proposer? = some p →
      p.proposer.currentBallot = node.nodeId) (start (.idle config) m) := by
    refine all_start (fun node _ x hx p hp => ?_)
    obtain ⟨n, hn, rfl⟩ := Option.map_eq_some_iff.mp hx
    rw [PaxosCoordinator.proposer?_new hn hp]
    exact currentBallot_new _ _
  obtain ⟨x, p, hx, hget, rfl⟩ := ballot?_eq_some.mp hb
  obtain ⟨node, hnode, _, hall⟩ := hinv i x hx
  exact ⟨node, hnode, (hall p hget).symm⟩

/-- A proposer starts idle. -/
theorem holds_start (hnode : node ∈ m.nodes) (hrole : node.role = .proposer ∨ node.role = .coordinator) :
    Holds m node false node.nodeId (start (.idle config) m) := by
  let p := ProposerAgent.new .empty .quiet node (m.others node) false config
  have hstart : ∃ x, Process.start (fun _ => 0) .empty .quiet m node false config = some x ∧
      x.running = true ∧ x.node.node = node ∧ x.node.proposer? = some p := by
    unfold Process.start PaxosCoordinator.new PaxosCoordinator.newAgents
    rcases hrole with hrole | hrole
    · rw [hrole]
      exact ⟨_, rfl, rfl, rfl, rfl⟩
    · rw [hrole]
      exact ⟨_, rfl, rfl, rfl, rfl⟩
  obtain ⟨x, hx, hrun, hself, hp⟩ := hstart
  refine ⟨x, p, get?_start hnode hx, hrun, hself, hp, ?_, ?_, currentBallot_new _ _⟩
  · have hne : node.role ≠ .acceptor := by rcases hrole with h | h <;> rw [h] <;> nofun
    rw [← Membership.length_acceptorNodes hnode hne]
    show (Proposer.loadState _).2.ballotDelta = _
    unfold Proposer.loadState
    split <;> rfl
  · show (Proposer.loadState _).2.isLeader = _
    unfold Proposer.loadState
    split <;> rfl

/-- The lower of two ids of one residue class reaches the other one. -/
theorem exists_collision (config : RunConfig) {x y : Node} (hids : ∀ node ∈ m.nodes, node.nodeId < 2 ^ 64)
    (hx : x ∈ m.nodes) (hy : y ∈ m.nodes) (hxrole : x.role = .proposer ∨ x.role = .coordinator)
    (hyrole : y.role = .proposer ∨ y.role = .coordinator) (hlt : x.nodeId < y.nodeId)
    (hmod : x.nodeId ≡ y.nodeId [MOD m.acceptorIds.card]) :
    ∃ es, Throughout (step (Launch.idle config).hash) Fits64 (start (.idle config) m) es ∧
      Uses (.idle config) m es x.nodeId y.nodeId ∧ Uses (.idle config) m es y.nodeId y.nodeId := by
  obtain ⟨k, hk⟩ := (Nat.modEq_iff_dvd' hlt.le).mp hmod
  have hreach : x.nodeId + k * m.acceptorIds.card = y.nodeId := by
    rw [Nat.mul_comm]
    lia
  have hstart : Holds m x false x.nodeId (start (.idle config) m) := holds_start hx hxrole
  have hfits : Fits64 (start (.idle config) m) := by
    refine fits64_iff.mpr (fun i b hb => ?_)
    obtain ⟨node, hnode, rfl⟩ := ballot?_start hb
    exact hids node hnode
  obtain ⟨hball, hall⟩ := hstart.rounds (Launch.idle config).hash hlt.ne' k hfits
    (by rw [hreach]; exact hids y hy)
  rw [hreach] at hball
  exact ⟨rounds x.nodeId y.nodeId k, hall, sometime_last hball,
    [], List.nil_prefix, (holds_start hy hyrole).ballot?⟩

/-! ## When ballots are disjoint

Ballots keep the residue of their node id, which is one direction; the run above is the other one. -/

/-- **Ballots of two proposers are disjoint exactly if their ids differ modulo the number of
acceptors**: over every run without an overflow, whatever is called, delivered or restarted. -/
theorem ballots_disjoint_iff (m : Membership) (config : RunConfig)
    (hids : ∀ node ∈ m.nodes, node.nodeId < 2 ^ 64) (x y : Node) (hx : x ∈ m.nodes) (hy : y ∈ m.nodes)
    (hxrole : x.role = .proposer ∨ x.role = .coordinator)
    (hyrole : y.role = .proposer ∨ y.role = .coordinator) (hne : x.nodeId ≠ y.nodeId) :
    (∀ launch : Launch, launch.config = config → (∀ i, (launch.dirs i).Fresh) → ∀ es,
      Throughout (step launch.hash) Fits64 (start launch m) es →
      ∀ b, ¬ (Uses launch m es x.nodeId b ∧ Uses launch m es y.nodeId b)) ↔
    ¬ x.nodeId ≡ y.nodeId [MOD m.acceptorIds.card] := by
  constructor
  · intro hdisjoint hmod
    rcases Nat.lt_or_gt_of_ne hne with hlt | hlt
    · obtain ⟨es, hfits, hboth⟩ :=
        exists_collision config hids hx hy hxrole hyrole hlt hmod
      exact hdisjoint (.idle config) rfl (Launch.fresh_idle config) es hfits _ hboth
    · obtain ⟨es, hfits, hboth⟩ :=
        exists_collision config hids hy hx hyrole hxrole hlt hmod.symm
      exact hdisjoint (.idle config) rfl (Launch.fresh_idle config) es hfits _ hboth.symm
  · rintro hmod launch _ hfresh es _ b ⟨husex, husey⟩
    obtain ⟨k, hk⟩ := uses_ofNode hfresh husex
    obtain ⟨l, hl⟩ := uses_ofNode hfresh husey
    exact hmod (progressions_meet.mp ⟨k, l, hk.symm.trans hl⟩)

/-- Two proposers, three acceptors and a learner. -/
def twoProposers : Membership :=
  { nodes := [⟨1, "", .proposer⟩, ⟨4, "", .proposer⟩, ⟨11, "", .acceptor⟩, ⟨12, "", .acceptor⟩,
      ⟨13, "", .acceptor⟩, ⟨21, "", .learner⟩]
    nodup := by decide
    small := by decide }

theorem ballots_disjoint_iff_two_proposers :
    (∀ launch : Launch, launch.config = .inMemory → (∀ i, (launch.dirs i).Fresh) → ∀ es,
      Throughout (step launch.hash) Fits64 (start launch twoProposers) es →
      ∀ b, ¬ (Uses launch twoProposers es 1 b ∧ Uses launch twoProposers es 4 b)) ↔
    ¬ 1 ≡ 4 [MOD twoProposers.acceptorIds.card] :=
  ballots_disjoint_iff twoProposers .inMemory (by decide) ⟨1, "", .proposer⟩ ⟨4, "", .proposer⟩
    (by decide) (by decide) (Or.inl rfl) (Or.inl rfl) (by decide)

/-- **Two proposers with one ballot**: the proposer of node 1 becomes leader, which raises its ballot
by the three acceptors to 4, the first ballot of the proposer of node 4. -/
theorem ballots_collide :
    let es := [verdict 1 1]
    Throughout (step (Launch.idle .inMemory).hash) Fits64 (start (.idle .inMemory) twoProposers) es ∧
      Uses (.idle .inMemory) twoProposers es 1 4 ∧ Uses (.idle .inMemory) twoProposers es 4 4 :=
  ⟨by decide, ⟨[verdict 1 1], List.prefix_refl _, by decide⟩, [], List.nil_prefix, by decide⟩

end Cluster

end PaxosWasm
