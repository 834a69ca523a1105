import PaxosWasm.Agents.Campaign
import PaxosWasm.Cluster.Membership

/-!
# The rounds of Phase 1 over the runs of a node

A proposer raises its ballot before every prepare; a coordinator prepares the ballot it has, and comes
by a new one only by becoming leader. The saved ballot is the ballot in memory, so a restart goes on
with it.
-/

namespace PaxosWasm

open Library Campaign

/-! ## A new agent -/

/-- The ballot a start over the directory loads. -/
def Proposer.Dir.ballot (dir : Proposer.Dir) (initial : Ballot) : Ballot :=
  (dir.state.map Proposer.PersistentCurrentState.currentBallot).getD initial

theorem Proposer.Dir.ballot_lt (dir : Proposer.Dir) {initial : Ballot} (hinitial : initial < 2 ^ 64)
    (hloaded : ∀ ps ∈ dir.state, ps.currentBallot < 2 ^ 64) : dir.ballot initial < 2 ^ 64 := by
  unfold Proposer.Dir.ballot
  cases hstate : dir.state with
  | none => exact hinitial
  | some ps => exact hloaded ps hstate

theorem ProposerAgent.campaign_new (dir : Proposer.Dir) (env : Env) (node : Node) (nodes : List Node)
    (isLeader : Bool) (config : RunConfig) :
    (ProposerAgent.new dir env node nodes isLeader config).campaign =
      { ballot := if config.persistentStorage then Proposer.Dir.ballot dir node.nodeId else node.nodeId
        delta := (acceptorNodes nodes).length + (if node.role = .coordinator then 1 else 0)
        enabled := config.persistentStorage
        dir
        prepares := []
        promises := ∅ } := by
  obtain ⟨state, snapshots, changelog, script⟩ := dir
  unfold ProposerAgent.new ProposerAgent.campaign Proposer.loadState
    Proposer.StorageHelper.loadState StorageResource.loadState Proposer.Dir.ballot
  cases hon : config.persistentStorage <;> cases state <;>
    simp [Proposer.new, Proposer.StorageHelper.new, StorageResource.new, hon, preparesOf]

/-! ## A fresh ballot for every round

`Fresh` says what a process needs for its rounds, and the files of it are enough for the next lifetime. It
is kept by every step but the two that `Retries` and `Overflows` describe. -/

/-- The prepares so far have growing ballots, none above the current one, which is a 64-bit number, and
the file has the current ballot or a start would come by it anyway. -/
structure Campaign.Fresh (initial : Ballot) (past : List Prepare) (c : Campaign) : Prop where
  delta : 0 < c.delta
  fits : c.ballot < 2 ^ 64
  script : c.dir.script = []
  stored : c.enabled = true → c.dir.ballot initial = c.ballot
  growing : ((past ++ c.prepares).map Prepare.ballot).Pairwise (· < ·)
  below : ∀ pr ∈ past ++ c.prepares, pr.ballot ≤ c.ballot

/-- No sum of a raise wraps around, and a coordinator prepares no ballot it has prepared. -/
def Campaign.Given.unused (past : List Prepare) : Campaign.Given where
  promise := fun _ _ _ => True
  raises := fun c => c.ballot + c.delta < 2 ^ 64
  reopens := fun c => ∀ pr ∈ past ++ c.prepares, pr.ballot ≠ c.ballot

namespace Campaign.Fresh

variable {initial : Ballot} {past : List Prepare} {c c' : Campaign}

theorem saved (h : c.Fresh initial past) {ballot : Ballot} {dir : Proposer.Dir}
    (hsaved : c.Saved ballot dir) (hle : c.ballot ≤ ballot) (hfits : ballot < 2 ^ 64) :
    { c with ballot, dir }.Fresh initial past := by
  obtain ⟨hscript, hdir⟩ := hsaved h.script
  refine ⟨h.delta, hfits, hscript, fun hon => ?_, h.growing, fun pr hpr => ?_⟩
  · replace hon : c.enabled = true := hon
    rw [if_pos hon] at hdir
    show (dir.state.map _).getD initial = ballot
    rw [hdir]
    rfl
  · exact (h.below pr hpr).trans hle

/-- A prepare with a ballot above all prepared ones. -/
theorem prepared (h : c.Fresh initial past) {slot : Slot}
    (hnew : ∀ pr ∈ past ++ c.prepares, pr.ballot < c.ballot) :
    (c.prepared { slot, ballot := c.ballot }).Fresh initial past := by
  have hgrowing : ((past ++ (c.prepares ++ [({ slot, ballot := c.ballot } : Prepare)])).map
      Prepare.ballot).Pairwise (· < ·) := by
    rw [← List.append_assoc, List.map_append, List.pairwise_append]
    refine ⟨h.growing, List.pairwise_singleton _ _, fun b hb b' hb' => ?_⟩
    obtain ⟨pr, hpr, rfl⟩ := List.mem_map.mp hb
    rw [List.map_singleton, List.mem_singleton] at hb'
    rw [hb']
    exact hnew pr hpr
  refine ⟨h.delta, h.fits, h.script, h.stored, hgrowing, fun pr hpr => ?_⟩
  replace hpr : pr ∈ past ++ (c.prepares ++ [({ slot, ballot := c.ballot } : Prepare)]) := hpr
  rw [← List.append_assoc, List.mem_append, List.mem_singleton] at hpr
  rcases hpr with hpr | rfl
  · exact h.below pr hpr
  · exact le_refl _

theorem step (h : c.Fresh initial past) (hstep : Step (.unused past) c c') : c'.Fresh initial past := by
  cases hstep with
  | saved hsaved => exact h.saved hsaved (le_refl _) h.fits
  | flushed hdir =>
      rw [hdir h.script]
      exact h
  | raised hraises hsaved => exact h.saved hsaved (Nat.le_add_right _ _) hraises
  | opened hraises hsaved =>
      have hraised := h.saved hsaved (Nat.le_add_right _ _) hraises
      apply hraised.prepared
      intro pr hpr
      exact lt_of_le_of_lt (h.below pr hpr) (Nat.lt_add_of_pos_right h.delta)
  | reopened hreopens =>
      apply h.prepared
      intro pr hpr
      exact lt_of_le_of_ne (h.below pr hpr) (hreopens pr hpr)
  | promised => exact ⟨h.delta, h.fits, h.script, h.stored, h.growing, h.below⟩

/-- A start over the files goes on with the ballot. -/
theorem restarted (h : c.Fresh initial past) (hon : c.enabled = true) :
    ({ ballot := c.dir.ballot initial, delta := c.delta, enabled := true, dir := c.dir,
       prepares := [], promises := ∅ } : Campaign).Fresh initial (past ++ c.prepares) := by
  refine ⟨h.delta, ?_, h.script, fun _ => rfl, ?_, ?_⟩
  · rw [h.stored hon]
    exact h.fits
  · rw [List.append_nil]
    exact h.growing
  · rw [List.append_nil, h.stored hon]
    exact h.below

end Campaign.Fresh

namespace Process

/-- The prepares a process has sent, those before its last start included. -/
def prepares (x : Process) : List Prepare := preparesOf x.sent.proposer

/-- **A second round with one ballot**: the tick of a leading coordinator that is to send a prepare,
with a ballot it has prepared already. -/
def Retries (x : Process) (e : Event) : Prop :=
  x.running = true ∧ x.node.Reprepares e ∧
    ∃ p ∈ x.node.proposer?, ∃ pr ∈ x.prepares, pr.ballot = p.proposer.currentBallot

instance (x : Process) (e : Event) : Decidable (x.Retries e) := inferInstanceAs (Decidable (_ ∧ _))

/-- **The ballots are used up**: the ballot is to be raised, and the sum is no 64-bit number. -/
def Overflows (x : Process) (e : Event) : Prop :=
  x.running = true ∧ x.node.Raises e ∧
    ∃ p ∈ x.node.proposer?, 2 ^ 64 ≤ p.proposer.currentBallot + p.proposer.ballotDelta

instance (x : Process) (e : Event) : Decidable (x.Overflows e) := inferInstanceAs (Decidable (_ ∧ _))

variable {m : Membership} {node : Node} {config : RunConfig} {x : Process}

/-- What the rounds of a process need. -/
structure Fresh (m : Membership) (node : Node) (config : RunConfig) (x : Process) : Prop where
  setUp : x.node.SetUp m node config
  agent : ∃ p, x.node.proposer? = some p ∧ p.campaign.enabled = config.persistentStorage ∧
    p.campaign.delta = m.acceptorIds.card ∧
    p.campaign.Fresh node.nodeId (preparesOf x.past.proposer)

theorem prepares_eq {p : ProposerAgent} (hp : x.node.proposer? = some p) :
    x.prepares = preparesOf x.past.proposer ++ p.campaign.prepares := by
  rw [prepares, sent, preparesOf, List.filterMap_append, PaxosCoordinator.logs, hp]
  rfl

theorem Fresh.of_new {hash : String → Nat} {dirs : PaxosCoordinator.Dirs} {env : Env}
    {isLeader : Bool} {n : PaxosCoordinator} {past : Logs} {running : Bool} (hnode : node ∈ m.nodes)
    (hrole : node.role = .proposer ∨ node.role = .coordinator)
    (hnew : PaxosCoordinator.new hash dirs env node (m.others node) isLeader config = some n)
    (hfresh : ∀ c : Campaign, c.prepares = [] → c.dir = dirs.proposer → c.enabled = config.persistentStorage →
      c.delta = m.acceptorIds.card →
      c.ballot = (if config.persistentStorage then dirs.proposer.ballot node.nodeId else node.nodeId) →
      c.Fresh node.nodeId (preparesOf past.proposer)) :
    Fresh m node config { node := n, running, past } := by
  have hsetUp := PaxosCoordinator.setUp_new hnode hnew
  have hagents : ∃ p, n.proposer? = some p := by
    obtain ⟨agents, hagents, rfl⟩ := Option.map_eq_some_iff.mp hnew
    unfold PaxosCoordinator.newAgents at hagents
    rcases hrole with hrole | hrole
    · rw [hrole] at hagents
      obtain rfl := Option.some.inj hagents
      exact ⟨_, rfl⟩
    · rw [hrole] at hagents
      obtain rfl := Option.some.inj hagents
      exact ⟨_, rfl⟩
  obtain ⟨p, hp⟩ := hagents
  have hcampaign := ProposerAgent.campaign_new dirs.proposer env node (m.others node) isLeader config
  rw [← PaxosCoordinator.proposer?_new hnew hp] at hcampaign
  have hdelta : p.campaign.delta = m.acceptorIds.card := by
    have hne : node.role ≠ .acceptor := by
      rcases hrole with hrole | hrole <;> simp [hrole]
    rw [hcampaign]
    exact Membership.length_acceptorNodes hnode hne
  refine ⟨hsetUp, p, hp, by rw [hcampaign], hdelta, hfresh _ ?_ ?_ ?_ hdelta ?_⟩
  all_goals rw [hcampaign]

/-- **A step of the process** keeps its ballots fresh, unless it is a second round with one ballot, the
ballots are used up, or it is a restart without storage. -/
theorem Fresh.step (h : Fresh m node config x) (hnode : node ∈ m.nodes)
    (hrole : node.role = .proposer ∨ node.role = .coordinator) (hash : String → Nat) {e : Event}
    (hrestart : ∀ env isLeader k, e = .restart env isLeader k → config.persistentStorage = true)
    (hretry : ¬ x.Retries e) (hoverflow : ¬ x.Overflows e) :
    Fresh m node config (Process.step hash x e) := by
  obtain ⟨hsetUp, p, hp, henabled, hdelta, hfresh⟩ := h
  rcases step_cases hash x e with ⟨env, isLeader, k, n, rfl, hnew, he⟩ | ⟨_, hrun, he⟩ | he
  · have hon := hrestart env isLeader k rfl
    rw [hsetUp.node_eq, hsetUp.nodes_eq, hsetUp.config_eq] at hnew
    rw [he]
    refine .of_new hnode hrole hnew (fun c hprepares hdir hc hcdelta hballot => ?_)
    have hdirs : (x.node.dirs k).proposer = p.campaign.dir := by
      simp only [PaxosCoordinator.dirs, hp, Option.elim_some]
      rfl
    have hpast : preparesOf x.sent.proposer = preparesOf x.past.proposer ++ p.campaign.prepares :=
      prepares_eq hp
    rw [hon, if_pos rfl] at hballot
    rw [hdirs] at hdir hballot
    rw [hon] at hc
    -- the ballot read back is not below any that was prepared
    have hnext := hfresh.restarted (henabled.trans hon)
    rw [hpast]
    obtain ⟨ballot, delta, enabled, dir, prepares, promises⟩ := c
    obtain rfl := hprepares
    obtain rfl := hdir
    obtain rfl := hballot
    obtain rfl := hc
    obtain rfl := hcdelta.trans hdelta.symm
    exact ⟨hnext.delta, hnext.fits, hnext.script, hnext.stored, hnext.growing, hnext.below⟩
  · rw [he]
    -- the two conditions on the event, as conditions on the campaign
    have hreopens : x.node.Reprepares e → ∀ c : Campaign, c.ballot = p.campaign.ballot →
        c.prepares = p.campaign.prepares →
        (Given.unused (preparesOf x.past.proposer)).reopens c := by
      intro hreprepares c hballot hprepares pr hpr heq
      rw [hprepares, ← prepares_eq hp] at hpr
      exact hretry ⟨hrun, hreprepares, p, hp, pr, hpr, heq.trans hballot⟩
    have hraises : x.node.Raises e →
        (Given.unused (preparesOf x.past.proposer)).raises p.campaign := by
      intro hraises
      exact Nat.lt_of_not_le (fun hle => hoverflow ⟨hrun, hraises, p, hp, hle⟩)
    obtain ⟨p', hp', hsteps⟩ := PaxosCoordinator.rounds_call hp hraises (fun _ _ _ _ _ => trivial)
      hreopens (fun _ _ _ _ _ => trivial)
    obtain ⟨hd, hen⟩ := hsteps.settings
    exact ⟨hsetUp.call e, p', hp', hen.trans henabled, hd.trans hdelta,
      hsteps.invariant (fun _ _ hs hc => hc.step hs) hfresh⟩
  · rw [he]
    exact ⟨hsetUp, p, hp, henabled, hdelta, hfresh⟩

end Process

/-- **A fresh ballot for every round**: in every run of a proposer or coordinator with at least one
acceptor, over storage that does not fail, whose restarts are with storage on, in which no coordinator
starts a second round with one ballot and the ballots are not used up, the ballots of the prepares it
sends grow, and are 64-bit numbers. -/
theorem prepares_fresh (hash : String → Nat) (dirs : PaxosCoordinator.Dirs) (env : Env)
    (m : Membership) (node : Node) (isLeader : Bool) (config : RunConfig) (x : Process)
    (es : List Process.Event) (hnode : node ∈ m.nodes)
    (hrole : node.role = .proposer ∨ node.role = .coordinator) (hacceptors : 0 < m.acceptorIds.card)
    (hid : node.nodeId < 2 ^ 64) (hloaded : ∀ ps ∈ dirs.proposer.state, ps.currentBallot < 2 ^ 64)
    (hsaves : dirs.proposer.script = [])
    (hstart : Process.start hash dirs env m node isLeader config = some x)
    (hrestart : ∀ env isLeader k, .restart env isLeader k ∈ es → config.persistentStorage = true)
    (hguard : Guarded (Process.step hash) (fun x e => ¬ x.Retries e ∧ ¬ x.Overflows e) x es) :
    let prepares := (run (Process.step hash) x es).prepares
    (prepares.map Prepare.ballot).Pairwise (· < ·) ∧ ∀ pr ∈ prepares, pr.ballot < 2 ^ 64 := by
  have hrun : ∀ es, (∀ env isLeader k, .restart env isLeader k ∈ es → config.persistentStorage = true) →
      Guarded (Process.step hash) (fun x e => ¬ x.Retries e ∧ ¬ x.Overflows e) x es →
      Process.Fresh m node config (run (Process.step hash) x es) := by
    intro es
    induction es using List.reverseRecOn with
    | nil =>
        intro _ _
        obtain ⟨n, hnew, rfl⟩ := Option.map_eq_some_iff.mp hstart
        refine .of_new hnode hrole hnew (fun c hprepares hdir hc hdelta hballot => ?_)
        refine ⟨hdelta ▸ hacceptors, ?_, hdir ▸ hsaves, fun hon => ?_, ?_, ?_⟩
        · rw [hballot]
          split
          · exact dirs.proposer.ballot_lt hid hloaded
          · exact hid
        · rw [hballot, if_pos (hc.symm.trans hon), hdir]
        · rw [hprepares]
          exact List.Pairwise.nil
        · rw [hprepares]
          exact fun pr hpr => absurd hpr List.not_mem_nil
    | append_singleton es e ih =>
        intro hrestart hguard
        obtain ⟨hes, hretry, hoverflow⟩ := guarded_snoc.mp hguard
        rw [run_snoc]
        refine (ih (fun env l k h => hrestart env l k (List.mem_append_left _ h)) hes).step hnode hrole
          hash (fun env l k h => ?_) hretry hoverflow
        exact hrestart env l k (by rw [h]; exact List.mem_append_right _ (List.mem_singleton_self _))
  obtain ⟨_, p, hp, _, _, hfresh⟩ := hrun es hrestart hguard
  rw [Process.prepares_eq hp]
  exact ⟨hfresh.growing, fun pr hpr => lt_of_le_of_lt (hfresh.below pr hpr) hfresh.fits⟩

/-! ### Rounds of one node -/

/-- A proposer and three acceptors, and three coordinators. -/
def oneProposer : Membership :=
  { nodes := [⟨1, "", .proposer⟩, ⟨11, "", .acceptor⟩, ⟨12, "", .acceptor⟩, ⟨13, "", .acceptor⟩]
    nodup := by decide
    small := by decide }

def threeCoordinators : Membership :=
  { nodes := [⟨1, "", .coordinator⟩, ⟨2, "", .coordinator⟩, ⟨3, "", .coordinator⟩]
    nodup := by decide
    small := by decide }

/-- A tick once the prepare round has timed out. -/
def timeout : Process.Event := .tick { Env.quiet with now := RunConfig.shipped.prepareTimeout }

/-- The proposer of `oneProposer`, a leader over an empty directory. -/
def leadingProposer : Process :=
  { node :=
      { config := .shipped
        node := ⟨1, "", .proposer⟩
        nodes := oneProposer.others ⟨1, "", .proposer⟩
        agents := .proposer (.new .empty .quiet ⟨1, "", .proposer⟩
          (oneProposer.others ⟨1, "", .proposer⟩) true .shipped) }
    running := true
    past := { proposer := [], acceptor := [], learner := [] } }

/-- Two rounds, a restart, and a third round. -/
def roundsOverRestart : List Process.Event :=
  [.message .quiet ⟨⟨21, "", .learner⟩, .adu 0⟩, .tick .quiet, .tick .quiet, timeout, .tick .quiet,
    .restart .quiet true 0, .message .quiet ⟨⟨21, "", .learner⟩, .adu 0⟩, .tick .quiet, .tick .quiet]

theorem prepares_fresh_over_restart :
    let prepares := (run (Process.step (fun _ => 0)) leadingProposer roundsOverRestart).prepares
    (prepares.map Prepare.ballot).Pairwise (· < ·) ∧ ∀ pr ∈ prepares, pr.ballot < 2 ^ 64 :=
  prepares_fresh (fun _ => 0) .empty .quiet oneProposer ⟨1, "", .proposer⟩ true .shipped leadingProposer
    roundsOverRestart (by decide) (Or.inl rfl) (by decide) (by decide) nofun rfl rfl (fun _ _ _ _ => rfl)
    (by decide)

/-- **A coordinator retries**: its prepare round for ballot 4 times out, and the next round is for
ballot 4 again. -/
theorem ballot_prepared_twice :
    ∃ x, Process.start (fun _ => 0) .empty .quiet threeCoordinators ⟨1, "", .coordinator⟩ false .shipped =
        some x ∧
      ¬ ((run (Process.step (fun _ => 0)) x [.failureService .quiet (some 1), .tick .quiet,
        .tick .quiet, timeout, .tick .quiet]).prepares.map Prepare.ballot).Pairwise (· < ·) :=
  ⟨_, rfl, by decide⟩

end PaxosWasm
