import PaxosWasm.Agents.Outspoken
import PaxosWasm.Cluster.LearnerAgreement
import PaxosWasm.Cluster.Rivals

/-!
# What a majority of coordinators accepts

In a cluster of coordinators each acceptor tells all learners but its own of what it accepts, and the
own learner hears of it only if the node has proposed the value itself. So a learner records what a
majority has accepted once nothing is in flight, if the votes it hears of are a majority.

The learns are followed one by one: an acceptor tells what it accepts, what it has told keeps its place
among the messages of its node, a message that arrives at its place is counted, and what is counted
stays so. In a quiet state every learn has arrived, so that a learner has counted all the votes it hears
of. A follower hears one vote less than there are, its own.
-/

namespace PaxosWasm

open Library

/-! ## A coordinator among the nodes

What a coordinator maintains by itself, it maintains as a node: its messages go to all others, and every
learn that arrives is counted. -/

namespace PaxosCoordinator

variable {K : Facts} {L : Slot → Prop} {h : Heard} {m : Membership} {node : Node}
  {config : RunConfig} {n : PaxosCoordinator} {t : Trio}

theorem SetUp.role_of_coordinator (hs : n.SetUp m node config) (hagents : n.agents = .coordinator t) :
    node.role = .coordinator := by
  have hproposer := hs.proposer_role (by rw [proposer?, hagents]; rfl)
  have hacceptor := hs.acceptor_role (by rw [acceptor?, hagents]; rfl)
  rcases hproposer with hrole | hrole
  · rw [hrole] at hacceptor
    rcases hacceptor with hno | hno <;> cases hno
  · exact hrole

theorem Sound.tuned_upkeep (hs : n.Sound K L h m node config) (hagents : n.agents = .coordinator t)
    (env : Env) : (t.upkeep config env).Tuned config := by
  have hp := hs.proposer t.proposer (by rw [proposer?, hagents])
  obtain ⟨ha, hpromising⟩ := hs.acceptor t.acceptor (by rw [acceptor?, hagents])
  obtain ⟨hl, -⟩ := hs.learner t.learner (by rw [learner?, hagents])
  have hlogged : t.Logged h.accepts h.learns node config m.quorum :=
    ⟨ha.mono (fun _ _ => Or.inl),
      hpromising.mono (fun _ _ hq => hq.imp fun _ hq => hq.imp fun _ => Or.inl),
      hl.mono (fun _ _ => Or.inl)⟩
  exact ⟨Trio.Configured.upkeep t env config ⟨hp.config_eq, ha.config_eq⟩,
    (Trio.logged_upkeep env hlogged hp.config_eq).learner.config_eq⟩

/-- What a coordinator hands to its proposer is not answered. -/
theorem payload_of_toProposer (hrole : n.node.role = .coordinator)
    (hmode : n.config.acceptorsSendLearns = true) {payload : MessagePayload}
    (h : n.toProposer payload = true) :
    (∃ promise, payload = .promise promise) ∨ ∃ accepted, payload = .accepted accepted := by
  cases payload <;> simp_all [toProposer]

/-- **Whatever is called**, a coordinator tells what it accepts. -/
theorem Sound.outspoken_call (hs : n.Sound K L h m node config) (hagents : n.agents = .coordinator t)
    (hev : config.isEventDriven = true) (hmode : config.acceptorsSendLearns = true)
    (hout : t.Outspoken node.nodeId) (e : Process.Event) :
    ∃ t', (Process.call n e).2.agents = .coordinator t' ∧ t'.Outspoken node.nodeId := by
  have hrole := hs.setUp.role_of_coordinator hagents
  have hup := hs.tuned_upkeep hagents
  obtain ⟨config', node', nodes, agents⟩ := n
  obtain rfl : agents = .coordinator t := hagents
  obtain rfl : node' = node := hs.setUp.node_eq
  obtain rfl : config' = config := hs.setUp.config_eq
  have hacceptor : t.acceptor.config = config' := (hs.acceptor t.acceptor rfl).1.config_eq
  cases e with
  | tick env => exact ⟨_, rfl, hout.handleTick env config' node' (hup env) hmode⟩
  | retryLearns env slots => exact ⟨_, rfl, hout.retryLearns env config' hmode slots⟩
  | message env msg =>
      unfold Process.call handleMessage
      dsimp only
      split
      · next hto =>
        refine ⟨_, rfl, hout.withProposer ?_⟩
        -- the proposer answers none of the messages it gets here
        rw [t.proposer.networkClient_handleMessage env msg (payload_of_toProposer hrole hmode hto)]
      · split
        · refine ⟨_, rfl, ⟨hout.announced.handleMessage env ?_ ?_ msg, hout.counted⟩⟩
          · rw [hacceptor, hev]
          · rw [hacceptor, hmode]
        · split
          · exact ⟨_, rfl, hout.withLearner
              (Learner.respects_counts.learnerMessage env t.learner msg)⟩
          · exact ⟨_, rfl, hout⟩
  | failureService env lid =>
      unfold Process.call
      dsimp only
      -- a verdict concerns the proposer alone
      rw [failureService_eq]
      refine ⟨_, rfl, hout.withProposer ?_⟩
      cases lid with
      | none => rfl
      | some leaderId =>
          unfold onProposer
          dsimp only
          split
          · rfl
          · split <;> rfl
  | submitClientRequest req => exact ⟨_, rfl, hout.withProposer rfl⟩
  | sendHeartbeat => exact ⟨_, rfl, hout.withProposer (t.proposer.acceptsOf_send rfl)⟩
  | restart env isLeader k => exact ⟨_, rfl, hout⟩

/-- A learn that arrives at a coordinator is counted as a vote of its sender. -/
theorem Sound.counts_message (hs : n.Sound K L h m node config) (hagents : n.agents = .coordinator t)
    (hmode : config.acceptorsSendLearns = true) (env : Env) {msg : NetworkMessage} {learn : Learn}
    (hmsg : msg.payload = .learn learn) :
    ∃ l, (Process.call n (.message env msg)).2.learner? = some l ∧
      l.learner.Counts learn.slot msg.sender.nodeId := by
  have hconfig := (hs.learner t.learner (by rw [learner?, hagents])).1.config_eq
  obtain ⟨config', node', nodes, agents⟩ := n
  obtain rfl : agents = .coordinator t := hagents
  refine ⟨(t.learner.handleMessage env msg).2, ?_,
    LearnerAgent.counts_handleMessage (by rw [hconfig, hmode]) env hmsg⟩
  unfold Process.call handleMessage
  simp only [hmsg, toProposer, toAcceptor, toLearner, Bool.false_eq_true, if_false, if_true]
  rfl

end PaxosCoordinator

namespace Process

variable {K : Facts} {L : Slot → Prop} {h : Heard} {m : Membership} {node : Node}
  {config : RunConfig} {hash : String → Nat} {x : Process}

/-! ## A process without restarts

Acceptor and learner have the promises and the votes of all that came, as nothing of a process without a
restart is lost. -/

/-- **What a coordinator maintains** without restarts: it tells what it accepts, it tells it to all
other coordinators, and its learner overlooks no quorum. -/
structure Tells (m : Membership) (node : Node) (x : Process) : Prop where
  outspoken : ∃ t, x.node.agents = .coordinator t ∧ t.Outspoken node.nodeId
  learners : ∀ a, x.node.acceptor? = some a → a.learners = learnerNodes (m.others node)
  decided : ∀ l, x.node.learner? = some l → l.learner.Decided

theorem pieces_learners :
    AcceptorAgent.Pieces (fun a a' => a'.learners = a.learners) where
  refl _ := rfl
  trans h h' := h'.trans h
  send _ _ _ := rfl
  prepare _ _ _ _ := rfl
  accept _ _ _ _ _ := rfl
  flush _ _ := rfl

theorem Tells.step (htells : x.Tells m node) (hs : x.Sound K L h m node config)
    (hev : config.isEventDriven = true) (hmode : config.acceptorsSendLearns = true) {e : Event}
    (hrestart : ∀ env isLeader k, e ≠ .restart env isLeader k) : (step hash x e).Tells m node := by
  rcases step_cases hash x e with ⟨env, isLeader, k, n, rfl, -⟩ | ⟨-, -, he⟩ | he
  · exact absurd rfl (hrestart env isLeader k)
  · rw [he]
    obtain ⟨t, hagents, hout⟩ := htells.outspoken
    have ha : x.node.acceptor? = some t.acceptor := by rw [PaxosCoordinator.acceptor?, hagents]
    have hl : x.node.learner? = some t.learner := by rw [PaxosCoordinator.learner?, hagents]
    refine ⟨hs.now.outspoken_call hagents hev hmode hout e, fun a' ha' => ?_, fun l' hl' => ?_⟩
    · obtain ⟨a'', ha'', hsame⟩ := x.node.respects_call pieces_learners e ha
      obtain rfl := Option.some.inj (ha''.symm.trans ha')
      exact hsame.trans (htells.learners t.acceptor ha)
    · obtain ⟨l'', hl'', hkeeps⟩ := Learner.respects_decided.call x.node e hl
      obtain rfl := Option.some.inj (hl''.symm.trans hl')
      exact hkeeps (htells.decided t.learner hl)
  · rw [he]
    exact htells

theorem tells_start {dirs : PaxosCoordinator.Dirs} {env : Env} {isLeader : Bool}
    (hnode : node ∈ m.nodes) (hrole : node.role = .coordinator)
    (hmemory : config.persistentStorage = false)
    (hstart : start hash dirs env m node isLeader config = some x) : x.Tells m node := by
  obtain ⟨n, hn, rfl⟩ := Option.map_eq_some_iff.mp hstart
  obtain ⟨agents, hagents, rfl⟩ := Option.map_eq_some_iff.mp hn
  unfold PaxosCoordinator.newAgents at hagents
  rw [hrole] at hagents
  obtain rfl := Option.some.inj hagents
  refine ⟨⟨_, rfl, ⟨fun slot v hholds => ?_, fun acc hacc => absurd hacc List.not_mem_nil⟩⟩,
    fun a ha => ?_, fun l hl => ?_⟩
  · -- nothing is loaded without storage
    exfalso
    obtain ⟨pv, hpv, -⟩ := hholds
    have hempty : (AcceptorAgent.new hash dirs.acceptor env node (m.others node)
        config).acceptor.accepted = ∅ := by
      show (Acceptor.loadState _).2.accepted = ∅
      unfold Acceptor.loadState Acceptor.StorageHelper.loadAndCombineState
      rw [show (Acceptor.new hash dirs.acceptor env (toString node.nodeId) config).storage.enabled =
        false from hmemory]
      rfl
    rw [hempty] at hpv
    cases hpv
  · obtain rfl := Option.some.inj ha
    rfl
  · obtain rfl := Option.some.inj hl
    refine LearnerAgent.decided_new env hash dirs.learner node (m.others node) hmemory ?_
    rw [Membership.quorum_newLearner hnode (by rw [hrole]; nofun)]
    exact Nat.succ_pos _

variable (hash) in
/-- What the acceptor of a process has sent keeps its place in the log. -/
theorem acceptorSent_prefix_step (x : Process) (e : Event) :
    x.sent.acceptor <+: (step hash x e).sent.acceptor := by
  rcases step_cases hash x e with ⟨env, isLeader, k, n, -, -, he⟩ | ⟨-, -, he⟩ | he
  · rw [he]
    exact List.prefix_append ..
  · rw [he]
    refine (List.prefix_append_right_inj _).mpr ?_
    unfold PaxosCoordinator.logs
    cases ha : x.node.acceptor? with
    | none => exact List.nil_prefix
    | some a =>
        obtain ⟨a', ha', hprefix⟩ := x.node.acceptorSent_prefix_call e ha
        rw [ha']
        exact hprefix
  · rw [he]

/-- Without a restart, a process that runs has run before. -/
theorem running_of_step {e : Event} (hrestart : ∀ env isLeader k, e ≠ .restart env isLeader k)
    (h : (step hash x e).running = true) : x.running = true := by
  rcases step_cases hash x e with ⟨env, isLeader, k, n, rfl, -⟩ | ⟨-, hrun, -⟩ | he
  · exact absurd rfl (hrestart env isLeader k)
  · exact hrun
  · rwa [he] at h

/-- Without a restart, what the learner has counted it keeps. -/
theorem counts_step {e : Event} (hrestart : ∀ env isLeader k, e ≠ .restart env isLeader k)
    {l : LearnerAgent} (hl : x.node.learner? = some l) {slot : Slot} {i : NodeId}
    (hcounts : l.learner.Counts slot i) :
    ∃ l', (step hash x e).node.learner? = some l' ∧ l'.learner.Counts slot i := by
  rcases step_cases hash x e with ⟨env, isLeader, k, n, rfl, -⟩ | ⟨-, -, he⟩ | he
  · exact absurd rfl (hrestart env isLeader k)
  · rw [he]
    obtain ⟨l', hl', hkeeps⟩ := Learner.respects_counts.call x.node e hl
    exact ⟨l', hl', hkeeps slot i hcounts⟩
  · rw [he]
    exact ⟨l, hl, hcounts⟩

end Process

namespace Cluster

/-! ## What is accepted, heard of and in flight

The terms of the theorem: all about a state of the cluster and the messages that have arrived, and nothing
about how the learners count. -/

/-- The value the acceptor on the node `i` holds for `slot`. -/
def accepted? (c : Cluster) (i : NodeId) (slot : Slot) : Option Value :=
  (c.get? i).bind (fun x => x.node.acceptor?.bind (fun a =>
    (a.acceptor.accepted.get? slot).bind PValue.value))

/-- The proposer on the node `i` has broadcast `v` for `slot`. -/
def Proposed (c : Cluster) (i : NodeId) (slot : Slot) (v : Value) : Prop :=
  ∃ x ∈ c.get? i, ∃ acc ∈ acceptsOf x.sent.proposer, acc.slot = slot ∧ acc.value = v

/-- The node `j` still runs, and is none of those that are stopped from the start. -/
def Up (down : List NodeId) (c : Cluster) (j : NodeId) : Prop :=
  j ∉ down ∧ ∃ x ∈ c.get? j, x.running = true

/-- The message with the number `k` of an agent of a node has arrived at another. -/
abbrev Arrival := NodeId × Outlet × Nat × NodeId

def arrives (c : Cluster) : Event → List Arrival
  | .call _ _ => []
  | .deliver i outlet k j _ => if (c.message? i outlet k j).isSome then [(i, outlet, k, j)] else []

/-- The messages that arrive in a run. -/
def arrivals (launch : Launch) (m : Membership) (es : List Event) : List Arrival :=
  collect (step launch.hash) arrives (start launch m) es

/-- No message to a node that is up is in flight. -/
def Quiet (down : List NodeId) (arrived : List Arrival) (c : Cluster) : Prop :=
  ∀ p ∈ c.entries, ∀ outlet ∈ [Outlet.proposer, .acceptor, .learner],
    ∀ s ∈ (outlet.log p.2.sent).zipIdx, ∀ j ∈ s.1.targets.map Node.nodeId,
      c.Up down j → (p.1, outlet, s.2, j) ∈ arrived

/-- The learner on the node `j` hears that the acceptor on `i` holds `v`: from its own acceptor only
if the node has proposed the value. -/
def HearsOf (c : Cluster) (j : NodeId) (slot : Slot) (i : NodeId) (v : Value) : Prop :=
  c.accepted? i slot = some v ∧ (i = j → c.Proposed j slot v)

/-- Every slot with a value an acceptor of the cluster holds for it. -/
def held (c : Cluster) : List (Slot × Value) :=
  c.values.flatMap (fun x => x.node.acceptor?.elim [] (fun a =>
    a.acceptor.accepted.entries.filterMap (fun e => e.2.value.map (fun v => (e.1, v)))))

/-- What a majority of the acceptors holds, each learner that is up hears of from a majority. -/
def HearsMajority (m : Membership) (down : List NodeId) (c : Cluster) : Prop :=
  ∀ p ∈ c.held, Chosen m.acceptorIds (fun i v => c.accepted? i p.1 = some v) p.2 →
    ∀ j ∈ c.keys, c.Up down j → Chosen m.acceptorIds (c.HearsOf j p.1) p.2

/-- **What a majority of the acceptors holds, every learner that is up has recorded.** -/
def LearnsMajority (m : Membership) (down : List NodeId) (c : Cluster) : Prop :=
  ∀ slot v, Chosen m.acceptorIds (fun i v => c.accepted? i slot = some v) v →
    ∀ j, c.Up down j → c.learned? j slot = some v

instance (c : Cluster) (i : NodeId) (slot : Slot) (v : Value) : Decidable (c.Proposed i slot v) :=
  inferInstanceAs (Decidable (∃ x ∈ c.get? i, _))

instance (down : List NodeId) (c : Cluster) (j : NodeId) : Decidable (c.Up down j) :=
  inferInstanceAs (Decidable (_ ∧ ∃ x ∈ c.get? j, _))

instance (down : List NodeId) (arrived : List Arrival) : DecidablePred (Quiet down arrived) :=
  fun c => inferInstanceAs (Decidable (∀ p ∈ c.entries, _))

instance (c : Cluster) (j : NodeId) (slot : Slot) (i : NodeId) (v : Value) :
    Decidable (c.HearsOf j slot i v) :=
  inferInstanceAs (Decidable (_ ∧ _))

instance (m : Membership) (down : List NodeId) : DecidablePred (HearsMajority m down) :=
  fun c => inferInstanceAs (Decidable (∀ p ∈ c.held, _))

variable {K : Facts} {L : NodeId → Slot → Prop} {m : Membership} {config : RunConfig} {hash : String → Nat}
  {c : Cluster} {down : List NodeId}

theorem accepted?_eq_some {i : NodeId} {slot : Slot} {v : Value} : c.accepted? i slot = some v ↔
    ∃ x a, c.get? i = some x ∧ x.node.acceptor? = some a ∧ a.acceptor.Holds slot v := by
  simp [accepted?, Option.bind_eq_some_iff, Acceptor.Holds]

theorem mem_held {slot : Slot} {v : Value} {i : NodeId} (h : c.accepted? i slot = some v) :
    (slot, v) ∈ c.held := by
  obtain ⟨x, a, hx, ha, pv, hpv, hv⟩ := accepted?_eq_some.mp h
  refine List.mem_flatMap.mpr ⟨x, OrdMap.mem_values.mpr ⟨i, hx⟩, ?_⟩
  rw [ha]
  exact List.mem_filterMap.mpr ⟨(slot, pv), OrdMap.mem_entries.mp hpv, by rw [hv]; rfl⟩

theorem HearsMajority.chosen (h : c.HearsMajority m down) {slot : Slot} {v : Value}
    (hv : Chosen m.acceptorIds (fun i v => c.accepted? i slot = some v) v) {j : NodeId}
    (hup : c.Up down j) : Chosen m.acceptorIds (c.HearsOf j slot) v := by
  obtain ⟨x, hx, -⟩ := hup.2
  obtain ⟨S, hmajority, hvotes⟩ := hv
  obtain ⟨i, hi, -⟩ := hmajority.exists_common hmajority
  exact h (slot, v) (mem_held (hvotes i hi)) ⟨S, hmajority, hvotes⟩ j
    (OrdMap.mem_keys.mpr ⟨x, hx⟩) hup

theorem Quiet.arrived {arrived : List Arrival} (h : c.Quiet down arrived) {i j : NodeId}
    {x : Process} {outlet : Outlet} {k : Nat} {s : Sent} (hx : c.get? i = some x)
    (hs : (outlet.log x.sent)[k]? = some s) (hj : j ∈ s.targets.map Node.nodeId)
    (hup : c.Up down j) : (i, outlet, k, j) ∈ arrived := by
  refine h (i, x) (OrdMap.mem_entries.mp hx) outlet (by cases outlet <;> simp) (s, k) ?_ j hj hup
  exact List.mem_zipIdx_iff_getElem?.mpr hs

/-! ## Runs

A vote for a slot is told, arrives because nothing is in flight any more, and is counted, each of which a
run keeps once it has happened. -/

theorem Serves.no_restart {e : Event} {j : NodeId} {e' : Process.Event} (h : Serves c e j e')
    (he : e.isRestart = false) : ∀ env isLeader k, e' ≠ .restart env isLeader k := by
  rintro env isLeader k rfl
  cases h with
  | call _ => cases he

/-- Every coordinator tells what it accepts. -/
theorem tells_run {launch : Launch} (hroles : ∀ node ∈ m.nodes, node.role = .coordinator)
    (hev : launch.config.isEventDriven = true) (hmode : launch.config.acceptorsSendLearns = true)
    (hmemory : launch.config.persistentStorage = false) (hfresh : ∀ i, (launch.dirs i).Fresh)
    (es : List Event) (hrestart : NoRestarts es) :
    All m (fun node x => x.Tells m node) (run (step launch.hash) (start launch m) es) := by
  induction es using List.reverseRecOn with
  | nil =>
      exact all_start (fun node hnode x hx =>
        Process.tells_start hnode (hroles node hnode) hmemory hx)
  | append_singleton es e ih =>
      rw [run_snoc]
      have hsound := sound_run (m := m) hfresh es
      have hno := hrestart e (List.mem_append_right _ (List.mem_singleton_self e))
      refine (ih (fun e' he' => hrestart e' (List.mem_append_left _ he'))).step e ?_
      intro node hnode x e' hx hserves htells
      obtain ⟨node', hnode', hid, hs⟩ := hsound node.nodeId x hx
      obtain rfl := List.inj_on_of_nodup_map m.nodup hnode' hnode hid
      exact htells.step hs hev hmode (hserves.no_restart hno)

/-! ### A learn of the acceptor `i`

What the acceptor on the node `i` sends is looked at by its place among the messages of the node. A place
stays the same in the rest of the run, and a message at it that arrives is counted. -/

/-- The `k`-th message of the acceptor on the node `i`, if it is a learn, is counted by the learner on
`j` while that node runs. -/
def Counted (c : Cluster) (i : NodeId) (k : Nat) (j : NodeId) : Prop :=
  ∃ x s, c.get? i = some x ∧ x.sent.acceptor[k]? = some s ∧
    ∀ learn, s.message.payload = .learn learn → ∀ y, c.get? j = some y → y.running = true →
      ∃ l, y.node.learner? = some l ∧ l.learner.Counts learn.slot i

variable (hash) in
/-- Whichever node takes an event, what the acceptor on `i` has sent keeps its number. -/
theorem acceptorSent_insert {i j : NodeId} {x y : Process} {k : Nat} {s : Sent}
    (hx : c.get? i = some x) (hs : x.sent.acceptor[k]? = some s) (hy : c.get? j = some y)
    (e : Process.Event) :
    ∃ x', OrdMap.get? (OrdMap.insert c j (y.step hash e)) i = some x' ∧
      x'.sent.acceptor[k]? = some s := by
  rw [OrdMap.get?_insert]
  split
  · next hi =>
    subst hi
    obtain rfl := Option.some.inj (hx.symm.trans hy)
    obtain ⟨new, hnew⟩ := x.acceptorSent_prefix_step hash e
    refine ⟨_, rfl, ?_⟩
    rw [← hnew, List.getElem?_append_left (List.getElem?_eq_some_iff.mp hs).1]
    exact hs
  · exact ⟨x, hx, hs⟩

theorem Counted.step {i j : NodeId} {k : Nat} (h : c.Counted i k j) {e : Event}
    (he : e.isRestart = false) : (step hash c e).Counted i k j := by
  obtain ⟨x, s, hx, hs, hcounted⟩ := h
  rcases step_cases hash c e with hstep | ⟨j', y', e', hy', hserves, hstep⟩
  · rw [hstep]
    exact ⟨x, s, hx, hs, hcounted⟩
  · have hno := hserves.no_restart he
    rw [hstep]
    obtain ⟨x', hx', hs'⟩ := acceptorSent_insert hash hx hs hy' e'
    refine ⟨x', s, hx', hs', fun learn hlearn y hy hrun => ?_⟩
    rw [OrdMap.get?_insert] at hy
    split at hy
    · next hj =>
      subst hj
      obtain rfl := Option.some.inj hy
      obtain ⟨l, hl, hcounts⟩ := hcounted learn hlearn y' hy' (Process.running_of_step hno hrun)
      exact Process.counts_step hno hl hcounts
    · exact hcounted learn hlearn y hy hrun

/-- A learn that arrives is counted. -/
theorem counted_deliver (hsound : c.Sound K L m config) (htells : c.All m (fun node x => x.Tells m node))
    (hmode : config.acceptorsSendLearns = true) {i j : NodeId} {k : Nat} (env : Env)
    (h : (c.message? i .acceptor k j).isSome) :
    (step hash c (.deliver i .acceptor k j env)).Counted i k j := by
  obtain ⟨msg, hmsg⟩ := Option.isSome_iff_exists.mp h
  obtain ⟨x, s, hx, hs, -, rfl⟩ := message?_eq_some hmsg
  have hstep : step hash c (.deliver i .acceptor k j env) = c.update hash j (.message env s.message) := by
    simp only [step, hmsg]
  have hsender : s.message.sender.nodeId = i := by
    obtain ⟨node, -, rfl, hnode⟩ := hsound i x hx
    rw [(hnode.sent.acceptor s (List.mem_of_getElem? hs)).1]
  rw [hstep, update]
  cases hy : c.get? j with
  | none => exact ⟨x, s, hx, hs, fun _ _ y hy' => by cases hy.symm.trans hy'⟩
  | some y =>
      dsimp only
      obtain ⟨x', hx', hs'⟩ := acceptorSent_insert hash hx hs hy (.message env s.message)
      refine ⟨x', s, hx', hs', fun learn hlearn z hz hrun => ?_⟩
      rw [OrdMap.get?_insert_self] at hz
      obtain rfl := Option.some.inj hz
      have hbefore := Process.running_of_step (fun _ _ _ h => by cases h) hrun
      obtain ⟨node, -, -, hnode⟩ := hsound j y hy
      obtain ⟨node', -, -, ⟨t, hagents, -⟩, -, -⟩ := htells j y hy
      obtain ⟨l, hl, hcounts⟩ := hnode.now.counts_message hagents hmode env hlearn
      rw [hsender] at hcounts
      refine ⟨l, ?_, hcounts⟩
      show (Process.step hash y (.message env s.message)).node.learner? = some l
      simp only [Process.step, hbefore, if_true]
      exact hl

/-- What has arrived is counted. -/
theorem counted_run {launch : Launch} (hroles : ∀ node ∈ m.nodes, node.role = .coordinator)
    (hev : launch.config.isEventDriven = true) (hmode : launch.config.acceptorsSendLearns = true)
    (hmemory : launch.config.persistentStorage = false) (hfresh : ∀ i, (launch.dirs i).Fresh)
    (es : List Event) (hrestart : NoRestarts es) {i j : NodeId} {k : Nat}
    (harrived : (i, .acceptor, k, j) ∈ arrivals launch m es) :
    (run (step launch.hash) (start launch m) es).Counted i k j := by
  induction es using List.reverseRecOn with
  | nil => exact absurd harrived List.not_mem_nil
  | append_singleton es e ih =>
      have hrestart' : NoRestarts es := fun e' he' => hrestart e' (List.mem_append_left _ he')
      rw [arrivals, collect_snoc] at harrived
      rw [run_snoc]
      rcases List.mem_append.mp harrived with hold | hnew
      · exact (ih hrestart' hold).step
          (hrestart e (List.mem_append_right _ (List.mem_singleton_self e)))
      · cases e with
        | call i' e' => exact absurd hnew List.not_mem_nil
        | deliver i' outlet k' j' env =>
            simp only [arrives] at hnew
            split at hnew
            · next hsome =>
              cases List.mem_singleton.mp hnew
              exact counted_deliver (sound_run hfresh es)
                (tells_run hroles hev hmode hmemory hfresh es hrestart') hmode env hsome
            · exact absurd hnew List.not_mem_nil

/-- An acceptor that holds a value has told nothing else, if it keeps its no-ops. -/
theorem Sound.told_held (hs : c.Sound K L m config) (hunheard : c.All m (fun _ => Process.Unheard))
    (hmemory : config.persistentStorage = false) (hkeeps : c.KeepsNoOps) {i : NodeId} {slot : Slot}
    {v w : Value} (htold : c.heard.learns { slot, value := w } i)
    (hheld : c.accepted? i slot = some v) : w = v := by
  obtain ⟨-, x, a, hx, ha, hsaid, hholds⟩ := hs.teller hunheard hmemory htold
  obtain ⟨x', a', hx', ha', hholds'⟩ := accepted?_eq_some.mp hheld
  obtain rfl := Option.some.inj (hx.symm.trans hx')
  obtain rfl := Option.some.inj (ha.symm.trans ha')
  rcases hholds with rfl | hholds
  · exact (hkeeps.eq_noOp hx ha hsaid hholds').symm
  · exact hholds.unique hholds'

section Quiet

variable {launch : Launch} {es : List Event}

/-- **Every vote a learner hears of is counted** once nothing is in flight. -/
theorem counts_of_hearsOf (hroles : ∀ node ∈ m.nodes, node.role = .coordinator)
    (hev : launch.config.isEventDriven = true) (hmode : launch.config.acceptorsSendLearns = true)
    (hmemory : launch.config.persistentStorage = false) (hfresh : ∀ i, (launch.dirs i).Fresh)
    (hrestart : NoRestarts es) (hc : c = run (step launch.hash) (start launch m) es)
    (hquiet : c.Quiet down (arrivals launch m es)) {j : NodeId} (hup : c.Up down j) {y : Process}
    (hy : c.get? j = some y) {l : LearnerAgent} (hl : y.node.learner? = some l) {slot : Slot}
    {i : NodeId} {v : Value} (hhears : c.HearsOf j slot i v) : l.learner.Counts slot i := by
  have htells := tells_run (m := m) hroles hev hmode hmemory hfresh es hrestart
  have hunheard := unheard_run (m := m) hmode hrestart
  rw [← hc] at htells hunheard
  obtain ⟨hheld, hproposed⟩ := hhears
  obtain ⟨x, a, hx, ha, hholds⟩ := accepted?_eq_some.mp hheld
  obtain ⟨node, -, rfl, ⟨t, hagents, hout⟩, hlearners, -⟩ := htells i x hx
  obtain ⟨-, -, -, -, hpast, -⟩ := hunheard node.nodeId x hx
  by_cases hij : node.nodeId = j
  · -- the node's own vote, counted when it proposed the value
    subst hij
    obtain rfl := Option.some.inj (hx.symm.trans hy)
    obtain ⟨x', hx', acc, hacc, rfl, -⟩ := hproposed rfl
    obtain rfl := Option.some.inj (hx.symm.trans hx')
    obtain rfl : t.learner = l := by
      rw [PaxosCoordinator.learner?, hagents] at hl
      exact Option.some.inj hl
    refine hout.counted acc ?_
    rw [Process.sent, hpast, PaxosCoordinator.logs, PaxosCoordinator.proposer?, hagents] at hacc
    exact hacc
  · -- the learn of another node, which has arrived
    obtain rfl : t.acceptor = a := by
      rw [PaxosCoordinator.acceptor?, hagents] at ha
      exact Option.some.inj ha
    obtain ⟨s, hs, htargets, hpayload⟩ := hout.announced slot v hholds
    have hlog : x.sent.acceptor = t.acceptor.networkClient.sent := by
      rw [Process.sent, hpast, PaxosCoordinator.logs, ha]
      rfl
    rw [← hlog] at hs
    -- its place among the messages of the acceptor
    obtain ⟨k, hk⟩ := List.mem_iff_getElem?.mp hs
    obtain ⟨node', hnode', rfl, -⟩ := htells j y hy
    -- the learner is one of the targets
    have hj : node'.nodeId ∈ s.targets.map Node.nodeId := by
      rw [htargets, hlearners t.acceptor ha]
      refine List.mem_map_of_mem (List.mem_filter.mpr ⟨List.mem_filter.mpr ⟨hnode', ?_⟩, ?_⟩)
      · exact decide_eq_true (fun hid => hij hid.symm)
      · exact decide_eq_true (Or.inr (hroles node' hnode'))
    -- in a quiet state it has arrived, and has been counted
    have hcounted := counted_run hroles hev hmode hmemory hfresh es hrestart
      (hquiet.arrived hx hk hj hup)
    rw [← hc] at hcounted
    obtain ⟨x', s', hx', hs', hcounts⟩ := hcounted
    obtain rfl := Option.some.inj (hx.symm.trans hx')
    obtain rfl := Option.some.inj (hk.symm.trans hs')
    obtain ⟨-, y', hy', hrun⟩ := hup
    obtain rfl := Option.some.inj (hy.symm.trans hy')
    obtain ⟨l', hl', hdone⟩ := hcounts _ hpayload y hy hrun
    obtain rfl := Option.some.inj (hl.symm.trans hl')
    exact hdone

end Quiet

/-! ### Majorities

A majority of acceptors has told every learner, every learner counts each of them, and a majority is a
quorum. -/

/-- **Coordinators learn what a majority accepts**: in every run without restarts and in every state
of it in which nothing is in flight to a running node, if each learner hears of it from a majority and
no acceptor holds another value for a slot it has called a no-op. -/
theorem coordinators_learn (launch : Launch) (m : Membership)
    (hroles : ∀ node ∈ m.nodes, node.role = .coordinator)
    (hev : launch.config.isEventDriven = true) (hmode : launch.config.acceptorsSendLearns = true)
    (hmemory : launch.config.persistentStorage = false) (hfresh : ∀ i, (launch.dirs i).Fresh)
    (down : List NodeId) (es : List Event) (hrestart : NoRestarts es)
    (hquiet : Quiet down (arrivals launch m es) (run (step launch.hash) (start launch m) es))
    (hkeeps : KeepsNoOps (run (step launch.hash) (start launch m) es))
    (hhears : HearsMajority m down (run (step launch.hash) (start launch m) es)) :
    LearnsMajority m down (run (step launch.hash) (start launch m) es) := by
  intro slot v hv j hup
  have hheard := hhears.chosen hv hup
  have hsound := sound_run (m := m) hfresh es
  have hunheard := (unheard_run (m := m) hmode hrestart).mono (fun _ _ hx => hx.2)
  have htells := tells_run (m := m) hroles hev hmode hmemory hfresh es hrestart
  generalize hc : run (step launch.hash) (start launch m) es = c at *
  obtain ⟨y, hy, -⟩ := hup.2
  obtain ⟨node, -, rfl, ⟨t, hagents, -⟩, -, hdecided⟩ := htells j y hy
  obtain ⟨_, _, _, hnode⟩ := hsound node.nodeId y hy
  have hl : y.node.learner? = some t.learner := by rw [PaxosCoordinator.learner?, hagents]
  obtain ⟨hlearner, -⟩ := hnode.now.learner t.learner hl
  have hlearned : c.learned? node.nodeId slot = t.learner.learner.learned.get? slot := by
    rw [learned?, hy, Option.bind_some, hl, Option.bind_some]
  -- the votes it has counted are for the value
  have hvotes : ∃ w, t.learner.learner.learned.get? slot = some w := by
    by_contra hnone
    obtain ⟨S, ⟨hsub, hmajority⟩, hS⟩ := hheard
    have hcounts : ∀ i ∈ S, t.learner.learner.Counts slot i := fun i hi =>
      counts_of_hearsOf hroles hev hmode hmemory hfresh hrestart hc.symm hquiet hup hy hl (hS i hi)
    obtain ⟨i, hi⟩ : S.Nonempty := Finset.card_pos.mp (by omega)
    obtain ⟨group, hgroup, -⟩ := hcounts i hi
    have hunlearned : t.learner.learner.learned.get? slot = none :=
      Option.eq_none_iff_forall_ne_some.mpr (fun w hw => hnone ⟨w, hw⟩)
    refine (hdecided t.learner hl).overlooks slot group v hunlearned hgroup ⟨S, ?_, fun i hi => ?_⟩
    · rw [hlearner.quorum_eq, Membership.quorum]
      omega
    · obtain ⟨group', hgroup', learn, hlearn⟩ := hcounts i hi
      obtain rfl := Option.some.inj (hgroup.symm.trans hgroup')
      obtain ⟨rfl, htold⟩ := hlearner.votes _ group hgroup i learn hlearn
      exact ⟨learn, hlearn, hsound.told_held hunheard hmemory hkeeps htold (hS i hi).1⟩
  -- and what it has learned, an acceptor has told it that holds the value
  obtain ⟨w, hw⟩ := hvotes
  rw [hlearned, hw]
  rw [← hlearned] at hw
  obtain ⟨S, hmajority, hS⟩ := hsound.learned_chosen hunheard hmemory hmode hw
  obtain ⟨T, hmajority', hT⟩ := hv
  obtain ⟨i, hiS, hiT⟩ := hmajority.exists_common hmajority'
  rw [hsound.told_held hunheard hmemory hkeeps (hS i hiS) (hT i hiT)]

/-- Node 1 leads, and node 2 accepts what it proposes; node 3 is stopped. -/
def majorityAccepts : List Event :=
  [tick 1, tick 1, passes 1 .proposer 0 2, passes 2 .acceptor 0 1,
    .call 1 (.submitClientRequest (setX "a")), tick 1, passes 1 .proposer 1 2,
    passes 1 .acceptor 0 2, passes 2 .acceptor 1 1]

/-- All three nodes accept what node 1 proposes. -/
def allAccept : List Event :=
  [tick 1, tick 1, passes 1 .proposer 0 2, passes 1 .proposer 0 3, passes 2 .acceptor 0 1,
    passes 3 .acceptor 0 1, .call 1 (.submitClientRequest (setX "a")), tick 1,
    passes 1 .proposer 1 2, passes 1 .proposer 1 3, passes 1 .acceptor 0 2, passes 1 .acceptor 0 3,
    passes 2 .acceptor 1 1, passes 2 .acceptor 1 3, passes 3 .acceptor 1 1, passes 3 .acceptor 1 2]

theorem coordinators_learn_all :
    LearnsMajority threeCoordinators []
      (run (step (Launch.led .inMemory).hash) (start (.led .inMemory) threeCoordinators) allAccept) :=
  coordinators_learn (.led .inMemory) threeCoordinators (by decide) rfl rfl rfl
    (Launch.fresh_idle .inMemory) [] allAccept (by decide) (by decide) (by decide) (by decide)

/-- **A follower misses its own vote**: nodes 1 and 2 hold the value and all they have sent each other
has arrived, but node 2 has counted the vote of node 1 only. -/
theorem follower_misses_own_vote :
    NoRestarts majorityAccepts ∧
      Quiet [3] (arrivals (.led .inMemory) threeCoordinators majorityAccepts)
        (run (step (fun _ => 0)) (start (.led .inMemory) threeCoordinators) majorityAccepts) ∧
      ¬ LearnsMajority threeCoordinators [3]
        (run (step (fun _ => 0)) (start (.led .inMemory) threeCoordinators) majorityAccepts) := by
  refine ⟨by decide, by decide, fun hlearns => ?_⟩
  have hv := hlearns 1 (setX "a") (by decide) 2 (by decide)
  exact absurd hv (by decide)

end Cluster

end PaxosWasm
