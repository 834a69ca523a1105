import PaxosWasm.Cluster.Interleaving

/-!
# Validity

The nodes of a cluster hear only of each other. So a fact about values or cursors that every client
request and every learner vouches for holds of everything the nodes keep and of every message in
flight: values are those clients have submitted, or a no-op.
-/

namespace PaxosWasm

open Library

/-! ## What has been sent stays sent

A message may be delivered at any later time, also after a restart of its sender. -/

namespace Process

variable {m : Membership} {node : Node} {config : RunConfig} {hash : String → Nat} {x : Process}

/-- What the proposer and the acceptor of a node have asked and told, they have asked and told after
any call. -/
theorem logs_call (n : PaxosCoordinator) (hs : n.SetUp m node config) (e : Event) :
    acceptsOf n.logs.proposer ⊆ acceptsOf (call n e).2.logs.proposer ∧
      learnsOf n.logs.proposer ⊆ learnsOf (call n e).2.logs.proposer ∧
      n.logs.acceptor ⊆ (call n e).2.logs.acceptor := by
  refine ⟨?_, ?_, ?_⟩
  · cases hp : n.proposer? with
    | none => simp [PaxosCoordinator.logs, hp, acceptsOf]
    | some p =>
        obtain ⟨p', pending, hp', hsteps, _⟩ :=
          PaxosCoordinator.steps_call hp (hs.allows_any hp e)
        simp only [PaxosCoordinator.logs, hp, hp', Option.elim]
        exact hsteps.accepts_subset
  · cases hp : n.proposer? with
    | none => simp [PaxosCoordinator.logs, hp, learnsOf]
    | some p =>
        obtain ⟨p', pending, hp', hsteps, _⟩ :=
          PaxosCoordinator.steps_call hp (hs.allows_any hp e)
        simp only [PaxosCoordinator.logs, hp, hp', Option.elim]
        exact hsteps.learns_subset
  · cases ha : n.acceptor? with
    | none => simp [PaxosCoordinator.logs, ha]
    | some a =>
        obtain ⟨a', ha', hprefix⟩ := n.acceptorSent_prefix_call e ha
        simp only [PaxosCoordinator.logs, ha, ha', Option.elim]
        exact hprefix.subset

variable (hash) in
theorem sent_step (hs : x.node.SetUp m node config) (e : Event) :
    acceptsOf x.sent.proposer ⊆ acceptsOf (step hash x e).sent.proposer ∧
      learnsOf x.sent.proposer ⊆ learnsOf (step hash x e).sent.proposer ∧
      x.sent.acceptor ⊆ (step hash x e).sent.acceptor := by
  rcases step_cases hash x e with ⟨env, isLeader, k, n, rfl, hnew, he⟩ | ⟨_, hrun, he⟩ | he
  · rw [he]
    refine ⟨?_, ?_, List.subset_append_left ..⟩
    · simp only [sent, acceptsOf, List.filterMap_append]
      exact List.subset_append_left ..
    · simp only [sent, learnsOf, List.filterMap_append]
      exact List.subset_append_left ..
  · rw [he]
    obtain ⟨haccepts, hlearns, hacceptor⟩ := logs_call x.node hs e
    simp only [sent, acceptsOf, learnsOf, List.filterMap_append] at haccepts hlearns ⊢
    exact ⟨List.append_subset.mpr ⟨List.subset_append_left .., List.subset_append_of_subset_right _ haccepts⟩,
      List.append_subset.mpr ⟨List.subset_append_left .., List.subset_append_of_subset_right _ hlearns⟩,
      List.append_subset.mpr ⟨List.subset_append_left .., List.subset_append_of_subset_right _ hacceptor⟩⟩
  · rw [he]
    exact ⟨List.Subset.refl _, List.Subset.refl _, List.Subset.refl _⟩

end Process

namespace Cluster

/-! ## A sound cluster -/

/-- What the nodes of the cluster have asked and told. -/
def heard (c : Cluster) : Heard where
  accepts := fun acc i => ∃ x, c.get? i = some x ∧ acc ∈ acceptsOf x.sent.proposer
  learns := fun l i => ∃ x, c.get? i = some x ∧
    (l ∈ learnsOf x.sent.proposer ∨ l ∈ learnsOf x.sent.acceptor)

/-- **What the nodes of a cluster maintain**, given what they have asked and told each other; the
learner of the node `i` learns slots of `L i`. -/
def Sound (K : Facts) (L : NodeId → Slot → Prop) (m : Membership) (config : RunConfig) (c : Cluster) :
    Prop :=
  c.All m (fun node x => x.Sound K (L node.nodeId) c.heard m node config)

variable {K : Facts} {L : NodeId → Slot → Prop} {m : Membership} {config : RunConfig} {hash : String → Nat}
  {c : Cluster}

variable (hash) in
/-- One node takes an event: what was heard before is heard after, and what that node has sent. -/
theorem heard_insert {node : Node} {x : Process} (hx : c.get? node.nodeId = some x)
    (hs : x.node.SetUp m node config) (e : Process.Event) :
    (c.heard.plus node.nodeId (x.step hash e).sent).Le
      (heard (OrdMap.insert c node.nodeId (x.step hash e))) := by
  obtain ⟨haccepts, hlearns, hacceptor⟩ := Process.sent_step hash hs e
  constructor
  · rintro acc i (⟨y, hy, hacc⟩ | ⟨rfl, hacc⟩)
    · by_cases hi : i = node.nodeId
      · subst hi
        obtain rfl := Option.some.inj (hx.symm.trans hy)
        exact ⟨_, OrdMap.get?_insert_self .., haccepts hacc⟩
      · exact ⟨y, by rw [OrdMap.get?_insert, if_neg hi]; exact hy, hacc⟩
    · exact ⟨_, OrdMap.get?_insert_self .., hacc⟩
  · rintro l i (⟨y, hy, hl⟩ | ⟨rfl, hl⟩)
    · by_cases hi : i = node.nodeId
      · subst hi
        obtain rfl := Option.some.inj (hx.symm.trans hy)
        exact ⟨_, OrdMap.get?_insert_self ..,
          hl.imp (fun h => hlearns h) (fun h => Trio.learnsOf_subset hacceptor h)⟩
      · exact ⟨y, by rw [OrdMap.get?_insert, if_neg hi]; exact hy, hl⟩
    · exact ⟨_, OrdMap.get?_insert_self .., hl⟩

/-- What is asked in a sound cluster has known values. -/
theorem Sound.fits (hs : c.Sound K L m config) : c.heard.Fits K := by
  rintro acc i ⟨x, hx, hacc⟩
  obtain ⟨node, _, _, hsound⟩ := hs i x hx
  obtain ⟨s, hmem, hp⟩ := mem_acceptsOf.mp hacc
  have hsays := (hsound.sent.proposer s hmem).2
  rw [hp] at hsays
  exact hsays

/-- What is delivered in a sound cluster is known. -/
theorem Sound.knows (hs : c.Sound K L m config) (hupto : ∀ i n, Upto (L i) n → K.adu n) {i : NodeId}
    {y : Process} {outlet : Outlet} {k : Nat} {s : Sent} (hy : c.get? i = some y)
    (hmem : (outlet.log y.sent)[k]? = some s) : c.heard.Knows K s.message := by
  obtain ⟨node, _, rfl, hsound⟩ := hs i y hy
  have hlogs := hsound.sent
  replace hmem := List.mem_of_getElem? hmem
  unfold Heard.Knows
  cases outlet with
  | proposer =>
      obtain ⟨hsender, hsays⟩ := hlogs.proposer s hmem
      split
      · next p hp => rw [hp] at hsays; exact hsays.elim
      · next acc hp => exact ⟨y, by rw [hsender]; exact hy, mem_acceptsOf.mpr ⟨s, hmem, hp⟩⟩
      · next l hp => exact ⟨y, by rw [hsender]; exact hy, Or.inl (mem_learnsOf.mpr ⟨s, hmem, hp⟩)⟩
      · next exec hp => rw [hp] at hsays; exact hsays.elim
      · next adu hp => rw [hp] at hsays; exact hsays
      · trivial
  | acceptor =>
      obtain ⟨hsender, hans⟩ := hlogs.acceptor s hmem
      split
      · next p hp =>
        intro pv hpv v hv
        obtain ⟨slot, w, hw, b, q, hq⟩ := hlogs.promise s hmem p hp pv hpv
        rw [← Option.some.inj (hw.symm.trans hv)]
        exact hs.fits _ _ hq
      · next acc hp => rw [hp] at hans; exact hans.elim
      · next l hp => exact ⟨y, by rw [hsender]; exact hy, Or.inr (mem_learnsOf.mpr ⟨s, hmem, hp⟩)⟩
      · next exec hp => rw [hp] at hans; exact hans.elim
      · next adu hp => rw [hp] at hans; exact hans.elim
      · trivial
  | learner =>
      obtain ⟨⟨hsender, hans⟩, hcovers⟩ := hlogs.learner s hmem
      unfold LearnerAgent.Covers at hcovers
      split
      · next p hp => rw [hp] at hans; exact hans.elim
      · next acc hp => rw [hp] at hans; exact hans.elim
      · next l hp => rw [hp] at hans; exact hans.elim
      · next exec hp => rw [hp] at hcovers; exact hupto _ _ hcovers
      · next adu hp => rw [hp] at hcovers; exact hupto _ _ hcovers
      · trivial

/-- **An event of the cluster** keeps it sound: values come from the requests the run submits, and the
cursor of the node `i` moves over slots of `L i`. -/
theorem Sound.step (hs : c.Sound K L m config)
    (hsuits : ∀ node ∈ m.nodes, PaxosCoordinator.Suits K m node config)
    (hupto : ∀ i n, Upto (L i) n → K.adu n) {e : Event}
    (hlearned : ∀ j x e', c.get? j = some x → Serves c e j e' → x.node.Learned (L j) e')
    (hsubmit : ∀ i req, e = .call i (.submitClientRequest req) → K.value req)
    (hrestart : (∀ i s, L i s) ∨ e.isRestart = false) :
    (step hash c e).Sound K L m config := by
  rcases step_cases hash c e with he | ⟨j, x, e', hx, hserves, he⟩
  · rw [he]
    exact hs
  · obtain ⟨node, hnode, rfl, hsound⟩ := hs j x hx
    have hle := heard_insert hash hx hsound.now.setUp e'
    have hbrings : PaxosCoordinator.Brings K c.heard e' := by
      cases hserves with
      | call hno =>
          exact ⟨fun env msg he => absurd he (hno env msg),
            fun req he => hsubmit node.nodeId req (by rw [he])⟩
      | deliver hy hmem _ =>
          refine ⟨fun env msg he => ?_, nofun⟩
          obtain ⟨_, rfl⟩ := Process.Event.message.inj he
          exact hs.knows hupto hy hmem
    have hnew := hsound.step hash hnode (hsuits node hnode) hs.fits (hupto node.nodeId)
      (hlearned node.nodeId x e' hx hserves) hbrings (hrestart.imp (· node.nodeId) (fun hno env isLeader k hr => by
        cases hserves with
        | call _ =>
            rw [hr] at hno
            cases hno
        | deliver _ _ _ => cases hr))
    rw [he]
    have hold : c.heard.Le (heard (OrdMap.insert c node.nodeId (x.step hash e'))) :=
      ⟨fun acc i hacc => hle.accepts acc i (Or.inl hacc), fun l i hl => hle.learns l i (Or.inl hl)⟩
    exact All.insert (hs.mono (fun _ _ hy => hy.mono hold)) hnode (hnew.mono hle)

theorem sound_start {launch : Launch} (hfresh : ∀ i, (launch.dirs i).Fresh)
    (hsuits : ∀ node ∈ m.nodes, PaxosCoordinator.Suits K m node launch.config) :
    (start launch m).Sound K L m launch.config :=
  all_start (fun node hnode _ hx => Process.sound_start hnode (hsuits node hnode) (hfresh node.nodeId) hx)

/-- What has been told in a sound cluster has known values, if a no-op is one. -/
theorem Sound.told (hs : c.Sound K L m config) (hnoOp : K.value .noOp) {l : Learn} {i : NodeId}
    (hl : c.heard.learns l i) : K.value l.value := by
  obtain ⟨x, hx, hl⟩ := hl
  obtain ⟨node, _, _, hsound⟩ := hs i x hx
  rcases hl with hl | hl
  · obtain ⟨s, hmem, hp⟩ := mem_learnsOf.mp hl
    have hsays := (hsound.sent.proposer s hmem).2
    rw [hp] at hsays
    exact hsays
  · obtain ⟨s, hmem, hp⟩ := mem_learnsOf.mp hl
    have hans := (hsound.sent.acceptor s hmem).2
    rw [hp] at hans
    rcases hans with hno | ⟨⟨b, q, hasked⟩, _⟩
    · rw [hno]
      exact hnoOp
    · exact hs.fits _ _ hasked

/-! ## Validity

The values of a run are those its clients submit. That is enough for every agent, whatever cursors and
ballots it hears of. -/

/-- Every value that is accepted, proposed or learned in the cluster meets `V`. -/
structure Valid (V : Value → Prop) (c : Cluster) : Prop where
  accepted : ∀ i x a, c.get? i = some x → x.node.acceptor? = some a →
    ∀ slot pv, a.acceptor.accepted.get? slot = some pv → ∃ v, pv.value = some v ∧ V v
  proposed : ∀ i x p, c.get? i = some x → x.node.proposer? = some p →
    ∀ slot e, p.proposer.proposals.get? slot = some e → V e.proposal.value
  asked : ∀ i x, c.get? i = some x → ∀ acc ∈ acceptsOf x.sent.proposer, V acc.value
  learned : ∀ i x l, c.get? i = some x → x.node.learner? = some l →
    ∀ slot v, l.learner.learned.get? slot = some v → V v

theorem Sound.valid (hs : c.Sound K L m config) (hnoOp : K.value .noOp) : c.Valid K.value where
  accepted := fun i x a hx ha slot pv hpv => by
    obtain ⟨node, _, _, hsound⟩ := hs i x hx
    exact PaxosCoordinator.Sound.held hs.fits (hsound.now.acceptor a ha).1 slot pv hpv
  proposed := fun i x p hx hp slot e he => by
    obtain ⟨node, _, _, hsound⟩ := hs i x hx
    exact (hsound.now.proposer p hp).core.proposed slot e he
  asked := fun i x hx acc hacc => hs.fits acc i ⟨x, hx, hacc⟩
  learned := fun i x l hx hl slot v hv => by
    obtain ⟨node, _, _, hsound⟩ := hs i x hx
    obtain ⟨S, hcard, hall⟩ := (hsound.now.learner l hl).1.known.2 slot v hv
    -- somebody has told the learner
    obtain ⟨j, hj⟩ := Finset.card_pos.mp ((LearnerAgent.needed_pos (Nat.succ_pos _)).trans_le hcard)
    exact hs.told hnoOp (hall j hj)

/-- A value a client submits in the run, or a no-op. -/
def Submitted (es : List Event) (v : Value) : Prop :=
  v = .noOp ∨ ∃ i, Event.call i (.submitClientRequest v) ∈ es

/-- Values submitted in the run; nothing else is restricted. -/
def factsOf (es : List Event) (n : Nat) : Facts where
  value := Submitted es
  adu := fun _ => True
  ballot := fun _ => True
  zero := trivial
  delta := n
  raise := fun _ _ => trivial

/-- **Validity**: in every run of an event-driven cluster, whatever is called, delivered or restarted,
every value that is accepted, proposed or learned has been submitted by a client or is a no-op. -/
theorem values_submitted (launch : Launch) (m : Membership)
    (hev : launch.config.isEventDriven = true) (hfresh : ∀ i, (launch.dirs i).Fresh)
    (es : List Event) :
    Valid (Submitted es) (run (step launch.hash) (start launch m) es) := by
  have hsuits : ∀ node ∈ m.nodes, PaxosCoordinator.Suits (factsOf es m.acceptorIds.card) m node
      launch.config := fun node _ => ⟨Or.inl hev, trivial, rfl⟩
  have hrun : Sound (factsOf es m.acceptorIds.card) (fun _ _ => True) m launch.config
      (run (step launch.hash) (start launch m) es) := by
    refine run_invariant_of_mem (E := (· ∈ es)) (fun c e hc he => ?_) (sound_start hfresh hsuits)
      (fun e he => he)
    refine hc.step hsuits (fun _ _ _ => trivial) (fun _ _ _ _ _ _ _ => ?_) (fun i req hreq => ?_)
      (Or.inl (fun _ _ => trivial))
    · exact ⟨fun _ _ _ => trivial, fun _ _ _ _ _ _ _ _ => trivial⟩
    · exact Or.inr ⟨i, hreq ▸ he⟩
  exact hrun.valid (Or.inl rfl)

/-! ### One request -/

/-- The leader has a value accepted in slot 1 by two acceptors, whose learns reach learner 21; before,
learner 21 has sent `k` messages and each of the two acceptors has. -/
def acceptedBy (k : Nat) : List Event :=
  [.call 1 (.tick { Env.quiet with now := 10000 }), .deliver 1 .proposer 0 21 .quiet,
    .deliver 21 .learner k 1 .quiet, .call 1 (.tick .quiet), .call 1 (.tick .quiet),
    .deliver 1 .proposer 1 11 .quiet, .deliver 1 .proposer 1 12 .quiet,
    .deliver 11 .acceptor k 1 .quiet, .deliver 12 .acceptor k 1 .quiet,
    .call 1 (.submitClientRequest (setX "a")), .call 1 (.tick .quiet),
    .deliver 1 .proposer 2 11 .quiet, .deliver 1 .proposer 2 12 .quiet,
    .deliver 11 .acceptor (k + 1) 21 .quiet, .deliver 12 .acceptor (k + 1) 21 .quiet]

/-- Learner 21 reports what it has executed; by then it has sent `k` messages. -/
def executedBy (k : Nat) : List Event :=
  [.call 21 (.tick { Env.quiet with now := 10000 }), .deliver 21 .learner k 1 .quiet]

/-- A request is submitted, proposed, accepted, learned and executed. -/
theorem values_submitted_executed_request :
    let es := acceptedBy 0 ++ executedBy 1
    Valid (Submitted es) (run (step (Launch.led .inMemory).hash) (start (.led .inMemory) sevenNodes) es) :=
  values_submitted (.led .inMemory) sevenNodes rfl (Launch.fresh_idle .inMemory)
    (acceptedBy 0 ++ executedBy 1)

end Cluster

end PaxosWasm
