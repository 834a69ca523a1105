import PaxosWasm.Cluster.Membership
import PaxosWasm.Library.Run

/-!
# No `Accept` without Phase 1

An `Accept` for a ballot should follow promises for that ballot from a majority of the acceptors. A
leader enters its accept phase that way. But a node that loses the leadership in that phase stays in
it, and a node that gains the leadership raises its ballot whatever its phase: it then proposes under
a ballot nobody has promised. Where the failure detector hands the leadership to no node in its
accept phase, every `Accept` follows a Phase 1, over any run of a node.

The invariant of a running node (`Lawful`) is about the promises in memory: they are kept by ballot, they
come from acceptors, and a leader in its accept phase has those of a majority for its ballot. Only
`become_leader` raises a ballot without leaving the phase, and `Usurps` names the verdicts that call it at
the wrong time.
-/

namespace PaxosWasm

open Library

/-! ## What a leader has collected

Promises are kept by their ballots and senders. So a group as large as a quorum comes from as many
acceptors. -/

namespace Leader

/-- A promise for `ballot` has come from the node `i`. -/
def Collected (l : Leader) (ballot : Ballot) (i : NodeId) : Prop :=
  ∃ k group p, l.promises.get? k = some group ∧ group.get? i = some p ∧ p.ballot = ballot

/-- Promises for `ballot` have come from a majority of the acceptors. -/
def Prepared (acceptors : Finset NodeId) (l : Leader) (ballot : Ballot) : Prop :=
  Chosen acceptors (fun i b => l.Collected b i) ballot

/-- Promises are kept by ballot, and come from acceptors. -/
def Keyed (acceptors : Finset NodeId) (l : Leader) : Prop :=
  ∀ k group, l.promises.get? k = some group → ∀ i p, group.get? i = some p →
    p.ballot = k ∧ i ∈ acceptors

variable {g : Given} {A : Finset NodeId} {l l' : Leader}

/-- Collecting one more promise. -/
theorem get?_promised {p : Promise} {i j : NodeId} {k : Ballot} {group : OrdMap NodeId Promise}
    {q : Promise}
    (hgroup : (l.promises.insert p.ballot
      (((l.promises.get? p.ballot).getD ∅).insert i p)).get? k = some group)
    (hq : group.get? j = some q) :
    (k = p.ballot ∧ j = i ∧ q = p) ∨
      ∃ group', l.promises.get? k = some group' ∧ group'.get? j = some q := by
  rw [OrdMap.get?_insert] at hgroup
  split at hgroup
  · next hk =>
    subst hk
    obtain rfl := Option.some.inj hgroup
    rw [OrdMap.get?_insert] at hq
    split at hq
    · next hj => exact Or.inl ⟨rfl, hj, (Option.some.inj hq).symm⟩
    · cases hold : l.promises.get? p.ballot with
      | none =>
          rw [hold] at hq
          cases hq
      | some old =>
          rw [hold] at hq
          exact Or.inr ⟨old, rfl, hq⟩
  · exact Or.inr ⟨group, hgroup, hq⟩

theorem Step.keyed (hp : ∀ p i, g.promise p i → i ∈ A) (h : Step g l l') (hl : l.Keyed A) :
    l'.Keyed A := by
  cases h with
  | promised h =>
      intro k group hgroup j q hq
      rcases get?_promised hgroup hq with ⟨rfl, rfl, rfl⟩ | ⟨group', hgroup', hq'⟩
      · exact ⟨rfl, hp _ _ h⟩
      · exact hl k group' hgroup' j q hq'
  | _ => exact hl

theorem Steps.keyed (hp : ∀ p i, g.promise p i → i ∈ A) (h : Steps g l l') (hl : l.Keyed A) :
    l'.Keyed A :=
  h.invariant (fun _ _ hs => hs.keyed hp) hl

/-- A new promise replaces at most one for the same ballot from the same node. -/
theorem Step.collected (h : Step g l l') (hkeyed : l.Keyed A) {ballot : Ballot} {j : NodeId}
    (hc : l.Collected ballot j) : l'.Collected ballot j := by
  cases h with
  | @promised p i h =>
      obtain ⟨k, group, q, hgroup, hq, rfl⟩ := hc
      obtain ⟨rfl, _⟩ := hkeyed k group hgroup j q hq
      by_cases hballot : q.ballot = p.ballot
      · refine ⟨q.ballot, ((l.promises.get? p.ballot).getD ∅).insert i p, ?_⟩
        rw [← hballot, hgroup, Option.getD_some, OrdMap.get?_insert, if_pos rfl]
        by_cases hj : j = i
        · exact ⟨p, rfl, by rw [OrdMap.get?_insert, if_pos hj], hballot.symm⟩
        · exact ⟨q, rfl, by rw [OrdMap.get?_insert, if_neg hj]; exact hq, rfl⟩
      · exact ⟨q.ballot, group, q, by rw [OrdMap.get?_insert, if_neg hballot]; exact hgroup, hq, rfl⟩
  | _ => exact hc

theorem Steps.prepared (hp : ∀ p i, g.promise p i → i ∈ A) (h : Steps g l l') (hkeyed : l.Keyed A)
    {ballot : Ballot} (hl : l.Prepared A ballot) : l'.Prepared A ballot := by
  have hboth := h.invariant (P := fun x => x.Keyed A ∧ x.Prepared A ballot)
    (fun x x' hs hx => ⟨hs.keyed hp hx.1, hx.2.mono (fun i hc => hs.collected hx.1 hc)⟩) ⟨hkeyed, hl⟩
  exact hboth.2

/-- A quorum of promises for a ballot comes from a majority. -/
theorem Elected.prepared {m : Membership} (hquorum : l.frame.quorum = m.quorum)
    (hkeyed : l.Keyed m.acceptorIds) {ballot : Ballot} (h : l.Elected ballot) :
    l.Prepared m.acceptorIds ballot := by
  obtain ⟨k, group, hgroup, hcount⟩ := h
  obtain ⟨S, hS, hvoters⟩ := group.exists_voters (fun p => decide (p.ballot = ballot))
  refine ⟨S, Membership.majority_of_quorum (fun i hi => ?_) ?_, fun i hi => ?_⟩
  · obtain ⟨p, hp, _⟩ := hvoters i hi
    exact (hkeyed k group hgroup i p hp).2
  · rw [hS, ← hquorum]
    exact hcount
  · obtain ⟨p, hp, hballot⟩ := hvoters i hi
    exact ⟨k, group, p, hgroup, hp, of_decide_eq_true hballot⟩

/-! ## The ballots a leader proposes under

A leader in its accept phase has collected the promises for its ballot, and every proposal it keeps is of
a ballot it has collected them for. -/

/-- The ballots of the accept phase, of what is stored and of what is sent after `base` meet `Q`. -/
structure ProposesUnder (Q : Ballot → Prop) (base : List Accept) (l : Leader) : Prop where
  phase : l.phase = .acceptCommit → Q l.ballot
  stored : ∀ slot e, l.proposals.get? slot = some e → Q e.proposal.ballot
  pending : ∀ p ∈ l.pending, Q p.ballot
  sent : ∃ new, l.accepts = base ++ new ∧ ∀ acc ∈ new, Q acc.ballot

variable {Q : Ballot → Prop} {base : List Accept}

theorem ProposesUnder.mono {Q' : Ballot → Prop} (h : ∀ b, Q b → Q' b)
    (hl : ProposesUnder Q base l) : ProposesUnder Q' l.accepts l :=
  { phase := fun hphase => h _ (hl.phase hphase)
    stored := fun slot e he => h _ (hl.stored slot e he)
    pending := fun p hp => h _ (hl.pending p hp)
    sent := ⟨[], (List.append_nil _).symm, fun _ hmem => absurd hmem List.not_mem_nil⟩ }

theorem ProposesUnder.stored_insert (hl : ProposesUnder Q base l) {slot : Slot} {e : ProposalEntry}
    (he : Q e.proposal.ballot) (slot' : Slot) (e' : ProposalEntry)
    (hget : (l.proposals.insert slot e).get? slot' = some e') : Q e'.proposal.ballot := by
  rw [OrdMap.get?_insert] at hget
  split at hget
  · obtain rfl := Option.some.inj hget
    exact he
  · exact hl.stored slot' e' hget

/-- A change of status does not change a ballot. -/
theorem ProposesUnder.stored_status (hl : ProposesUnder Q base l) {slot : Slot} {e : ProposalEntry}
    (h : l.proposals.get? slot = some e) (status : ProposalStatus) (slot' : Slot) (e' : ProposalEntry) :
    (l.proposals.insert slot { e with status }).get? slot' = some e' → Q e'.proposal.ballot := by
  have he : Q ({ e with status } : ProposalEntry).proposal.ballot := hl.stored slot e h
  exact hl.stored_insert he slot' e'

theorem ProposesUnder.sent_snoc (hl : ProposesUnder Q base l) {acc : Accept} (hacc : Q acc.ballot) :
    ∃ new, l.accepts ++ [acc] = base ++ new ∧ ∀ acc' ∈ new, Q acc'.ballot := by
  obtain ⟨new, hnew, hall⟩ := hl.sent
  refine ⟨new ++ [acc], by rw [hnew, List.append_assoc], fun acc' hmem => ?_⟩
  rcases List.mem_append.mp hmem with hmem | hmem
  · exact hall acc' hmem
  · rw [List.mem_singleton.mp hmem]
    exact hacc

/-- **A step keeps to the ballots**, if no ballot is raised in the accept phase and every election
there is prepared. -/
theorem Step.proposesUnder (husurp : ¬ g.usurps)
    (helect : ∀ x slot, g.resets x slot → (x.frame.config.isEventDriven = true → x.Elected x.ballot) →
      x.frame = l.frame → Q x.ballot)
    (h : Step g l l') (hl : ProposesUnder Q base l) : ProposesUnder Q base l' := by
  cases h with
  | setPhase h => exact { hl with phase := fun hphase => absurd hphase h }
  | promised h => exact { hl with }
  | elected hpending helected h => exact { hl with phase := fun _ => helect l _ h helected rfl }
  | raised hpending h =>
      exact { hl with phase := fun hphase => absurd hphase (h.resolve_right husurp) }
  | created h =>
      refine { hl with stored := hl.stored_insert (hl.phase h), pending := fun p hp => ?_ }
      rcases List.mem_append.mp hp with hp | hp
      · exact hl.pending p hp
      · rw [List.mem_singleton.mp hp]
        exact hl.phase h
  | broadcast h =>
      refine { hl with pending := fun p hp => hl.pending p ?_, sent := hl.sent_snoc (hl.pending _ ?_) }
      · rw [h]
        exact List.mem_cons_of_mem _ hp
      · rw [h]
        exact List.mem_cons_self ..
  | resent hpending h => exact { hl with sent := hl.sent_snoc (hl.stored _ _ h) }
  | accepted h => exact { hl with }
  | chosen h hstatus hacc => exact { hl with stored := hl.stored_status h _ }
  | reserved h => exact { hl with stored := hl.stored_status h _ }
  | learned hpending hmode h htarget => exact { hl with }
  | finalized h => exact { hl with stored := hl.stored_status h _ }

theorem Steps.proposesUnder (husurp : ¬ g.usurps)
    (helect : ∀ x slot, g.resets x slot → (x.frame.config.isEventDriven = true → x.Elected x.ballot) →
      x.frame = l.frame → Q x.ballot)
    (h : Steps g l l') (hl : ProposesUnder Q base l) : ProposesUnder Q base l' := by
  have hboth := h.invariant (P := fun x => x.frame = l.frame ∧ ProposesUnder Q base x)
    (fun x x' hs hx => ⟨hs.frame_eq.trans hx.1, hs.proposesUnder husurp
      (fun y slot hr hel hf => helect y slot hr hel (hf.trans hx.1)) hx.2⟩) ⟨rfl, hl⟩
  exact hboth.2

end Leader

/-! ## Late promises -/

namespace ProposerAgent

/-- A promise is collected, and nothing is sent. -/
theorem handlePromise_frame (a : ProposerAgent) (sender : Node) (p : Promise) :
    (a.handlePromise sender p).networkClient = a.networkClient ∧
      (a.handlePromise sender p).promises = (a.insertAndCheckPromises p sender).2.promises := by
  have hkept : ∀ (a : ProposerAgent) (slot : Slot) (ps : List Promise),
      let a' := (a.processPromises slot ps).2.handlePrepareResult (a.processPromises slot ps).1
      a'.networkClient = a.networkClient ∧ a'.promises = a.promises := by
    intro a slot ps
    cases h : (a.processPromises slot ps).1 <;> simp only [handlePrepareResult] <;> exact ⟨rfl, rfl⟩
  have hclient : (a.insertAndCheckPromises p sender).2.networkClient = a.networkClient := by
    rw [insertAndCheckPromises_snd]
  unfold handlePromise
  split
  · next b ps a' he =>
    rw [he] at hclient ⊢
    obtain ⟨hkeptClient, hpromises⟩ := hkept a' p.slot ps
    exact ⟨hkeptClient.trans hclient, hpromises⟩
  · next a' he =>
    rw [he] at hclient ⊢
    exact ⟨hclient, rfl⟩

end ProposerAgent

/-! ## Runs of a node

What a node maintains is about one lifetime: a restart forgets the promises and the proposals alike. -/

namespace Process

open Leader

/-- The node has collected a promise for `ballot` from the node `i`. -/
def Collected (x : Process) (ballot : Ballot) (i : NodeId) : Prop :=
  ∃ p, x.node.proposer? = some p ∧ (p.leader []).Collected ballot i

/-- The promise an event delivers, with the node it comes from. -/
def Event.promise? : Event → Option (Promise × NodeId)
  | .message _ { sender, payload := .promise p } => some (p, sender.nodeId)
  | _ => none

/-- The node an event hands the leadership to. -/
def Event.newLeader? : Event → Option NodeId
  | .failureService _ maybeNewLeader => maybeNewLeader
  | _ => none

/-- Promises come from acceptors. -/
def FromAcceptors (m : Membership) (_ : Process) (e : Event) : Prop :=
  ∀ p ∈ e.promise?, p.2 ∈ m.acceptorIds

/-- The failure detector hands the leadership to a node that is no leader but in its accept phase. -/
def Usurps (x : Process) (e : Event) : Prop :=
  e.newLeader? = some x.node.node.nodeId ∧ x.node.isLeader = false ∧
    x.node.proposer?.map ProposerAgent.phase = some .acceptCommit

instance (m : Membership) (x : Process) (e : Event) : Decidable (FromAcceptors m x e) :=
  inferInstanceAs (Decidable (∀ p ∈ e.promise?, _))

instance (x : Process) (e : Event) : Decidable (Usurps x e) := inferInstanceAs (Decidable (_ ∧ _))

/-- **What a node maintains while it runs**: the promises it has collected, and an accept phase only
under a ballot promised by a majority. -/
def Lawful (m : Membership) (x : Process) : Prop :=
  ∀ p, x.node.proposer? = some p → x.running = true →
    (p.leader []).Keyed m.acceptorIds ∧
      ProposesUnder ((p.leader []).Prepared m.acceptorIds) (p.leader []).accepts (p.leader [])

/-- What a node sends next, it sends under ballots promised by a majority before. -/
def SendsPrepared (m : Membership) (x x' : Process) : Prop :=
  ∃ new, acceptsOf x'.sent.proposer = acceptsOf x.sent.proposer ++ new ∧
    ∀ acc ∈ new, Chosen m.acceptorIds (fun i b => x.Collected b i) acc.ballot

variable {m : Membership} {node : Node} {config : RunConfig} {hash : String → Nat} {x : Process}

theorem sendsPrepared_of_eq {x' : Process} (h : acceptsOf x'.sent.proposer = acceptsOf x.sent.proposer) :
    SendsPrepared m x x' :=
  ⟨[], by rw [h, List.append_nil], fun _ hmem => absurd hmem List.not_mem_nil⟩

/-- A new node has collected and proposed nothing. -/
theorem lawful_new {dirs : PaxosCoordinator.Dirs} {env : Env} {nodes : List Node} {isLeader : Bool}
    {n : PaxosCoordinator} {past : Logs}
    (h : PaxosCoordinator.new hash dirs env node nodes isLeader config = some n) :
    Lawful m { node := n, running := true, past } := by
  intro p hp _
  obtain rfl := PaxosCoordinator.proposer?_new h hp
  obtain ⟨frame, ballot, hleader⟩ := ProposerAgent.leader_new dirs.proposer env node nodes isLeader config
  rw [hleader]
  refine ⟨nofun, ?_⟩
  exact
    { phase := nofun
      stored := fun _ _ he => by cases he
      pending := fun _ h => absurd h List.not_mem_nil
      sent := ⟨[], rfl, fun _ h => absurd h List.not_mem_nil⟩ }

theorem Event.promise?_eq_some {e : Event} {pr : Promise × NodeId} (h : e.promise? = some pr) :
    ∃ env sender, e = .message env { sender, payload := .promise pr.1 } ∧ sender.nodeId = pr.2 := by
  unfold promise? at h
  split at h
  · next env sender p =>
    obtain rfl := Option.some.inj h
    exact ⟨env, sender, rfl, rfl⟩
  · cases h

/-- Surroundings without promises from elsewhere: no Phase 1 completes, and no ballot is raised in
the accept phase. -/
def unelected (m : Membership) : Given :=
  { promise := fun _ i => i ∈ m.acceptorIds
    accepted := fun _ _ _ => True
    resets := fun _ _ => False
    usurps := False }

theorem allows_unelected (hnode : node ∈ m.nodes) (hev : config.isEventDriven = true)
    (hs : x.node.SetUp m node config) {p : ProposerAgent} (hp : x.node.proposer? = some p) {e : Event}
    (husurp : ¬ Usurps x e) (hpr : e.promise? = none) : x.node.Allows (unelected m) p e := by
  obtain ⟨hconfig, hpnode, _⟩ := hs.proposer p hp
  refine
    { config_eq := hconfig.trans hs.config_eq.symm
      disabled := fun a ha => (hs.acceptor a ha).2
      message := fun env msg he => ⟨fun pr hpayload => ?_, fun _ _ => trivial⟩
      usurps := fun env he hleads => Or.inl (fun hphase => husurp ?_)
      promise := fun a ha _ => ?_
      resets := fun hoff => ?_
      locally := fun _ _ _ _ _ _ _ _ => trivial }
  · obtain ⟨sender, payload⟩ := msg
    obtain rfl : payload = .promise pr := hpayload
    rw [he] at hpr
    cases hpr
  · refine ⟨by rw [he]; rfl, ?_, by rw [hp]; exact congrArg some hphase⟩
    rw [PaxosCoordinator.isLeader, hp]
    exact hleads
  · show p.node.nodeId ∈ m.acceptorIds
    rw [hpnode]
    exact Membership.mem_acceptorIds_of_role hnode (hs.acceptor_role (by rw [ha]; rfl))
  · rw [hs.config_eq, hev] at hoff
    cases hoff

/-- A promise completes Phase 1 only with the promises of a majority. -/
theorem lawful_promise {a : ProposerAgent} {pr : Promise} {sender : Node}
    (hev : a.config.isEventDriven = true) (hquorum : a.proposer.quorum = m.quorum)
    (hsender : sender.nodeId ∈ m.acceptorIds) (hkeyed : (a.leader []).Keyed m.acceptorIds)
    (hl : ProposesUnder ((a.leader []).Prepared m.acceptorIds) (a.leader []).accepts (a.leader [])) :
    ((a.handlePromise sender pr).leader []).Keyed m.acceptorIds ∧
      ProposesUnder (((a.handlePromise sender pr).leader []).Prepared m.acceptorIds)
        ((a.handlePromise sender pr).leader []).accepts ((a.handlePromise sender pr).leader []) := by
  -- Phase 1 completes with the promises that are there once this one is collected
  let g : Given :=
    { promise := fun _ i => i ∈ m.acceptorIds
      accepted := fun _ _ _ => True
      resets := fun l _ => l.promises = (a.insertAndCheckPromises pr sender).2.promises
      usurps := False }
  have hpromise : ∀ p i, g.promise p i → i ∈ m.acceptorIds := fun _ _ h => h
  have hsteps : Steps g (a.leader []) ((a.handlePromise sender pr).leader []) :=
    ProposerAgent.steps_handlePromise hsender (fun _ _ _ _ => rfl)
  have hpromises : ((a.handlePromise sender pr).leader []).promises =
      (a.insertAndCheckPromises pr sender).2.promises := (a.handlePromise_frame sender pr).2
  have hkeyed' := hsteps.keyed hpromise hkeyed
  have hframe := hsteps.frame_eq
  refine ⟨hkeyed', ?_⟩
  have hmono : ∀ b, (a.leader []).Prepared m.acceptorIds b →
      ((a.handlePromise sender pr).leader []).Prepared m.acceptorIds b :=
    fun b hb => hsteps.prepared hpromise hkeyed hb
  refine ProposesUnder.mono (fun _ hb => hb)
    (hsteps.proposesUnder id (fun l slot hreset helected hf => ?_) (hl.mono hmono))
  · have hpromises' : ((a.handlePromise sender pr).leader []).promises = l.promises :=
      hpromises.trans (Eq.symm hreset)
    obtain ⟨k, group, hgroup, hcount⟩ := helected (by rw [hf]; exact hev)
    have hquorum' : ((a.handlePromise sender pr).leader []).frame.quorum = m.quorum := by
      rw [hframe]
      exact hquorum
    refine Elected.prepared hquorum' hkeyed' ⟨k, group, hpromises'.symm ▸ hgroup, ?_⟩
    rw [hframe, ← hf]
    exact hcount

/-- **An event of a node** keeps it lawful, and what it sends it sends under ballots promised by a
majority before. -/
theorem lawful_step (hev : config.isEventDriven = true) (hnode : node ∈ m.nodes)
    (hs : x.node.SetUp m node config) (hl : Lawful m x) {e : Event} (hfrom : FromAcceptors m x e)
    (husurp : ¬ Usurps x e) : Lawful m (step hash x e) ∧ SendsPrepared m x (step hash x e) := by
  rcases step_cases hash x e with ⟨env, isLeader, k, n, rfl, hnew, he⟩ | ⟨_, hrun, he⟩ | he
  · rw [he]
    refine ⟨lawful_new hnew, sendsPrepared_of_eq ?_⟩
    show acceptsOf (x.sent.proposer ++ n.logs.proposer) = _
    rw [PaxosCoordinator.logs_new hnew, List.append_nil]
  · rw [he]
    have hsome := (x.node.isSome_call e).1
    cases hp : x.node.proposer? with
    | none =>
        rw [hp] at hsome
        -- a node without a proposer sends no `Accept`
        have hnone : (call x.node e).2.proposer? = none := Option.not_isSome_iff_eq_none.mp (by simp [hsome])
        refine ⟨fun p' hp' => ?_, sendsPrepared_of_eq ?_⟩
        · cases hnone.symm.trans hp'
        · simp only [sent, PaxosCoordinator.logs, hp, hnone]
    | some p =>
        obtain ⟨hconfig, hpnode, hquorum⟩ := hs.proposer p hp
        obtain ⟨hkeyed, hunder⟩ := hl p hp hrun
        cases hpr : e.promise? with
        | some pr =>
            -- a promise is collected, and completes Phase 1 only with a majority
            obtain ⟨env, sender, rfl, hsender⟩ := e.promise?_eq_some hpr
            have hp' : (call x.node (.message env { sender, payload := .promise pr.1 })).2.proposer? =
                some (p.handlePromise sender pr.1) := by
              have h := (x.node.agents_handleMessage env { sender, payload := .promise pr.1 }).1
              rw [hp] at h
              exact h
            refine ⟨fun p' h _ => ?_, sendsPrepared_of_eq ?_⟩
            · obtain rfl := Option.some.inj (hp'.symm.trans h)
              exact lawful_promise (by rw [hconfig]; exact hev) hquorum (hfrom (pr.1, sender.nodeId) rfl)
                hkeyed hunder
            · simp only [sent, PaxosCoordinator.logs, hp, hp', Option.elim]
              rw [(p.handlePromise_frame sender pr.1).1]
        | none =>
            obtain ⟨p', pending, hp', hsteps, hpending⟩ :=
              PaxosCoordinator.steps_call hp (allows_unelected hnode hev hs hp husurp hpr)
            -- no other event collects a promise
            have hunder' := hsteps.proposesUnder id (fun _ _ hreset => False.elim hreset) hunder
            refine ⟨fun p'' h hrun' => ?_, ?_⟩
            · obtain rfl := Option.some.inj (hp'.symm.trans h)
              obtain rfl := hpending hrun'
              exact ⟨hsteps.keyed (fun _ _ h => h) hkeyed,
                hunder'.mono (fun _ hb => hsteps.prepared (fun _ _ h => h) hkeyed hb)⟩
            · obtain ⟨new, hnew, hall⟩ := hunder'.sent
              refine ⟨new, ?_, fun acc hacc => (hall acc hacc).mono (fun i hc => ⟨p, hp, hc⟩)⟩
              simp only [sent, PaxosCoordinator.logs, hp, hp', Option.elim]
              simp only [acceptsOf, List.filterMap_append, List.append_assoc]
              exact congrArg _ hnew
  · rw [he]
    exact ⟨hl, sendsPrepared_of_eq rfl⟩

theorem lawful_run (hev : config.isEventDriven = true) (hnode : node ∈ m.nodes)
    (hs : x.node.SetUp m node config) (hl : Lawful m x) {es : List Event}
    (hguard : Guarded (step hash) (fun x e => FromAcceptors m x e ∧ ¬ Usurps x e) x es) :
    (run (step hash) x es).node.SetUp m node config ∧ Lawful m (run (step hash) x es) := by
  refine run_invariant_of_guarded (P := fun x => x.node.SetUp m node config ∧ Lawful m x)
    (fun x e hx hg => ⟨setUp_step hnode hx.1 e, ?_⟩) ⟨hs, hl⟩ hguard
  exact (lawful_step hev hnode hx.1 hx.2 hg.1 hg.2).1

/-- **No `Accept` without Phase 1**: whatever happens to a node, as long as promises come from
acceptors and the leadership is never handed to it in its accept phase, each `Accept` it broadcasts
carries a ballot for which it has collected promises from a majority of the acceptors before. -/
theorem accepts_follow_promises (hash : String → Nat) (dirs : PaxosCoordinator.Dirs) (env : Env)
    (m : Membership) (node : Node) (hnode : node ∈ m.nodes) (isLeader : Bool) (config : RunConfig)
    (hev : config.isEventDriven = true) (x : Process)
    (hstart : start hash dirs env m node isLeader config = some x) (es : List Event) (e : Event)
    (hguard : Guarded (step hash) (fun x e => FromAcceptors m x e ∧ ¬ Usurps x e) x (es ++ [e])) :
    SendsPrepared m (run (step hash) x es) (run (step hash) x (es ++ [e])) := by
  obtain ⟨hes, hfrom, husurp⟩ := guarded_snoc.mp hguard
  obtain ⟨n, hn, rfl⟩ := Option.map_eq_some_iff.mp hstart
  obtain ⟨hs, hl⟩ := lawful_run hev hnode (PaxosCoordinator.setUp_new hnode hn) (lawful_new hn) hes
  rw [run_snoc]
  exact (lawful_step hev hnode hs hl hfrom husurp).2

/-! ## A leadership regained in the accept phase -/

/-- A proposer, three acceptors and a learner. -/
def fiveNodes : Membership :=
  { nodes := [⟨1, "", .proposer⟩, ⟨11, "", .acceptor⟩, ⟨12, "", .acceptor⟩, ⟨13, "", .acceptor⟩,
      ⟨21, "", .learner⟩]
    nodup := by decide
    small := by decide }

/-- The proposer of `fiveNodes` as leader. -/
def leaderNode : Process :=
  { node :=
      { config := .inMemory
        node := ⟨1, "", .proposer⟩
        nodes := fiveNodes.others ⟨1, "", .proposer⟩
        agents := .proposer (ProposerAgent.new .empty .quiet ⟨1, "", .proposer⟩
          (fiveNodes.others ⟨1, "", .proposer⟩) true .inMemory) }
    running := true
    past := { proposer := [], acceptor := [], learner := [] } }

/-- Two promises for ballot 4 lead the proposer into its accept phase. -/
def phaseOne : List Event :=
  [.message .quiet ⟨⟨21, "", .learner⟩, .adu 0⟩, .tick .quiet, .tick .quiet,
    .message .quiet ⟨⟨11, "", .acceptor⟩, .promise ⟨1, 4, []⟩⟩,
    .message .quiet ⟨⟨12, "", .acceptor⟩, .promise ⟨1, 4, []⟩⟩]

theorem start_leaderNode :
    start (fun _ => 0) .empty .quiet fiveNodes ⟨1, "", .proposer⟩ true .inMemory = some leaderNode :=
  rfl

/-- The `Accept` for ballot 4 follows two promises. -/
theorem accepts_follow_two_promises :
    SendsPrepared fiveNodes
      (run (step (fun _ => 0)) leaderNode (phaseOne ++ [.submitClientRequest (setX "a")]))
      (run (step (fun _ => 0)) leaderNode
        (phaseOne ++ [.submitClientRequest (setX "a")] ++ [.tick .quiet])) := by
  have hguard : Guarded (step (fun _ => 0)) (fun x e => FromAcceptors fiveNodes x e ∧ ¬ Usurps x e)
      leaderNode (phaseOne ++ [.submitClientRequest (setX "a")] ++ [.tick .quiet]) := by decide
  exact accepts_follow_promises (fun _ => 0) .empty .quiet fiveNodes ⟨1, "", .proposer⟩ (by decide)
    true .inMemory rfl leaderNode start_leaderNode _ _ hguard

/-- **An `Accept` without Phase 1**: the leader resigns in its accept phase and becomes leader again,
which raises its ballot to 7. No acceptor has been asked to promise that ballot. -/
theorem accept_without_phase_one :
    let es := phaseOne ++ [.failureService .quiet (some 2), .failureService .quiet (some 1),
      .submitClientRequest (setX "a")]
    start (fun _ => 0) .empty .quiet fiveNodes ⟨1, "", .proposer⟩ true .inMemory = some leaderNode ∧
      Guarded (step (fun _ => 0)) (FromAcceptors fiveNodes) leaderNode (es ++ [.tick .quiet]) ∧
      ¬ SendsPrepared fiveNodes (run (step (fun _ => 0)) leaderNode es)
        (run (step (fun _ => 0)) leaderNode (es ++ [.tick .quiet])) := by
  intro es
  refine ⟨start_leaderNode, by decide, fun ⟨new, hnew, hall⟩ => ?_⟩
  have hsent : acceptsOf (run (step (fun _ => 0)) leaderNode (es ++ [.tick .quiet])).sent.proposer =
      acceptsOf (run (step (fun _ => 0)) leaderNode es).sent.proposer ++
        [{ slot := 1, ballot := 7, value := setX "a" }] := by decide
  obtain rfl := List.append_cancel_left (hnew.symm.trans hsent)
  obtain ⟨S, hS, hvoters⟩ := hall _ (List.mem_singleton_self _)
  obtain ⟨i, hi, _⟩ := hS.exists_common hS
  -- nothing collected is for ballot 7
  have hcollected : ∀ p ∈ (run (step (fun _ => 0)) leaderNode es).node.proposer?,
      ∀ group ∈ p.promises.values, ∀ pr ∈ group.values, pr.ballot ≠ 7 := by decide
  obtain ⟨p, hp, k, group, pr, hgroup, hpr, hballot⟩ := hvoters i hi
  exact hcollected p hp group (OrdMap.mem_values.mpr ⟨k, hgroup⟩) pr (OrdMap.mem_values.mpr ⟨i, hpr⟩)
    hballot

end Process

end PaxosWasm
