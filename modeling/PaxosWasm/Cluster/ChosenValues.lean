import PaxosWasm.Cluster.Lasting

/-!
# What a proposer takes for chosen

An acceptance names a slot and a ballot, and no value. A proposer counts the acceptances of the slot
and the ballot of its proposal, so the acceptors that sent them hold its value if it has asked them for
that value only. But a late promise sends the slot counter back to a slot the proposer has just used,
and under the same ballot it then asks for another value.

A leader marks a value as chosen when it has counted acceptances, and an acceptance names a slot and a
ballot but no value. So the count is about the slot and the ballot (`Counted`), and the acceptors counted
hold the value if the leader has asked for one value only under these two (`OneValue`).
-/

namespace PaxosWasm

open Library

namespace Leader

/-! ## A leader counts

The acceptances a leader counts come as messages, and each is of what the leader has asked for. So under
every entry that it takes for chosen there is a quorum of senders. -/

/-- The leader has asked for a value in the slot under the ballot that the acceptor `i` holds. -/
def Vouched (holds : NodeId → Slot → Value → Prop) (l : Leader) (slot : Slot) (ballot : Ballot)
    (i : NodeId) : Prop :=
  ∃ value, { slot, ballot, value : Accept } ∈ l.accepts ∧ holds i slot value

/-- **What a leader has counted**: acceptances of what it has asked for, and for each value it takes
for chosen a quorum of them. -/
structure Counted (holds : NodeId → Slot → Value → Prop) (l : Leader) : Prop where
  filed : ∀ slot group, l.inFlightAccepted.get? slot = some group →
    ∀ i acc, group.get? i = some acc → l.Vouched holds acc.slot acc.ballot i
  keyed : ∀ slot e, l.proposals.get? slot = some e → e.proposal.slot = slot
  chosen : ∀ slot e, l.proposals.get? slot = some e → e.status = .chosen →
    ∃ S : Finset NodeId, l.frame.quorum ≤ S.card ∧
      ∀ i ∈ S, l.Vouched holds e.proposal.slot e.proposal.ballot i

/-- Acceptances that arrive are of what the leader has asked for. -/
def Given.vouching (holds : NodeId → Slot → Value → Prop) : Given :=
  { Given.any with accepted := fun l acc i => l.Vouched holds acc.slot acc.ballot i }

variable {holds holds' : NodeId → Slot → Value → Prop} {l l' : Leader}

theorem Vouched.mono {slot : Slot} {ballot : Ballot} {i : NodeId}
    (h : l.Vouched holds slot ballot i) (haccepts : l.accepts ⊆ l'.accepts)
    (hholds : ∀ i slot v, holds i slot v → holds' i slot v) : l'.Vouched holds' slot ballot i := by
  obtain ⟨value, hasked, hvalue⟩ := h
  exact ⟨value, haccepts hasked, hholds i slot value hvalue⟩

theorem Counted.mono (h : l.Counted holds) (hholds : ∀ i slot v, holds i slot v → holds' i slot v) :
    l.Counted holds' where
  filed slot group hgroup i acc hacc :=
    (h.filed slot group hgroup i acc hacc).mono (List.Subset.refl _) hholds
  keyed := h.keyed
  chosen slot e he hstatus := by
    obtain ⟨S, hquorum, hS⟩ := h.chosen slot e he hstatus
    exact ⟨S, hquorum, fun i hi => (hS i hi).mono (List.Subset.refl _) hholds⟩

/-- What a leader has asked for it has asked for later. -/
theorem Counted.asked (h : l.Counted holds) (haccepts : l.accepts ⊆ l'.accepts)
    (hfiled : l'.inFlightAccepted = l.inFlightAccepted) (hproposals : l'.proposals = l.proposals)
    (hframe : l'.frame = l.frame) : l'.Counted holds where
  filed slot group hgroup i acc hacc :=
    (h.filed slot group (by rwa [hfiled] at hgroup) i acc hacc).mono haccepts (fun _ _ _ hv => hv)
  keyed := by
    rw [hproposals]
    exact h.keyed
  chosen slot e he hstatus := by
    rw [hproposals] at he
    obtain ⟨S, hquorum, hS⟩ := h.chosen slot e he hstatus
    exact ⟨S, by rwa [hframe], fun i hi => (hS i hi).mono haccepts (fun _ _ _ hv => hv)⟩

/-- An entry is stored in its slot; if it is taken for chosen, a quorum has accepted it. -/
theorem Counted.insert (h : l.Counted holds) {slot : Slot} {e : ProposalEntry}
    (hslot : e.proposal.slot = slot)
    (hchosen : e.status = .chosen → ∃ S : Finset NodeId, l.frame.quorum ≤ S.card ∧
      ∀ i ∈ S, l.Vouched holds e.proposal.slot e.proposal.ballot i) :
    { l with proposals := l.proposals.insert slot e }.Counted holds where
  filed := h.filed
  keyed slot' e' he' := by
    replace he' : (l.proposals.insert slot e).get? slot' = some e' := he'
    rw [OrdMap.get?_insert] at he'
    split at he'
    · next hs =>
      rw [← Option.some.inj he', hs]
      exact hslot
    · exact h.keyed slot' e' he'
  chosen slot' e' he' hstatus := by
    replace he' : (l.proposals.insert slot e).get? slot' = some e' := he'
    rw [OrdMap.get?_insert] at he'
    split at he'
    · obtain rfl := Option.some.inj he'
      exact hchosen hstatus
    · exact h.chosen slot' e' he' hstatus

/-- **A step** keeps the count, where the acceptances come as messages. -/
theorem Step.counted (h : Step (.vouching holds) l l')
    (hev : l.frame.config.isEventDriven = true) (hl : l.Counted holds) : l'.Counted holds := by
  cases h with
  | setPhase | promised | elected | raised | learned =>
      exact hl.asked (List.Subset.refl _) rfl rfl rfl
  | broadcast | resent => exact hl.asked (List.subset_append_left ..) rfl rfl rfl
  | @created value hphase =>
      have hstored := hl.insert (e := { proposal := l.nextProposal value, status := .inFlight })
        rfl nofun
      exact hstored.asked (List.Subset.refl _) rfl rfl rfl
  | @accepted acc i hacc =>
      -- an acceptance goes to its sender in the group of its slot
      refine { hl with filed := fun slot group hgroup j acc' hacc' => ?_ }
      replace hgroup : (l.inFlightAccepted.insert acc.slot
        (((l.inFlightAccepted.get? acc.slot).getD ∅).insert i acc)).get? slot = some group := hgroup
      rw [OrdMap.get?_insert] at hgroup
      split at hgroup
      · obtain rfl := Option.some.inj hgroup
        rw [OrdMap.get?_insert] at hacc'
        split at hacc'
        · next hj =>
          rw [← Option.some.inj hacc', hj]
          exact hacc
        · cases hold : l.inFlightAccepted.get? acc.slot with
          | none =>
              rw [hold] at hacc'
              cases hacc'
          | some old =>
              rw [hold] at hacc'
              exact hl.filed acc.slot old hold j acc' hacc'
      · exact hl.filed slot group hgroup j acc' hacc'
  | @chosen slot e he hstatus hacc =>
      refine hl.insert (hl.keyed slot e he) (fun _ => ?_)
      -- the senders of the acceptances that were counted
      obtain ⟨group, hgroup, hquorum⟩ := hacc hev
      obtain ⟨S, hS, hvoters⟩ := group.exists_voters (fun a => decide (a.slot = e.proposal.slot) &&
        decide (a.ballot = e.proposal.ballot) && a.success)
      refine ⟨S, by rw [hS]; exact hquorum, fun i hi => ?_⟩
      obtain ⟨acc, hget, hmatch⟩ := hvoters i hi
      simp only [Bool.and_eq_true, decide_eq_true_eq] at hmatch
      obtain ⟨⟨hslot, hballot⟩, -⟩ := hmatch
      have hvouched := hl.filed slot group hgroup i acc hget
      rwa [hslot, hballot] at hvouched
  | @reserved slot e he => exact hl.insert (hl.keyed slot e he) nofun
  | @finalized slot e he => exact hl.insert (hl.keyed slot e he) nofun

theorem Steps.counted (h : Steps (.vouching holds) l l')
    (hev : l.frame.config.isEventDriven = true) (hl : l.Counted holds) : l'.Counted holds := by
  have hboth := h.invariant (P := fun x => x.frame = l.frame ∧ x.Counted holds)
    (fun x x' hs hx => ⟨hs.frame_eq.trans hx.1, hs.counted (by rw [hx.1]; exact hev) hx.2⟩) ⟨rfl, hl⟩
  exact hboth.2

end Leader

namespace Cluster

/-! ## The acceptors counted

An acceptor keeps what it has accepted. That is the value the leader takes for chosen, if the leader has
asked for one value only in the slot under its ballot. -/

/-- Every value a proposer has marked as chosen, a majority of the acceptors holds. -/
def HoldsChosen (m : Membership) (c : Cluster) : Prop :=
  ∀ x ∈ c.values, ∀ p ∈ x.node.proposer?, ∀ entry ∈ p.proposer.proposals.entries,
    entry.2.status = .chosen →
      Chosen m.acceptorIds (fun i v => c.accepted? i entry.1 = some v) entry.2.proposal.value

/-- **One value for each slot and ballot**: no proposer keeps a proposal after it has asked for another
value in its slot under its ballot. -/
def OneValue (c : Cluster) : Prop :=
  ∀ x ∈ c.values, ∀ p ∈ x.node.proposer?, ∀ e ∈ p.proposer.proposals.values,
    ∀ acc ∈ acceptsOf x.sent.proposer, acc.slot = e.proposal.slot → acc.ballot = e.proposal.ballot →
      acc.value = e.proposal.value

instance (m : Membership) : DecidablePred (HoldsChosen m) :=
  fun c => inferInstanceAs (Decidable (∀ x ∈ c.values, _))

instance : DecidablePred OneValue := fun c => inferInstanceAs (Decidable (∀ x ∈ c.values, _))

/-- What the acceptors of the cluster hold. -/
def holdings (c : Cluster) (i : NodeId) (slot : Slot) (v : Value) : Prop := c.accepted? i slot = some v

/-- **What the proposers of a cluster have counted** the acceptors hold. -/
def Counts (c : Cluster) : Prop :=
  ∀ i x p, c.get? i = some x → x.node.proposer? = some p → (p.leader []).Counted c.holdings

variable {K : Facts} {L : NodeId → Slot → Prop} {m : Membership} {config : RunConfig} {hash : String → Nat}
  {c : Cluster} {e : Event}

/-! ## Runs of a cluster -/

/-- An acceptance that arrives is of what its receiver has asked for, and its sender holds the value. -/
theorem Sound.vouched (hs : c.Sound K L m config) (hfirst : c.All m (fun _ => Process.FirstLife))
    (hmemory : config.persistentStorage = false) {node : Node} {x : Process} {p : ProposerAgent}
    (hx : c.get? node.nodeId = some x) (hp : x.node.proposer? = some p) {env : Env} {msg : NetworkMessage}
    {acc : Accepted} (hserves : Serves c e node.nodeId (.message env msg))
    (hacc : msg.payload = .accepted acc) :
    (p.leader []).Vouched c.holdings acc.slot acc.ballot msg.sender.nodeId := by
  obtain ⟨_, _, _, hlife⟩ := hfirst node.nodeId x hx
  cases hserves with
  | call hno => exact absurd rfl (hno env msg)
  | @deliver i _ outlet _ _ y s hy hk hj =>
      obtain ⟨node', -, rfl, hsound⟩ := hs i y hy
      have hmem := List.mem_of_getElem? hk
      cases outlet with
      | proposer =>
          have hsays := (hsound.sent.proposer s hmem).2
          rw [hacc] at hsays
          exact hsays.elim
      | learner =>
          have hans := (hsound.sent.learner s hmem).1.2
          rw [hacc] at hans
          exact hans.elim
      | acceptor =>
          obtain ⟨_, _, _, hlife'⟩ := hfirst node'.nodeId y hy
          replace hmem : s ∈ y.sent.acceptor := hmem
          rw [hlife'.sent_eq, PaxosCoordinator.logs] at hmem
          cases ha : y.node.acceptor? with
          | none =>
              rw [ha] at hmem
              exact absurd hmem List.not_mem_nil
          | some a =>
              rw [ha] at hmem
              obtain ⟨hacceptor, -⟩ := hsound.now.acceptor a ha
              obtain ⟨hsender, hans⟩ := hacceptor.answers s hmem
              rw [hacc] at hans
              -- the acceptance goes to the node that has asked for the value
              obtain ⟨q, v, htargets, ⟨x', hx', hasked⟩, hbacks⟩ := hans
              rw [htargets, List.map_singleton, List.mem_singleton] at hj
              rw [← hj, hx] at hx'
              obtain rfl := Option.some.inj hx'
              rw [hlife.sent_eq, PaxosCoordinator.logs, hp] at hasked
              rw [hsender]
              exact ⟨v, hasked, accepted?_eq_some.mpr
                ⟨y, a, hy, ha, hbacks (by rw [hacceptor.config_eq, hmemory])⟩⟩

/-- A call counts what the acceptors hold after it. -/
theorem counts_called (hs : c.Sound K L m config) (hfirst : c.All m (fun _ => Process.FirstLife))
    (hev : config.isEventDriven = true) (hmemory : config.persistentStorage = false)
    (hc : c.Counts) (hrestart : e.isRestart = false) : (step hash c e).Counts := by
  rcases step_calls hash c hrestart with he | ⟨j, x, e', hx, hserves, hrun, he⟩
  · rw [he]
    exact hc
  · obtain ⟨node, hnode, rfl, hsound⟩ := hs j x hx
    have hset := hsound.now.setUp
    rw [he]
    -- what is held is held after the call
    have hkeeps : ∀ i slot v, c.holdings i slot v →
        holdings (OrdMap.insert c node.nodeId (x.called e')) i slot v :=
      fun i slot v hv => accepted?_called hx hset hmemory e' hv
    intro i y p' hy hp'
    rw [OrdMap.get?_insert] at hy
    split at hy
    · next hi =>
      obtain rfl := Option.some.inj hy
      have hsome := (x.node.isSome_call e').1
      rw [show (Process.call x.node e').2.proposer? = some p' from hp'] at hsome
      obtain ⟨p, hp⟩ := Option.isSome_iff_exists.mp hsome.symm
      obtain ⟨hconfig, hself, -⟩ := hset.proposer p hp
      have hset' := hset.call e'
      have hallows : x.node.Allows (.vouching
          (holdings (OrdMap.insert c node.nodeId (x.called e')))) p e' :=
        { config_eq := hconfig.trans hset.config_eq.symm
          disabled := fun a ha => (hset.acceptor a ha).2
          message := fun env msg hmsg => ⟨fun _ _ => ⟨trivial, fun _ _ _ _ => trivial⟩,
            fun acc hacc => by
              rw [hmsg] at hserves
              exact (hs.vouched hfirst hmemory hx hp hserves hacc).mono (List.Subset.refl _) hkeeps⟩
          usurps := fun _ _ _ => Or.inr trivial
          promise := fun _ _ _ => trivial
          resets := fun _ _ _ => trivial
          locally := fun a ha slot ballot value hbacks l hl => ⟨value, hl, ?_⟩ }
      · obtain ⟨p'', pending, hp'', hsteps, -⟩ := PaxosCoordinator.steps_call hp hallows
        obtain rfl := Option.some.inj (hp''.symm.trans hp')
        have hcounted := hsteps.counted (by
          show p.config.isEventDriven = true
          rw [hconfig, hev]) ((hc node.nodeId x p hx hp).mono hkeeps)
        exact ⟨hcounted.filed, hcounted.keyed, hcounted.chosen⟩
      · -- the node's own acceptance
        obtain ⟨hconfig', -⟩ := hset'.acceptor a ha
        rw [hself]
        exact accepted?_eq_some.mpr ⟨x.called e', a, OrdMap.get?_insert_self .., ha,
          hbacks (by rw [hconfig', hmemory])⟩
    · -- no other node is touched
      exact (hc i y p' hy hp').mono hkeeps

theorem counts_start {launch : Launch} : (start launch m).Counts := by
  have hstart : All m (fun _ x => ∀ p, x.node.proposer? = some p →
      ∀ holds, (p.leader []).Counted holds) (start launch m) := by
    refine all_start (fun node _ x hx p hp holds => ?_)
    obtain ⟨n, hn, rfl⟩ := Option.map_eq_some_iff.mp hx
    obtain rfl := PaxosCoordinator.proposer?_new hn hp
    obtain ⟨frame, ballot, hleader⟩ := ProposerAgent.leader_new (launch.dirs node.nodeId).proposer
      (launch.env node.nodeId) node (m.others node) (launch.isLeader node.nodeId) launch.config
    rw [hleader]
    exact ⟨nofun, nofun, nofun⟩
  intro i x p hx hp
  obtain ⟨_, _, _, hall⟩ := hstart i x hx
  exact hall p hp _

theorem counts_run {launch : Launch} (hev : launch.config.isEventDriven = true)
    (hmemory : launch.config.persistentStorage = false) (hfresh : ∀ i, (launch.dirs i).Fresh)
    {es : List Event} (hrestart : NoRestarts es) :
    (run (step launch.hash) (start launch m) es).Counts := by
  induction es using List.reverseRecOn with
  | nil => exact counts_start
  | append_singleton es e ih =>
      have hes : NoRestarts es := fun e' he' => hrestart e' (List.mem_append_left _ he')
      rw [run_snoc]
      exact counts_called (sound_run (m := m) hfresh es) (firstLife_run hmemory hes) hev hmemory (ih hes)
        (hrestart e (List.mem_append_right _ (List.mem_singleton_self e)))

/-- The acceptors counted for a chosen value hold it, if its proposer has asked for no other value. -/
theorem Counts.holdsChosen (hc : c.Counts) (hs : c.Sound K L m config)
    (hfirst : c.All m (fun _ => Process.FirstLife)) (hone : c.OneValue) : c.HoldsChosen m := by
  intro x hx p hp entry hentry hstatus
  obtain ⟨slot, e⟩ := entry
  obtain ⟨i, hi⟩ := OrdMap.mem_values.mp hx
  obtain ⟨node, hnode, rfl, hsound⟩ := hs i x hi
  obtain ⟨_, _, _, hlife⟩ := hfirst node.nodeId x hi
  have hget := OrdMap.mem_entries.mpr hentry
  have hcounted := hc node.nodeId x p hi hp
  obtain rfl := hcounted.keyed slot e hget
  obtain ⟨S, hquorum, hS⟩ := hcounted.chosen e.proposal.slot e hget hstatus
  have hholds : ∀ k ∈ S, c.accepted? k e.proposal.slot = some e.proposal.value := by
    intro k hk
    obtain ⟨v, hasked, hv⟩ := hS k hk
    have hsent : { slot := e.proposal.slot, ballot := e.proposal.ballot, value := v : Accept } ∈
        acceptsOf x.sent.proposer := by
      rw [hlife.sent_eq, PaxosCoordinator.logs, hp]
      exact hasked
    rw [← hone x hx p hp e (OrdMap.mem_values.mpr ⟨_, hget⟩) _ hsent rfl rfl]
    exact hv
  refine ⟨S, Membership.majority_of_quorum (fun k hk => ?_) ?_, hholds⟩
  · obtain ⟨y, a, hy, ha, -⟩ := accepted?_eq_some.mp (hholds k hk)
    obtain ⟨node', hnode', rfl, hsound'⟩ := hs k y hy
    exact Membership.mem_acceptorIds_of_role hnode'
      (hsound'.now.setUp.acceptor_role (by rw [ha]; rfl))
  · rw [← (hsound.now.setUp.proposer p hp).2.2]
    exact hquorum

/-- **Chosen means accepted by a majority**: where nothing is stored and no node is restarted, in every
state of a run in which no proposer keeps a proposal after it has asked for another value in its slot
under its ballot, a majority of the acceptors holds every value marked as chosen. -/
theorem chosen_held (launch : Launch) (m : Membership) (hev : launch.config.isEventDriven = true)
    (hmemory : launch.config.persistentStorage = false) (hfresh : ∀ i, (launch.dirs i).Fresh)
    (es : List Event) (hrestart : NoRestarts es)
    (hone : Throughout (step launch.hash) OneValue (start launch m) es) :
    Throughout (step launch.hash) (HoldsChosen m) (start launch m) es := by
  intro es' hes
  have hrestart' : NoRestarts es' := fun e he => hrestart e (hes.subset he)
  exact (counts_run hev hmemory hfresh hrestart').holdsChosen (sound_run hfresh es')
    (firstLife_run hmemory hrestart') (hone es' hes)

/-! ### One slot proposed twice -/

/-- The proposers send the learns, and nothing is stored. -/
def proposersSend : RunConfig := { RunConfig.inMemory with acceptorsSendLearns := false }

/-- Node 1 leads, and completes Phase 1 with two promises; its prepare has reached all acceptors. It
proposes a first request in slot 1. -/
def firstProposed : List Event :=
  [.call 1 (.tick { Env.quiet with now := 10000 }), .deliver 1 .proposer 0 21 .quiet,
    .deliver 21 .learner 0 1 .quiet, .call 1 (.tick .quiet), .call 1 (.tick .quiet),
    .deliver 1 .proposer 1 11 .quiet, .deliver 1 .proposer 1 12 .quiet,
    .deliver 1 .proposer 1 13 .quiet, .deliver 11 .acceptor 0 1 .quiet,
    .deliver 12 .acceptor 0 1 .quiet, .call 1 (.submitClientRequest (setX "a")),
    .call 1 (.tick .quiet), .deliver 1 .proposer 2 11 .quiet, .deliver 11 .acceptor 1 1 .quiet]

/-- The promise of acceptor 13 arrives once the first request is proposed. -/
def latePromise : List Event :=
  [.deliver 13 .acceptor 0 1 .quiet, .call 1 (.submitClientRequest (setX "b")),
    .call 1 (.tick .quiet), .deliver 1 .proposer 3 12 .quiet, .deliver 12 .acceptor 1 1 .quiet]

theorem chosen_held_by_two_acceptors :
    Throughout (step (Launch.led proposersSend).hash) (HoldsChosen sevenNodes)
      (start (.led proposersSend) sevenNodes)
      (firstProposed ++ [.deliver 1 .proposer 2 12 .quiet, .deliver 12 .acceptor 1 1 .quiet]) :=
  chosen_held (.led proposersSend) sevenNodes rfl rfl (Launch.fresh_idle proposersSend) _ (by decide)
    (by decide)

/-- **A late promise**: it moves the slot counter back to slot 1, where the second request is proposed
under the same ballot. Acceptor 11 has acknowledged the first request and acceptor 12 the second, which
is marked as chosen. -/
theorem chosen_by_one_acceptor :
    ¬ (1 ≡ 2 [MOD sevenNodes.acceptorIds.card]) ∧ NoRestarts (firstProposed ++ latePromise) ∧
      Fifo (firstProposed ++ latePromise) ∧
      ¬ Throughout (step (Launch.led proposersSend).hash) (HoldsChosen sevenNodes)
        (start (.led proposersSend) sevenNodes) (firstProposed ++ latePromise) := by
  refine ⟨by decide, by decide, by decide, fun hholds => ?_⟩
  exact absurd hholds.last (by decide)

end Cluster

end PaxosWasm
