import PaxosWasm.Cluster.PhaseOneRounds

/-!
# What a promise quorum covers

A promise reports what its acceptor has accepted from the slot of the prepare on that it answers. The
quorum is looked for among the promises for the highest ballot, and the values are collected from the
slot of the promise that has arrived last: a promise for an older round, or for an earlier round of the
same ballot, may be about a smaller slot than the promises of the quorum.
-/

namespace PaxosWasm

open Library Campaign

/-- The promise answers the prepare. -/
def Promise.Answers (q : Promise) (pr : Prepare) : Prop := q.slot = pr.slot ∧ q.ballot = pr.ballot

instance (q : Promise) (pr : Prepare) : Decidable (q.Answers pr) :=
  inferInstanceAs (Decidable (_ ∧ _))

def MessagePayload.promise? : MessagePayload → Option Promise
  | .promise p => some p
  | _ => none

namespace ProposerAgent

variable {a : ProposerAgent} {g : Campaign.Given}

/-- The promises on which Phase 1 completes when `promise` arrives, with their ballot, if the slot
counter is moved to just before its slot. -/
def resetBy (a : ProposerAgent) (promise : Promise) (sender : Node) :
    Option (Ballot × List Promise) :=
  (a.insertAndCheckPromises promise sender).1.filter (fun group =>
    decide (a.Completes group.2 ∧ a.proposer.currentSlot ≤ promise.slot))

theorem currentSlot_handlePromise (sender : Node) (promise : Promise) :
    (a.handlePromise sender promise).proposer.currentSlot =
      if (a.resetBy promise sender).isSome then promise.slot - 1 else a.proposer.currentSlot := by
  have hproposer := a.proposer_insertAndCheckPromises promise sender
  unfold resetBy
  rcases a.handlePromise_eq sender promise with ⟨he, hnone⟩ | ⟨group, hgroup, he⟩
  · rw [he, hproposer, hnone]
    rfl
  · rw [he, hgroup, proposer_handlePrepareResult, Option.filter_some]
    show ((a.insertAndCheckPromises promise sender).2.proposer.processPrepare promise.slot
      group.2).2.currentSlot = _
    rw [hproposer]
    have hsuccess := processPrepare_eq_success_iff a.proposer promise.slot group.2
    rcases a.proposer.processPrepare_cases promise.slot group.2 with hres | ⟨hquorum, values, hres⟩
    · have hno : ¬ a.Completes group.2 := by
        intro hquorum
        have hfalse := hsuccess.mpr hquorum
        rw [hres] at hfalse
        cases hfalse
      simp [hres, hno]
    · have hyes : a.Completes group.2 := hquorum
      by_cases hpast : a.proposer.currentSlot ≤ promise.slot
      · simp [hres, hyes, hpast, Nat.not_lt.mpr hpast]
      · simp [hres, hyes, hpast, Nat.lt_of_not_le hpast]

end ProposerAgent

/-! ## Every promise answers a prepare

Promises are filed with their ballots, but not with the slots they start from. A quorum for a ballot may
be made of promises from different slots on. -/

/-- The promises received answer prepares, and are filed under their ballots. -/
def Campaign.Answered (past : List Prepare) (c : Campaign) : Prop :=
  ∀ ballot group, c.promises.get? ballot = some group → ∀ i q, group.get? i = some q →
    q.ballot = ballot ∧ ∃ pr ∈ past ++ c.prepares, q.Answers pr

/-- Only answers to prepares arrive. -/
def Campaign.Given.answers (past : List Prepare) : Campaign.Given where
  promise := fun c q _ => ∃ pr ∈ past ++ c.prepares, q.Answers pr
  raises := fun _ => True
  reopens := fun _ => True

namespace Campaign.Answered

variable {past : List Prepare} {c c' : Campaign}

theorem mono (h : c.Answered past) (hpromises : c'.promises = c.promises)
    (hprepares : c.prepares ⊆ c'.prepares) : c'.Answered past := by
  intro ballot group hgroup i q hq
  obtain ⟨hballot, pr, hpr, hans⟩ := h ballot group (hpromises ▸ hgroup) i q hq
  refine ⟨hballot, pr, ?_, hans⟩
  rcases List.mem_append.mp hpr with hpr | hpr
  · exact List.mem_append_left _ hpr
  · exact List.mem_append_right _ (hprepares hpr)

/-- A promise is filed. -/
theorem insert (h : c.Answered past) {q : Promise} {i : NodeId}
    (hq : ∃ pr ∈ past ++ c.prepares, q.Answers pr) :
    Campaign.Answered past { c with
      promises := c.promises.insert q.ballot (((c.promises.get? q.ballot).getD ∅).insert i q) } := by
  intro ballot group hgroup j q' hq'
  replace hgroup : (c.promises.insert q.ballot
    (((c.promises.get? q.ballot).getD ∅).insert i q)).get? ballot = some group := hgroup
  rw [OrdMap.get?_insert] at hgroup
  split at hgroup
  · next hballot =>
    subst hballot
    obtain rfl := Option.some.inj hgroup
    rw [OrdMap.get?_insert] at hq'
    split at hq'
    · obtain rfl := Option.some.inj hq'
      exact ⟨rfl, hq⟩
    · -- filed before
      cases hold : c.promises.get? q.ballot with
      | none =>
          rw [hold] at hq'
          simp at hq'
      | some group =>
          rw [hold] at hq'
          exact h q.ballot group hold j q' hq'
  · exact h ballot group hgroup j q' hq'

theorem step (h : c.Answered past) (hstep : Step (.answers past) c c') : c'.Answered past := by
  cases hstep with
  | saved | flushed | raised => exact h.mono rfl (List.Subset.refl _)
  | opened | reopened => exact h.mono rfl (List.subset_append_left ..)
  | promised hq => exact h.insert hq

end Campaign.Answered

namespace Process

/-- The promise an event delivers, and its sender. -/
def Event.arrival? : Event → Option (Promise × Node)
  | .message _ m => m.payload.promise?.map (fun q => (q, m.sender))
  | _ => none

/-- A promise that arrives answers a prepare of the process. -/
def Genuine (x : Process) (e : Event) : Prop :=
  ∀ arrival ∈ e.arrival?, ∃ pr ∈ x.prepares, arrival.1.Answers pr

/-- **The quorum covers the range it is used for**: if the arrival of a promise for slot `m` moves the
slot counter to just before `m`, all the promises handed on answer prepares for slots up to `m`. -/
def Covers (x : Process) (e : Event) : Prop :=
  x.running = true → ∀ p ∈ x.node.proposer?, ∀ arrival ∈ e.arrival?,
    ∀ group ∈ p.resetBy arrival.1 arrival.2, ∀ q ∈ group.2,
      ∃ pr ∈ x.prepares, q.Answers pr ∧ pr.slot ≤ arrival.1.slot

/-- **A promise for an earlier range**: its arrival moves the slot counter to just before its slot on a
quorum for a ballot that has been prepared from a greater slot on. -/
def Outdated (x : Process) (e : Event) : Prop :=
  x.running = true ∧ ∃ p ∈ x.node.proposer?, ∃ arrival ∈ e.arrival?,
    ∃ group ∈ p.resetBy arrival.1 arrival.2,
      ∃ pr ∈ x.prepares, pr.ballot = group.1 ∧ arrival.1.slot < pr.slot

instance (x : Process) (e : Event) : Decidable (x.Genuine e) :=
  inferInstanceAs (Decidable (∀ arrival ∈ e.arrival?, _))

instance (x : Process) (e : Event) : Decidable (x.Covers e) := inferInstanceAs (Decidable (_ → _))

instance (x : Process) (e : Event) : Decidable (x.Outdated e) := inferInstanceAs (Decidable (_ ∧ _))

variable {x : Process} {e : Event} {m : Membership} {node : Node} {config : RunConfig}

/-- The promises of a process answer its prepares. -/
def Answered (x : Process) : Prop :=
  ∀ p, x.node.proposer? = some p → p.campaign.Answered (preparesOf x.past.proposer)

theorem answered_of_new {hash : String → Nat} {dirs : PaxosCoordinator.Dirs} {env : Env}
    {nodes : List Node} {isLeader : Bool} {n : PaxosCoordinator} {past : Logs} {running : Bool}
    (hnew : PaxosCoordinator.new hash dirs env node nodes isLeader config = some n) :
    Answered { node := n, running, past } := by
  intro p hp ballot group hgroup
  rw [PaxosCoordinator.proposer?_new hnew hp, ProposerAgent.campaign_new] at hgroup
  simp at hgroup

theorem Answered.step (h : x.Answered) (hash : String → Nat) (hgenuine : x.Genuine e) :
    (Process.step hash x e).Answered := by
  rcases step_cases hash x e with ⟨env, isLeader, k, n, rfl, hnew, he⟩ | ⟨_, _, he⟩ | he
  · rw [he]
    exact answered_of_new hnew
  · rw [he]
    intro p' hp'
    replace hp' : (call x.node e).2.proposer? = some p' := hp'
    have hsome := (PaxosCoordinator.isSome_call x.node e).1
    rw [hp'] at hsome
    obtain ⟨p, hp⟩ := Option.isSome_iff_exists.mp hsome.symm
    have harrives : ∀ env m q, e = .message env m → m.payload = .promise q →
        ∃ pr ∈ preparesOf x.past.proposer ++ p.campaign.prepares, q.Answers pr := by
      rintro env m q rfl hq
      rw [← prepares_eq hp]
      exact hgenuine (q, m.sender) (by simp [Event.arrival?, hq, MessagePayload.promise?])
    have hlocal : ∀ (c : Campaign) slot ballot accepted, ({ slot, ballot } : Prepare) ∈ c.prepares →
        ∃ pr ∈ preparesOf x.past.proposer ++ c.prepares,
          ({ slot, ballot, accepted } : Promise).Answers pr := by
      intro c slot ballot accepted hmem
      exact ⟨_, List.mem_append_right _ hmem, rfl, rfl⟩
    obtain ⟨p'', hp'', hsteps⟩ := PaxosCoordinator.rounds_call
      (g := .answers (preparesOf x.past.proposer)) hp (fun _ => trivial) harrives
      (fun _ _ _ _ => trivial) hlocal
    obtain rfl := Option.some.inj (hp''.symm.trans hp')
    exact hsteps.invariant (fun _ _ hs hc => hc.step hs) (h p hp)
  · rw [he]
    exact h

/-- Where the promises answer prepares, only a promise for an earlier range leaves something out. -/
theorem Answered.covers (h : x.Answered) (hgenuine : x.Genuine e) (hrange : ¬ x.Outdated e) :
    x.Covers e := by
  intro hrun p hp arrival harrival group hgroup q hq
  -- the group is one of those filed, the arriving promise included
  obtain ⟨hsome, _⟩ := Option.filter_eq_some_iff.mp hgroup
  obtain ⟨entries, hget, hvalues⟩ := ProposerAgent.insertAndCheckPromises_fst hsome
  have hfiled : (p.insertAndCheckPromises arrival.1 arrival.2).2.campaign.Answered
      (preparesOf x.past.proposer) := by
    rw [ProposerAgent.insertAndCheckPromises_snd]
    refine (h p hp).insert ?_
    rw [← prepares_eq hp]
    exact hgenuine arrival harrival
  have hprepares : (p.insertAndCheckPromises arrival.1 arrival.2).2.campaign.prepares =
      p.campaign.prepares := by
    rw [ProposerAgent.insertAndCheckPromises_snd]
    rfl
  rw [← hvalues] at hq
  obtain ⟨i, hi⟩ := OrdMap.mem_values.mp hq
  obtain ⟨hballot, pr, hpr, hans⟩ := hfiled group.1 entries hget i q hi
  rw [hprepares, ← prepares_eq hp] at hpr
  refine ⟨pr, hpr, hans, Nat.le_of_not_lt (fun hlt => ?_)⟩
  exact hrange ⟨hrun, p, hp, arrival, harrival, group, hgroup, pr, hpr, hans.2.symm.trans hballot, hlt⟩

end Process

/-- **What a promise quorum covers**: in every run of a node in which every promise that arrives answers
one of its prepares, and none is for an earlier range than the quorum it completes, the promises of a
quorum cover the range they are used for. -/
theorem promises_cover (hash : String → Nat) (dirs : PaxosCoordinator.Dirs) (env : Env)
    (m : Membership) (node : Node) (isLeader : Bool) (config : RunConfig) (x : Process)
    (es : List Process.Event)
    (hstart : Process.start hash dirs env m node isLeader config = some x)
    (hgenuine : Guarded (Process.step hash) Process.Genuine x es)
    (hrange : Guarded (Process.step hash) (fun x e => ¬ x.Outdated e) x es) :
    Guarded (Process.step hash) Process.Covers x es := by
  have hrun : ∀ (x : Process), x.Answered → ∀ es, Guarded (Process.step hash) Process.Genuine x es →
      Guarded (Process.step hash) (fun x e => ¬ x.Outdated e) x es →
      Guarded (Process.step hash) Process.Covers x es := by
    intro x hx es
    induction es generalizing x with
    | nil => exact fun _ _ => trivial
    | cons e es ih =>
        rintro ⟨hgenuine, hes⟩ ⟨hrange, hes'⟩
        exact ⟨hx.covers hgenuine hrange, ih _ (hx.step hash hgenuine) hes hes'⟩
  obtain ⟨n, hnew, rfl⟩ := Option.map_eq_some_iff.mp hstart
  exact hrun _ (Process.answered_of_new hnew) es hgenuine hrange

/-! ### Two rounds of one node -/

/-- The promise of an acceptor that has accepted nothing. -/
def promiseOf (i : NodeId) (slot : Slot) (ballot : Ballot) : Process.Event :=
  .message .quiet ⟨⟨i, "", .acceptor⟩, .promise { slot, ballot, accepted := [] }⟩

def aduIs (slot : Slot) : Process.Event := .message .quiet ⟨⟨21, "", .learner⟩, .adu slot⟩

/-- The round from slot 1 on times out; the cursor advances, and the round from slot 2 on is promised
by two of the three acceptors. -/
def secondRound : List Process.Event :=
  [aduIs 0, .tick .quiet, .tick .quiet, timeout, aduIs 1, .tick .quiet, promiseOf 11 2 7,
    promiseOf 12 2 7]

theorem promises_cover_second_round :
    Guarded (Process.step (fun _ => 0)) Process.Covers leadingProposer secondRound :=
  promises_cover (fun _ => 0) .empty .quiet oneProposer ⟨1, "", .proposer⟩ true .shipped leadingProposer
    secondRound rfl (by decide) (by decide)

/-- **A late promise for the round before**: the third acceptor promises the round from slot 1 on, and
the values are collected from slot 1 on, of promises that report from slot 2 on. -/
theorem promises_miss_first_slot :
    let es := secondRound ++ [promiseOf 13 1 4]
    Guarded (Process.step (fun _ => 0)) Process.Genuine leadingProposer es ∧
      ¬ Guarded (Process.step (fun _ => 0)) Process.Covers leadingProposer es := by
  decide

end PaxosWasm
