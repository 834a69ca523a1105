import PaxosWasm.Agents.ProposerRuns

/-!
# What a proposer agent passes on

The values a proposer agent proposes come from its clients, from the promises it collects, or from
its own proposals; the slot it prepares is the one after a cursor it was told; and its ballots are
its first one raised any number of times. So whatever is known of what comes in is known of what the
agent keeps, stores and sends.

`Facts` are what is known of values, cursors and ballots, closed under what a proposer does on its own:
it starts at cursor 0 and raises its ballots. `Sound` says of the core and then of the agent that all
they hold is known, and each piece of a handler keeps it. The facts are chosen later: submitted values
in one place, learned slots or ballots of one node in another.
-/

namespace PaxosWasm

open Library

/-- What is known of the values, the cursors and the ballots that pass through a proposer. -/
structure Facts where
  value : Value → Prop
  adu : Slot → Prop
  ballot : Ballot → Prop
  /-- A proposer starts at cursor 0. -/
  zero : adu 0
  /-- The step in which ballots are raised. -/
  delta : Ballot
  raise : ∀ b, ballot b → ballot (b + delta)

namespace Proposer

variable {K K' : Facts}

/-- **Everything the core proposer holds is known**, in memory and in its file. -/
structure Sound (K : Facts) (p : Proposer) : Prop where
  pending : ∀ v ∈ p.pendingClientRequests, K.value v
  prioritized : ∀ v ∈ p.prioritizedValues, K.value v
  proposed : ∀ slot e, p.proposals.get? slot = some e → K.value e.proposal.value
  adu : K.adu p.adu
  ballot : K.ballot p.currentBallot
  delta : p.ballotDelta = K.delta
  file : ∀ ps, p.storage.store.dir.state = some ps → K.ballot ps.currentBallot ∧ K.adu ps.adu

/-- The values of a promise are known. -/
def Reports (K : Facts) (p : Promise) : Prop :=
  ∀ pv ∈ p.accepted, ∀ v, pv.value = some v → K.value v

theorem Sound.mono (hvalue : ∀ v, K.value v → K'.value v) (hadu : ∀ a, K.adu a → K'.adu a)
    (hballot : ∀ b, K.ballot b → K'.ballot b) (hdelta : K.delta = K'.delta) {p : Proposer}
    (h : p.Sound K) : p.Sound K' where
  pending := fun v hv => hvalue v (h.pending v hv)
  prioritized := fun v hv => hvalue v (h.prioritized v hv)
  proposed := fun slot e he => hvalue _ (h.proposed slot e he)
  adu := hadu _ h.adu
  ballot := hballot _ h.ballot
  delta := h.delta.trans hdelta
  file := fun ps hps => ⟨hballot _ (h.file ps hps).1, hadu _ (h.file ps hps).2⟩

/-! ## The state file

It holds the ballot and the cursor that were saved last. -/

namespace StorageHelper

variable (h : StorageHelper) (env : Env)

theorem state_flushState : (h.flushState env).2.store.dir.state = h.store.dir.state := by
  have hflush : h.store.flushState.2.dir.state = h.store.dir.state := by
    obtain ⟨script, ⟨_, he⟩ | ⟨_, he⟩⟩ := h.store.attempt_cases id
    · exact congrArg (fun r => r.dir.state) he
    · exact congrArg (fun r => r.dir.state) he
  unfold flushState
  split
  · rfl
  · dsimp only
    split
    · next he =>
      rw [he] at hflush
      exact hflush
    · next he =>
      rw [he] at hflush
      exact hflush

theorem state_maybeFlushState : (h.maybeFlushState env).2.store.dir.state = h.store.dir.state := by
  have hflush := h.state_flushState env
  unfold maybeFlushState
  split
  · rfl
  · split
    · rfl
    · split
      · split
        · next he =>
          rw [he] at hflush
          exact hflush
        · next he =>
          rw [he] at hflush
          exact hflush
      · rfl

/-- The file holds what it held, or what was saved last. -/
theorem state_saveState (ballot : Ballot) (adu : Slot) :
    (h.saveState env ballot adu).2.store.dir.state = h.store.dir.state ∨
      (h.saveState env ballot adu).2.store.dir.state = some ⟨ballot, adu⟩ := by
  unfold saveState StorageResource.saveState
  split
  · exact Or.inl rfl
  · obtain ⟨script, ⟨hres, he⟩ | ⟨⟨e, hres⟩, he⟩⟩ := h.store.attempt_cases
      (fun r => { r with dir := { r.dir with state := some ⟨ballot, adu⟩ } })
    · right
      generalize h.store.attempt _ = saved at hres he ⊢
      obtain ⟨res, store⟩ := saved
      obtain rfl := hres
      dsimp only at he ⊢
      rw [state_maybeFlushState, he]
    · left
      generalize h.store.attempt _ = saved at hres he ⊢
      obtain ⟨res, store⟩ := saved
      obtain rfl := hres
      dsimp only at he ⊢
      rw [he]

end StorageHelper

/-! ## Call by call

The values come from clients or from promises, the cursor from a learner, and the ballot grows by its own
step. -/

variable {p : Proposer} (env : Env)

theorem Sound.enqueueClientRequest (h : p.Sound K) {req : Value} (hreq : K.value req) :
    (p.enqueueClientRequest req).2.Sound K := by
  refine { h with pending := fun v hv => ?_ }
  rcases List.mem_append.mp (show v ∈ p.pendingClientRequests ++ [req] from hv) with hv | hv
  · exact h.pending v hv
  · rw [List.mem_singleton.mp hv]
    exact hreq

theorem Sound.enqueuePrioritizedRequest (h : p.Sound K) {req : Value} (hreq : K.value req) :
    (p.enqueuePrioritizedRequest req).Sound K := by
  unfold Proposer.enqueuePrioritizedRequest
  split
  · exact h
  · refine { h with prioritized := fun v hv => ?_ }
    rcases List.mem_append.mp (show v ∈ p.prioritizedValues ++ [req] from hv) with hv | hv
    · exact h.prioritized v hv
    · rw [List.mem_singleton.mp hv]
      exact hreq

/-- What Phase 1 queues are the commands its promises report. -/
theorem mem_prioritized_processPrepare (minSlot : Slot) (promises : List Promise) :
    ∀ v ∈ (p.processPrepare minSlot promises).2.prioritizedValues, v ∈ p.prioritizedValues ∨
      (v.command.isSome ∧ ∃ pv ∈ reports promises, pv.value = some v) := by
  intro v hv
  cases hres : (p.processPrepare minSlot promises).1 with
  | success =>
      by_cases hpast : p.currentSlot > minSlot
      · -- the promises are not looked at
        left
        unfold processPrepare at hv
        dsimp only at hv
        split at hv
        · exact hv
        · rw [collectAcceptedValues, if_pos hpast] at hv
          exact hv
      · rw [processPrepare_of_success (Nat.le_of_not_lt hpast) hres] at hv
        obtain ⟨fresh, heq, _, hfresh, _⟩ := foldl_enqueueNew_cases p.prioritizedValues
          (commands (expected minSlot promises))
        dsimp only at hv
        rw [heq] at hv
        rcases List.mem_append.mp hv with hv | hv
        · exact Or.inl hv
        · obtain ⟨hreported, hcommand⟩ := List.mem_filter.mp (hfresh v hv).1
          obtain ⟨slot, _, hbest⟩ := List.mem_map.mp
            (show some v ∈ expected minSlot promises by simpa using hreported)
          obtain ⟨pv, hpv, hvalue⟩ := Option.bind_eq_some_iff.mp hbest
          exact Or.inr ⟨hcommand, pv, bestReport_mem hpv, hvalue⟩
  | _ =>
      rcases p.processPrepare_cases minSlot promises with he | ⟨_, queue, he⟩
      · rw [he] at hv
        exact Or.inl hv
      · rw [he] at hres
        cases hres

theorem Sound.processPrepare (h : p.Sound K) (minSlot : Slot) {promises : List Promise}
    (hreports : ∀ pr ∈ promises, Reports K pr) :
    (p.processPrepare minSlot promises).2.Sound K := by
  have hqueue := p.mem_prioritized_processPrepare minSlot promises
  rcases p.processPrepare_cases minSlot promises with he | ⟨_, queue, he⟩
  · rw [he]
    exact h
  · rw [he] at hqueue ⊢
    refine { h with prioritized := fun v hv => ?_ }
    rcases hqueue v hv with hv | ⟨_, pv, hpv, hvalue⟩
    · exact h.prioritized v hv
    · obtain ⟨pr, hpr, hmem⟩ := List.mem_flatMap.mp hpv
      exact hreports pr hpr pv hmem v hvalue

/-- An entry of a known value may be stored. -/
theorem Sound.store (h : p.Sound K) (slot : Slot) (e : ProposalEntry)
    (he : K.value e.proposal.value) : Sound K { p with proposals := p.proposals.insert slot e } := by
  refine { h with proposed := fun slot' e' he' => ?_ }
  rw [OrdMap.get?_insert] at he'
  split at he'
  · rw [← Option.some.inj he']
    exact he
  · exact h.proposed slot' e' he'

theorem Sound.createProposal (h : p.Sound K) :
    p.createProposal.2.Sound K ∧ ∀ prop, p.createProposal.1 = some prop → K.value prop.value := by
  unfold Proposer.createProposal nextValue
  split
  · exact ⟨h, nofun⟩
  · cases hprio : p.prioritizedValues with
    | cons v rest =>
        have hv := h.prioritized v (hprio ▸ List.mem_cons_self ..)
        refine ⟨?_, fun prop hprop => Option.some.inj hprop ▸ hv⟩
        have hstore := h.store (p.currentSlot + 1)
          { proposal := { slot := p.currentSlot + 1, ballot := p.currentBallot, value := v }
            status := .inFlight } hv
        exact { hstore with
          prioritized := fun w hw => h.prioritized w (hprio ▸ List.mem_cons_of_mem _ hw) }
    | nil =>
        cases hpend : p.pendingClientRequests with
        | nil => exact ⟨h, nofun⟩
        | cons v rest =>
            have hv := h.pending v (hpend ▸ List.mem_cons_self ..)
            refine ⟨?_, fun prop hprop => Option.some.inj hprop ▸ hv⟩
            have hstore := h.store (p.currentSlot + 1)
              { proposal := { slot := p.currentSlot + 1, ballot := p.currentBallot, value := v }
                status := .inFlight } hv
            exact { hstore with
              pending := fun w hw => h.pending w (hpend ▸ List.mem_cons_of_mem _ hw)
              prioritized := fun w hw => absurd hw List.not_mem_nil }

theorem Sound.markProposalChosen (h : p.Sound K) (slot : Slot) :
    (p.markProposalChosen slot).2.Sound K := by
  rcases p.markProposalChosen_cases slot with he | ⟨e, hget, _, he⟩
  · rw [he]
    exact h
  · rw [he]
    exact { h.store slot { e with status := .chosen } (h.proposed slot e hget) with }

theorem Sound.markProposalFinalized (h : p.Sound K) (slot : Slot) :
    (p.markProposalFinalized slot).2.Sound K ∧
      ∀ v, (p.markProposalFinalized slot).1 = some v → K.value v := by
  rcases p.markProposalFinalized_cases slot with he | ⟨e, hget, _, he⟩
  · rw [he]
    exact ⟨h, nofun⟩
  · rw [he]
    refine ⟨h.store slot { e with status := .finalized } (h.proposed slot e hget), fun v hv => ?_⟩
    rw [← Option.some.inj hv]
    exact h.proposed slot e hget

theorem Sound.reserveNextChosenProposal (h : p.Sound K) :
    p.reserveNextChosenProposal.2.Sound K ∧
      ∀ prop, p.reserveNextChosenProposal.1 = some prop → K.value prop.value := by
  rcases p.reserveNextChosenProposal_cases with ⟨slots, _, he⟩ | ⟨slot, slots, e, _, hget, he⟩
  · rw [he]
    exact ⟨{ h with }, nofun⟩
  · rw [he]
    refine ⟨{ h.store slot { e with status := .commitPending } (h.proposed slot e hget) with },
      fun prop hprop => ?_⟩
    rw [← Option.some.inj hprop]
    exact h.proposed slot e hget

/-- Saving a known state keeps the file known. -/
theorem Sound.saved (h : p.Sound K) {ballot : Ballot} {adu : Slot} (hballot : K.ballot ballot)
    (hadu : K.adu adu) :
    ∀ ps, (p.storage.saveState env ballot adu).2.store.dir.state = some ps →
      K.ballot ps.currentBallot ∧ K.adu ps.adu := by
  intro ps hps
  rcases p.storage.state_saveState env ballot adu with he | he
  · exact h.file ps (he ▸ hps)
  · rw [he] at hps
    rw [← Option.some.inj hps]
    exact ⟨hballot, hadu⟩

theorem Sound.setAdu (h : p.Sound K) {adu : Slot} (hadu : K.adu adu) :
    (p.setAdu env adu).Sound K :=
  { h with adu := hadu, file := h.saved env h.ballot hadu }

theorem Sound.raised (h : p.Sound K) : K.ballot (p.currentBallot + p.ballotDelta) := by
  rw [h.delta]
  exact K.raise _ h.ballot

theorem Sound.increaseBallot (h : p.Sound K) : (p.increaseBallot env).2.Sound K :=
  { h with ballot := h.raised, file := h.saved env h.raised h.adu }

theorem Sound.becomeLeader (h : p.Sound K) : (p.becomeLeader env).2.Sound K := by
  unfold Proposer.becomeLeader
  split
  · exact h
  · exact { h.increaseBallot env with }

theorem Sound.resignLeader (h : p.Sound K) : p.resignLeader.2.Sound K := by
  unfold Proposer.resignLeader
  split
  · exact { h with }
  · exact h

theorem Sound.maybeFlush (h : p.Sound K) : (p.maybeFlush env).2.Sound K := by
  refine { h with file := fun ps hps => ?_ }
  rw [show (p.maybeFlush env).2.storage.store.dir.state = p.storage.store.dir.state from
    p.storage.state_maybeFlushState env] at hps
  exact h.file ps hps

/-- A start over a known file. -/
theorem sound_loadState (h : p.Sound K) : p.loadState.2.Sound K := by
  have hload : ∀ b a, p.storage.loadState p.currentBallot p.adu = .ok (b, a) →
      K.ballot b ∧ K.adu a := by
    intro b a hba
    unfold StorageHelper.loadState at hba
    split at hba
    · obtain ⟨rfl, rfl⟩ := Prod.mk.inj (Except.ok.inj hba)
      exact ⟨h.ballot, h.adu⟩
    · split at hba
      · next ps hps =>
        obtain ⟨rfl, rfl⟩ := Prod.mk.inj (Except.ok.inj hba)
        exact h.file ps hps
      · cases hba
  unfold Proposer.loadState
  split
  · exact h
  · next b a hba => exact { h with ballot := (hload b a hba).1, adu := (hload b a hba).2 }

end Proposer

namespace ProposerAgent

open Proposer (Reports)

/-! ## The proposer agent

Besides its core, an agent has collected promises, keeps results, and has sent messages. `Says` is what is
asked of a message: only those with values, cursors or ballots say anything. -/

/-- What a proposer agent may send: known ballots and values, and as the slot to prepare the one
after a known cursor. -/
def Says (K : Facts) (node : Node) (s : Sent) : Prop :=
  s.message.sender = node ∧
    match s.message.payload with
    | .prepare p => K.ballot p.ballot ∧ ∃ adu, K.adu adu ∧ p.slot ≤ adu + 1
    | .accept a => K.value a.value
    | .learn l => K.value l.value
    | .adu adu => K.adu adu
    | .heartbeat => True
    | _ => False

/-- **What a proposer agent maintains.** The replies to a synchronous broadcast come from the
network, so there only facts that hold of every value are kept. -/
structure Sound (K : Facts) (node : Node) (config : RunConfig) (a : ProposerAgent) : Prop where
  node_eq : a.node = node
  config_eq : a.config = config
  mode : config.isEventDriven = true ∨ ∀ v, K.value v
  core : a.proposer.Sound K
  promised : ∀ ballot group i p, a.promises.get? ballot = some group → group.get? i = some p →
    Reports K p
  said : ∀ s ∈ a.networkClient.sent, Says K node s

variable {K K' : Facts} {node : Node} {config : RunConfig} {a : ProposerAgent} (env : Env)

theorem Says.mono (hvalue : ∀ v, K.value v → K'.value v) (hadu : ∀ a, K.adu a → K'.adu a)
    (hballot : ∀ b, K.ballot b → K'.ballot b) {s : Sent} (h : Says K node s) : Says K' node s := by
  obtain ⟨hsender, h⟩ := h
  refine ⟨hsender, ?_⟩
  split at h
  · obtain ⟨hb, adu, ha, hslot⟩ := h
    exact ⟨hballot _ hb, adu, hadu _ ha, hslot⟩
  · exact hvalue _ h
  · exact hvalue _ h
  · exact hadu _ h
  · trivial
  · exact h

theorem Sound.mono (hvalue : ∀ v, K.value v → K'.value v) (hadu : ∀ a, K.adu a → K'.adu a)
    (hballot : ∀ b, K.ballot b → K'.ballot b) (hdelta : K.delta = K'.delta)
    (h : a.Sound K node config) : a.Sound K' node config where
  node_eq := h.node_eq
  config_eq := h.config_eq
  mode := h.mode.imp_right (fun hall v => hvalue v (hall v))
  core := h.core.mono hvalue hadu hballot hdelta
  promised := fun ballot group i p hgroup hp pv hpv v hv =>
    hvalue v (h.promised ballot group i p hgroup hp pv hpv v hv)
  said := fun s hs => (h.said s hs).mono hvalue hadu hballot

/-- The core may change, as long as what it holds stays known. -/
theorem Sound.withCore (h : a.Sound K node config) {proposer : Proposer}
    (hp : proposer.Sound K) : Sound K node config { a with proposer } :=
  { h with core := hp }

/-- The clocks, the acceptances and the responses do not matter. -/
theorem Sound.congr {a' : ProposerAgent} (h : a.Sound K node config) (hnode : a'.node = a.node)
    (hconfig : a'.config = a.config) (hcore : a'.proposer = a.proposer)
    (hpromises : a'.promises = a.promises) (hsent : a'.networkClient = a.networkClient) :
    a'.Sound K node config where
  node_eq := hnode.trans h.node_eq
  config_eq := hconfig.trans h.config_eq
  mode := h.mode
  core := hcore ▸ h.core
  promised := hpromises ▸ h.promised
  said := hsent ▸ h.said

theorem Sound.send (h : a.Sound K node config) {ts : List Node} {payload : MessagePayload}
    (hsaid : Says K node { targets := ts, message := a.message payload }) :
    (a.send ts payload).Sound K node config := by
  refine { h with said := fun s hs => ?_ }
  rcases List.mem_append.mp (show s ∈ a.networkClient.sent ++ _ from hs) with hs | hs
  · exact h.said s hs
  · rw [List.mem_singleton.mp hs]
    exact hsaid

/-! ## Phase 1

Whatever the promises report may be proposed again, so it has to be known. -/

theorem Sound.setPhase (h : a.Sound K node config) (phase : PaxosPhase) :
    (a.setPhase phase).Sound K node config :=
  h.congr rfl rfl rfl rfl rfl

theorem Sound.checkPrepareTimeout (h : a.Sound K node config) :
    (a.checkPrepareTimeout env).2.Sound K node config := by
  unfold ProposerAgent.checkPrepareTimeout
  split
  · split
    · split
      · exact h.congr rfl rfl rfl rfl rfl
      · exact h
    · exact h
  · exact h

theorem Sound.insertAndCheckPromises (h : a.Sound K node config) {p : Promise} (hp : Reports K p)
    (sender : Node) : (a.insertAndCheckPromises p sender).2.Sound K node config := by
  rw [insertAndCheckPromises_snd]
  refine { h with promised := fun ballot group i q hgroup hq => ?_ }
  rw [OrdMap.get?_insert] at hgroup
  split at hgroup
  · rw [← Option.some.inj hgroup, OrdMap.get?_insert] at hq
    split at hq
    · rw [← Option.some.inj hq]
      exact hp
    · cases hold : a.promises.get? p.ballot with
      | none =>
          rw [hold] at hq
          exact absurd hq (by simp)
      | some old =>
          rw [hold] at hq
          exact h.promised _ old i q hold hq
  · exact h.promised ballot group i q hgroup hq

theorem Sound.processPromises (h : a.Sound K node config) (slot : Slot) {ps : List Promise}
    (hps : ∀ p ∈ ps, Reports K p) :
    ((a.processPromises slot ps).2.handlePrepareResult
      (a.processPromises slot ps).1).Sound K node config := by
  have hcore := h.withCore (h.core.processPrepare slot hps)
  unfold ProposerAgent.processPromises
  dsimp only
  generalize (a.proposer.processPrepare slot ps).1 = res
  cases res with
  | success => exact hcore.setPhase _
  | _ => exact hcore

theorem Sound.handlePromise (h : a.Sound K node config) {p : Promise} (hp : Reports K p)
    (sender : Node) : (a.handlePromise sender p).Sound K node config := by
  have hinsert := h.insertAndCheckPromises hp sender
  unfold ProposerAgent.handlePromise
  split
  · next b ps a' he =>
    obtain ⟨group, hgroup, rfl⟩ := insertAndCheckPromises_fst (congrArg Prod.fst he)
    rw [he] at hinsert hgroup
    refine hinsert.processPromises p.slot (fun q hq => ?_)
    obtain ⟨i, hi⟩ := OrdMap.mem_values.mp hq
    exact hinsert.promised b group i q hgroup hi
  · next a' he =>
    rw [he] at hinsert
    exact hinsert

/-- Phase 1 of a known ballot, for the slot after a known cursor. -/
theorem Sound.preparePhase (h : a.Sound K node config) {slot : Slot} {ballot : Ballot}
    (hballot : K.ballot ballot) (hslot : ∃ adu, K.adu adu ∧ slot ≤ adu + 1) {initial : List Promise}
    (hinitial : ∀ p ∈ initial, Reports K p) :
    (a.preparePhase env slot ballot initial).2.Sound K node config := by
  have hsend : (a.send a.acceptors (.prepare { slot, ballot })).Sound K node config :=
    h.send ⟨h.node_eq, hballot, hslot⟩
  have hfold : ∀ (ps : List Promise) (a : ProposerAgent), a.Sound K node config →
      (∀ p ∈ ps, Reports K p) →
      (ps.foldl (fun a p => (a.insertAndCheckPromises p a.node).2) a).Sound K node config := by
    intro ps
    induction ps with
    | nil => exact fun _ ha _ => ha
    | cons p ps ih =>
        intro a ha hps
        exact ih _ (ha.insertAndCheckPromises (hps p (List.mem_cons_self ..)) a.node)
          (fun q hq => hps q (List.mem_cons_of_mem _ hq))
  unfold ProposerAgent.preparePhase broadcastPrepare
  cases hev : a.config.isEventDriven with
  | true => exact hfold initial _ (hsend.congr rfl rfl rfl rfl rfl) hinitial
  | false =>
      have hall : ∀ v, K.value v := by
        rcases h.mode with hmode | hall
        · rw [← h.config_eq, hev] at hmode
          cases hmode
        · exact hall
      exact hsend.processPromises slot (fun p _ pv _ v _ => hall v)

/-! ## Phase 2

What is broadcast is a proposal of the core proposer under its ballot. -/

theorem Sound.insertAndCheckAccepted (h : a.Sound K node config) (acc : Accepted) (sender : Node) :
    (a.insertAndCheckAccepted acc sender).2.Sound K node config :=
  h.congr rfl rfl rfl rfl rfl

theorem Sound.handleAcceptResult (h : a.Sound K node config) (slot : Slot) (res : AcceptResult) :
    (a.handleAcceptResult slot res).Sound K node config := by
  cases res with
  | accepted n => exact h.withCore (h.core.markProposalChosen slot)
  | _ => exact h

theorem Sound.handleAccepted (h : a.Sound K node config) (sender : Node) (acc : Accepted) :
    (a.handleAccepted sender acc).Sound K node config := by
  have hinsert := h.insertAndCheckAccepted acc sender
  unfold ProposerAgent.handleAccepted
  split
  · next he =>
    rw [he] at hinsert
    exact hinsert.handleAcceptResult _ _
  · next he =>
    rw [he] at hinsert
    exact hinsert

theorem Sound.acceptPhase (h : a.Sound K node config) {value : Value} (hvalue : K.value value)
    (slot : Slot) (ballot : Ballot) (initial : List Accepted) :
    (a.acceptPhase env value slot ballot initial).2.Sound K node config := by
  have hsend : (a.send a.acceptors (.accept { slot, ballot, value })).Sound K node config :=
    h.send ⟨h.node_eq, hvalue⟩
  have hfold : ∀ (accs : List Accepted) (a : ProposerAgent), a.Sound K node config →
      (accs.foldl (fun a acc => (a.insertAndCheckAccepted acc a.node).2) a).Sound K node config := by
    intro accs
    induction accs with
    | nil => exact fun _ ha => ha
    | cons acc accs ih => exact fun a ha => ih _ (ha.insertAndCheckAccepted acc a.node)
  unfold ProposerAgent.acceptPhase broadcastAccept
  cases hev : a.config.isEventDriven with
  | true => exact hfold initial _ hsend
  | false => exact hsend.handleAcceptResult slot _

/-- A batch of proposals has known values. -/
theorem Sound.proposalsFor (h : a.Sound K node config) {toAccept : List Proposal}
    (hprops : ∀ prop ∈ toAccept, K.value prop.value) (fuel : Nat) :
    (a.proposalsFor toAccept fuel).2.Sound K node config ∧
      ∀ props, (a.proposalsFor toAccept fuel).1 = .ok props → ∀ prop ∈ props, K.value prop.value := by
  induction fuel generalizing a toAccept with
  | zero => exact ⟨h, fun props he => Except.ok.inj he ▸ hprops⟩
  | succ fuel ih =>
      obtain ⟨hcore, hvalue⟩ := h.core.createProposal
      unfold ProposerAgent.proposalsFor ProposerAgent.createProposal
      generalize a.proposer.createProposal = created at hcore hvalue
      obtain ⟨prop | _, proposer⟩ := created
      · exact ⟨h.withCore hcore, fun props he => Except.ok.inj he ▸ hprops⟩
      · next prop =>
        dsimp only
        split
        · exact ⟨h.withCore hcore, fun props he => by cases he⟩
        · refine ih (h.withCore hcore) (fun q hq => ?_)
          rcases List.mem_append.mp hq with hq | hq
          · exact hprops q hq
          · rw [List.mem_singleton.mp hq]
            exact hvalue prop rfl

theorem Sound.acceptAll (h : a.Sound K node config) {props : List Proposal}
    (hprops : ∀ prop ∈ props, K.value prop.value) :
    (a.acceptAll env props).2.Sound K node config := by
  induction props generalizing a with
  | nil => exact h
  | cons prop props ih =>
      have hphase := h.acceptPhase env (hprops prop (List.mem_cons_self ..)) prop.slot prop.ballot []
      unfold ProposerAgent.acceptAll
      split
      · next a' he =>
        rw [he] at hphase
        exact ih hphase (fun q hq => hprops q (List.mem_cons_of_mem _ hq))
      · next res a' hne he =>
        rw [he] at hphase
        exact hphase

/-! ## Learns and responses

A learn carries a stored proposal. A report brings a cursor with its results. -/

theorem Sound.broadcastLearn (h : a.Sound K node config) {learn : Learn}
    (hvalue : K.value learn.value) : (a.broadcastLearn learn).Sound K node config :=
  h.send ⟨h.node_eq, hvalue⟩

theorem Sound.learnsFor (h : a.Sound K node config) {learns : List Learn}
    (hlearns : ∀ l ∈ learns, K.value l.value) (fuel : Nat) :
    (a.learnsFor learns fuel).2.Sound K node config ∧
      ∀ l ∈ (a.learnsFor learns fuel).1, K.value l.value := by
  induction fuel generalizing a learns with
  | zero => exact ⟨h, hlearns⟩
  | succ fuel ih =>
      obtain ⟨hcore, hvalue⟩ := h.core.reserveNextChosenProposal
      unfold ProposerAgent.learnsFor ProposerAgent.reserveNextChosenProposal
      generalize a.proposer.reserveNextChosenProposal = reserved at hcore hvalue
      obtain ⟨prop | _, proposer⟩ := reserved
      · exact ⟨h.withCore hcore, hlearns⟩
      · next prop =>
        refine ih (h.withCore hcore) (fun l hl => ?_)
        rcases List.mem_append.mp hl with hl | hl
        · exact hlearns l hl
        · rw [List.mem_singleton.mp hl]
          exact hvalue prop rfl

theorem Sound.broadcastLearns (h : a.Sound K node config) {learns : List Learn}
    (hlearns : ∀ l ∈ learns, K.value l.value) :
    (learns.foldl ProposerAgent.broadcastLearn a).Sound K node config := by
  induction learns generalizing a with
  | nil => exact h
  | cons l learns ih =>
      exact ih (h.broadcastLearn (hlearns l (List.mem_cons_self ..)))
        (fun l' hl' => hlearns l' (List.mem_cons_of_mem _ hl'))

theorem Sound.collectClientResponses (h : a.Sound K node config) :
    a.collectClientResponses.2.Sound K node config := by
  have hfold : ∀ (fuel : Nat) (a : ProposerAgent) (out : List ClientResponse),
      a.Sound K node config → (a.responsesFor out fuel).2.Sound K node config := by
    intro fuel
    induction fuel with
    | zero => exact fun _ _ ha => ha
    | succ fuel ih =>
        intro a out ha
        unfold responsesFor
        split
        · exact ih _ _ (ha.congr rfl rfl rfl rfl rfl)
        · exact ha
  exact hfold _ a [] h

theorem Sound.acceptCommit (h : a.Sound K node config) :
    (a.acceptCommit env).2.Sound K node config := by
  obtain ⟨hprops, hvalues⟩ := h.proposalsFor (fun _ hp => absurd hp List.not_mem_nil)
    a.config.batchSize
  unfold ProposerAgent.acceptCommit proposalsToAccept
  split
  · next he =>
    rw [he] at hprops
    exact hprops
  · next props a₁ he =>
    rw [he] at hprops hvalues
    have haccepts := hprops.acceptAll env (hvalues props rfl)
    split
    · next he₂ =>
      rw [he₂] at haccepts
      exact haccepts
    · next a₂ he₂ =>
      rw [he₂] at haccepts
      dsimp only
      refine Sound.collectClientResponses ?_
      split
      · obtain ⟨hlearns, hall⟩ := haccepts.learnsFor (fun _ hl => absurd hl List.not_mem_nil)
          a₂.config.batchSize
        exact hlearns.broadcastLearns hall
      · exact haccepts

theorem Sound.processResult (h : a.Sound K node config) (r : ExecuteResult) :
    (a.processResult r).Sound K node config := by
  obtain ⟨hcore, hvalue⟩ := h.core.markProposalFinalized r.slot
  unfold ProposerAgent.processResult
  split
  · next he =>
    rw [he] at hcore
    exact h.withCore hcore
  · next value proposer he =>
    rw [he] at hcore hvalue
    dsimp only
    split
    · have hqueue := h.withCore (hcore.enqueuePrioritizedRequest (hvalue value rfl))
      exact hqueue.congr rfl rfl rfl rfl rfl
    · exact (h.withCore hcore).congr rfl rfl rfl rfl rfl

theorem Sound.processExecuted (h : a.Sound K node config) {exec : Executed} (hadu : K.adu exec.adu) :
    (a.processExecuted env exec).Sound K node config := by
  have hfold : ∀ (rs : List ExecuteResult) (a : ProposerAgent), a.Sound K node config →
      (rs.foldl ProposerAgent.processResult a).Sound K node config := by
    intro rs
    induction rs with
    | nil => exact fun _ ha => ha
    | cons r rs ih => exact fun a ha => ih _ (ha.processResult r)
  have hset := h.withCore (h.core.setAdu env hadu)
  unfold ProposerAgent.processExecuted
  dsimp only
  split
  · split
    · exact hset
    · exact hfold _ _ hset
  · split
    · exact h
    · exact hfold _ _ h

theorem Sound.retrySlot (h : a.Sound K node config) (slot : Slot) :
    (retrySlot env a slot).Sound K node config := by
  unfold ProposerAgent.retrySlot
  split
  · next chosen hchosen =>
    exact h.broadcastLearn (h.core.proposed _ _ (Proposer.getProposalByStatus_eq_some hchosen))
  · split
    · next prop hprop =>
      exact h.acceptPhase env (h.core.proposed _ _ (Proposer.getProposalByStatus_eq_some hprop)) _ _ _
    · exact h

theorem Sound.retryLearns (h : a.Sound K node config) (slots : List Slot) :
    (a.retryLearns env slots).Sound K node config := by
  unfold ProposerAgent.retryLearns
  induction slots generalizing a with
  | nil => exact h
  | cons slot slots ih => exact ih (h.retrySlot env slot)

/-! ## Leadership, ticks and messages

The parts together: what is handed to the agent is known, and so is what it sends. -/

/-- What a message brings to a proposer agent is known. -/
def Known (K : Facts) (m : NetworkMessage) : Prop :=
  match m.payload with
  | .promise p => Reports K p
  | .executed exec => K.adu exec.adu
  | .adu adu => K.adu adu
  | _ => True

theorem Sound.handleMessage (h : a.Sound K node config) {m : NetworkMessage} (hm : Known K m) :
    (a.handleMessage env m).2.Sound K node config := by
  unfold Known at hm
  unfold ProposerAgent.handleMessage
  cases hp : m.payload with
  | promise p =>
      rw [hp] at hm
      exact h.handlePromise hm m.sender
  | accepted acc => exact h.handleAccepted m.sender acc
  | retryLearns r =>
      dsimp only
      split
      · exact h
      · exact h.retryLearns env r.slots
  | executed exec =>
      rw [hp] at hm
      exact h.processExecuted env hm
  | adu adu =>
      rw [hp] at hm
      exact (h.withCore (h.core.setAdu env hm)).congr rfl rfl rfl rfl rfl
  | _ => exact h

theorem Sound.submitClientRequest (h : a.Sound K node config) {req : Value} (hreq : K.value req) :
    (a.submitClientRequest req).2.Sound K node config :=
  h.withCore (h.core.enqueueClientRequest hreq)

theorem Sound.becomeLeader (h : a.Sound K node config) :
    (a.becomeLeader env).2.Sound K node config :=
  h.withCore (h.core.becomeLeader env)

theorem Sound.resignLeader (h : a.Sound K node config) : a.resignLeader.2.Sound K node config :=
  h.withCore h.core.resignLeader

theorem Sound.getLearnerAdu (h : a.Sound K node config) :
    (a.getLearnerAdu env).Sound K node config := by
  unfold ProposerAgent.getLearnerAdu
  split
  · exact h
  · have hsend : (a.send a.learners (.adu 0)).Sound K node config := h.send ⟨h.node_eq, K.zero⟩
    exact hsend.congr rfl rfl rfl rfl rfl

theorem Sound.handleTick (h : a.Sound K node config) : (a.handleTick env).2.Sound K node config := by
  unfold ProposerAgent.handleTick
  split
  · dsimp only
    split
    · split
      · exact h.getLearnerAdu env
      · exact h.setPhase _
    · exact h
  · have hprepare : (ProposerAgent.preparePhase
        { a with proposer := (a.proposer.increaseBallot env).2 } env (nextSlot a.proposer.adu)
        (a.proposer.increaseBallot env).1 []).2.Sound K node config :=
      (h.withCore (h.core.increaseBallot env)).preparePhase env h.core.raised
        ⟨a.proposer.adu, h.core.adu, nextSlot_le _⟩ (fun _ hp => absurd hp List.not_mem_nil)
    dsimp only
    split
    · next he =>
      rw [he] at hprepare
      exact hprepare
    · next he =>
      rw [he] at hprepare
      exact hprepare
  · exact h.checkPrepareTimeout env
  · exact h.acceptCommit env
  · exact h
  · exact h

theorem Sound.sendHeartbeat (h : a.Sound K node config) : a.sendHeartbeat.Sound K node config :=
  h.send ⟨h.node_eq, trivial⟩

theorem Sound.maybeFlushState (h : a.Sound K node config) :
    (a.maybeFlushState env).Sound K node config :=
  h.withCore (h.core.maybeFlush env)

/-- A new agent over a known file. -/
theorem sound_new {dir : Proposer.Dir} (nodes : List Node) (isLeader : Bool)
    (hmode : config.isEventDriven = true ∨ ∀ v, K.value v) (hballot : K.ballot node.nodeId)
    (hdelta : (acceptorNodes nodes).length + (if node.role = .coordinator then 1 else 0) = K.delta)
    (hfile : ∀ ps, dir.state = some ps → K.ballot ps.currentBallot ∧ K.adu ps.adu) :
    (new dir env node nodes isLeader config).Sound K node config where
  node_eq := rfl
  config_eq := rfl
  mode := hmode
  core := by
    apply Proposer.sound_loadState
    refine ⟨?_, ?_, ?_, K.zero, hballot, hdelta, hfile⟩
    · exact fun v hv => absurd hv List.not_mem_nil
    · exact fun v hv => absurd hv List.not_mem_nil
    · intro slot e he
      rw [Proposer.new, OrdMap.get?_empty] at he
      cases he
  promised := by
    intro ballot group i p hgroup
    rw [new, OrdMap.get?_empty] at hgroup
    cases hgroup
  said := fun s hs => absurd hs (by simp [new])

end ProposerAgent

end PaxosWasm
