import PaxosWasm.Agents.Node
import PaxosWasm.Agents.PrepareTimeout

/-!
# Phase 1, round after round

What a proposer agent needs for its rounds of Phase 1: the ballot, in memory and in its file, the
prepares it has sent and the promises it has received. A proposer opens a round with a new ballot; a
coordinator prepares the ballot it has. Every handler of the agent, and every tick of a coordinator, is
a sequence of these steps.

A campaign sees little of an agent, and most of its handlers not at all. `Given` says when a ballot may
be raised and which promises may come in, `Step` what then happens, and the handlers are shown to be
sequences of steps (`rounds_call`). Whoever needs an invariant of the rounds proves it of a step and gets
it for a node.
-/

namespace PaxosWasm

open Library

/-- The `Prepare`s among the messages. -/
def preparesOf (sent : List Sent) : List Prepare :=
  sent.filterMap (fun s => s.message.payload.prepare?)

structure Campaign where
  ballot : Ballot
  delta : Ballot
  /-- Whether storage is on. -/
  enabled : Bool
  dir : Proposer.Dir
  prepares : List Prepare
  promises : OrdMap Ballot (OrdMap NodeId Promise)

namespace Campaign

/-! ### Steps

`Given` takes what the agent cannot answer for: the promises and the ballots that come from outside. -/

/-- The file after a save of `ballot` that succeeds. -/
def Saved (c : Campaign) (ballot : Ballot) (dir : Proposer.Dir) : Prop :=
  c.dir.script = [] → dir.script = [] ∧
    if c.enabled then dir.state.map Proposer.PersistentCurrentState.currentBallot = some ballot
    else dir = c.dir

/-- A prepare is sent. -/
def prepared (c : Campaign) (p : Prepare) : Campaign := { c with prepares := c.prepares ++ [p] }

/-- Which promises arrive, when the ballot may be raised, and with which ballot a coordinator may
prepare. -/
structure Given where
  promise : Campaign → Promise → NodeId → Prop
  raises : Campaign → Prop
  reopens : Campaign → Prop

/-- **What happens to a campaign.** -/
inductive Step (g : Given) : Campaign → Campaign → Prop
  | saved (c : Campaign) {dir : Proposer.Dir} (h : c.Saved c.ballot dir) : Step g c { c with dir }
  | flushed (c : Campaign) {dir : Proposer.Dir} (h : c.dir.script = [] → dir = c.dir) :
      Step g c { c with dir }
  | raised (c : Campaign) {dir : Proposer.Dir} (hraises : g.raises c)
      (h : c.Saved (c.ballot + c.delta) dir) :
      Step g c { c with ballot := c.ballot + c.delta, dir }
  | opened (c : Campaign) {dir : Proposer.Dir} {slot : Slot} (hraises : g.raises c)
      (h : c.Saved (c.ballot + c.delta) dir) :
      Step g c ({ c with ballot := c.ballot + c.delta, dir }.prepared
        { slot, ballot := c.ballot + c.delta })
  | reopened (c : Campaign) {slot : Slot} (h : g.reopens c) :
      Step g c (c.prepared { slot, ballot := c.ballot })
  | promised (c : Campaign) {p : Promise} {i : NodeId} (h : g.promise c p i) :
      Step g c { c with
        promises := c.promises.insert p.ballot (((c.promises.get? p.ballot).getD ∅).insert i p) }

abbrev Steps (g : Given) : Campaign → Campaign → Prop := Relation.ReflTransGen (Step g)

/-- What every step keeps, a sequence of steps keeps. -/
theorem Steps.invariant {g : Given} {P : Campaign → Prop} (keep : ∀ c c', Step g c c' → P c → P c')
    {c c' : Campaign} (h : Steps g c c') (hc : P c) : P c' := by
  induction h with
  | refl => exact hc
  | tail _ hstep ih => exact keep _ _ hstep ih

/-- Neither the step of the ballots nor the use of storage changes. -/
theorem Steps.settings {g : Given} {c c' : Campaign} (h : Steps g c c') :
    c'.delta = c.delta ∧ c'.enabled = c.enabled := by
  refine h.invariant (P := fun x => x.delta = c.delta ∧ x.enabled = c.enabled) ?_ ⟨rfl, rfl⟩
  intro x x' hstep hx
  cases hstep <;> exact hx

end Campaign

open Campaign

variable {g : Campaign.Given}

/-! ## Saving

A save that succeeds leaves the ballot in the file; a flush changes nothing in it. -/

namespace Proposer.StorageHelper

variable (h : StorageHelper) (env : Env)

@[simp] theorem enabled_flushState : (h.flushState env).2.enabled = h.enabled := by
  unfold flushState
  split
  · rfl
  · dsimp only
    split <;> rfl

@[simp] theorem enabled_maybeFlushState : (h.maybeFlushState env).2.enabled = h.enabled := by
  have hflush := h.enabled_flushState env
  unfold maybeFlushState
  repeat' split
  all_goals first
    | rfl
    | next he =>
      rw [he] at hflush
      exact hflush

@[simp] theorem enabled_saveState (ballot : Ballot) (adu : Slot) :
    (h.saveState env ballot adu).2.enabled = h.enabled := by
  unfold saveState
  split
  · rfl
  · split
    · rfl
    · rw [enabled_maybeFlushState]

/-- A flush that succeeds leaves the files as they are. -/
theorem dir_maybeFlushState (hscript : h.store.dir.script = []) :
    (h.maybeFlushState env).2.store.dir = h.store.dir := by
  have hflush : (h.flushState env).2.store.dir = h.store.dir := by
    unfold flushState StorageResource.flushState
    split
    · rfl
    · simp [hscript]
  unfold maybeFlushState
  repeat' split
  all_goals first
    | rfl
    | next he =>
      rw [he] at hflush
      exact hflush

/-- The helper after its state is in the file. -/
def written (ballot : Ballot) (adu : Slot) : StorageHelper :=
  { h with
    store := { h.store with dir := { h.store.dir with state := some ⟨ballot, adu⟩ } }
    pending := h.pending + 1 }

/-- **A save that succeeds** leaves the state in the file if storage is on. -/
theorem dir_saveState (hscript : h.store.dir.script = []) (ballot : Ballot) (adu : Slot) :
    (h.saveState env ballot adu).2.store.dir =
      if h.enabled then { h.store.dir with state := some ⟨ballot, adu⟩ } else h.store.dir := by
  unfold saveState StorageResource.saveState
  by_cases hon : h.enabled = true
  · rw [if_neg (by simp [hon]), if_pos hon, StorageResource.attempt_of_script_nil hscript]
    exact (h.written ballot adu).dir_maybeFlushState env hscript
  · rw [if_pos (by simp [hon]), if_neg hon]

end Proposer.StorageHelper

namespace ProposerAgent

def campaign (a : ProposerAgent) : Campaign :=
  { ballot := a.proposer.currentBallot
    delta := a.proposer.ballotDelta
    enabled := a.proposer.storage.enabled
    dir := a.proposer.storage.store.dir
    prepares := preparesOf a.networkClient.sent
    promises := a.promises }

theorem preparesOf_snoc (sent : List Sent) (s : Sent) :
    preparesOf (sent ++ [s]) = preparesOf sent ++ s.message.payload.prepare?.toList := by
  rw [preparesOf, preparesOf, List.filterMap_append]
  cases hp : s.message.payload.prepare? <;> simp [hp]

variable {a : ProposerAgent} (env : Env)

/-- Only a prepare is seen. -/
theorem campaign_send (targets : List Node) (payload : MessagePayload) :
    (a.send targets payload).campaign =
      { a.campaign with prepares := a.campaign.prepares ++ payload.prepare?.toList } := by
  rw [campaign, send, NetworkClient.sent_sendMessageForget, preparesOf_snoc]
  rfl

theorem campaign_core {p : Proposer} (h : p.vitals = a.proposer.vitals) :
    { a with proposer := p }.campaign = a.campaign := by
  have hballot := congrArg Proposer.Vitals.currentBallot h
  have hdelta := congrArg Proposer.Vitals.ballotDelta h
  have hstorage := congrArg Proposer.Vitals.storage h
  simp only [Proposer.vitals] at hballot hdelta hstorage
  simp only [campaign, hballot, hdelta, hstorage]

/-- The proposer saves its state with the ballot `ballot`. -/
theorem campaign_save (a : ProposerAgent) (p : Proposer) (ballot : Ballot) (adu : Slot)
    (hp : p = { a.proposer with
      currentBallot := ballot, adu := p.adu, isLeader := p.isLeader,
      storage := (a.proposer.storage.saveState env ballot adu).2 }) :
    ∃ dir, a.campaign.Saved ballot dir ∧
      { a with proposer := p }.campaign = { a.campaign with ballot, dir } := by
  refine ⟨(a.proposer.storage.saveState env ballot adu).2.store.dir, fun hscript => ?_, ?_⟩
  · rw [a.proposer.storage.dir_saveState env hscript]
    show _ ∧ if a.proposer.storage.enabled then _ else _
    split
    · exact ⟨hscript, rfl⟩
    · exact ⟨hscript, rfl⟩
  · rw [hp]
    simp only [campaign, Proposer.StorageHelper.enabled_saveState]

theorem respects_campaign (g : Campaign.Given) :
    Respects (fun a a' => Steps g a.campaign a'.campaign) where
  refl _ := .refl
  trans h h' := h.trans h'
  send a targets payload h := by
    rw [campaign_send, h]
    simp only [Option.toList_none, List.append_nil]
    exact .refl
  core a p h := by
    rw [campaign_core h]
  adu a env adu := by
    obtain ⟨dir, hsaved, he⟩ := a.campaign_save env (a.proposer.setAdu env adu)
      a.proposer.currentBallot adu rfl
    rw [he]
    exact .single (.saved a.campaign hsaved)
  received _ _ := .refl
  responses _ _ := .refl

theorem rounds_maybeFlushState : Steps g a.campaign (a.maybeFlushState env).campaign := by
  have he : (a.maybeFlushState env).campaign = { a.campaign with
      dir := (a.proposer.storage.maybeFlushState env).2.store.dir } := by
    simp only [campaign, maybeFlushState, Proposer.maybeFlush,
      Proposer.StorageHelper.enabled_maybeFlushState]
  rw [he]
  exact .single (.flushed a.campaign (a.proposer.storage.dir_maybeFlushState env))

/-! ## Rounds

Where the handlers of the agent raise the ballot, open a round, or file a promise. -/

theorem campaign_checkPrepareTimeout : (a.checkPrepareTimeout env).2.campaign = a.campaign := by
  unfold checkPrepareTimeout
  repeat' split
  all_goals rfl

theorem campaign_processPromises (slot : Slot) (promises : List Promise) (result : PrepareResult) :
    ((a.processPromises slot promises).2.handlePrepareResult result).campaign = a.campaign := by
  have hcore : (a.processPromises slot promises).2.campaign = a.campaign :=
    campaign_core (a.proposer.vitals_processPrepare slot promises)
  cases result <;> exact hcore

theorem rounds_insertAndCheckPromises {p : Promise} {sender : Node}
    (h : g.promise a.campaign p sender.nodeId) :
    Steps g a.campaign (a.insertAndCheckPromises p sender).2.campaign := by
  rw [insertAndCheckPromises_snd]
  exact .single (.promised a.campaign h)

theorem rounds_handlePromise {p : Promise} {sender : Node}
    (h : g.promise a.campaign p sender.nodeId) :
    Steps g a.campaign (a.handlePromise sender p).campaign := by
  have hinsert := rounds_insertAndCheckPromises h
  rcases a.handlePromise_eq sender p with ⟨he, _⟩ | ⟨group, _, he⟩
  · rw [he]
    exact hinsert
  · rw [he, campaign_processPromises]
    exact hinsert

theorem rounds_insertPromises {promises : List Promise} {prepares : List Prepare}
    (hprepares : a.campaign.prepares = prepares)
    (h : ∀ p ∈ promises, ∀ c : Campaign, c.prepares = prepares → g.promise c p a.node.nodeId) :
    Steps g a.campaign (promises.foldl
      (fun a promise => (a.insertAndCheckPromises promise a.node).2) a).campaign := by
  induction promises generalizing a with
  | nil => exact .refl
  | cons p promises ih =>
      have hp := h p (List.mem_cons_self ..) a.campaign hprepares
      have hinsert := insertAndCheckPromises_snd (a := a) p a.node
      refine (rounds_insertAndCheckPromises hp).trans (ih ?_ ?_)
      · rw [hinsert]
        exact hprepares
      · rw [hinsert]
        exact fun q hq => h q (List.mem_cons_of_mem _ hq)

/-- Once the prepare of a round is sent, the promises at hand are filed. -/
theorem rounds_preparePhase {slot : Slot} {ballot : Ballot} {promises : List Promise}
    (h : ∀ p ∈ promises, ∀ c : Campaign,
      c.prepares = a.campaign.prepares ++ [({ slot, ballot } : Prepare)] →
      g.promise c p a.node.nodeId) :
    Steps g (a.campaign.prepared { slot, ballot })
      (a.preparePhase env slot ballot promises).2.campaign := by
  have hsend := a.campaign_send a.acceptors (.prepare { slot, ballot })
  unfold preparePhase broadcastPrepare
  cases hev : a.config.isEventDriven with
  | true =>
      have hstart : ((a.send a.acceptors (.prepare { slot, ballot })).startPrepareRound
          env).campaign = a.campaign.prepared { slot, ballot } := hsend
      rw [← hstart]
      exact rounds_insertPromises (by rw [hstart]; rfl) h
  | false =>
      show Steps g _ (handlePrepareResult (processPromises _ _ _).2 _).campaign
      rw [campaign_processPromises, hsend]
      exact .refl

/-! ### The calls of the runner

What the failure detector, a tick or a message makes of the round. -/

theorem rounds_becomeLeader (hraises : a.proposer.isLeader = false → g.raises a.campaign) :
    Steps g a.campaign (a.becomeLeader env).2.campaign := by
  unfold becomeLeader Proposer.becomeLeader
  by_cases hleads : a.proposer.isLeader = true
  · rw [if_pos hleads]
  · obtain ⟨dir, hsaved, he⟩ := a.campaign_save env
      { (a.proposer.increaseBallot env).2 with isLeader := true }
      (a.proposer.currentBallot + a.proposer.ballotDelta) a.proposer.adu rfl
    rw [if_neg hleads]
    show Steps g _ ({ a with proposer :=
      { (a.proposer.increaseBallot env).2 with isLeader := true } } : ProposerAgent).campaign
    rw [he]
    exact .single (.raised a.campaign (hraises (by simpa using hleads)) hsaved)

theorem rounds_resignLeader : Steps g a.campaign a.resignLeader.2.campaign := by
  unfold resignLeader Proposer.resignLeader
  by_cases hleads : a.proposer.isLeader = true
  · rw [if_pos hleads]
    exact .refl
  · rw [if_neg hleads]

/-- **A tick of a proposer** that sends a prepare raises the ballot first. -/
theorem rounds_handleTick (hraises : a.phase = .prepareSend → g.raises a.campaign) :
    Steps g a.campaign (a.handleTick env).2.campaign := by
  cases hphase : a.phase with
  | start =>
      simp only [handleTick, hphase]
      split
      · split
        · unfold getLearnerAdu
          split
          · exact .refl
          · exact (respects_campaign g).send a _ _ rfl
        · exact .refl
      · exact .refl
  | prepareSend =>
      rw [handleTick_prepareSend hphase]
      obtain ⟨dir, hsaved, he⟩ := a.campaign_save env (a.proposer.increaseBallot env).2
        (a.proposer.currentBallot + a.proposer.ballotDelta) a.proposer.adu rfl
      refine .head ?_ (rounds_preparePhase (g := g) env (fun _ hp => absurd hp List.not_mem_nil))
      rw [he]
      exact .opened a.campaign (hraises hphase) hsaved
  | preparePending =>
      simp only [handleTick, hphase]
      rw [campaign_checkPrepareTimeout]
  | acceptCommit =>
      simp only [handleTick, hphase]
      exact (respects_campaign g).acceptCommit a env
  | stop | crash =>
      simp only [handleTick, hphase]
      exact .refl

theorem rounds_handleMessage {m : NetworkMessage}
    (h : ∀ p, m.payload = .promise p → g.promise a.campaign p m.sender.nodeId) :
    Steps g a.campaign (a.handleMessage env m).2.campaign := by
  have hR := respects_campaign g
  unfold handleMessage
  cases hm : m.payload with
  | promise p => exact rounds_handlePromise (h p hm)
  | accepted acc => exact hR.handleAccepted a m.sender acc
  | retryLearns retry =>
      dsimp only
      split
      · exact .refl
      · exact hR.retryLearns a env retry.slots
  | executed executed => exact hR.processExecuted a env executed
  | adu adu => exact hR.adu a env adu
  | ignore | clientRequest | clientResponse | prepare | accept | learn | heartbeat | benchmark =>
      exact .refl

/-! ## The tick of a coordinator

Before a leader prepares, its tick goes through pieces that touch neither the round nor the ballot. -/

namespace Respects

variable {R : ProposerAgent → ProposerAgent → Prop} (hR : Respects R) (t : Trio) (env : Env)
  (config : RunConfig) (node : Node)

include hR

theorem trioRetryLearns (slots : List Slot) :
    R t.proposer (t.retryLearns config env slots).proposer := by
  unfold Trio.retryLearns
  split
  · exact hR.refl _
  · exact hR.retryLearns t.proposer env slots

/-- What a coordinator does before its leader's part of the tick. -/
theorem trioUpkeep (hflush : ∀ a env, R a (maybeFlushState a env)) :
    R t.proposer (t.upkeep config env).proposer := by
  have hretry : R t.proposer (t.maybeRetryLearn config env).proposer := by
    unfold Trio.maybeRetryLearn
    split
    · exact hR.refl _
    · exact hR.refl _
    · next learner he => exact hR.trioRetryLearns { t with learner } env config _
  have hdrive : ∀ t : Trio, R t.proposer (t.driveLearner env).proposer := by
    intro t
    unfold Trio.driveLearner
    dsimp only
    split
    · exact hR.processExecuted t.proposer env _
    · exact hR.refl _
  refine hR.trans (hR.trans hretry (hdrive _)) ?_
  show R _ (Trio.maybeFlushStates _ _ _).proposer
  unfold Trio.maybeFlushStates
  split
  · exact hflush _ env
  · exact hR.refl _

theorem trioAcceptOne (p : Proposal) :
    R t.proposer (t.acceptOne env config node p).2.proposer := by
  rcases Trio.acceptOne_cases env config node t p with ⟨e, he⟩ | ⟨_, he⟩
  · rw [he]
    exact hR.refl _
  · rw [he, Trio.proposer_commitLocally]
    exact hR.acceptPhase t.proposer env _ _ _ _

theorem trioAcceptEach (ps : List Proposal) :
    R t.proposer (t.acceptEach env config node ps).2.proposer := by
  induction ps generalizing t with
  | nil => exact hR.refl _
  | cons p ps ih =>
      have hone := hR.trioAcceptOne t env config node p
      unfold Trio.acceptEach
      split
      · next he =>
        rw [he] at hone
        exact hone
      · next t' he =>
        rw [he] at hone
        exact hR.trans hone (ih t')

theorem trioAcceptPhase : R t.proposer (t.acceptPhase env config node).2.proposer := by
  have hprops : R t.proposer t.proposer.proposalsToAccept.2 := hR.proposalsFor t.proposer [] _
  unfold Trio.acceptPhase
  split
  · next he =>
    rw [he] at hprops
    exact hprops
  · next props proposer he =>
    rw [he] at hprops
    split
    · exact hprops
    · exact hR.trans hprops (hR.trioAcceptEach { t with proposer } env config node props)

theorem trioCommitPhase : R t.proposer (t.commitPhase env config node).2.proposer := by
  have hcommit : ∀ (learns : List Learn) (t : Trio),
      R t.proposer (learns.foldl (Trio.commitOne env node) t).proposer := by
    intro learns
    induction learns with
    | nil => exact fun t => hR.refl _
    | cons learn learns ih =>
        intro t
        exact hR.trans (hR.broadcastLearn t.proposer learn) (ih (Trio.commitOne env node t learn))
  unfold Trio.commitPhase
  dsimp only
  split
  · have hlearns : R t.proposer t.proposer.learnsToCommit.2 := hR.learnsFor t.proposer [] _
    exact hR.trans (hR.trans hlearns (hcommit _ { t with proposer := _ }))
      (hR.responsesFor _ [] _)
  · exact hR.responsesFor t.proposer [] _

end Respects

/-- Neither who leads nor the round has changed. -/
structure SameRound (a a' : ProposerAgent) : Prop where
  isLeader : a'.proposer.isLeader = a.proposer.isLeader
  phase : a'.phase = a.phase
  node : a'.node = a.node
  ballot : a'.campaign.ballot = a.campaign.ballot
  prepares : a'.campaign.prepares = a.campaign.prepares

theorem respects_sameRound : Respects SameRound where
  refl _ := ⟨rfl, rfl, rfl, rfl, rfl⟩
  trans h h' :=
    { isLeader := h'.isLeader.trans h.isLeader
      phase := h'.phase.trans h.phase
      node := h'.node.trans h.node
      ballot := h'.ballot.trans h.ballot
      prepares := h'.prepares.trans h.prepares }
  send a targets payload h := by
    refine ⟨rfl, rfl, rfl, rfl, ?_⟩
    rw [campaign_send, h]
    exact List.append_nil _
  core a p h := by
    have hcampaign := campaign_core h
    exact ⟨congrArg Proposer.Vitals.isLeader h, rfl, rfl, congrArg Campaign.ballot hcampaign,
      congrArg Campaign.prepares hcampaign⟩
  adu _ _ _ := ⟨rfl, rfl, rfl, rfl, rfl⟩
  received _ _ := ⟨rfl, rfl, rfl, rfl, rfl⟩
  responses _ _ := ⟨rfl, rfl, rfl, rfl, rfl⟩

/-- What a coordinator sends in its prepare phase, if its own acceptor promises. -/
theorem rounds_trioPreparePhase {t : Trio} (hreopens : g.reopens t.proposer.campaign)
    (hlocal : ∀ c slot ballot accepted, ({ slot, ballot } : Prepare) ∈ c.prepares →
      g.promise c { slot, ballot, accepted } t.proposer.node.nodeId) :
    Steps g t.proposer.campaign (t.preparePhase env).2.proposer.campaign := by
  have hanswer := t.acceptor.acceptor.prepare_cases env (nextSlot t.learner.getAdu)
    t.proposer.proposer.currentBallot
  unfold Trio.preparePhase
  dsimp only
  split
  · next promise acceptor he =>
    have hpromised : (t.acceptor.acceptor.prepare env (nextSlot t.learner.getAdu)
        t.proposer.proposer.currentBallot).1 = .promised promise := congrArg Prod.fst he
    rcases hanswer with ⟨_, hrejected⟩ | ⟨_, hsome, _⟩
    · rw [hrejected] at hpromised
      cases hpromised
    · obtain rfl := PromiseResult.promised.inj (hsome.symm.trans hpromised)
      refine .head (.reopened t.proposer.campaign hreopens) (rounds_preparePhase env ?_)
      intro p hp c hc
      rw [List.mem_singleton.mp hp]
      exact hlocal c _ _ _ (by rw [hc]; exact List.mem_append_right _ (List.mem_singleton_self _))
  · exact .refl

/-- **A tick of a coordinator** that sends a prepare takes the ballot as it is. -/
theorem rounds_trioTick {t : Trio} {config : RunConfig} {node : Node}
    (hreopens : t.proposer.proposer.isLeader = true → t.proposer.phase = .prepareSend →
      ∀ c, c.ballot = t.proposer.campaign.ballot → c.prepares = t.proposer.campaign.prepares →
        g.reopens c)
    (hlocal : ∀ c slot ballot accepted, ({ slot, ballot } : Prepare) ∈ c.prepares →
      g.promise c { slot, ballot, accepted } t.proposer.node.nodeId) :
    Steps g t.proposer.campaign (t.handleTick env config node).2.proposer.campaign := by
  have hR := respects_campaign g
  have hup := hR.trioUpkeep t env config (fun _ env => rounds_maybeFlushState env)
  have hsame := respects_sameRound.trioUpkeep t env config (fun _ _ => ⟨rfl, rfl, rfl, rfl, rfl⟩)
  rw [Trio.handleTick_eq]
  -- the upkeep changes neither who leads nor the round
  generalize t.upkeep config env = t' at hup hsame ⊢
  split
  · exact hup
  · next hleads =>
    refine hup.trans ?_
    have hleads' : t'.proposer.proposer.isLeader = true := by simpa using hleads
    unfold Trio.leaderTick
    split
    · exact .refl
    · next hphase =>
      have hprepare : Steps g t'.proposer.campaign (t'.preparePhase env).2.proposer.campaign := by
        apply rounds_trioPreparePhase
        · exact hreopens (hsame.isLeader.symm.trans hleads') (hsame.phase.symm.trans hphase) _
            hsame.ballot hsame.prepares
        · rw [hsame.node]
          exact hlocal
      split
      · next he =>
        rw [he] at hprepare
        exact hprepare
      · next he =>
        rw [he] at hprepare
        exact hprepare
    · -- a pending round can only time out, which a campaign does not see
      dsimp only
      rw [campaign_checkPrepareTimeout]
    · -- the accept phase, and the commit phase unless that panics
      have haccept := hR.trioAcceptPhase t' env config node
      split
      · next he =>
        rw [he] at haccept
        exact haccept
      · next t'' he =>
        rw [he] at haccept
        exact haccept.trans (hR.trioCommitPhase t'' env config node)
    · exact .refl
    · exact .refl

end ProposerAgent

/-! ## A node

The proposer agent is a part of a node, and does not exist in a node without it. `Reprepares` and `Raises`
say of a call, before it is made, that it prepares a ballot again or raises it. -/

def Process.Event.isTick : Process.Event → Bool
  | .tick _ => true
  | _ => false

namespace PaxosCoordinator

variable {n : PaxosCoordinator} {p : ProposerAgent}

def coordinator? (n : PaxosCoordinator) : Option Trio :=
  match n.agents with
  | .coordinator t => some t
  | _ => none

/-- The tick of a leading coordinator that is to send a prepare, with the ballot it has. -/
def Reprepares (n : PaxosCoordinator) (e : Process.Event) : Prop :=
  e.isTick = true ∧
    ∃ t ∈ n.coordinator?, t.proposer.proposer.isLeader = true ∧ t.proposer.phase = .prepareSend

instance (n : PaxosCoordinator) (e : Process.Event) : Decidable (n.Reprepares e) :=
  inferInstanceAs (Decidable (_ ∧ _))

/-- The calls that raise the ballot: the tick of a proposer that is to send a prepare, and the verdict
that makes a node leader that is none. -/
def Raises (n : PaxosCoordinator) : Process.Event → Prop
  | .tick _ => n.coordinator? = none ∧ ∃ p ∈ n.proposer?, p.phase = .prepareSend
  | .failureService _ (some leaderId) =>
      leaderId = n.node.nodeId ∧ ∃ p ∈ n.proposer?, p.proposer.isLeader = false
  | _ => False

instance (n : PaxosCoordinator) : DecidablePred n.Raises
  | .tick _ => inferInstanceAs (Decidable (_ ∧ _))
  | .failureService _ (some _) => inferInstanceAs (Decidable (_ ∧ _))
  | .failureService _ none | .message _ _ | .submitClientRequest _ | .retryLearns _ _
  | .sendHeartbeat | .restart _ _ _ => inferInstanceAs (Decidable False)

/-- **Whatever the runner calls**, the proposer agent goes on with its rounds. -/
theorem rounds_call {e : Process.Event} (hp : n.proposer? = some p)
    (hraises : n.Raises e → g.raises p.campaign)
    (hpromise : ∀ env m pr, e = .message env m → m.payload = .promise pr →
      g.promise p.campaign pr m.sender.nodeId)
    (hreopens : n.Reprepares e → ∀ c, c.ballot = p.campaign.ballot →
      c.prepares = p.campaign.prepares → g.reopens c)
    (hlocal : ∀ c slot ballot accepted, ({ slot, ballot } : Prepare) ∈ c.prepares →
      g.promise c { slot, ballot, accepted } p.node.nodeId) :
    ∃ p', (Process.call n e).2.proposer? = some p' ∧ Steps g p.campaign p'.campaign := by
  by_cases hjoint : ∃ t, n.Joint t e
  · -- a tick of a coordinator, or its own retry
    obtain ⟨t, hagents, hevent⟩ := hjoint
    obtain ⟨config, node, nodes, agents⟩ := n
    obtain rfl : agents = .coordinator t := hagents
    obtain rfl := Option.some.inj hp
    rcases hevent with ⟨env, rfl⟩ | ⟨env, slots, rfl⟩
    · refine ⟨_, rfl, ProposerAgent.rounds_trioTick env (fun hleads hphase => ?_) hlocal⟩
      exact hreopens ⟨rfl, t, rfl, hleads, hphase⟩
    · exact ⟨_, rfl, (ProposerAgent.respects_campaign g).trioRetryLearns t env config slots⟩
  · -- in all other calls the proposer agent goes its own way
    have hnone : ∀ env, e = .tick env → n.coordinator? = none := by
      rintro env rfl
      unfold coordinator?
      split
      · next t hagents => exact absurd ⟨t, hagents, Or.inl ⟨env, rfl⟩⟩ hjoint
      · rfl
    obtain ⟨hprop, _, _, _⟩ := n.call_cases e (fun t ht => hjoint ⟨t, ht⟩)
    refine ⟨_, by rw [hprop, hp]; rfl, ?_⟩
    cases e with
    | tick env =>
        exact ProposerAgent.rounds_handleTick env
          (fun hphase => hraises ⟨hnone env rfl, p, hp, hphase⟩)
    | message env m =>
        unfold onProposer
        dsimp only
        split
        · exact ProposerAgent.rounds_handleMessage env (fun pr => hpromise env m pr rfl)
        · exact .refl
    | failureService env lid =>
        cases lid with
        | none => exact .refl
        | some leaderId =>
            unfold onProposer
            dsimp only
            split
            · next hself =>
              exact ProposerAgent.rounds_becomeLeader env
                (fun hleads => hraises ⟨hself.1, p, hp, hleads⟩)
            · split
              · exact ProposerAgent.rounds_resignLeader
              · exact .refl
    | submitClientRequest req => exact .refl
    | sendHeartbeat => exact (ProposerAgent.respects_campaign g).send p _ _ rfl
    | retryLearns env slots => exact .refl
    | restart env isLeader k => exact .refl

end PaxosCoordinator

end PaxosWasm
