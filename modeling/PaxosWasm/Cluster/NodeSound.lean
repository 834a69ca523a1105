import PaxosWasm.Agents.TrioSound
import PaxosWasm.Cluster.Membership

/-!
# What a node makes of what it hears

A node hears of values and cursors from its clients and from other nodes. As long as what it hears is
known, so is everything it keeps and everything it sends, over any sequence of calls and restarts.

`Heard` collects the `Accept`s and the `Learn`s that have been sent in a cluster, each with its sender.
A node is sound with respect to it, calls keep a node sound with what it hears and adds to it, and a
restart reads back nothing but what was known (`Sound.step`). The invariant of a cluster is this one, of
all of its nodes.
-/

namespace PaxosWasm

open Library

/-- The `Accept`s and the `Learn`s that have been sent, each with its sender. -/
structure Heard where
  accepts : Accept → NodeId → Prop
  learns : Learn → NodeId → Prop

namespace Heard

/-- Everything heard in `h` is heard in `h'`. -/
structure Le (h h' : Heard) : Prop where
  accepts : ∀ acc i, h.accepts acc i → h'.accepts acc i
  learns : ∀ l i, h.learns l i → h'.learns l i

/-- What the node `i` has sent is added. -/
def plus (h : Heard) (i : NodeId) (logs : Logs) : Heard where
  accepts := fun acc j => h.accepts acc j ∨ j = i ∧ acc ∈ acceptsOf logs.proposer
  learns := fun l j => h.learns l j ∨ j = i ∧ (l ∈ learnsOf logs.proposer ∨ l ∈ learnsOf logs.acceptor)

theorem le_plus (h : Heard) (i : NodeId) (logs : Logs) : h.Le (h.plus i logs) :=
  ⟨fun _ _ => Or.inl, fun _ _ => Or.inl⟩

/-- The values of the `Accept`s are known. -/
def Fits (K : Facts) (h : Heard) : Prop := ∀ acc i, h.accepts acc i → K.value acc.value

/-- What a message says is known, and what it asks or tells is heard. -/
def Knows (K : Facts) (h : Heard) (m : NetworkMessage) : Prop :=
  match m.payload with
  | .promise p => Proposer.Reports K p
  | .accept acc => h.accepts acc m.sender.nodeId
  | .learn l => h.learns l m.sender.nodeId
  | .executed exec => K.adu exec.adu
  | .adu adu => K.adu adu
  | _ => True

theorem Knows.known {K : Facts} {h : Heard} {m : NetworkMessage} (hm : h.Knows K m) :
    ProposerAgent.Known K m := by
  unfold Knows at hm
  unfold ProposerAgent.Known
  cases hp : m.payload <;> rw [hp] at hm <;> first | exact hm | trivial

end Heard

/-! ## The logs of a node

What each agent of a node has sent is known, or an answer to something the node has heard. -/

/-- **What the agents of a node have sent** is known, or answers for something heard. -/
structure Logs.Sound (K : Facts) (L : Slot → Prop) (h : Heard) (node : Node) (n : Nat)
    (logs : Logs) : Prop where
  proposer : ∀ s ∈ logs.proposer, ProposerAgent.Says K node s
  acceptor : ∀ s ∈ logs.acceptor, AcceptorAgent.Answers h.accepts (fun _ _ => True) node s
  promise : ∀ s ∈ logs.acceptor, ∀ p, s.message.payload = .promise p →
    AcceptorAgent.Known (AcceptorAgent.valuesOf h.accepts) p
  learner : ∀ s ∈ logs.learner, LearnerAgent.Answers h.learns n node s ∧ LearnerAgent.Covers L s

variable {K : Facts} {L : Slot → Prop} {h h' : Heard} {m : Membership} {node : Node}
  {config : RunConfig}

theorem Logs.Sound.mono {n : Nat} {logs : Logs} (hle : h.Le h') (hs : logs.Sound K L h node n) :
    logs.Sound K L h' node n where
  proposer := hs.proposer
  acceptor := fun s hmem => (hs.acceptor s hmem).mono hle.accepts (fun _ _ _ => trivial)
  promise := fun s hmem p hp pv hpv => by
    obtain ⟨slot, hentry⟩ := hs.promise s hmem p hp pv hpv
    exact ⟨slot, hentry.mono (fun _ _ ⟨b, q, hq⟩ => ⟨b, q, hle.accepts _ _ hq⟩)⟩
  learner := fun s hmem => by
    obtain ⟨⟨hsender, hans⟩, hcovers⟩ := hs.learner s hmem
    refine ⟨⟨hsender, ?_⟩, hcovers⟩
    split at hans
    · trivial
    · trivial
    · exact fun r hr => (hans r hr).mono hle.learns
    · trivial
    · exact hans

theorem Logs.sound_nil (n : Nat) :
    Logs.Sound K L h node n { proposer := [], acceptor := [], learner := [] } :=
  ⟨fun _ hs => absurd hs List.not_mem_nil, fun _ hs => absurd hs List.not_mem_nil,
    fun _ hs => absurd hs List.not_mem_nil, fun _ hs => absurd hs List.not_mem_nil⟩

namespace PaxosCoordinator

/-- **What the agents of a node maintain**: each holds, stores and sends only what is known. -/
structure Sound (K : Facts) (L : Slot → Prop) (h : Heard) (m : Membership) (node : Node)
    (config : RunConfig) (n : PaxosCoordinator) : Prop where
  setUp : n.SetUp m node config
  proposer : ∀ p, n.proposer? = some p → p.Sound K node config
  acceptor : ∀ a, n.acceptor? = some a →
    a.Sound h.accepts node config ∧ a.Promising (AcceptorAgent.valuesOf h.accepts)
  learner : ∀ l, n.learner? = some l →
    l.Sound h.learns node config m.quorum ∧ l.Passed L

/-- What the learner of a node holds is in `L`, also once it has recorded the learn an event brings. -/
def Learned (L : Slot → Prop) (n : PaxosCoordinator) (e : Process.Event) : Prop :=
  ∀ l, n.learner? = some l →
    l.Holding L ∧ ∀ env msg, e = .message env msg → l.HoldingAfter L env msg

/-- What an event brings to a node is known. -/
structure Brings (K : Facts) (h : Heard) (e : Process.Event) : Prop where
  message : ∀ env msg, e = .message env msg → h.Knows K msg
  submitted : ∀ req, e = .submitClientRequest req → K.value req

variable {n : PaxosCoordinator}

theorem Sound.mono (hle : h.Le h') (hs : n.Sound K L h m node config) :
    n.Sound K L h' m node config where
  setUp := hs.setUp
  proposer := hs.proposer
  acceptor := fun a ha =>
    ⟨(hs.acceptor a ha).1.mono hle.accepts,
      (hs.acceptor a ha).2.mono (fun _ _ ⟨b, q, hq⟩ => ⟨b, q, hle.accepts _ _ hq⟩)⟩
  learner := fun l hl => ⟨(hs.learner l hl).1.mono hle.learns, (hs.learner l hl).2⟩

/-- The logs of a sound node are sound. -/
theorem Sound.logs (hs : n.Sound K L h m node config) :
    n.logs.Sound K L h node (LearnerAgent.needed config m.quorum) where
  proposer := fun s hmem => by
    cases hp : n.proposer? with
    | none => simp [PaxosCoordinator.logs, hp] at hmem
    | some p =>
        rw [PaxosCoordinator.logs, hp] at hmem
        exact (hs.proposer p hp).said s hmem
  acceptor := fun s hmem => by
    cases ha : n.acceptor? with
    | none => simp [PaxosCoordinator.logs, ha] at hmem
    | some a =>
        rw [PaxosCoordinator.logs, ha] at hmem
        exact ((hs.acceptor a ha).1.answers s hmem).mono (fun _ _ hq => hq) (fun _ _ _ => trivial)
  promise := fun s hmem => by
    cases ha : n.acceptor? with
    | none => simp [PaxosCoordinator.logs, ha] at hmem
    | some a =>
        rw [PaxosCoordinator.logs, ha] at hmem
        exact (hs.acceptor a ha).2 s hmem
  learner := fun s hmem => by
    cases hl : n.learner? with
    | none => simp [PaxosCoordinator.logs, hl] at hmem
    | some l =>
        rw [PaxosCoordinator.logs, hl] at hmem
        exact ⟨(hs.learner l hl).1.answers s hmem, (hs.learner l hl).2.reports s hmem⟩

/-- What an acceptor holds was asked of it, so it is known. -/
theorem Sound.held (hfits : h.Fits K) {a : AcceptorAgent} (ha : a.Sound h.accepts node config) :
    Acceptor.MapIn (fun _ v => K.value v) a.acceptor.accepted :=
  fun slot pv hpv => (ha.known.2 slot pv hpv).mono (fun _ _ ⟨_, _, hq⟩ => hfits _ _ hq)

/-! ## Calls in which each agent goes its own way

A call that goes to one of the agents leaves the two others as they are. -/

theorem sound_onProposer {p : ProposerAgent} (hp : p.Sound K node config) {e : Process.Event}
    (hbrings : Brings K h e) : (n.onProposer p e).2.Sound K node config := by
  cases e with
  | tick env => exact hp.handleTick env
  | message env msg =>
      unfold onProposer
      dsimp only
      split
      · exact hp.handleMessage env (hbrings.message env msg rfl).known
      · exact hp
  | failureService env lid =>
      cases lid with
      | none => exact hp
      | some leaderId =>
          unfold onProposer
          dsimp only
          split
          · exact hp.becomeLeader env
          · split
            · exact hp.resignLeader
            · exact hp
  | submitClientRequest req => exact hp.submitClientRequest (hbrings.submitted req rfl)
  | sendHeartbeat => exact hp.sendHeartbeat
  | retryLearns env slots => exact hp
  | restart env isLeader k => exact hp

theorem sound_onAcceptor {a : AcceptorAgent} (ha : a.Sound h.accepts node config)
    (hpromising : a.Promising (AcceptorAgent.valuesOf h.accepts)) {e : Process.Event}
    (hbrings : Brings K h e) :
    (n.onAcceptor a e).Sound h.accepts node config ∧
      (n.onAcceptor a e).Promising (AcceptorAgent.valuesOf h.accepts) := by
  cases e with
  | tick env => exact ⟨ha.maybeFlushState env, hpromising⟩
  | message env msg =>
      unfold onAcceptor
      dsimp only
      split
      · refine ⟨ha.handleMessage env (fun acc hacc => ?_),
          hpromising.handleMessage env ha.known.2 msg⟩
        have hknows := hbrings.message env msg rfl
        rw [Heard.Knows, hacc] at hknows
        exact hknows
      · exact ⟨ha, hpromising⟩
  | sendHeartbeat =>
      unfold onAcceptor
      dsimp only
      split
      · exact ⟨ha.sendHeartbeat, hpromising.send _ nofun⟩
      · exact ⟨ha, hpromising⟩
  | _ => exact ⟨ha, hpromising⟩

theorem sound_onLearner {l : LearnerAgent} (hl : l.Sound h.learns node config m.quorum)
    (hpassed : l.Passed L) {e : Process.Event} (hheld : l.Holding L)
    (hafter : ∀ env msg, e = .message env msg → l.HoldingAfter L env msg)
    (hbrings : Brings K h e) :
    (n.onLearner l e).Sound h.learns node config m.quorum ∧ (n.onLearner l e).Passed L := by
  cases e with
  | tick env => exact ⟨hl.handleTick env, hpassed.handleTick env hheld⟩
  | message env msg =>
      unfold onLearner
      dsimp only
      split
      · refine ⟨hl.handleMessage env (fun learn hlearn => ?_),
          hpassed.handleMessage env (hafter env msg rfl)⟩
        have hknows := hbrings.message env msg rfl
        rw [Heard.Knows, hlearn] at hknows
        exact hknows
      · exact ⟨hl, hpassed⟩
  | sendHeartbeat =>
      unfold onLearner
      dsimp only
      split
      · exact ⟨hl.sendHeartbeat, hpassed.sendHeartbeat⟩
      · exact ⟨hl, hpassed⟩
  | retryLearns env slots => exact ⟨hl.sendRetryLearns slots, hpassed.sendRetryLearns slots⟩
  | _ => exact ⟨hl, hpassed⟩

/-! ## Calls in which the agents of a coordinator act together

A tick, and a retry of learns: their pieces have been dealt with before. -/

theorem sound_trio {t : Trio} {nodes : List Node} {e : Process.Event}
    (hs : Sound K L h m node config { config, node, nodes, agents := .coordinator t })
    (hfits : h.Fits K) (hupto : ∀ n, Upto L n → K.adu n) (hheld : t.learner.Holding L)
    (hevent : (∃ env, e = .tick env) ∨ ∃ env slots, e = .retryLearns env slots) :
    ∃ t', (Process.call { config, node, nodes, agents := .coordinator t } e).2.agents =
        .coordinator t' ∧
      t'.proposer.Sound K node config ∧ t'.learner.Passed L ∧
      t'.Logged h.accepts h.learns node config m.quorum := by
  have hp := hs.proposer _ rfl
  obtain ⟨ha, hpromising⟩ := hs.acceptor _ rfl
  obtain ⟨hl, hpassed⟩ := hs.learner _ rfl
  have hlogged : t.Logged h.accepts h.learns node config m.quorum :=
    ⟨ha.mono (fun _ _ => Or.inl), hpromising.mono (fun _ _ ⟨b, q, hq⟩ => ⟨b, q, Or.inl hq⟩),
      hl.mono (fun _ _ => Or.inl)⟩
  rcases hevent with ⟨env, rfl⟩ | ⟨env, slots, rfl⟩
  · refine ⟨_, rfl, ?_, Trio.passed_handleTick env hpassed hheld,
      Trio.logged_handleTick env hlogged hp.config_eq⟩
    -- the cursor the proposer reads is the one its learner has after the upkeep
    have hup : (t.upkeep config env).learner.Passed L := Trio.passed_upkeep env hpassed hheld
    exact Trio.sound_handleTick env hp (hupto _ hup.cursor) (Sound.held hfits ha)
  · refine ⟨_, rfl, Trio.sound_retryLearns env hp slots, ?_,
      Trio.logged_retryLearns env hlogged hp.config_eq slots⟩
    show (t.retryLearns config env slots).learner.Passed L
    rw [Trio.learner_retryLearns]
    exact hpassed

/-- **Whatever is called**, a node keeps and sends only what is known, or answers for what has been
sent by others or by itself. -/
theorem Sound.call (hs : n.Sound K L h m node config) (hfits : h.Fits K)
    (hupto : ∀ n, Upto L n → K.adu n) {e : Process.Event} (hlearned : n.Learned L e)
    (hbrings : Brings K h e) :
    (Process.call n e).2.Sound K L (h.plus node.nodeId (Process.call n e).2.logs) m node config := by
  have hsetUp := hs.setUp.call e
  by_cases hjoint : ∃ t, n.Joint t e
  · obtain ⟨t, hagents, hevent⟩ := hjoint
    obtain ⟨config', node', nodes, agents⟩ := n
    obtain rfl : agents = .coordinator t := hagents
    obtain rfl : node' = node := hs.setUp.node_eq
    obtain rfl : config' = config := hs.setUp.config_eq
    obtain ⟨t', ht', hp, hpassed, hlogged⟩ :=
      sound_trio hs hfits hupto (hlearned _ rfl).1 hevent
    generalize Process.call _ e = called at ht' hsetUp
    obtain ⟨_, config', node', nodes', agents'⟩ := called
    obtain rfl : agents' = .coordinator t' := ht'
    refine ⟨hsetUp, fun p hp' => ?_, fun a ha => ?_, fun l hl => ?_⟩
    · obtain rfl := Option.some.inj hp'
      exact hp
    · obtain rfl := Option.some.inj ha
      exact ⟨hlogged.acceptor, hlogged.promising⟩
    · obtain rfl := Option.some.inj hl
      exact ⟨hlogged.learner, hpassed⟩
  · obtain ⟨hprop, hacc, hlearn, _⟩ := n.call_cases e (fun t ht => hjoint ⟨t, ht⟩)
    refine Sound.mono (h.le_plus _ _) ⟨hsetUp, fun p hp' => ?_, fun a ha => ?_, fun l hl => ?_⟩
    · rw [hprop] at hp'
      obtain ⟨p₀, hp₀, rfl⟩ := Option.map_eq_some_iff.mp hp'
      exact sound_onProposer (hs.proposer p₀ hp₀) hbrings
    · rw [hacc] at ha
      obtain ⟨a₀, ha₀, rfl⟩ := Option.map_eq_some_iff.mp ha
      exact sound_onAcceptor (hs.acceptor a₀ ha₀).1 (hs.acceptor a₀ ha₀).2 hbrings
    · rw [hlearn] at hl
      obtain ⟨l₀, hl₀, rfl⟩ := Option.map_eq_some_iff.mp hl
      exact sound_onLearner (hs.learner l₀ hl₀).1 (hs.learner l₀ hl₀).2 (hlearned l₀ hl₀).1
        (hlearned l₀ hl₀).2 hbrings

/-! ## Starts

A node starts with what its files give it: nothing if they are fresh, and otherwise what was known when it
was stored. -/

/-- Directories before their first use, whatever failures their file systems have in store. -/
def Dirs.Fresh (dirs : Dirs) : Prop :=
  ∃ ps as ls, dirs =
    { proposer := { Directory.empty with script := ps }
      acceptor := { Directory.empty with script := as }
      learner := LearnerAgent.freshDir ls }

/-- What the directories hold is known; a cursor is read back only where every slot counts. -/
structure Dirs.Known (K : Facts) (L : Slot → Prop) (h : Heard) (n : Nat) (dirs : Dirs) : Prop where
  proposer : ∀ ps, dirs.proposer.state = some ps → K.ballot ps.currentBallot ∧ K.adu ps.adu
  acceptor : ∀ k, Acceptor.FilesIn (AcceptorAgent.valuesOf h.accepts) (.new dirs.acceptor k)
  learner : ∀ k, Learner.FilesIn (LearnerAgent.Backed h.learns n) (.new dirs.learner k)
  cursor : (∀ s, L s) ∨ ∃ script, dirs.learner = LearnerAgent.freshDir script

theorem Dirs.Fresh.known {dirs : Dirs} (hfresh : dirs.Fresh) (n : Nat) : dirs.Known K L h n := by
  obtain ⟨ps, as, ls, rfl⟩ := hfresh
  refine ⟨nofun, fun k => ⟨fun _ hs => ?_, fun _ hc => ?_⟩, fun k => ⟨fun _ hs => ?_, fun _ hc => ?_⟩,
    Or.inr ⟨ls, rfl⟩⟩
  · exact absurd hs List.not_mem_nil
  · exact absurd hc List.not_mem_nil
  · exact absurd hs List.not_mem_nil
  · exact absurd hc List.not_mem_nil

/-- What a stopped node leaves is known. -/
theorem Sound.dirs (hs : n.Sound K L h m node config) (hall : ∀ s, L s) (k : Nat) :
    (n.dirs k).Known K L h (LearnerAgent.needed config m.quorum) where
  proposer := fun ps hps => by
    cases hp : n.proposer? with
    | none =>
        rw [PaxosCoordinator.dirs, hp] at hps
        cases hps
    | some p =>
        rw [PaxosCoordinator.dirs, hp] at hps
        exact (hs.proposer p hp).core.file ps hps
  acceptor := fun maxSnapshots => by
    cases ha : n.acceptor? with
    | none =>
        rw [PaxosCoordinator.dirs, ha]
        exact ⟨fun _ hmem => absurd hmem List.not_mem_nil, fun _ hmem => absurd hmem List.not_mem_nil⟩
    | some a =>
        rw [PaxosCoordinator.dirs, ha]
        exact (hs.acceptor a ha).1.known.1.stopped k maxSnapshots
  learner := fun maxSnapshots => by
    cases hl : n.learner? with
    | none =>
        rw [PaxosCoordinator.dirs, hl]
        exact ⟨fun _ hmem => absurd hmem List.not_mem_nil, fun _ hmem => absurd hmem List.not_mem_nil⟩
    | some l =>
        rw [PaxosCoordinator.dirs, hl]
        exact (hs.learner l hl).1.known.1.stopped k maxSnapshots
  cursor := Or.inl hall

/-- The facts suit a node: its first ballot is known, and ballots are raised by the number of
acceptors. -/
structure Suits (K : Facts) (m : Membership) (node : Node) (config : RunConfig) : Prop where
  mode : config.isEventDriven = true ∨ ∀ v, K.value v
  ballot : K.ballot node.nodeId
  delta : K.delta = m.acceptorIds.card

/-- **A start** over known directories. -/
theorem sound_new {hash : String → Nat} {dirs : Dirs} {env : Env} {isLeader : Bool}
    (hnode : node ∈ m.nodes) (hsuits : Suits K m node config)
    (hdirs : dirs.Known K L h (LearnerAgent.needed config m.quorum))
    (hnew : new hash dirs env node (m.others node) isLeader config = some n) :
    n.Sound K L h m node config := by
  have hsetUp := setUp_new hnode hnew
  have hprop (hrole : node.role ≠ .acceptor) :
      (ProposerAgent.new dirs.proposer env node (m.others node) isLeader config).Sound K node config :=
    ProposerAgent.sound_new env (m.others node) isLeader hsuits.mode hsuits.ballot
      ((Membership.length_acceptorNodes hnode hrole).trans hsuits.delta.symm) hdirs.proposer
  have hacc : (AcceptorAgent.new hash dirs.acceptor env node (m.others node) config).Sound h.accepts
        node config ∧
      (AcceptorAgent.new hash dirs.acceptor env node (m.others node) config).Promising
        (AcceptorAgent.valuesOf h.accepts) :=
    ⟨AcceptorAgent.sound_new env hash _ (hdirs.acceptor _), fun _ hs => absurd hs List.not_mem_nil⟩
  have hlearn (hrole : node.role ≠ .acceptor) :
      (LearnerAgent.new hash dirs.learner env node (m.others node) config).Sound h.learns
        node config m.quorum ∧
      (LearnerAgent.new hash dirs.learner env node (m.others node) config).Passed L := by
    refine ⟨LearnerAgent.sound_new env hash _
      (Membership.quorum_newLearner hnode hrole hash dirs.learner env config) (hdirs.learner _),
      ?_, fun _ hs => absurd hs List.not_mem_nil⟩
    rcases hdirs.cursor with hall | ⟨script, hfresh⟩
    · exact fun s _ _ => hall s
    · rw [hfresh, LearnerAgent.getAdu_new]
      exact upto_zero L
  -- which of the three agents there are depends on the role
  obtain ⟨agents, hagents, rfl⟩ := Option.map_eq_some_iff.mp hnew
  unfold newAgents at hagents
  generalize ProposerAgent.new dirs.proposer env node (m.others node) isLeader config = p₀
    at hagents hprop
  generalize AcceptorAgent.new hash dirs.acceptor env node (m.others node) config = a₀
    at hagents hacc
  generalize LearnerAgent.new hash dirs.learner env node (m.others node) config = l₀
    at hagents hlearn
  split at hagents
  · next hrole =>
    obtain rfl := Option.some.inj hagents
    refine ⟨hsetUp, fun p hp => ?_, fun a ha => (by cases ha), fun l hl => by cases hl⟩
    exact Option.some.inj hp ▸ hprop (by rw [hrole]; nofun)
  · next hrole =>
    obtain rfl := Option.some.inj hagents
    refine ⟨hsetUp, fun p hp => (by cases hp), fun a ha => ?_, fun l hl => by cases hl⟩
    exact Option.some.inj ha ▸ hacc
  · next hrole =>
    obtain rfl := Option.some.inj hagents
    refine ⟨hsetUp, fun p hp => (by cases hp), fun a ha => (by cases ha), fun l hl => ?_⟩
    exact Option.some.inj hl ▸ hlearn (by rw [hrole]; nofun)
  · next hrole =>
    obtain rfl := Option.some.inj hagents
    refine ⟨hsetUp, fun p hp => ?_, fun a ha => ?_, fun l hl => ?_⟩
    · exact Option.some.inj hp ▸ hprop (by rw [hrole]; nofun)
    · exact Option.some.inj ha ▸ hacc
    · exact Option.some.inj hl ▸ hlearn (by rw [hrole]; nofun)
  · cases hagents

end PaxosCoordinator

/-! ## Runs of a node

Over calls and restarts. What has been heard only grows. -/

namespace Process

/-- **What a node maintains**, and what it had sent before its last start. -/
structure Sound (K : Facts) (L : Slot → Prop) (h : Heard) (m : Membership) (node : Node)
    (config : RunConfig) (x : Process) : Prop where
  now : x.node.Sound K L h m node config
  past : x.past.Sound K L h node (LearnerAgent.needed config m.quorum)

variable {hash : String → Nat} {x : Process}

theorem Sound.mono (hle : h.Le h') (hs : x.Sound K L h m node config) :
    x.Sound K L h' m node config :=
  ⟨hs.now.mono hle, hs.past.mono hle⟩

/-- Everything a sound process has sent is sound. -/
theorem Sound.sent (hs : x.Sound K L h m node config) :
    x.sent.Sound K L h node (LearnerAgent.needed config m.quorum) where
  proposer := fun s hmem =>
    (List.mem_append.mp hmem).elim (hs.past.proposer s) (hs.now.logs.proposer s)
  acceptor := fun s hmem =>
    (List.mem_append.mp hmem).elim (hs.past.acceptor s) (hs.now.logs.acceptor s)
  promise := fun s hmem =>
    (List.mem_append.mp hmem).elim (hs.past.promise s) (hs.now.logs.promise s)
  learner := fun s hmem =>
    (List.mem_append.mp hmem).elim (hs.past.learner s) (hs.now.logs.learner s)

theorem sound_start {dirs : PaxosCoordinator.Dirs} {env : Env} {isLeader : Bool}
    (hnode : node ∈ m.nodes) (hsuits : PaxosCoordinator.Suits K m node config) (hfresh : dirs.Fresh)
    (hstart : start hash dirs env m node isLeader config = some x) : x.Sound K L h m node config := by
  obtain ⟨n, hn, rfl⟩ := Option.map_eq_some_iff.mp hstart
  exact ⟨PaxosCoordinator.sound_new hnode hsuits (hfresh.known _) hn, Logs.sound_nil _⟩

variable (hash) in
/-- **An event of a node**: it stays sound, given also what it has sent itself. Restarts are for
facts that hold of every cursor. -/
theorem Sound.step (hnode : node ∈ m.nodes) (hsuits : PaxosCoordinator.Suits K m node config)
    (hs : x.Sound K L h m node config) (hfits : h.Fits K) (hupto : ∀ n, Upto L n → K.adu n)
    {e : Event} (hlearned : x.node.Learned L e) (hbrings : PaxosCoordinator.Brings K h e)
    (hrestart : (∀ s, L s) ∨ ∀ env isLeader k, e ≠ .restart env isLeader k) :
    (step hash x e).Sound K L (h.plus node.nodeId (step hash x e).sent) m node config := by
  rcases step_cases hash x e with ⟨env, isLeader, k, n, rfl, hnew, he⟩ | ⟨_, hrun, he⟩ | he
  · rw [he]
    have hall := hrestart.resolve_right (fun hno => hno env isLeader k rfl)
    rw [hs.now.setUp.node_eq, hs.now.setUp.nodes_eq, hs.now.setUp.config_eq] at hnew
    exact Sound.mono (h.le_plus _ _)
      ⟨PaxosCoordinator.sound_new hnode hsuits (hs.now.dirs hall k) hnew, hs.sent⟩
  · rw [he]
    refine ⟨(hs.now.call hfits hupto hlearned hbrings).mono ⟨fun acc i hacc => ?_, fun l i hl => ?_⟩,
      hs.past.mono (h.le_plus _ _)⟩
    · rcases hacc with hacc | ⟨hi, hmem⟩
      · exact Or.inl hacc
      · refine Or.inr ⟨hi, ?_⟩
        simp only [Process.sent, acceptsOf, List.filterMap_append]
        exact List.mem_append_right _ hmem
    · rcases hl with hl | ⟨hi, hmem⟩
      · exact Or.inl hl
      · refine Or.inr ⟨hi, ?_⟩
        simp only [Process.sent, learnsOf, List.filterMap_append]
        exact hmem.imp (List.mem_append_right _) (List.mem_append_right _)
  · rw [he]
    exact hs.mono (h.le_plus _ _)

end Process

end PaxosWasm
