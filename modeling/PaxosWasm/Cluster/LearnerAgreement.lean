import PaxosWasm.Cluster.Validity

/-!
# Learner agreement

Where the acceptors send the learns, a learner records what a majority of them tells it. Two
majorities share an acceptor, which tells both learners the value it holds. But asked again about a
slot it holds nothing for, an acceptor tells every learner a no-op, and may accept a value for that
slot later: then it has told two different things. As long as no acceptor accepts a value for a slot
it has called a no-op, any two learners agree.
-/

namespace PaxosWasm

open Library

namespace Leader

/-- Where the acceptors send the learns, no leader announces any. -/
theorem Steps.learns_eq {g : Given} {l l' : Leader} (h : Steps g l l')
    (hmode : l.frame.config.acceptorsSendLearns = true) : l'.learns = l.learns := by
  have hboth := h.invariant (P := fun x => x.frame = l.frame ∧ x.learns = l.learns)
    (fun x x' hs hx => ⟨hs.frame_eq.trans hx.1, ?_⟩) ⟨rfl, rfl⟩
  · exact hboth.2
  · cases hs with
    | learned hpending hoff h htarget =>
        rw [hx.1, hmode] at hoff
        cases hoff
    | _ => exact hx.2

end Leader

namespace Process

variable {m : Membership} {node : Node} {config : RunConfig} {hash : String → Nat} {x : Process}

/-- The process has not been restarted, and its proposer has announced nothing. -/
structure Unheard (x : Process) : Prop where
  past : x.past = { proposer := [], acceptor := [], learner := [] }
  learns : learnsOf x.sent.proposer = []

theorem Unheard.step (h : x.Unheard) (hs : x.node.SetUp m node config)
    (hmode : config.acceptorsSendLearns = true) {e : Event}
    (hrestart : ∀ env isLeader k, e ≠ .restart env isLeader k) : (step hash x e).Unheard := by
  rcases step_cases hash x e with ⟨env, isLeader, k, n, rfl, _⟩ | ⟨_, hrun, he⟩ | he
  · exact absurd rfl (hrestart env isLeader k)
  · rw [he]
    refine ⟨h.past, ?_⟩
    have hlearns := h.learns
    rw [sent, h.past] at hlearns
    simp only [sent, h.past, List.nil_append] at hlearns ⊢
    cases hp : x.node.proposer? with
    | none =>
        have hnone : (call x.node e).2.proposer? = none := by
          have hsome := (x.node.isSome_call e).1
          rw [hp] at hsome
          exact Option.not_isSome_iff_eq_none.mp (by simp [hsome])
        simp only [PaxosCoordinator.logs, hnone, Option.elim]
        rfl
    | some p =>
        obtain ⟨p', pending, hp', hsteps, _⟩ := PaxosCoordinator.steps_call hp (hs.allows_any hp e)
        have hconfig : p.config.acceptorsSendLearns = true := by rw [(hs.proposer p hp).1, hmode]
        simp only [PaxosCoordinator.logs, hp, hp', Option.elim] at hlearns ⊢
        exact (hsteps.learns_eq hconfig).trans hlearns
  · rw [he]
    exact h

theorem unheard_start {dirs : PaxosCoordinator.Dirs} {env : Env} {isLeader : Bool}
    (h : start hash dirs env m node isLeader config = some x) : x.Unheard := by
  obtain ⟨n, hn, rfl⟩ := Option.map_eq_some_iff.mp h
  refine ⟨rfl, ?_⟩
  simp only [sent, PaxosCoordinator.logs_new hn, List.append_nil]
  rfl

end Process

namespace Cluster

/-! ## Two learners

Two majorities share an acceptor. It has told the two learners of one value, if no value it calls a no-op
is another one later. -/

/-- The value the learner on the node `i` holds for `slot`. -/
def learned? (c : Cluster) (i : NodeId) (slot : Slot) : Option Value :=
  (c.get? i).bind (fun x => x.node.learner?.bind (fun l => l.learner.learned.get? slot))

/-- Any two learners that hold values for one slot hold the same. -/
def LearnersAgree (c : Cluster) : Prop :=
  ∀ i j slot v w, c.learned? i slot = some v → c.learned? j slot = some w → v = w

/-- No acceptor holds another value for a slot it has called a no-op. -/
def KeepsNoOps (c : Cluster) : Prop :=
  ∀ x ∈ c.values, ∀ a ∈ x.node.acceptor?, ∀ l ∈ learnsOf a.networkClient.sent, l.value = .noOp →
    ∀ pv ∈ a.acceptor.accepted.get? l.slot, ∀ v ∈ pv.value, v = .noOp

instance : DecidablePred KeepsNoOps := fun c => inferInstanceAs (Decidable (∀ x ∈ c.values, _))

variable {K : Facts} {L : NodeId → Slot → Prop} {m : Membership} {config : RunConfig} {c : Cluster}

theorem learned?_eq_some {i : NodeId} {slot : Slot} {v : Value} : c.learned? i slot = some v ↔
    ∃ x l, c.get? i = some x ∧ x.node.learner? = some l ∧ l.learner.learned.get? slot = some v := by
  simp [learned?, Option.bind_eq_some_iff]

/-- **Who tells a learner**: an acceptor, which holds what it tells unless that is a no-op. -/
theorem Sound.teller (hs : c.Sound K L m config) (hunheard : c.All m (fun _ => Process.Unheard))
    (hstorage : config.persistentStorage = false) {l : Learn} {i : NodeId}
    (hl : c.heard.learns l i) :
    i ∈ m.acceptorIds ∧ ∃ x a, c.get? i = some x ∧ x.node.acceptor? = some a ∧
      l ∈ learnsOf a.networkClient.sent ∧ (l.value = .noOp ∨ a.acceptor.Holds l.slot l.value) := by
  obtain ⟨x, hx, hl⟩ := hl
  obtain ⟨node, hnode, rfl, hsound⟩ := hs i x hx
  obtain ⟨_, _, _, hpast, hlearns⟩ := hunheard node.nodeId x hx
  rcases hl with hl | hl
  · rw [hlearns] at hl
    exact absurd hl List.not_mem_nil
  · obtain ⟨s, hmem, hp⟩ := mem_learnsOf.mp hl
    simp only [Process.sent, hpast, List.nil_append] at hmem
    cases ha : x.node.acceptor? with
    | none => simp [PaxosCoordinator.logs, ha] at hmem
    | some a =>
        simp only [PaxosCoordinator.logs, ha, Option.elim] at hmem
        obtain ⟨hacceptor, _⟩ := hsound.now.acceptor a ha
        have hrole := hsound.now.setUp.acceptor_role (by rw [ha]; rfl)
        refine ⟨Membership.mem_acceptorIds_of_role hnode hrole, x, a, hx, ha, mem_learnsOf.mpr ⟨s, hmem, hp⟩,
          ?_⟩
        have hans := (hacceptor.answers s hmem).2
        rw [hp] at hans
        exact hans.imp_right (fun hbacked => hbacked.2 (by rw [hacceptor.config_eq, hstorage]))

/-- What a learner holds, a majority of the acceptors has told it. -/
theorem Sound.learned_chosen (hs : c.Sound K L m config)
    (hunheard : c.All m (fun _ => Process.Unheard)) (hstorage : config.persistentStorage = false)
    (hmode : config.acceptorsSendLearns = true) {i : NodeId} {slot : Slot} {v : Value}
    (hv : c.learned? i slot = some v) :
    Chosen m.acceptorIds (fun i v => c.heard.learns { slot, value := v } i) v := by
  obtain ⟨x, l, hx, hl, hv⟩ := learned?_eq_some.mp hv
  obtain ⟨node, _, _, hsound⟩ := hs i x hx
  obtain ⟨S, hcard, hall⟩ := (hsound.now.learner l hl).1.known.2 slot v hv
  rw [LearnerAgent.needed, if_pos hmode] at hcard
  refine ⟨S, Membership.majority_of_quorum (fun j hj => ?_) hcard, hall⟩
  exact (hs.teller hunheard hstorage (hall j hj)).1

theorem KeepsNoOps.eq_noOp (h : c.KeepsNoOps) {i : NodeId} {x : Process} {a : AcceptorAgent}
    {slot : Slot} {v : Value} (hx : c.get? i = some x) (ha : x.node.acceptor? = some a)
    (htold : { slot, value := .noOp } ∈ learnsOf a.networkClient.sent)
    (hholds : a.acceptor.Holds slot v) : v = .noOp := by
  obtain ⟨pv, hpv, hval⟩ := hholds
  exact h x (OrdMap.mem_values.mpr ⟨i, hx⟩) a ha _ htold rfl pv hpv v hval

/-- **Agreement in a state**: an acceptor in both majorities has told both values. -/
theorem Sound.learned_unique (hs : c.Sound K L m config)
    (hunheard : c.All m (fun _ => Process.Unheard)) (hstorage : config.persistentStorage = false)
    (hmode : config.acceptorsSendLearns = true) (hkeeps : c.KeepsNoOps) : c.LearnersAgree := by
  intro i j slot v w hv hw
  refine Chosen.unique (fun k _ htold htold' => ?_)
    (hs.learned_chosen hunheard hstorage hmode hv) (hs.learned_chosen hunheard hstorage hmode hw)
  obtain ⟨_, z, a, hz, ha, hsaid, hholds⟩ := hs.teller hunheard hstorage htold
  obtain ⟨_, z', a', hz', ha', hsaid', hholds'⟩ := hs.teller hunheard hstorage htold'
  obtain rfl := Option.some.inj (hz.symm.trans hz')
  obtain rfl := Option.some.inj (ha.symm.trans ha')
  rcases hholds with rfl | hholds
  · rcases hholds' with rfl | hholds'
    · rfl
    · exact (hkeeps.eq_noOp hz ha hsaid hholds').symm
  · rcases hholds' with rfl | hholds'
    · exact hkeeps.eq_noOp hz ha hsaid' hholds
    · exact hholds.unique hholds'

/-- Nothing is restricted. -/
def factsAny (n : Nat) : Facts where
  value := fun _ => True
  adu := fun _ => True
  ballot := fun _ => True
  zero := trivial
  delta := n
  raise := fun _ _ => trivial

/-- Every run of a cluster is sound. -/
theorem sound_run {launch : Launch} (hfresh : ∀ i, (launch.dirs i).Fresh) (es : List Event) :
    Sound (factsAny m.acceptorIds.card) (fun _ _ => True) m launch.config
      (run (step launch.hash) (start launch m) es) := by
  have hsuits : ∀ node ∈ m.nodes, PaxosCoordinator.Suits (factsAny m.acceptorIds.card) m node
      launch.config := fun _ _ => ⟨Or.inr (fun _ => trivial), trivial, rfl⟩
  refine run_invariant (fun c e hc => ?_) (sound_start hfresh hsuits) es
  exact hc.step hsuits (fun _ _ _ => trivial)
    (fun _ _ _ _ _ _ _ => ⟨fun _ _ _ => trivial, fun _ _ _ _ _ _ _ _ => trivial⟩)
    (fun _ _ _ => trivial) (Or.inl (fun _ _ => trivial))

theorem unheard_run {launch : Launch} (hmode : launch.config.acceptorsSendLearns = true)
    {es : List Event} (hrestart : NoRestarts es) :
    All m (fun node x => x.node.SetUp m node launch.config ∧ x.Unheard)
      (run (step launch.hash) (start launch m) es) := by
  refine run_invariant_of_mem (E := (· ∈ es)) (fun c e hc he => ?_) ?_ (fun e he => he)
  · refine hc.step e (fun node hnode x e' _ hserves hx => ⟨Process.setUp_step hnode hx.1 e', ?_⟩)
    refine hx.2.step hx.1 hmode (fun env isLeader k hr => ?_)
    cases hserves with
    | call _ =>
        have hno := hrestart _ he
        rw [hr] at hno
        cases hno
    | deliver _ _ _ => cases hr
  · exact all_start (fun node hnode x hx => ⟨Process.setUp_start hnode hx, Process.unheard_start hx⟩)

/-- **Learner agreement**: where the acceptors send the learns, nothing is stored and no node is
restarted, any two learners agree in every state of a run in which no acceptor ever holds another
value for a slot it has called a no-op. -/
theorem learners_agree (launch : Launch) (m : Membership)
    (hmode : launch.config.acceptorsSendLearns = true)
    (hstorage : launch.config.persistentStorage = false) (hfresh : ∀ i, (launch.dirs i).Fresh)
    (es : List Event) (hrestart : NoRestarts es)
    (hkeeps : Throughout (step launch.hash) KeepsNoOps (start launch m) es) :
    Throughout (step launch.hash) LearnersAgree (start launch m) es := by
  intro es' hes
  have hrestart' : NoRestarts es' := fun e he => hrestart e (hes.subset he)
  exact (sound_run hfresh es').learned_unique
    ((unheard_run hmode hrestart').mono (fun _ _ hx => hx.2)) hstorage hmode (hkeeps es' hes)

/-! ## A no-op for a slot that is accepted later -/

/-- Learner 21 asks about slot 1; two acceptors, holding nothing, tell everybody a no-op, which
learner 22 records. -/
def noOpFirst : List Event :=
  [.call 21 (.retryLearns .quiet [1]), .deliver 21 .learner 0 11 .quiet, .deliver 21 .learner 0 12 .quiet,
    .deliver 11 .acceptor 0 22 .quiet, .deliver 12 .acceptor 0 22 .quiet]

theorem learners_agree_first_slot :
    Throughout (step (Launch.led .inMemory).hash) LearnersAgree (start (.led .inMemory) sevenNodes)
      (acceptedBy 0) :=
  learners_agree (.led .inMemory) sevenNodes rfl rfl (Launch.fresh_idle .inMemory) (acceptedBy 0)
    (by decide) (by decide)

/-- **Two learners with different values**: the no-op has reached learner 22 only, and the value
accepted later learner 21 only. No message is reordered, and only the no-op for learner 21 is lost. -/
theorem learners_disagree :
    NoRestarts (noOpFirst ++ acceptedBy 1) ∧ Fifo (noOpFirst ++ acceptedBy 1) ∧
      ¬ LearnersAgree (run (step (Launch.led .inMemory).hash) (start (.led .inMemory) sevenNodes)
        (noOpFirst ++ acceptedBy 1)) := by
  refine ⟨by decide, by decide, fun hagree => ?_⟩
  have heq : setX "a" = Value.noOp := hagree 21 22 1 _ _ (by decide) (by decide)
  cases heq

end Cluster

end PaxosWasm
