import PaxosWasm.Cluster.LearnerAgreement

/-!
# Phase 1 skips only learned slots

A proposer asks the acceptors for the slots past its cursor. That cursor is a stale copy of one
learner's, and a learner's cursor moves over slots it has learned itself. So whatever is lost or delayed,
and whoever leads, there is one learner that has learned all the slots a `Prepare` leaves out.
-/

namespace PaxosWasm

open Library

namespace Cluster

/-! ## What one learner has learned

A checkpoint within an event may remove a value right after it was learned, so the time in between counts. -/

/-- The learner of the node `i` holds a value for `slot`. -/
def Learns (c : Cluster) (i : NodeId) (slot : Slot) : Prop :=
  ∃ x l v, c.get? i = some x ∧ x.node.learner? = some l ∧ l.learner.learned.get? slot = some v

/-- In the course of `e`, a `Learn` arrives at the node `i`, and its learner holds a value for `slot`
once it has recorded it; a checkpoint may remove the value before the event is over. -/
def Records (c : Cluster) (e : Event) (i : NodeId) (slot : Slot) : Prop :=
  ∃ x l env msg learn v, c.get? i = some x ∧ x.node.learner? = some l ∧
    Serves c e i (.message env msg) ∧ msg.payload = .learn learn ∧
    (l.recordLearn env learn.slot learn.value msg.sender).2.learner.learned.get? slot = some v

/-- The learner of the node `i` has held a value for `slot` before an event of the run or in the course
of one. -/
def LearnedDuring (launch : Launch) (m : Membership) (es : List Event) (i : NodeId) (slot : Slot) :
    Prop :=
  ∃ es' e, es' ++ [e] <+: es ∧
    (Learns (run (step launch.hash) (start launch m) es') i slot ∨
      Records (run (step launch.hash) (start launch m) es') e i slot)

/-! ## Every cursor in flight is a learner's

A cursor goes from a learner to its reports, from there to a proposer and into its prepares, and none of them
raises it. -/

/-- Cursors that cover slots learned by one learner; nothing else is restricted. -/
def factsUpto (L : NodeId → Slot → Prop) (n : Nat) : Facts where
  value := fun _ => True
  adu := fun adu => ∃ i, Upto (L i) adu
  ballot := fun _ => True
  zero := ⟨0, upto_zero _⟩
  delta := n
  raise := fun _ _ => trivial

/-- **Phase 1 skips only learned slots**: in every run without restarts, for each `Prepare` that has been
broadcast there is one learner that has learned a value for every slot it leaves out by then. -/
theorem prepares_skip_learned (launch : Launch) (m : Membership) (hfresh : ∀ i, (launch.dirs i).Fresh)
    (es : List Event) (hrestart : NoRestarts es)
    (i : NodeId) (x : Process)
    (hx : (run (step launch.hash) (start launch m) es).get? i = some x) :
    ∀ s ∈ x.sent.proposer, ∀ p, s.message.payload = .prepare p →
      ∃ learner, ∀ slot, 1 ≤ slot → slot < p.slot → LearnedDuring launch m es learner slot := by
  let L := LearnedDuring launch m es
  have hsuits : ∀ node ∈ m.nodes, PaxosCoordinator.Suits (factsUpto L m.acceptorIds.card) m node
      launch.config := fun node _ => ⟨Or.inr (fun _ => trivial), trivial, rfl⟩
  have hrun : ∀ es', es' <+: es → Sound (factsUpto L m.acceptorIds.card) L m launch.config
      (run (step launch.hash) (start launch m) es') := by
    intro es'
    induction es' using List.reverseRecOn with
    | nil => exact fun _ => sound_start hfresh hsuits
    | append_singleton es' e ih =>
        intro hes
        have hmem : e ∈ es := hes.subset (List.mem_append_right _ (List.mem_singleton_self e))
        rw [run_snoc]
        refine (ih ((List.prefix_append _ _).trans hes)).step hsuits (fun j _ h => ⟨j, h⟩) ?_
          (fun _ _ _ => trivial) (Or.inr (hrestart e hmem))
        -- what a learner holds before the event or records in its course counts as learned
        intro j y e' hy hserves l hl
        refine ⟨fun slot v hv => ⟨es', e, hes, Or.inl ⟨y, l, v, hy, hl, hv⟩⟩, ?_⟩
        rintro env msg rfl learn hlearn slot v hv
        exact ⟨es', e, hes, Or.inr ⟨y, l, env, msg, learn, v, hy, hl, hserves, hlearn, hv⟩⟩
  intro s hs p hp
  obtain ⟨node, _, _, hsound⟩ := hrun es (List.prefix_refl _) i x hx
  have hsays := (hsound.sent.proposer s hs).2
  rw [hp] at hsays
  obtain ⟨_, adu, ⟨j, hadu⟩, hnext⟩ := hsays
  refine ⟨j, fun slot h1 hslot => hadu slot h1 ?_⟩
  exact Nat.lt_succ_iff.mp (Nat.lt_of_lt_of_le hslot hnext)

/-- Slot 1 is chosen and learner 21 executes it. Node 2 takes over and asks the learner for its cursor. -/
def takenOver : List Event :=
  acceptedBy 0 ++ [.call 21 (.tick { Env.quiet with now := 10000 }),
    .call 2 (.failureService .quiet (some 2)), .call 2 (.tick { Env.quiet with now := 10000 }),
    .deliver 2 .proposer 0 21 .quiet, .deliver 21 .learner 2 2 .quiet, .call 2 (.tick .quiet),
    .call 2 (.tick .quiet)]

/-- The `Prepare` of node 2 leaves out slot 1, which a learner has learned. -/
theorem prepares_skip_learned_taken_over :
    ∃ x, (run (step (Launch.led .inMemory).hash) (start (.led .inMemory) sevenNodes) takenOver).get? 2 =
        some x ∧
      (∃ s ∈ x.sent.proposer, s.message.payload = .prepare { slot := 2, ballot := 8 }) ∧
      ∀ s ∈ x.sent.proposer, ∀ p, s.message.payload = .prepare p →
        ∃ learner, ∀ slot, 1 ≤ slot → slot < p.slot →
          LearnedDuring (.led .inMemory) sevenNodes takenOver learner slot := by
  obtain ⟨x, hx⟩ : ∃ x, (run (step (Launch.led .inMemory).hash) (start (.led .inMemory) sevenNodes)
      takenOver).get? 2 = some x := ⟨_, rfl⟩
  have hsent : ∃ s ∈ ((run (step (Launch.led .inMemory).hash) (start (.led .inMemory) sevenNodes)
      takenOver).get? 2).elim [] (fun x => x.sent.proposer),
      s.message.payload = .prepare { slot := 2, ballot := 8 } := by decide
  rw [hx] at hsent
  exact ⟨x, hx, hsent, prepares_skip_learned (.led .inMemory) sevenNodes (Launch.fresh_idle .inMemory)
    takenOver (by decide) 2 x hx⟩

end Cluster

end PaxosWasm
