import PaxosWasm.Agents.Steadfast
import PaxosWasm.Cluster.History

/-!
# A split vote

An acceptor takes no second value for a slot, whatever the ballot. So the acceptors of a cluster may
split over a slot: each holds a value for it, and none of the values is with a majority. Without storage
and restarts such a split stays, and with it the slot stays open: no learner ever records a value there,
none executes as far, and no result of that slot or of a later one is ever reported.

Without storage a vote is for good, so a slot for which every acceptor holds a value is decided or split
once and for all. A split vote is preserved by every event (`Split.step`), no learner records the slot,
and no learner gets past it. Whether there is a split can be computed, since only values that somebody
votes for have to be looked at (`split_iff`).
-/

namespace PaxosWasm

open Library

namespace Cluster

/-- What the node `i` has told the learners. -/
def told (c : Cluster) (i : NodeId) : List Learn :=
  match c.get? i with
  | none => []
  | some x => learnsOf x.sent.proposer ++ learnsOf x.sent.acceptor

/-- What the node `i` holds for a slot, and what it has told about it. -/
def votes (c : Cluster) (slot : Slot) (i : NodeId) : List Value :=
  (c.accepted? i slot).toList ++ ((c.told i).filter (fun l => decide (l.slot = slot))).map Learn.value

/-- **A split vote**: every acceptor holds a value for the slot, and no value has a majority. -/
structure Split (m : Membership) (slot : Slot) (c : Cluster) : Prop where
  holds : ∀ i ∈ m.acceptorIds, (c.accepted? i slot).isSome = true
  split : ∀ v, ¬ Chosen m.acceptorIds (fun i v => v ∈ c.votes slot i) v

variable {m : Membership} {config : RunConfig} {hash : String → Nat} {c : Cluster} {slot : Slot}

theorem mem_told {l : Learn} {i : NodeId} : l ∈ c.told i ↔ c.heard.learns l i := by
  cases hx : c.get? i with
  | none => simp [told, heard, hx]
  | some x => simp [told, heard, hx]

theorem mem_votes {i : NodeId} {v : Value} :
    v ∈ c.votes slot i ↔ c.accepted? i slot = some v ∨ { slot, value := v } ∈ c.told i := by
  rw [votes, List.mem_append, Option.mem_toList, List.mem_map]
  refine or_congr Iff.rfl ⟨?_, fun hv => ⟨_, List.mem_filter.mpr ⟨hv, decide_eq_true rfl⟩, rfl⟩⟩
  rintro ⟨l, hl, rfl⟩
  obtain ⟨htold, hslot⟩ := List.mem_filter.mp hl
  rw [← of_decide_eq_true hslot]
  exact htold

/-- What has a majority somebody votes for, so there are finitely many values to look at. -/
theorem split_iff : c.Split m slot ↔ (∀ i ∈ m.acceptorIds, (c.accepted? i slot).isSome = true) ∧
    ∀ i ∈ m.acceptorIds, ∀ v ∈ c.votes slot i, ¬ Chosen m.acceptorIds (fun i v => v ∈ c.votes slot i) v := by
  constructor
  · exact fun h => ⟨h.holds, fun _ _ v _ => h.split v⟩
  · rintro ⟨hholds, hsplit⟩
    refine ⟨hholds, fun v hv => ?_⟩
    obtain ⟨i, hi, hvote⟩ := hv.exists_voter
    exact hsplit i hi v hvote hv

instance : Decidable (c.Split m slot) := decidable_of_iff _ split_iff.symm

/-! ## It stays

An acceptor that holds a value accepts no other in its slot, and tells no other. -/

/-- An acceptor of a node whose proposer is not heard tells all that its node tells. -/
theorem told_eq {i : NodeId} {x : Process} {a : AcceptorAgent} (hx : c.get? i = some x)
    (hunheard : x.Unheard) (ha : x.node.acceptor? = some a) :
    c.told i = learnsOf a.networkClient.sent := by
  have hsent : learnsOf x.sent.acceptor = learnsOf a.networkClient.sent := by
    rw [Process.sent, hunheard.past, PaxosCoordinator.logs, ha]
    rfl
  rw [told, hx]
  dsimp only
  rw [hunheard.learns, hsent, List.nil_append]

/-- **An acceptor that holds a value votes for nothing else any more.** -/
theorem mem_votes_called {node : Node} {x : Process} {e' : Process.Event}
    (hx : c.get? node.nodeId = some x) (hs : x.node.SetUp m node config) (hunheard : x.Unheard)
    (hnext : (x.called e').Unheard) (hmemory : config.persistentStorage = false) {i : NodeId}
    {w v : Value} (hw : c.accepted? i slot = some w)
    (hv : v ∈ votes (c.insert node.nodeId (x.called e')) slot i) : v ∈ c.votes slot i := by
  by_cases hi : i = node.nodeId
  · subst hi
    obtain ⟨y, a, hy, ha, hholds⟩ := accepted?_eq_some.mp hw
    obtain rfl := Option.some.inj (hx.symm.trans hy)
    obtain ⟨a', ha', hstands⟩ := x.node.standsBy_call e' ha
    obtain ⟨hconfig, hdisabled⟩ := hs.acceptor a ha
    have hoff := hdisabled (by rw [hconfig, hmemory])
    have hself : (OrdMap.insert c node.nodeId (x.called e')).get? node.nodeId = some (x.called e') :=
      OrdMap.get?_insert_self ..
    rw [mem_votes]
    rcases mem_votes.mp hv with hv | hv
    · -- it still holds what it has held
      obtain ⟨y', a'', hy', ha'', hholds'⟩ := accepted?_eq_some.mp hv
      obtain rfl := Option.some.inj (hself.symm.trans hy')
      obtain rfl := Option.some.inj (ha'.symm.trans ha'')
      rw [hholds'.unique (hstands.keeps.holds hoff hholds)]
      exact Or.inl hw
    · -- and has told nothing else since
      rw [told_eq hself hnext ha'] at hv
      rcases hstands.tells hoff slot w hholds _ hv rfl with hvalue | hv
      · rw [show v = w from hvalue]
        exact Or.inl hw
      · exact Or.inr (by rwa [told_eq hx hunheard ha])
  · rw [mem_votes, accepted?, told, OrdMap.get?_insert, if_neg hi] at hv
    exact mem_votes.mpr hv

/-- **A split vote stays split**, whatever happens. -/
theorem Split.step {e : Event} (h : c.Split m slot)
    (hall : c.All m (fun node x => x.node.SetUp m node config ∧ x.Unheard))
    (hnext : All m (fun _ => Process.Unheard) (step hash c e))
    (hmemory : config.persistentStorage = false) (hrestart : e.isRestart = false) :
    Split m slot (Cluster.step hash c e) := by
  rcases step_calls hash c hrestart with he | ⟨j, x, e', hx, -, -, he⟩
  · rw [he]
    exact h
  · obtain ⟨node, -, rfl, hs, hunheard⟩ := hall j x hx
    rw [he] at hnext ⊢
    obtain ⟨-, -, -, hnext⟩ := hnext _ _ (OrdMap.get?_insert_self ..)
    refine ⟨fun i hi => ?_, ?_⟩
    · obtain ⟨w, hw⟩ := Option.isSome_iff_exists.mp (h.holds i hi)
      rw [accepted?_called hx hs hmemory e' hw]
      rfl
    · rintro v ⟨S, hS, hvotes⟩
      refine h.split v ⟨S, hS, fun i hi => ?_⟩
      obtain ⟨w, hw⟩ := Option.isSome_iff_exists.mp (h.holds i (hS.1 hi))
      exact mem_votes_called hx hs hunheard hnext hmemory hw (hvotes i hi)

theorem split_run {launch : Launch} (hmode : launch.config.acceptorsSendLearns = true)
    (hmemory : launch.config.persistentStorage = false) {es : List Event}
    (hsplit : Split m slot (run (step launch.hash) (start launch m) es)) (es' : List Event)
    (hrestart : NoRestarts (es ++ es')) :
    Split m slot (run (step launch.hash) (start launch m) (es ++ es')) := by
  induction es' using List.reverseRecOn with
  | nil =>
      rw [List.append_nil]
      exact hsplit
  | append_singleton es' e ih =>
      rw [← List.append_assoc] at hrestart ⊢
      have hbefore : NoRestarts (es ++ es') := fun e he => hrestart e (List.mem_append_left _ he)
      have hnext := unheard_run (m := m) hmode hrestart
      rw [run_snoc] at hnext ⊢
      refine (ih hbefore).step (unheard_run hmode hbefore) (hnext.mono fun _ _ hx => hx.2) hmemory ?_
      exact hrestart e (List.mem_append_right _ (List.mem_singleton_self e))

/-! ## What it stops

A slot that is never learned is never executed, and nothing behind it is either. -/

/-- Of what is split no learner has a record. -/
theorem Split.unlearned {K : Facts} {L : NodeId → Slot → Prop} (h : c.Split m slot) (hs : c.Sound K L m config)
    (hunheard : c.All m (fun _ => Process.Unheard)) (hmemory : config.persistentStorage = false)
    (hmode : config.acceptorsSendLearns = true) (i : NodeId) : c.learned? i slot = none := by
  rw [Option.eq_none_iff_forall_ne_some]
  intro v hv
  apply h.split v
  apply (hs.learned_chosen hunheard hmemory hmode hv).mono
  intro j htold
  exact mem_votes.mpr (Or.inr (mem_told.mpr htold))

/-- What no learner has a record of stops them all: they execute one slot after the other. -/
theorem stops_of_unlearned (hall : c.All m (fun _ => Process.Replicates))
    (hnone : ∀ i, c.learned? i slot = none) (hslot : 1 ≤ slot) :
    (∀ i l, c.learner? i = some l → l.getAdu < slot) ∧ ∀ r, c.Reports r → r.slot < slot := by
  have hreaches : ∀ i l n kv, c.learner? i = some l →
      KvStore.machine.Reaches l.learner.learned.get? n kv → n < slot := by
    intro i l n kv hl h
    by_contra hle
    obtain ⟨v, hv⟩ := h.decided hslot (not_lt.mp hle)
    have hno := hnone i
    rw [learned?_eq_learner?, hl, Option.bind_some, hv] at hno
    cases hno
  refine ⟨fun i l hl => hreaches i l _ _ hl (hall.replica hl).reaches, fun r hr => ?_⟩
  obtain ⟨i, l, hl, exec, hexec, hmem⟩ := reports_iff.mp hr
  obtain ⟨-, kv, h⟩ := ((hall.replica hl).reported exec hexec r hmem).yields.reaches
  exact hreaches i l _ kv hl h

/-- **A split vote stops the system**: once the acceptors have split over a slot, then whatever happens
next, no learner ever records a value for it or executes as far, and no result of it or of a later slot
is ever reported. -/
theorem split_vote_stops (launch : Launch) (m : Membership)
    (hmode : launch.config.acceptorsSendLearns = true)
    (hmemory : launch.config.persistentStorage = false) (hfresh : ∀ i, (launch.dirs i).Fresh)
    (es es' : List Event) (hrestart : NoRestarts (es ++ es')) (hslot : 1 ≤ slot)
    (hsplit : Split m slot (run (step launch.hash) (start launch m) es)) :
    let c := run (step launch.hash) (start launch m) (es ++ es')
    (∀ i, c.learned? i slot = none) ∧ (∀ i l, c.learner? i = some l → l.getAdu < slot) ∧
      ∀ r, c.Reports r → r.slot < slot := by
  intro c
  have hstill := split_run hmode hmemory hsplit es' hrestart
  have hunheard := (unheard_run (m := m) hmode hrestart).mono fun _ _ hx => hx.2
  have hnone : ∀ i, c.learned? i slot = none :=
    hstill.unlearned (sound_run hfresh _) hunheard hmemory hmode
  exact ⟨hnone, stops_of_unlearned (replicates_run hmemory hrestart) hnone hslot⟩

/-! ## A split that happens

Four proposers take over from each other, and each is heard by one acceptor once it proposes. -/

/-- Four proposers, four acceptors and a learner. -/
def nineNodes : Membership where
  nodes := [⟨1, "", .proposer⟩, ⟨2, "", .proposer⟩, ⟨3, "", .proposer⟩, ⟨4, "", .proposer⟩,
    ⟨11, "", .acceptor⟩, ⟨12, "", .acceptor⟩, ⟨13, "", .acceptor⟩, ⟨14, "", .acceptor⟩,
    ⟨21, "", .learner⟩]
  nodup := by decide
  small := by decide

/-- The proposers of a cluster start as leaders. -/
def allLead : Launch := { Launch.idle .inMemory with isLeader := fun i => decide (i ≤ 4) }

/-- The node `i` asks the learner for its cursor, and then prepares at the acceptors in `as`: each with the
number of the promise that comes back. -/
def prepares (i : NodeId) (reply : Nat) (as : List (NodeId × Nat)) : List Event :=
  [.call i (.tick { Env.quiet with now := 10000 }), .deliver i .proposer 0 21 .quiet,
    .deliver 21 .learner reply i .quiet, .call i (.tick .quiet), .call i (.tick .quiet)] ++
  as.flatMap (fun a => [.deliver i .proposer 1 a.1 .quiet, .deliver a.1 .acceptor a.2 i .quiet])

/-- The node `i` proposes, and reaches the acceptor `a` only. -/
def proposesTo (i a : NodeId) : List Event := [.call i (.tick .quiet), .deliver i .proposer 2 a .quiet]

/-- Each proposer in turn gets three promises, and one acceptor to accept: the third and the fourth have
to propose again what they have been told of. -/
def splitVote : List Event :=
  prepares 1 0 [(11, 0), (12, 0), (13, 0)] ++
  .call 1 (.submitClientRequest (setX "a")) :: proposesTo 1 11 ++
  prepares 2 1 [(12, 1), (13, 1), (14, 0)] ++
  .call 2 (.submitClientRequest (setX "b")) :: proposesTo 2 12 ++
  prepares 3 2 [(11, 2), (13, 2), (14, 1)] ++ proposesTo 3 13 ++
  prepares 4 3 [(11, 3), (12, 3), (14, 2)] ++ proposesTo 4 14

theorem split_vote_stops_four_ballots :
    let c := run (step allLead.hash) (start allLead nineNodes) (splitVote ++ [.call 21 (.tick .quiet)])
    (∀ i, c.learned? i 1 = none) ∧ (∀ i l, c.learner? i = some l → l.getAdu < 1) ∧
      ∀ r, c.Reports r → r.slot < 1 :=
  split_vote_stops allLead nineNodes rfl rfl (Launch.fresh_idle .inMemory) splitVote _ (by decide)
    (le_refl 1) (by decide +kernel)

end Cluster

end PaxosWasm
