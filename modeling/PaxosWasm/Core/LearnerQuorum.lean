import PaxosWasm.Core.Learner
import PaxosWasm.Library.Quorum
import PaxosWasm.Library.Run

/-!
# Learning by quorum

The learner counts the votes of a slot through two hash maps, whose iteration orders are whatever the
hashers make them. Here they are parameters of each call: what is learned has a quorum of latest
votes behind it in every order, and as long as no more senders vote than there are acceptors, it is
the same in every order.

The counting loop is modelled twice. `checkQuorum` goes through the votes in the order of the senders;
`checkQuorumIn` takes the orders as an argument, and any of them may come. `checkQuorumIn_spec` says
what all of them have in common. The votes of a run are then compared with the latest votes of the
senders (`Stored`), and the results about a run are results about those.
-/

namespace PaxosWasm

open Library

namespace Learner

/-! ## Counting in any order

The count goes over two hash maps, and stops at the first value with a quorum. What it finds depends on
the order only if two values have one. -/

/-- The iteration orders of the two hash maps of `check_quorum`: the votes of the slot and the counts
of the values. -/
structure HashOrder where
  votes : List Learn → List Learn
  counts : List (Sigma (fun _ : Value => Nat)) → List (Sigma (fun _ : Value => Nat))
  votes_perm : ∀ learns, (votes learns).Perm learns
  counts_perm : ∀ entries, (counts entries).Perm entries

/-- The orders of the entries themselves. -/
def HashOrder.asStored : HashOrder where
  votes := id
  counts := id
  votes_perm _ := List.Perm.refl _
  counts_perm _ := List.Perm.refl _

/-- `checkQuorum`, its maps iterated in the orders `order`. -/
def checkQuorumIn (order : HashOrder) (l : Learner) (slot : Slot) : Option Value :=
  match l.slotLearns.get? slot with
  | none => none
  | some slotMap =>
      if slotMap.size < l.quorum then none
      else
        let counts := tally ((order.votes slotMap.values).map Learn.value)
        ((order.counts counts.entries).find? (fun entry => decide (l.quorum ≤ entry.2))).map
          Sigma.fst

/-- The vote of `sender` is stored, in the place of its last one for the slot. -/
def storeVote (l : Learner) (learn : Learn) (sender : Node) : Learner :=
  let votes := ((l.slotLearns.get? learn.slot).getD ∅).insert sender.nodeId learn
  { l with slotLearns := l.slotLearns.insert learn.slot votes }

theorem get?_storeVote (l : Learner) (learn : Learn) (sender : Node) :
    (l.storeVote learn sender).slotLearns.get? learn.slot =
      some (((l.slotLearns.get? learn.slot).getD ∅).insert sender.nodeId learn) :=
  OrdMap.get?_insert_self ..

/-- `handleLearn`, with the hash maps iterated in the orders `order`. -/
def handleLearnIn (order : HashOrder) (l : Learner) (env : Env) (learn : Learn) (sender : Node) :
    Bool × Learner :=
  match (l.storeVote learn sender).checkQuorumIn order learn.slot with
  | some quorumValue => (l.storeVote learn sender).learn env learn.slot quorumValue
  | none => (false, l.storeVote learn sender)

/-! ### What a count finds

Two values cannot both have a quorum of the votes of a majority. Then the order of the hash maps does not
matter, as at most one value is found. -/

/-- `n` senders have voted for `v`. -/
def Votes (group : OrdMap NodeId Learn) (n : Nat) (v : Value) : Prop :=
  ∃ S : Finset NodeId, n ≤ S.card ∧ ∀ i ∈ S, ∃ learn, group.get? i = some learn ∧ learn.value = v

theorem votes_iff_count {group : OrdMap NodeId Learn} {n : Nat} {v : Value} :
    Votes group n v ↔ n ≤ (group.values.map Learn.value).count v := by
  have hcount : (group.values.map Learn.value).count v =
      (group.values.filter (fun learn => learn.value == v)).length := by
    simp [List.count, List.countP_eq_length_filter, List.filter_map, Function.comp_def]
  rw [hcount]
  constructor
  · rintro ⟨S, hS, hall⟩
    refine hS.trans (group.card_voters_le _ (fun i hi => ?_))
    obtain ⟨learn, hget, hv⟩ := hall i hi
    exact ⟨learn, hget, beq_iff_eq.mpr hv⟩
  · intro hle
    obtain ⟨S, hS, hall⟩ := group.exists_voters (fun learn => learn.value == v)
    refine ⟨S, hS ▸ hle, fun i hi => ?_⟩
    obtain ⟨learn, hget, hv⟩ := hall i hi
    exact ⟨learn, hget, beq_iff_eq.mp hv⟩

/-- There are as many votes as a quorum if a value has so many. -/
theorem le_size_of_votes {group : OrdMap NodeId Learn} {n m : Nat} {v : Value}
    (h : Votes group (max n m) v) : m ≤ group.size := by
  have hlength := List.count_le_length (a := v) (l := group.values.map Learn.value)
  rw [List.length_map, OrdMap.values, List.length_map] at hlength
  exact ((le_max_right n m).trans (votes_iff_count.mp h)).trans hlength

/-- **What a count finds, in any order**: a value with a quorum of votes, if there is one. No value
without a vote is counted. -/
theorem checkQuorumIn_spec (order : HashOrder) {l : Learner} {slot : Slot}
    {group : OrdMap NodeId Learn} (hgroup : l.slotLearns.get? slot = some group) :
    (∀ v, l.checkQuorumIn order slot = some v → Votes group (max 1 l.quorum) v) ∧
      (∀ v, Votes group (max 1 l.quorum) v → ∃ w, l.checkQuorumIn order slot = some w) := by
  have hperm : ((order.votes group.values).map Learn.value).Perm (group.values.map Learn.value) :=
    (order.votes_perm _).map _
  have hentry : ∀ v n, ⟨v, n⟩ ∈ order.counts
      (tally ((order.votes group.values).map Learn.value)).entries ↔
      v ∈ group.values.map Learn.value ∧ (group.values.map Learn.value).count v = n := by
    intro v n
    rw [(order.counts_perm _).mem_iff, mem_entries_tally, hperm.mem_iff, hperm.count_eq]
  unfold checkQuorumIn
  rw [hgroup]
  dsimp only
  constructor
  · intro v hv
    split at hv
    · cases hv
    · obtain ⟨⟨w, n⟩, hfound, rfl⟩ := Option.map_eq_some_iff.mp hv
      obtain ⟨hmem, hcount⟩ := (hentry w n).mp (List.mem_of_find?_eq_some hfound)
      have hquorum : l.quorum ≤ n := by simpa using List.find?_some hfound
      apply votes_iff_count.mpr
      rw [hcount]
      exact max_le (hcount ▸ List.count_pos_iff.mpr hmem) hquorum
  · intro v hv
    have hle := votes_iff_count.mp hv
    have hmem : v ∈ group.values.map Learn.value :=
      List.count_pos_iff.mp ((le_max_left 1 _).trans hle)
    rw [if_neg (not_lt.mpr (le_size_of_votes hv))]
    have hsome : ((order.counts (tally ((order.votes group.values).map Learn.value)).entries).find?
        (fun entry => decide (l.quorum ≤ entry.2))).isSome := by
      apply List.find?_isSome.mpr
      exact ⟨⟨v, _⟩, (hentry v _).mpr ⟨hmem, rfl⟩,
        decide_eq_true ((le_max_right 1 _).trans hle)⟩
    obtain ⟨entry, hentry⟩ := Option.isSome_iff_exists.mp hsome
    exact ⟨entry.1, by rw [hentry]; rfl⟩

/-- The learner answers `true` if it has counted a quorum and holds nothing for the slot yet. -/
theorem handleLearnIn_spec (order : HashOrder) (l : Learner) (env : Env) (learn : Learn)
    (sender : Node) :
    let found := (l.storeVote learn sender).checkQuorumIn order learn.slot
    let result := l.handleLearnIn order env learn sender
    (result.1 = true ↔ l.learned.get? learn.slot = none ∧ ∃ v, found = some v) ∧
      (∀ slot, result.2.learned.get? slot =
        (l.learned.get? slot).or (if slot = learn.slot then found else none)) ∧
      result.2.slotLearns = (l.storeVote learn sender).slotLearns ∧
      result.2.quorum = l.quorum := by
  intro found result
  subst result
  unfold handleLearnIn
  cases hfound : (l.storeVote learn sender).checkQuorumIn order learn.slot with
  | none =>
      have hnone : found = none := hfound
      simp [hnone, storeVote, quorum]
  | some v =>
      have hsome : found = some v := hfound
      obtain ⟨hvotes, hquorum, -⟩ := (l.storeVote learn sender).frame_learn env learn.slot v
      refine ⟨?_, fun slot => ?_, hvotes, hquorum⟩
      · simp only [hsome, Option.some.injEq, exists_eq', and_true]
        show ((l.storeVote learn sender).learn env learn.slot v).1 = true ↔ _
        unfold Learner.learn
        by_cases hheld : (l.storeVote learn sender).learned.contains learn.slot = true
        · rw [if_pos hheld]
          obtain ⟨w, hw⟩ := OrdMap.contains_iff.mp hheld
          have hw : l.learned.get? learn.slot = some w := hw
          simp [hw]
        · rw [if_neg hheld]
          have hnone : (l.storeVote learn sender).learned.get? learn.slot = none := by
            simpa [OrdMap.contains] using hheld
          have hnone : l.learned.get? learn.slot = none := hnone
          simp [hnone]
      · rw [hsome]
        exact get?_learn ..

/-- The count in the order of the senders finds the same. -/
theorem checkQuorum_spec {l : Learner} {slot : Slot} {group : OrdMap NodeId Learn}
    (hgroup : l.slotLearns.get? slot = some group) :
    (∀ v, l.checkQuorum slot = some v → Votes group (max 1 l.quorum) v) ∧
      (∀ v, Votes group (max 1 l.quorum) v → ∃ w, l.checkQuorum slot = some w) := by
  unfold checkQuorum
  rw [hgroup]
  dsimp only
  constructor
  · intro v hv
    split at hv
    · cases hv
    · have hquorum : l.quorum ≤ (group.values.map Learn.value).count v := by
        simpa using List.find?_some hv
      have hmem := List.mem_of_find?_eq_some hv
      exact votes_iff_count.mpr (max_le (List.count_pos_iff.mpr hmem) hquorum)
  · intro v hv
    have hle := votes_iff_count.mp hv
    rw [if_neg (not_lt.mpr (le_size_of_votes hv))]
    apply Option.isSome_iff_exists.mp
    apply List.find?_isSome.mpr
    exact ⟨v, List.count_pos_iff.mp ((le_max_left 1 _).trans hle),
      decide_eq_true ((le_max_right 1 _).trans hle)⟩

/-- The order that comes to the entries of `v` first. -/
def HashOrder.first (v : Value) : HashOrder where
  votes := id
  counts entries := entries.filter (fun entry => decide (entry.1 = v)) ++
    entries.filter (fun entry => !decide (entry.1 = v))
  votes_perm _ := List.Perm.refl _
  counts_perm entries := List.filter_append_perm _ entries

theorem checkQuorumIn_first {l : Learner} {slot : Slot} {group : OrdMap NodeId Learn} {v : Value}
    (hgroup : l.slotLearns.get? slot = some group) (hv : Votes group (max 1 l.quorum) v) :
    l.checkQuorumIn (.first v) slot = some v := by
  have hle := votes_iff_count.mp hv
  have hmem : v ∈ group.values.map Learn.value :=
    List.count_pos_iff.mp ((le_max_left 1 _).trans hle)
  unfold checkQuorumIn
  rw [hgroup]
  dsimp only
  rw [if_neg (not_lt.mpr (le_size_of_votes hv))]
  generalize hcounts : (tally (((HashOrder.first v).votes group.values).map Learn.value)).entries =
    entries
  have hentry : ⟨v, (group.values.map Learn.value).count v⟩ ∈ entries := by
    rw [← hcounts]
    exact mem_entries_tally.mpr ⟨hmem, rfl⟩
  -- the entry of `v` has a quorum, and the order comes to it first
  have hsome : ((entries.filter (fun entry => decide (entry.1 = v))).find?
      (fun entry => decide (l.quorum ≤ entry.2))).isSome := by
    apply List.find?_isSome.mpr
    exact ⟨_, List.mem_filter.mpr ⟨hentry, decide_eq_true rfl⟩,
      decide_eq_true ((le_max_right 1 _).trans hle)⟩
  obtain ⟨entry, hfound⟩ := Option.isSome_iff_exists.mp hsome
  have heq := (List.mem_filter.mp (List.mem_of_find?_eq_some hfound)).2
  show Option.map Sigma.fst (List.find? _ (_ ++ _)) = some v
  rw [List.find?_append, hfound, Option.some_or, Option.map_some, of_decide_eq_true heq]

/-- **The order of the model is one of them**: what `handleLearn` does, it does in some order. -/
theorem exists_order (l : Learner) (env : Env) (learn : Learn) (sender : Node) :
    ∃ order, l.handleLearn env learn sender = l.handleLearnIn order env learn sender := by
  have hgroup := l.get?_storeVote learn sender
  have hhandle : l.handleLearn env learn sender =
      match (l.storeVote learn sender).checkQuorum learn.slot with
      | some v => (l.storeVote learn sender).learn env learn.slot v
      | none => (false, l.storeVote learn sender) := rfl
  rw [hhandle]
  cases hfound : (l.storeVote learn sender).checkQuorum learn.slot with
  | none =>
      refine ⟨.asStored, ?_⟩
      have hnone : (l.storeVote learn sender).checkQuorumIn .asStored learn.slot = none := by
        by_contra hne
        obtain ⟨v, hv⟩ := Option.ne_none_iff_exists'.mp hne
        obtain ⟨w, hw⟩ := (checkQuorum_spec hgroup).2 v ((checkQuorumIn_spec _ hgroup).1 v hv)
        rw [hfound] at hw
        cases hw
      rw [handleLearnIn, hnone]
  | some v =>
      refine ⟨.first v, ?_⟩
      rw [handleLearnIn, checkQuorumIn_first hgroup ((checkQuorum_spec hgroup).1 v hfound)]

/-! ## Runs of votes

Each sender is counted with its last vote. A value that a quorum votes for at the end of a run has been
learned at one of its votes, unless another one has been learned before. -/

/-- A vote handed to the learner, and the orders in which it is counted. -/
structure Vote where
  env : Env
  order : HashOrder
  learn : Learn
  sender : Node

/-- The answer to a vote. -/
def answer (l : Learner) (c : Vote) : Bool := (l.handleLearnIn c.order c.env c.learn c.sender).1

/-- The learner after a vote. -/
def take (l : Learner) (c : Vote) : Learner := (l.handleLearnIn c.order c.env c.learn c.sender).2

/-- What a vote says, and who says it. -/
def Vote.cast (c : Vote) : Learn × NodeId := (c.learn, c.sender.nodeId)

/-- The last vote of a sender for a slot. -/
def latest (casts : List (Learn × NodeId)) (slot : Slot) (i : NodeId) : Option Value :=
  (casts.reverse.find? (fun c => decide (c.1.slot = slot ∧ c.2 = i))).map (fun c => c.1.value)

/-- `v` is the last vote for `slot` of `n` senders. -/
def VotedBy (casts : List (Learn × NodeId)) (n : Nat) (slot : Slot) (v : Value) : Prop :=
  ∃ S : Finset NodeId, n ≤ S.card ∧ ∀ i ∈ S, latest casts slot i = some v

theorem latest_snoc (casts : List (Learn × NodeId)) (c : Learn × NodeId) (slot : Slot)
    (i : NodeId) :
    latest (casts ++ [c]) slot i =
      if c.1.slot = slot ∧ c.2 = i then some c.1.value else latest casts slot i := by
  unfold latest
  rw [List.reverse_append, List.reverse_singleton, List.singleton_append, List.find?_cons]
  by_cases h : c.1.slot = slot ∧ c.2 = i
  · simp [h]
  · simp only [if_neg h, decide_eq_false h]

/-- Only a sender has a last vote. -/
theorem mem_of_latest {casts : List (Learn × NodeId)} {slot : Slot} {i : NodeId} {v : Value}
    (h : latest casts slot i = some v) : i ∈ casts.map Prod.snd := by
  obtain ⟨c, hfound, -⟩ := Option.map_eq_some_iff.mp h
  have hmem := List.mem_reverse.mp (List.mem_of_find?_eq_some hfound)
  have hsender : c.1.slot = slot ∧ c.2 = i := by simpa using List.find?_some hfound
  exact hsender.2 ▸ List.mem_map_of_mem hmem

/-- **Two values of a slot never both have a quorum** of at most `n` senders. -/
theorem VotedBy.unique {casts : List (Learn × NodeId)} {n : Nat} {slot : Slot} {v w : Value}
    (hfew : (casts.map Prod.snd).toFinset.card ≤ n) (hv : VotedBy casts (n / 2 + 1) slot v)
    (hw : VotedBy casts (n / 2 + 1) slot w) : v = w := by
  have hchosen : ∀ {v}, VotedBy casts (n / 2 + 1) slot v →
      Chosen (casts.map Prod.snd).toFinset (fun i v => latest casts slot i = some v) v := by
    rintro v ⟨S, hS, hall⟩
    refine ⟨S, majority_of_card (fun i hi => ?_) ?_, hall⟩
    · exact List.mem_toFinset.mpr (mem_of_latest (hall i hi))
    · have := Nat.div_le_div_right (c := 2) hfew
      omega
  apply Chosen.unique _ (hchosen hv) (hchosen hw)
  intro i _ hi hi'
  exact Option.some.inj (hi.symm.trans hi')

/-- There are as many votes as voters. -/
theorem VotedBy.le_length {casts : List (Learn × NodeId)} {n : Nat} {slot : Slot} {v : Value}
    (h : VotedBy casts n slot v) : n ≤ casts.length := by
  obtain ⟨S, hS, hall⟩ := h
  have hsub : S ⊆ (casts.map Prod.snd).toFinset :=
    fun i hi => List.mem_toFinset.mpr (mem_of_latest (hall i hi))
  calc n ≤ S.card := hS
    _ ≤ (casts.map Prod.snd).toFinset.card := Finset.card_le_card hsub
    _ ≤ (casts.map Prod.snd).length := List.toFinset_card_le _
    _ = casts.length := List.length_map _

/-- The learner has stored the last vote of each sender. -/
def Stored (casts : List (Learn × NodeId)) (l : Learner) : Prop :=
  ∀ slot i, (((l.slotLearns.get? slot).getD ∅).get? i).map Learn.value = latest casts slot i

theorem Stored.storeVote {casts : List (Learn × NodeId)} {l : Learner} (h : Stored casts l)
    (learn : Learn) (sender : Node) :
    Stored (casts ++ [(learn, sender.nodeId)]) (l.storeVote learn sender) := by
  intro slot i
  rw [latest_snoc, ← h slot i]
  unfold Learner.storeVote
  dsimp only
  rw [OrdMap.get?_insert]
  by_cases hslot : slot = learn.slot
  · subst hslot
    rw [if_pos rfl, Option.getD_some, OrdMap.get?_insert]
    by_cases hi : i = sender.nodeId
    · subst hi
      simp
    · rw [if_neg hi, if_neg (fun hboth => hi hboth.2.symm)]
  · rw [if_neg hslot, if_neg (fun hboth => hslot hboth.1.symm)]

/-- The votes counted are the last votes of the senders. -/
theorem Stored.votes_iff {casts : List (Learn × NodeId)} {l : Learner} (h : Stored casts l)
    {slot : Slot} {group : OrdMap NodeId Learn} (hgroup : l.slotLearns.get? slot = some group)
    (n : Nat) (v : Value) : Votes group n v ↔ VotedBy casts n slot v := by
  refine exists_congr (fun S => and_congr_right (fun _ => forall₂_congr (fun i _ => ?_)))
  rw [← h slot i, hgroup, Option.getD_some, Option.map_eq_some_iff]

theorem stored_run (l : Learner) (hnew : Stored [] l) (votes : List Vote) :
    Stored (votes.map Vote.cast) (run take l votes) ∧ (run take l votes).quorum = l.quorum := by
  induction votes using List.reverseRecOn with
  | nil => exact ⟨hnew, rfl⟩
  | append_singleton votes c ih =>
      obtain ⟨hstored, hquorum⟩ := ih
      rw [run_snoc, List.map_append]
      obtain ⟨-, -, hvotes, hsame⟩ :=
        (run take l votes).handleLearnIn_spec c.order c.env c.learn c.sender
      refine ⟨fun slot i => ?_, hsame.trans hquorum⟩
      rw [take, hvotes]
      exact hstored.storeVote c.learn c.sender slot i

/-! ## Learning by quorum

The learner goes by a quorum that is computed in 32 bits. It is a majority as long as a majority fits;
of `2 ^ 33 - 2` acceptors one vote is enough. -/

/-- **The answer to a vote**: `true` if nothing is learned for the slot and `need` senders now vote
alike, and then what they vote for is learned. -/
def AnswersByQuorum (l : Learner) (need : Nat) (votes : List Vote) (c : Vote) : Prop :=
  let before := run take l votes
  let casts := (votes ++ [c]).map Vote.cast
  (before.answer c = true ↔ before.learned.get? c.learn.slot = none ∧
      ∃ v, VotedBy casts need c.learn.slot v) ∧
    (before.answer c = true → ∃ v, VotedBy casts need c.learn.slot v ∧
      (before.take c).learned.get? c.learn.slot = some v)

/-- **Learning by a quorum of `need` senders**, of at most `n`, in every run of votes and in every
order of the counts. -/
structure LearnsByQuorum (l : Learner) (need n : Nat) : Prop where
  answers : ∀ votes c, l.AnswersByQuorum need votes c
  stays : ∀ votes later slot v, (run take l votes).learned.get? slot = some v →
    (run take l (votes ++ later)).learned.get? slot = some v
  anyOrder : ∀ votes votes', votes.map Vote.cast = votes'.map Vote.cast →
    ((votes.map Vote.cast).map Prod.snd).toFinset.card ≤ n →
      (run take l votes).learned = (run take l votes').learned

variable {l : Learner}

/-- The learner goes by its own quorum, and never by less than one vote. -/
theorem answersByQuorum_quorum (hnew : Stored [] l) (votes : List Vote) (c : Vote) :
    l.AnswersByQuorum (max 1 l.quorum) votes c := by
  obtain ⟨hstored, hquorum⟩ := stored_run l hnew votes
  unfold AnswersByQuorum
  intro before casts
  have hcasts : casts = votes.map Vote.cast ++ [c.cast] := List.map_append
  have hgroup := before.get?_storeVote c.learn c.sender
  obtain ⟨hsound, hcomplete⟩ := checkQuorumIn_spec c.order hgroup
  have hvoted := (hstored.storeVote c.learn c.sender).votes_iff hgroup (max 1 l.quorum)
  rw [show votes.map Vote.cast ++ [(c.learn, c.sender.nodeId)] = casts from hcasts.symm] at hvoted
  obtain ⟨hanswer, hlearned, -, -⟩ := before.handleLearnIn_spec c.order c.env c.learn c.sender
  have hsame : (before.storeVote c.learn c.sender).quorum = l.quorum := hquorum
  rw [hsame] at hsound hcomplete
  constructor
  · rw [answer, hanswer]
    refine and_congr_right (fun _ => ?_)
    constructor
    · rintro ⟨v, hv⟩
      exact ⟨v, (hvoted v).mp (hsound v hv)⟩
    · rintro ⟨v, hv⟩
      exact hcomplete v ((hvoted v).mpr hv)
  · intro htrue
    obtain ⟨hnone, v, hv⟩ := hanswer.mp htrue
    refine ⟨v, (hvoted v).mp (hsound v hv), ?_⟩
    rw [take, hlearned, hnone, if_pos rfl, hv]
    rfl

/-! ### The learned values of a run -/

/-- What is learned stays. -/
theorem learned_stays (votes later : List Vote) (slot : Slot) (v : Value)
    (h : (run take l votes).learned.get? slot = some v) :
    (run take l (votes ++ later)).learned.get? slot = some v := by
  rw [run_append]
  apply run_invariant (P := fun l : Learner => l.learned.get? slot = some v) _ h
  intro l c hv
  obtain ⟨-, hlearned, -⟩ := l.handleLearnIn_spec c.order c.env c.learn c.sender
  rw [take, hlearned, hv, Option.some_or]

/-- A vote for another slot changes nothing. -/
theorem learned_take_of_ne {c : Vote} {slot : Slot} (hne : slot ≠ c.learn.slot) :
    (l.take c).learned.get? slot = l.learned.get? slot := by
  obtain ⟨-, hlearned, -⟩ := l.handleLearnIn_spec c.order c.env c.learn c.sender
  rw [take, hlearned, if_neg hne, Option.or_none]

/-- Where the answer is `false`, nothing is learned. -/
theorem learned_take_of_false {c : Vote}
    (h : l.answer c ≠ true) :
    (l.take c).learned = l.learned := by
  obtain ⟨hanswer, hlearned, -⟩ := l.handleLearnIn_spec c.order c.env c.learn c.sender
  refine OrdMap.ext_get? (fun slot => ?_)
  rw [take, hlearned]
  by_cases hslot : slot = c.learn.slot
  · subst hslot
    cases hheld : l.learned.get? c.learn.slot with
    | some v => rfl
    | none =>
        rw [if_pos rfl, Option.none_or]
        by_contra hfound
        exact h (hanswer.mpr ⟨hheld, Option.ne_none_iff_exists'.mp hfound⟩)
  · rw [if_neg hslot, Option.or_none]

/-- **Any order learns the same**, while no more senders vote than there are acceptors. -/
theorem learned_anyOrder {n : Nat} (hanswers : ∀ votes c, l.AnswersByQuorum (n / 2 + 1) votes c)
    (votes votes' : List Vote) (hcasts : votes.map Vote.cast = votes'.map Vote.cast)
    (hfew : ((votes.map Vote.cast).map Prod.snd).toFinset.card ≤ n) :
    (run take l votes).learned = (run take l votes').learned := by
  induction votes using List.reverseRecOn generalizing votes' with
  | nil =>
      obtain rfl := List.map_eq_nil_iff.mp hcasts.symm
      rfl
  | append_singleton votes c ih =>
      obtain ⟨votes', c', rfl⟩ : ∃ init last, votes' = init ++ [last] := by
        rcases List.eq_nil_or_concat votes' with rfl | ⟨init, last, he⟩
        · simp at hcasts
        · exact ⟨init, last, by simpa using he⟩
      have hsplit : votes.map Vote.cast = votes'.map Vote.cast ∧ c.cast = c'.cast := by
        simpa using hcasts
      obtain ⟨hbefore, hcast⟩ := hsplit
      have hbeforeFew : ((votes.map Vote.cast).map Prod.snd).toFinset.card ≤ n := by
        refine (Finset.card_le_card ?_).trans hfew
        intro i hi
        simp only [List.mem_toFinset, List.map_append, List.mem_append] at hi ⊢
        exact Or.inl hi
      -- before the last vote both have learned the same
      have hsame := ih votes' hbefore hbeforeFew
      have hlearn : c.learn = c'.learn := congrArg Prod.fst hcast
      obtain ⟨hanswer, hvalue⟩ := hanswers votes c
      obtain ⟨hanswer', hvalue'⟩ := hanswers votes' c'
      rw [← hcasts, ← hlearn, ← hsame] at hanswer'
      rw [← hcasts, ← hlearn] at hvalue'
      rw [run_snoc, run_snoc]
      by_cases htrue : (run take l votes).answer c = true
      · have htrue' := hanswer'.mpr (hanswer.mp htrue)
        obtain ⟨v, hv, hget⟩ := hvalue htrue
        obtain ⟨w, hw, hget'⟩ := hvalue' htrue'
        -- two values cannot both have a quorum of so few senders
        obtain rfl := VotedBy.unique hfew hv hw
        refine OrdMap.ext_get? (fun slot => ?_)
        by_cases hslot : slot = c.learn.slot
        · rw [hslot]
          exact hget.trans hget'.symm
        · rw [learned_take_of_ne hslot, learned_take_of_ne (hlearn ▸ hslot), hsame]
      · have hfalse' := fun htrue' => htrue (hanswer.mpr (hanswer'.mp htrue'))
        rw [learned_take_of_false htrue, learned_take_of_false hfalse', hsame]

/-- What is learned was learned at some vote, which was answered `true`. -/
theorem exists_answer (hnone : ∀ slot, l.learned.get? slot = none) {votes : List Vote} {slot : Slot}
    {v : Value} (h : (run take l votes).learned.get? slot = some v) :
    ∃ before c after, votes = before ++ c :: after ∧ (run take l before).answer c = true := by
  induction votes using List.reverseRecOn generalizing v with
  | nil =>
      rw [run_nil, hnone] at h
      cases h
  | append_singleton votes c ih =>
      by_cases htrue : (run take l votes).answer c = true
      · exact ⟨votes, c, [], rfl, htrue⟩
      · rw [run_snoc, learned_take_of_false htrue] at h
        obtain ⟨before, c', after, rfl, hanswer⟩ := ih h
        exact ⟨before, c', after ++ [c], by simp, hanswer⟩

/-! ### Votes alike

How many votes are enough, and what becomes of a quorum that does not fit into 32 bits. -/

/-- A vote of the sender `i` for the no-op in slot 1. -/
def noOpVote (i : NodeId) : Vote where
  env := .quiet
  order := .asStored
  learn := { slot := 1, value := .noOp }
  sender := { nodeId := i, address := "", role := .acceptor }

/-- Such a vote of each of the senders below `k`. -/
def unanimous (k : Nat) : List Vote := (List.range k).map noOpVote

theorem unanimous_succ (k : Nat) : unanimous (k + 1) = unanimous k ++ [noOpVote k] := by
  rw [unanimous, List.range_succ, List.map_append]
  rfl

theorem votedBy_unanimous (k : Nat) : VotedBy ((unanimous k).map Vote.cast) k 1 .noOp := by
  refine ⟨Finset.range k, (Finset.card_range k).ge, ?_⟩
  induction k with
  | zero => simp
  | succ k ih =>
      intro i hi
      rw [unanimous_succ, List.map_append, List.map_singleton, latest_snoc]
      by_cases hik : k = i
      · subst hik
        exact if_pos ⟨rfl, rfl⟩
      · rw [if_neg (fun h => hik h.2)]
        apply ih i
        grind

/-- As many votes alike as the quorum are enough. -/
theorem learned_unanimous (hnew : Stored [] l) (k : Nat) (hk : k + 1 = max 1 l.quorum) :
    ∃ v, (run take l (unanimous (k + 1))).learned.get? 1 = some v := by
  obtain ⟨hanswer, hvalue⟩ := answersByQuorum_quorum hnew (unanimous k) (noOpVote k)
  rw [← unanimous_succ, ← hk] at hanswer hvalue
  rw [unanimous_succ]
  cases hheld : (run take l (unanimous k)).learned.get? 1 with
  | some v => exact ⟨v, learned_stays _ [noOpVote k] 1 v hheld⟩
  | none =>
      obtain ⟨v, -, hget⟩ := hvalue (hanswer.mpr ⟨hheld, .noOp, votedBy_unanimous (k + 1)⟩)
      rw [run_snoc]
      exact ⟨v, hget⟩

/-- **A learner learns only what a quorum votes for**, exactly if the quorum of its acceptors fits
into 32 bits: then, in every run of votes, it answers `true` when a value first has the last votes of a
quorum, keeps this value, and while no more senders vote than there are acceptors learns the same
in every order of its maps. -/
theorem learnsByQuorum_iff (hash : String → Nat) (dir : Dir) (env : Env) (numAcceptors : Nat)
    (nodeId : String) (config : RunConfig) :
    (new hash dir env numAcceptors nodeId config).LearnsByQuorum (numAcceptors / 2 + 1)
        numAcceptors ↔
      numAcceptors / 2 + 1 < 2 ^ 32 := by
  have hnew : Stored [] (new hash dir env numAcceptors nodeId config) := fun _ _ => rfl
  have hquorum : (new hash dir env numAcceptors nodeId config).quorum =
      asUsize (numAcceptors / 2 + 1) := rfl
  have hnone : ∀ slot, (new hash dir env numAcceptors nodeId config).learned.get? slot = none :=
    fun _ => rfl
  generalize new hash dir env numAcceptors nodeId config = l at hnew hquorum hnone ⊢
  constructor
  · intro h
    by_contra hlarge
    -- the quorum has wrapped around, and so many votes are too few
    have hwrapped : max 1 l.quorum < numAcceptors / 2 + 1 := by
      have hmod : asUsize (numAcceptors / 2 + 1) < 2 ^ 32 := Nat.mod_lt _ (by decide)
      omega
    obtain ⟨k, hk⟩ : ∃ k, k + 1 = max 1 l.quorum := ⟨max 1 l.quorum - 1, by omega⟩
    obtain ⟨v, hget⟩ := learned_unanimous hnew k hk
    obtain ⟨before, c, after, he, htrue⟩ := exists_answer hnone hget
    obtain ⟨w, hvoted, -⟩ := (h.answers before c).2 htrue
    have hle := hvoted.le_length
    have hlength : (unanimous (k + 1)).length = k + 1 := by simp [unanimous]
    rw [he] at hlength
    simp only [List.length_map, List.length_append, List.length_cons, List.length_nil] at hle hlength
    omega
  · intro hsmall
    have hneed : max 1 l.quorum = numAcceptors / 2 + 1 := by
      rw [hquorum, asUsize_of_lt hsmall]
      omega
    have hanswers : ∀ votes c, l.AnswersByQuorum (numAcceptors / 2 + 1) votes c := by
      intro votes c
      rw [← hneed]
      exact answersByQuorum_quorum hnew votes c
    exact ⟨hanswers, learned_stays, learned_anyOrder hanswers⟩

/-- **One vote is enough** for a learner of `2 ^ 33 - 2` acceptors: its quorum of `2 ^ 32` votes is
cut to none. -/
theorem one_vote_enough :
    ¬ (new (fun _ => 0) .empty .quiet (2 ^ 33 - 2) "1" .inMemory).LearnsByQuorum
      ((2 ^ 33 - 2) / 2 + 1) (2 ^ 33 - 2) := by
  intro h
  obtain ⟨v, hvoted, -⟩ := (h.answers [] (noOpVote 1)).2 (by decide)
  exact absurd hvoted.le_length (by decide)

end Learner

end PaxosWasm
