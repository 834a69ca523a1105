import PaxosWasm.Core.Proposer

/-!
# Phase 1 of the core proposer

`collectAcceptedValues` computes the right thing: for every slot from `minSlot` to the highest one
reported, the report of the highest ballot, or a no-op (`collectAcceptedValues_eq`). What
`processPrepare` then proposes is another matter. It drops the no-ops and queues the values that are
not queued yet, and the slots are handed out again by a counter, so a gap, a repeated value or a
value left in the queue shifts everything behind it to other slots. Phase 1 adopts what was reported
exactly when nothing shifts.

The loops of the source are turned into statements about single slots first: `bestReport` for the fold
over the promises, `filled` for the walk over the gaps, `enqueueNew` for the queue. The two results about
what is collected are `collectAcceptedValues_eq` and `collects_highest_ballots`; the one about what is
proposed, `adopts_iff_fillsInOrder`, compares the queue that Phase 1 leaves with the row of proposals
that the next calls make of it.
-/

namespace PaxosWasm

open Library

namespace Proposer

/-! ## Reports

The promises report p-values, several of them for one slot perhaps. The one with the highest ballot
counts, and of two with the same ballot the first. -/

/-- The p-values the promises report. -/
def reports (promises : List Promise) : List PValue := promises.flatMap Promise.accepted

/-- The report of the highest ballot for `slot`, the first of several. -/
def bestReport (promises : List Promise) (slot : Slot) : Option PValue :=
  ((reports promises).filter (fun pv => decide (pv.slot = slot))).argmax PValue.ballot

/-- One past the highest slot reported. -/
def endSlot (promises : List Promise) : Slot :=
  (reports promises).foldr (fun pv bound => max (pv.slot + 1) bound) 0

theorem lt_endSlot {promises : List Promise} {s : Slot} :
    s < endSlot promises ↔ ∃ pv ∈ reports promises, s ≤ pv.slot := by
  unfold endSlot
  induction reports promises with
  | nil => simp
  | cons pv pvs ih =>
      rw [List.foldr_cons, lt_max_iff, ih, Nat.lt_succ_iff]
      simp

theorem slotMap_eq (minSlot : Slot) (promises : List Promise) :
    slotMap minSlot promises =
      ((reports promises).filter (fun pv => decide (pv.slot ≥ minSlot))).foldl keepHighest ∅ := by
  rw [slotMap, reports, List.foldl_filter, List.foldl_flatMap]
  simp only [decide_eq_true_eq]

/-- Folding `keepHighest` keeps the highest ballot of each slot. -/
theorem get?_foldl_keepHighest (pvs : List PValue) (s : Slot) :
    (pvs.foldl keepHighest ∅).get? s =
      (pvs.filter (fun pv => decide (pv.slot = s))).argmax PValue.ballot := by
  induction pvs using List.reverseRecOn with
  | nil => rfl
  | append_singleton pvs pv ih =>
      rw [List.foldl_append, List.filter_append]
      show (keepHighest (pvs.foldl keepHighest ∅) pv).get? s = _
      by_cases hs : pv.slot = s
      · subst hs
        rw [List.filter_cons_of_pos (by simp), List.filter_nil, List.argmax_concat, ← ih,
          keepHighest]
        cases hold : (pvs.foldl keepHighest ∅).get? pv.slot with
        | none => simp
        | some old =>
            dsimp only
            split
            · exact OrdMap.get?_insert_self ..
            · exact hold
      · rw [List.filter_cons_of_neg (by simpa using hs), List.filter_nil, List.append_nil, ← ih,
          keepHighest]
        split
        · split
          · rw [OrdMap.get?_insert_of_ne _ _ (Ne.symm hs)]
          · rfl
        · rw [OrdMap.get?_insert_of_ne _ _ (Ne.symm hs)]

theorem get?_slotMap (minSlot : Slot) (promises : List Promise) (s : Slot) :
    (slotMap minSlot promises).get? s =
      if minSlot ≤ s then bestReport promises s else none := by
  rw [slotMap_eq, get?_foldl_keepHighest, List.filter_filter]
  split
  · next hle =>
    rw [bestReport]
    congr 1
    refine List.filter_congr (fun pv _ => ?_)
    by_cases hs : pv.slot = s
    · simp [hs, hle]
    · simp [hs]
  · next hlt =>
    rw [List.argmax_eq_none, List.filter_eq_nil_iff]
    intro pv _
    simp only [Bool.and_eq_true, decide_eq_true_eq, not_and]
    exact fun hs hge => hlt (hs ▸ hge)

/-! ## Gaps

The slots without a report get a no-op, up to the highest slot that is reported. -/

/-- The entry `fillGaps` has for a slot. -/
def filled (ballot : Ballot) (m : OrdMap Slot PValue) (s : Slot) : PValue :=
  (m.get? s).getD { slot := s, ballot, value := none }

/-- One past the greatest key. -/
def bound (es : List (Slot × PValue)) : Slot := es.foldr (fun e b => max (e.1 + 1) b) 0

/-- **Every slot up to the last one gets an entry**, in order. -/
theorem fillGaps_eq (ballot : Ballot) (k : Slot) (m : OrdMap Slot PValue)
    (hk : ∀ e ∈ m.entries, k ≤ e.1) :
    fillGaps ballot k m.entries = (List.range' k (bound m.entries - k)).map (filled ballot m) := by
  obtain ⟨es, hs⟩ := m
  induction es generalizing k with
  | nil => simp [fillGaps, bound]
  | cons e es ih =>
      obtain ⟨slot, pv⟩ := e
      obtain ⟨hhd, htl⟩ := List.pairwise_cons.mp hs
      have hkslot : k ≤ slot := hk (slot, pv) (List.mem_cons_self ..)
      have hrec := ih (slot + 1) htl (fun e he => hhd e he)
      simp only at hrec ⊢
      -- the range splits into the gap, the slot itself and the rest
      have hbound : bound ((slot, pv) :: es) = max (slot + 1) (bound es) := rfl
      have hsplit : List.range' k (bound ((slot, pv) :: es) - k) =
          List.range' k (slot - k) ++ slot :: List.range' (slot + 1) (bound es - (slot + 1)) := by
        rw [← List.range'_succ]
        have hgap : slot = k + (slot - k) := (Nat.add_sub_cancel' hkslot).symm
        conv_rhs => rw [show List.range' slot (bound es - (slot + 1) + 1) =
          List.range' (k + (slot - k)) (bound es - (slot + 1) + 1) by rw [← hgap]]
        rw [List.range'_append_1]
        congr 1
        rw [hbound]
        rcases Nat.le_total (slot + 1) (bound es) with hle | hle
        · rw [max_eq_right hle]
          lia
        · rw [max_eq_left hle]
          lia
      rw [fillGaps, hrec, hsplit, List.map_append, List.map_cons]
      have hfind : ∀ s, (⟨(slot, pv) :: es, hs⟩ : OrdMap Slot PValue).get? s =
          if s = slot then some pv else (⟨es, htl⟩ : OrdMap Slot PValue).get? s := by
        intro s
        unfold OrdMap.get?
        rw [List.find?_cons]
        by_cases hslot : s = slot
        · simp [hslot]
        · simp [hslot, Ne.symm hslot]
      congr 1
      · refine List.map_congr_left (fun s hs' => ?_)
        obtain ⟨_, hlt⟩ := List.mem_range'_1.mp hs'
        have hlt' : s < slot := by lia
        have hne : s ≠ slot := ne_of_lt hlt'
        have hnone : (⟨es, htl⟩ : OrdMap Slot PValue).get? s = none := by
          cases hg : (⟨es, htl⟩ : OrdMap Slot PValue).get? s with
          | none => rfl
          | some w =>
              exact absurd (hhd _ (OrdMap.mem_entries.mp hg)) (lt_asymm hlt')
        rw [filled, hfind, if_neg hne, hnone]
        rfl
      · congr 1
        · rw [filled, hfind, if_pos rfl]
          rfl
        · refine List.map_congr_left (fun s hs' => ?_)
          obtain ⟨hge, _⟩ := List.mem_range'_1.mp hs'
          have hne : s ≠ slot := ne_of_gt hge
          rw [filled, filled, hfind, if_neg hne]

theorem lt_bound {es : List (Slot × PValue)} {s : Slot} : s < bound es ↔ ∃ e ∈ es, s ≤ e.1 := by
  unfold bound
  induction es with
  | nil => simp
  | cons e es ih =>
      rw [List.foldr_cons, lt_max_iff, ih, Nat.lt_succ_iff]
      simp

/-- The slots from `minSlot` to the highest one reported. -/
def slotsFrom (minSlot : Slot) (promises : List Promise) : List Slot :=
  List.range' minSlot (endSlot promises - minSlot)

theorem mem_slotsFrom {minSlot s : Slot} {promises : List Promise} :
    s ∈ slotsFrom minSlot promises ↔ minSlot ≤ s ∧ ∃ pv ∈ reports promises, s ≤ pv.slot := by
  rw [slotsFrom, List.mem_range'_1, ← lt_endSlot]
  constructor
  · rintro ⟨hle, hlt⟩
    exact ⟨hle, by lia⟩
  · rintro ⟨hle, hlt⟩
    exact ⟨hle, by lia⟩

theorem bound_slotMap (minSlot : Slot) (promises : List Promise) :
    bound (slotMap minSlot promises).entries - minSlot = endSlot promises - minSlot := by
  have hsame : ∀ s, minSlot ≤ s →
      (s < bound (slotMap minSlot promises).entries ↔ s < endSlot promises) := by
    intro s hs
    rw [lt_bound, lt_endSlot]
    constructor
    · rintro ⟨⟨slot, pv⟩, he, hle⟩
      have hget := OrdMap.mem_entries.mpr he
      rw [get?_slotMap] at hget
      split at hget
      · have hmem := List.mem_filter.mp (List.argmax_mem hget)
        have hslot : pv.slot = slot := by simpa using hmem.2
        exact ⟨pv, hmem.1, hslot ▸ hle⟩
      · cases hget
    · rintro ⟨pv, hpv, hle⟩
      cases hbest : bestReport promises pv.slot with
      | none =>
          rw [bestReport, List.argmax_eq_none, List.filter_eq_nil_iff] at hbest
          simpa using hbest pv hpv
      | some best =>
          have hget : (slotMap minSlot promises).get? pv.slot = some best := by
            rw [get?_slotMap, if_pos (le_trans hs hle), hbest]
          exact ⟨_, OrdMap.mem_entries.mp hget, hle⟩
  generalize bound (slotMap minSlot promises).entries = b at hsame ⊢
  have hmin := hsame minSlot (le_refl _)
  have hb := hsame b
  have he := hsame (endSlot promises)
  lia

/-- **What `collectAcceptedValues` collects**: for every slot from `minSlot` to the highest one
reported, in order, the report of the highest ballot or a no-op. -/
theorem collectAcceptedValues_eq {p : Proposer} {minSlot : Slot} (promises : List Promise)
    (hslot : p.currentSlot ≤ minSlot) :
    p.collectAcceptedValues minSlot promises =
      ((slotsFrom minSlot promises).map (fun s =>
          (bestReport promises s).getD { slot := s, ballot := p.currentBallot, value := none }),
        { p with currentSlot := minSlot - 1 }) := by
  have hkeys : ∀ e ∈ (slotMap minSlot promises).entries, minSlot ≤ e.1 := by
    intro e he
    have hget := OrdMap.mem_entries.mpr he
    rw [get?_slotMap] at hget
    split at hget
    · assumption
    · cases hget
  rw [collectAcceptedValues, if_neg (Nat.not_lt_of_le hslot), fillGaps_eq _ _ _ hkeys,
    bound_slotMap, ← slotsFrom]
  refine Prod.ext (List.map_congr_left (fun s hs => ?_)) rfl
  rw [filled, get?_slotMap, if_pos (mem_slotsFrom.mp hs).1]

theorem bestReport_slot {promises : List Promise} {s : Slot} {pv : PValue}
    (h : bestReport promises s = some pv) : pv.slot = s := by
  simpa using (List.mem_filter.mp (List.argmax_mem h)).2

theorem bestReport_mem {promises : List Promise} {s : Slot} {pv : PValue}
    (h : bestReport promises s = some pv) : pv ∈ reports promises :=
  (List.mem_filter.mp (List.argmax_mem h)).1

/-- Where a slot is reported there is a best report, and it has the highest ballot. -/
theorem exists_bestReport {promises : List Promise} {pv : PValue} (h : pv ∈ reports promises) :
    ∃ best, bestReport promises pv.slot = some best ∧ pv.ballot ≤ best.ballot := by
  have hmem : pv ∈ (reports promises).filter (fun x => decide (x.slot = pv.slot)) :=
    List.mem_filter.mpr ⟨h, by simp⟩
  cases hbest : bestReport promises pv.slot with
  | none =>
      rw [List.argmax_eq_none.mp hbest] at hmem
      cases hmem
  | some best => exact ⟨best, rfl, List.le_of_mem_argmax hmem hbest⟩

/-! ## Order and repetition

Reports of one slot and one ballot are the same wherever they come from, as long as a ballot has one value
in a slot. Then neither the order of the promises matters nor how often one comes. -/

/-- Reports of one slot and one ballot are the same. -/
def Agree (promises : List Promise) : Prop :=
  ∀ pv ∈ reports promises, ∀ pv' ∈ reports promises,
    pv.slot = pv'.slot → pv.ballot = pv'.ballot → pv = pv'

instance : DecidablePred Agree := fun promises => inferInstanceAs
  (Decidable (∀ pv ∈ reports promises, ∀ pv' ∈ reports promises, _))

/-- Of reports that agree, the best one is the one with the highest ballot. -/
theorem bestReport_eq_some_iff {promises : List Promise} (hagree : Agree promises) {s : Slot}
    {pv : PValue} : bestReport promises s = some pv ↔
      pv ∈ reports promises ∧ pv.slot = s ∧
        ∀ pv' ∈ reports promises, pv'.slot = s → pv'.ballot ≤ pv.ballot := by
  constructor
  · intro h
    refine ⟨bestReport_mem h, bestReport_slot h, ?_⟩
    rintro pv' hmem' rfl
    obtain ⟨best, hbest, hle⟩ := exists_bestReport hmem'
    rw [Option.some.inj (h.symm.trans hbest)]
    exact hle
  · rintro ⟨hmem, rfl, hmost⟩
    obtain ⟨best, hbest, hle⟩ := exists_bestReport hmem
    have hge := hmost best (bestReport_mem hbest) (bestReport_slot hbest)
    rw [hbest, hagree pv hmem best (bestReport_mem hbest) (bestReport_slot hbest).symm
      (le_antisymm hle hge)]

theorem bestReport_eq_none_iff {promises : List Promise} {s : Slot} :
    bestReport promises s = none ↔ ∀ pv ∈ reports promises, pv.slot ≠ s := by
  rw [bestReport, List.argmax_eq_none, List.filter_eq_nil_iff]
  simp

/-- The same reports, in another order or more often, are as good. -/
theorem bestReport_congr {promises promises' : List Promise} (hagree : Agree promises)
    (hsame : ∀ pv, pv ∈ reports promises' ↔ pv ∈ reports promises) (s : Slot) :
    bestReport promises' s = bestReport promises s := by
  have hagree' : Agree promises' := fun pv hpv pv' hpv' =>
    hagree pv ((hsame pv).mp hpv) pv' ((hsame pv').mp hpv')
  apply Option.ext
  intro pv
  simp only [bestReport_eq_some_iff hagree, bestReport_eq_some_iff hagree', hsame]

theorem slotsFrom_congr {promises promises' : List Promise}
    (hsame : ∀ pv, pv ∈ reports promises' ↔ pv ∈ reports promises) (minSlot : Slot) :
    slotsFrom minSlot promises' = slotsFrom minSlot promises := by
  have hend : endSlot promises' = endSlot promises := by
    apply eq_of_forall_lt_iff
    intro s
    simp only [lt_endSlot, hsame]
  rw [slotsFrom, slotsFrom, hend]

/-- What is collected for the slot of `pv`: the report of the highest ballot, or a no-op. -/
def Collected (ballot : Ballot) (promises : List Promise) (pv : PValue) : Prop :=
  (pv ∈ reports promises ∧
      ∀ pv' ∈ reports promises, pv'.slot = pv.slot → pv'.ballot ≤ pv.ballot) ∨
    ((∀ pv' ∈ reports promises, pv'.slot ≠ pv.slot) ∧ pv.ballot = ballot ∧ pv.value = none)

theorem slot_getD_bestReport (promises : List Promise) (s : Slot) (ballot : Ballot) :
    ((bestReport promises s).getD { slot := s, ballot, value := none }).slot = s := by
  cases hbest : bestReport promises s with
  | none => rfl
  | some best => exact bestReport_slot hbest

/-- **The highest ballots are collected.** The counter is put before `minSlot`. Nothing is collected
if nothing is reported from `minSlot` on; else one p-value for each slot from there to the highest
one reported, in order, which is the report of the highest ballot or a no-op. The order of the
promises and of what they report makes no difference. (In the source, slots have to be below the
greatest `u64`, from which `slot + 1` wraps.) -/
theorem collects_highest_ballots (p : Proposer) {minSlot : Slot} (hslot : p.currentSlot ≤ minSlot)
    (promises : List Promise) (hagree : Agree promises) :
    (p.collectAcceptedValues minSlot promises).2 = { p with currentSlot := minSlot - 1 } ∧
      ((∀ pv ∈ reports promises, pv.slot < minSlot) →
        (p.collectAcceptedValues minSlot promises).1 = []) ∧
      (∀ pv ∈ reports promises, minSlot ≤ pv.slot →
        (∀ pv' ∈ reports promises, pv'.slot ≤ pv.slot) →
          (p.collectAcceptedValues minSlot promises).1.map PValue.slot =
            List.range' minSlot (pv.slot + 1 - minSlot)) ∧
      (∀ pv ∈ (p.collectAcceptedValues minSlot promises).1,
        Collected p.currentBallot promises pv) ∧
      ∀ promises', (∀ pv, pv ∈ reports promises' ↔ pv ∈ reports promises) →
        p.collectAcceptedValues minSlot promises' = p.collectAcceptedValues minSlot promises := by
  rw [collectAcceptedValues_eq promises hslot]
  dsimp only
  refine ⟨rfl, fun hbelow => ?_, fun pv hpv hle hhighest => ?_, fun pv hpv => ?_,
    fun promises' hsame => ?_⟩
  · rw [List.map_eq_nil_iff, List.eq_nil_iff_forall_not_mem]
    intro s hs
    obtain ⟨hmin, pv, hpv, hge⟩ := mem_slotsFrom.mp hs
    exact absurd (lt_of_le_of_lt (hmin.trans hge) (hbelow pv hpv)) (lt_irrefl _)
  · -- the last slot collected is the highest one reported
    have hend : endSlot promises = pv.slot + 1 := by
      apply eq_of_forall_lt_iff
      intro s
      rw [lt_endSlot, Nat.lt_succ_iff]
      exact ⟨fun ⟨pv', hpv', hs⟩ => hs.trans (hhighest pv' hpv'), fun hs => ⟨pv, hpv, hs⟩⟩
    rw [List.map_map, ← hend, ← slotsFrom]
    refine (List.map_congr_left (fun s _ => slot_getD_bestReport ..)).trans (List.map_id _)
  · obtain ⟨s, -, rfl⟩ := List.mem_map.mp hpv
    unfold Collected
    rw [slot_getD_bestReport]
    cases hbest : bestReport promises s with
    | none => exact Or.inr ⟨bestReport_eq_none_iff.mp hbest, rfl, rfl⟩
    | some best =>
        obtain ⟨hmem, -, hmost⟩ := (bestReport_eq_some_iff hagree).mp hbest
        exact Or.inl ⟨hmem, hmost⟩
  · rw [collectAcceptedValues_eq promises' hslot, slotsFrom_congr hsame]
    simp only [bestReport_congr hagree hsame]

/-- The leader of a cluster with one acceptor, in its first ballot. -/
def firstLeader : Proposer := new Directory.empty Env.quiet true 1 1 RunConfig.inMemory

/-- A report of the value `set x value` at `slot`. -/
def reportAt (slot : Slot) (value : KvValue) : PValue := { slot, ballot := 1, value := some (setX value) }

/-- A promise that reports slots 1 and 3. -/
def withGap : List Promise := [{ slot := 1, ballot := 1, accepted := [reportAt 3 "b", reportAt 1 "a"] }]

theorem collects_with_gap :
    (firstLeader.collectAcceptedValues 1 withGap).1.map PValue.slot = [1, 2, 3] :=
  (collects_highest_ballots firstLeader (by decide) withGap (by decide)).2.2.1
    (reportAt 3 "b") (by decide) (by decide) (by decide)

/-- The value `collectAcceptedValues` picks for a slot, if it picks one. -/
def picks (p : Proposer) (minSlot : Slot) (promises : List Promise) (slot : Slot) : Option Value :=
  ((p.collectAcceptedValues minSlot promises).1.find? (fun pv => decide (pv.slot = slot))).bind
    PValue.value

/-- **A proposer whose counter is not past `minSlot` picks the report of the highest ballot.** -/
theorem picks_eq {p : Proposer} {minSlot slot : Slot} (promises : List Promise)
    (hcount : p.currentSlot ≤ minSlot) (hslot : minSlot ≤ slot) :
    p.picks minSlot promises slot = (bestReport promises slot).bind PValue.value := by
  rw [picks, collectAcceptedValues_eq promises hcount]
  dsimp only
  generalize hentries : (slotsFrom minSlot promises).map (fun s => (bestReport promises s).getD
    { slot := s, ballot := p.currentBallot, value := none }) = entries
  have hmem : ∀ pv ∈ entries, pv = (bestReport promises pv.slot).getD
      { slot := pv.slot, ballot := p.currentBallot, value := none } := by
    intro pv hpv
    rw [← hentries] at hpv
    obtain ⟨s, _, rfl⟩ := List.mem_map.mp hpv
    cases hbest : bestReport promises s with
    | none =>
        dsimp only [Option.getD]
        rw [hbest]
    | some best =>
        dsimp only [Option.getD]
        rw [bestReport_slot hbest, hbest]
  cases hfind : entries.find? (fun pv => decide (pv.slot = slot)) with
  | none =>
      cases hbest : bestReport promises slot with
      | none => rfl
      | some best =>
          -- a reported slot has an entry
          have hs := bestReport_slot hbest
          have hin : slot ∈ slotsFrom minSlot promises :=
            mem_slotsFrom.mpr ⟨hslot, best, bestReport_mem hbest, le_of_eq hs.symm⟩
          have hentry : best ∈ entries := by
            rw [← hentries]
            exact List.mem_map.mpr ⟨slot, hin, by rw [hbest]; rfl⟩
          exact absurd hs (by simpa using List.find?_eq_none.mp hfind best hentry)
  | some pv =>
      have hs : pv.slot = slot := by simpa using List.find?_some hfind
      have hpv := hmem pv (List.mem_of_find?_eq_some hfind)
      rw [hs] at hpv
      show pv.value = _
      rw [hpv]
      cases bestReport promises slot <;> rfl

/-! ## Queues without repetition

A value that is queued already is not queued again, also if it has been reported for another slot. -/

/-- Queue `v` unless it is queued. -/
def enqueueNew (queue : List Value) (v : Value) : List Value :=
  if v ∈ queue then queue else queue ++ [v]

theorem foldl_enqueuePrioritizedRequest (p : Proposer) (vs : List Value) :
    vs.foldl enqueuePrioritizedRequest p =
      { p with prioritizedValues := vs.foldl enqueueNew p.prioritizedValues } := by
  induction vs generalizing p with
  | nil => rfl
  | cons v vs ih =>
      rw [List.foldl_cons, ih, List.foldl_cons, enqueuePrioritizedRequest, enqueueNew]
      split <;> rfl

/-- Values that are queued already change nothing. -/
theorem foldl_enqueueNew_of_mem {queue vs : List Value} (h : ∀ v ∈ vs, v ∈ queue) :
    vs.foldl enqueueNew queue = queue := by
  induction vs with
  | nil => rfl
  | cons v vs ih =>
      rw [List.foldl_cons, enqueueNew, if_pos (h v (List.mem_cons_self ..))]
      exact ih (fun w hw => h w (List.mem_cons_of_mem _ hw))

/-- Different values that are not queued yet are queued in order. -/
theorem foldl_enqueueNew_of_fresh {queue vs : List Value} (hnodup : vs.Nodup)
    (h : ∀ v ∈ vs, v ∉ queue) : vs.foldl enqueueNew queue = queue ++ vs := by
  induction vs generalizing queue with
  | nil => simp
  | cons v vs ih =>
      obtain ⟨hv, hnodup⟩ := List.nodup_cons.mp hnodup
      rw [List.foldl_cons, enqueueNew, if_neg (h v (List.mem_cons_self ..)), ih hnodup]
      · simp
      · intro w hw hmem
        rcases List.mem_append.mp hmem with hmem | hmem
        · exact h w (List.mem_cons_of_mem _ hw) hmem
        · exact hv (List.mem_singleton.mp hmem ▸ hw)

/-- **What enqueueing adds**: behind the queue, different values that were not in it, and in the
end everything enqueued is there. -/
theorem foldl_enqueueNew_cases (queue vs : List Value) :
    ∃ fresh, vs.foldl enqueueNew queue = queue ++ fresh ∧ fresh.Nodup ∧
      (∀ v ∈ fresh, v ∈ vs ∧ v ∉ queue) ∧ ∀ v ∈ vs, v ∈ queue ++ fresh := by
  induction vs using List.reverseRecOn with
  | nil => exact ⟨[], by simp, List.nodup_nil, by simp, by simp⟩
  | append_singleton vs v ih =>
      obtain ⟨fresh, heq, hnodup, hfresh, hall⟩ := ih
      rw [List.foldl_append, heq, List.foldl_cons, List.foldl_nil, enqueueNew]
      split
      · next hmem =>
        refine ⟨fresh, rfl, hnodup, fun w hw => ?_, fun w hw => ?_⟩
        · exact ⟨List.mem_append_left _ (hfresh w hw).1, (hfresh w hw).2⟩
        · rcases List.mem_append.mp hw with hw | hw
          · exact hall w hw
          · exact List.mem_singleton.mp hw ▸ hmem
      · next hnew =>
        rw [List.mem_append, not_or] at hnew
        refine ⟨fresh ++ [v], by simp, ?_, fun w hw => ?_, fun w hw => ?_⟩
        · exact List.nodup_append.mpr ⟨hnodup, by simp, fun w hw x hx => by
            rw [List.mem_singleton.mp hx]
            rintro rfl
            exact hnew.2 hw⟩
        · rcases List.mem_append.mp hw with hw | hw
          · exact ⟨List.mem_append_left _ (hfresh w hw).1, (hfresh w hw).2⟩
          · rw [List.mem_singleton.mp hw]
            exact ⟨by simp, hnew.1⟩
        · rcases List.mem_append.mp hw with hw | hw
          · rw [← List.append_assoc]
            exact List.mem_append_left _ (hall w hw)
          · rw [List.mem_singleton.mp hw]
            simp

/-! ## `processPrepare`

The no-ops are dropped, and the commands are queued in the order of their slots. -/

theorem dedupSlots_eq_self {seen : List Slot} {as : List PValue}
    (hnodup : (as.map PValue.slot).Nodup) (hseen : ∀ a ∈ as, a.slot ∉ seen) :
    dedupSlots seen as = as := by
  induction as generalizing seen with
  | nil => rfl
  | cons a as ih =>
      obtain ⟨ha, hnodup⟩ := List.nodup_cons.mp hnodup
      rw [dedupSlots, if_neg (hseen a (List.mem_cons_self ..)), ih hnodup]
      intro b hb hmem
      rcases List.mem_cons.mp hmem with hmem | hmem
      · exact ha (List.mem_map.mpr ⟨b, hb, hmem⟩)
      · exact hseen b (List.mem_cons_of_mem _ hb) hmem

/-- What the slots from `minSlot` on should carry: the reported value of the highest ballot, or
nothing in particular where there is none. -/
def expected (minSlot : Slot) (promises : List Promise) : List (Option Value) :=
  (slotsFrom minSlot promises).map (fun s => (bestReport promises s).bind PValue.value)

/-- The commands among them. -/
def commands (vs : List (Option Value)) : List Value :=
  (vs.filterMap id).filter (fun v => v.command.isSome)

/-- **The state after a successful Phase 1.** -/
theorem processPrepare_of_success {p : Proposer} {minSlot : Slot} {promises : List Promise}
    (hslot : p.currentSlot ≤ minSlot)
    (hsucc : (p.processPrepare minSlot promises).1 = .success) :
    (p.processPrepare minSlot promises).2 =
      { p with
        currentSlot := minSlot - 1
        prioritizedValues :=
          (commands (expected minSlot promises)).foldl enqueueNew p.prioritizedValues } := by
  unfold processPrepare at hsucc ⊢
  dsimp only at hsucc ⊢
  split at hsucc
  · cases hsucc
  · next hquorum =>
    have hslots : ((slotsFrom minSlot promises).map (fun s => (bestReport promises s).getD
        { slot := s, ballot := p.currentBallot, value := none })).map PValue.slot =
        slotsFrom minSlot promises := by
      rw [List.map_map]
      refine (List.map_congr_left (fun s _ => ?_)).trans (List.map_id _)
      show ((bestReport promises s).getD _).slot = s
      cases hbest : bestReport promises s with
      | none => rfl
      | some pv => exact bestReport_slot hbest
    have hvalues : ((slotsFrom minSlot promises).map (fun s => (bestReport promises s).getD
        { slot := s, ballot := p.currentBallot, value := none })).filterMap PValue.value =
        (expected minSlot promises).filterMap id := by
      rw [expected, List.filterMap_map, List.filterMap_map]
      refine List.filterMap_congr (fun s _ => ?_)
      show ((bestReport promises s).getD _).value = (bestReport promises s).bind PValue.value
      cases bestReport promises s <;> rfl
    rw [if_neg hquorum, collectAcceptedValues_eq promises hslot, foldl_enqueuePrioritizedRequest,
      dedupSlots_eq_self (by rw [hslots]; exact List.nodup_range') (by simp), hvalues]
    rfl

/-! ## The following proposals

The calls of `create_proposal` that follow take the values off the queue, each for the next slot. -/

/-- The values in the order `createProposal` takes them. -/
def queue (p : Proposer) : List Value := p.prioritizedValues ++ p.pendingClientRequests

/-- A leader proposes the head of its queue for the next slot, if there is one. -/
theorem createProposal_cases {p : Proposer} (hleader : p.isLeader = true) :
    (p.queue = [] ∧ p.createProposal = (none, p)) ∨
      ∃ v rest p', p.queue = v :: rest ∧
        p.createProposal = (some { slot := p.currentSlot + 1, ballot := p.currentBallot, value := v }, p') ∧
        p'.queue = rest ∧ p'.isLeader = true ∧ p'.currentSlot = p.currentSlot + 1 ∧
        p'.currentBallot = p.currentBallot := by
  unfold createProposal nextValue
  rw [if_neg (by simp [hleader])]
  cases hprio : p.prioritizedValues with
  | cons v rest =>
      refine Or.inr ⟨v, rest ++ p.pendingClientRequests, _, ?_, rfl, rfl, hleader, rfl, rfl⟩
      rw [queue, hprio]
      rfl
  | nil =>
      cases hpend : p.pendingClientRequests with
      | nil => exact Or.inl ⟨by rw [queue, hprio, hpend]; rfl, rfl⟩
      | cons v rest =>
          refine Or.inr ⟨v, rest, _, ?_, rfl, rfl, hleader, rfl, rfl⟩
          rw [queue, hprio, hpend]
          rfl

/-- What the `k`-th of a row of `createProposal` calls returns, counted from `0`. -/
def nthProposal (p : Proposer) : Nat → Option Proposal
  | 0 => p.createProposal.1
  | k + 1 => p.createProposal.2.nthProposal k

/-- **The `k`-th call proposes the `k`-th queued value**, each for the next slot. -/
theorem nthProposal_eq {p : Proposer} (hleader : p.isLeader = true) (k : Nat) :
    p.nthProposal k = p.queue[k]?.map (fun v =>
      { slot := p.currentSlot + 1 + k, ballot := p.currentBallot, value := v }) := by
  induction k generalizing p with
  | zero =>
      rw [nthProposal]
      rcases createProposal_cases hleader with ⟨hq, hc⟩ | ⟨v, rest, p', hq, hc, _⟩
      · rw [hq, hc]
        rfl
      · rw [hq, hc]
        rfl
  | succ k ih =>
      rw [nthProposal]
      rcases createProposal_cases hleader with ⟨hq, hc⟩ | ⟨v, rest, p', hq, hc, hq', hl, hs, hb⟩
      · rw [hc, ih hleader, hq]
        rfl
      · rw [hc, ih hl, hq, hq', hs, hb, List.getElem?_cons_succ, Nat.add_assoc _ 1 k,
          Nat.add_comm 1 k]

/-! ## Adoption

A report is adopted if its value is proposed for its slot. Without the no-ops a gap moves the values
behind it to lower slots. -/

/-- `v` is what a slot with the expectation `e` may carry: the expected value, or any no-op. -/
def Carries : Option Value → Value → Prop
  | some w, v => v = w
  | none, v => v.command = none

instance : ∀ e v, Decidable (Carries e v)
  | some _, _ => inferInstanceAs (Decidable (_ = _))
  | none, _ => inferInstanceAs (Decidable (_ = _))

/-- **Phase 1 adoption**: for every slot from `minSlot` to the highest one reported, the
`createProposal` calls that follow `processPrepare` propose the reported value of the highest
ballot, or a no-op where no value is reported. -/
def Adopts (p : Proposer) (minSlot : Slot) (promises : List Promise) : Prop :=
  ∀ s, minSlot ≤ s → (∃ pv ∈ reports promises, s ≤ pv.slot) →
    ∃ prop, (p.processPrepare minSlot promises).2.nthProposal (s - minSlot) = some prop ∧
      prop.slot = s ∧ Carries ((bestReport promises s).bind PValue.value) prop.value

/-- **`vs` is proposed in order**: it is a prefix of what is left in the prioritized queue, or all
of that, then different commands that are not in it, then a prefix of the pending requests made of
no-ops and of values that have come before. -/
def FillsInOrder (prioritized pending vs : List Value) : Prop :=
  vs <+: prioritized ∨ ∃ fresh rest, vs = prioritized ++ fresh ++ rest ∧ fresh.Nodup ∧
    (∀ v ∈ fresh, v.command.isSome ∧ v ∉ prioritized) ∧ rest <+: pending ∧
    ∀ v ∈ rest, v.command = none ∨ v ∈ prioritized ++ fresh

/-- A prefix of `a ++ b` ends in `a` or in `b`. -/
theorem prefix_append_cases {vs a b : List Value} (h : vs <+: a ++ b) :
    vs <+: a ∨ ∃ rest, vs = a ++ rest ∧ rest <+: b := by
  rcases List.prefix_or_prefix_of_prefix h (List.prefix_append a b) with h' | ⟨rest, rfl⟩
  · exact Or.inl h'
  · exact Or.inr ⟨rest, rfl, (List.prefix_append_right_inj a).mp h⟩

/-- The values that carry the expectations: a command is carried exactly where it is expected. -/
theorem commands_of_carries {es : List (Option Value)} {vs : List Value}
    (h : List.Forall₂ Carries es vs) :
    commands es = vs.filter (fun v => v.command.isSome) := by
  induction h with
  | nil => rfl
  | @cons e v es vs hev _ ih =>
      rw [commands] at ih ⊢
      cases e with
      | none =>
          rw [List.filterMap_cons_none rfl, ih,
            List.filter_cons_of_neg (by rw [show v.command = none from hev]; simp)]
      | some w =>
          have hsome : (some w :: es).filterMap id = w :: es.filterMap id := rfl
          rw [show v = w from hev, hsome, List.filter_cons, List.filter_cons, ih]

/-- Adoption is about the head of the queue after `processPrepare`. -/
theorem adopts_iff_queue {p : Proposer} {minSlot : Slot} {promises : List Promise}
    (hleader : p.isLeader = true) (hpos : 1 ≤ minSlot) (hslot : p.currentSlot ≤ minSlot)
    (hsucc : (p.processPrepare minSlot promises).1 = .success) :
    p.Adopts minSlot promises ↔
      ∃ vs, List.Forall₂ Carries (expected minSlot promises) vs ∧
        vs <+: (commands (expected minSlot promises)).foldl enqueueNew p.prioritizedValues ++
          p.pendingClientRequests := by
  have hafter := processPrepare_of_success hslot hsucc
  generalize hq : (commands (expected minSlot promises)).foldl enqueueNew p.prioritizedValues ++
    p.pendingClientRequests = q
  -- the `k`-th following proposal is the `k`-th queued value, at slot `minSlot + k`
  have hnth : ∀ k, (p.processPrepare minSlot promises).2.nthProposal k =
      q[k]?.map (fun v => { slot := minSlot + k, ballot := p.currentBallot, value := v }) := by
    intro k
    rw [hafter, ← hq]
    refine (nthProposal_eq (by exact hleader) k).trans ?_
    simp only [queue, Nat.sub_add_cancel hpos]
  have hlen : (expected minSlot promises).length = endSlot promises - minSlot := by
    simp [expected, slotsFrom]
  have hget : ∀ k (hk : k < (expected minSlot promises).length),
      (expected minSlot promises)[k] =
        (bestReport promises (minSlot + k)).bind PValue.value := by
    intro k hk
    simp [expected, slotsFrom, List.getElem_range']
  constructor
  · intro hadopt
    have hcarry : ∀ k (hk : k < (expected minSlot promises).length),
        ∃ v, q[k]? = some v ∧ Carries (expected minSlot promises)[k] v := by
      intro k hk
      have hreported := (mem_slotsFrom.mp (List.mem_range'_1.mpr
        ⟨Nat.le_add_right minSlot k, by lia⟩ : minSlot + k ∈ slotsFrom minSlot promises)).2
      obtain ⟨prop, hprop, _, hcarries⟩ := hadopt (minSlot + k) (Nat.le_add_right ..) hreported
      rw [Nat.add_sub_cancel_left, hnth, Option.map_eq_some_iff] at hprop
      obtain ⟨v, hv, rfl⟩ := hprop
      exact ⟨v, hv, by rw [hget k hk]; exact hcarries⟩
    have hle : (expected minSlot promises).length ≤ q.length := by
      by_contra hlt
      obtain ⟨v, hv, _⟩ := hcarry q.length (by lia)
      simp at hv
    refine ⟨q.take (expected minSlot promises).length, ?_, List.take_prefix ..⟩
    refine List.forall₂_of_length_eq_of_get (by simp [hle]) (fun k hk hk' => ?_)
    obtain ⟨v, hv, hcarries⟩ := hcarry k hk
    obtain ⟨hkq, rfl⟩ := List.getElem?_eq_some_iff.mp hv
    simpa using hcarries
  · rintro ⟨vs, hvs, rest, hrest⟩ s hle hreported
    obtain ⟨k, rfl⟩ := Nat.exists_eq_add_of_le hle
    have hk : k < (expected minSlot promises).length := by
      have := List.mem_range'_1.mp (mem_slotsFrom.mpr ⟨hle, hreported⟩)
      lia
    have hkv : k < vs.length := hvs.length_eq ▸ hk
    have hq : q[k]? = some vs[k] := by
      rw [← hrest, List.getElem?_append_left hkv, List.getElem?_eq_getElem hkv]
    rw [Nat.add_sub_cancel_left, hnth, hq]
    refine ⟨_, rfl, rfl, ?_⟩
    have := hvs.get hk hkv
    simp only [List.get_eq_getElem, hget k hk] at this
    exact this

/-- **Phase 1 adopts what the promises report exactly if nothing shifts**: values that the slots
may carry are proposed in order. -/
theorem adopts_iff_fillsInOrder (p : Proposer) (minSlot : Slot) (promises : List Promise)
    (hleader : p.isLeader = true) (hpos : 1 ≤ minSlot) (hslot : p.currentSlot < minSlot)
    (hsucc : (p.processPrepare minSlot promises).1 = .success) :
    p.Adopts minSlot promises ↔
      ∃ vs, List.Forall₂ Carries (expected minSlot promises) vs ∧
        FillsInOrder p.prioritizedValues p.pendingClientRequests vs := by
  rw [adopts_iff_queue hleader hpos (le_of_lt hslot) hsucc]
  refine exists_congr (fun vs => and_congr_right (fun hcarries => ?_))
  rw [commands_of_carries hcarries]
  constructor
  · intro hprefix
    obtain ⟨fresh, hqueue, hnodup, hfresh, hall⟩ := foldl_enqueueNew_cases p.prioritizedValues
      (vs.filter (fun v => v.command.isSome))
    have hcommand : ∀ v ∈ fresh, v.command.isSome ∧ v ∉ p.prioritizedValues := fun v hv =>
      ⟨(List.mem_filter.mp (hfresh v hv).1).2, (hfresh v hv).2⟩
    rw [hqueue, List.append_assoc] at hprefix
    -- the prefix ends in the prioritized values, in the new ones, or behind them
    rcases prefix_append_cases hprefix with h | ⟨behind, rfl, hbehind⟩
    · exact Or.inl h
    rcases prefix_append_cases hbehind with h | ⟨rest, rfl, hrest⟩
    · refine Or.inr ⟨behind, [], by simp, hnodup.sublist h.sublist, ?_, List.nil_prefix, by simp⟩
      exact fun v hv => hcommand v (h.subset hv)
    · refine Or.inr ⟨fresh, rest, by simp, hnodup, hcommand, hrest, fun v hv => ?_⟩
      cases hc : v.command with
      | none => exact Or.inl rfl
      | some c => exact Or.inr (hall v (List.mem_filter.mpr ⟨by simp [hv], by simp [hc]⟩))
  · rintro (h | ⟨fresh, rest, rfl, hnodup, hfresh, hrest, hold⟩)
    · obtain ⟨fresh, hqueue, _⟩ := foldl_enqueueNew_cases p.prioritizedValues
        (vs.filter (fun v => v.command.isSome))
      rw [hqueue, List.append_assoc]
      exact h.trans (List.prefix_append ..)
    · -- only the fresh commands are queued: the others are there already
      have hfilter : fresh.filter (fun v => v.command.isSome) = fresh :=
        List.filter_eq_self.mpr (fun v hv => (hfresh v hv).1)
      rw [List.filter_append, List.filter_append, List.foldl_append, List.foldl_append, hfilter,
        foldl_enqueueNew_of_mem (fun v hv => List.mem_of_mem_filter hv),
        foldl_enqueueNew_of_fresh hnodup (fun v hv => (hfresh v hv).2),
        foldl_enqueueNew_of_mem (fun v hv => ?_)]
      · exact (List.prefix_append_right_inj _).mpr hrest
      · obtain ⟨hv, hc⟩ := List.mem_filter.mp hv
        rcases hold v hv with hnone | hmem
        · rw [hnone] at hc
          cases hc
        · exact hmem

/-- Without gaps and repetitions every report is adopted. -/
theorem adopts_contiguous :
    firstLeader.Adopts 1 [{ slot := 1, ballot := 1, accepted := [reportAt 1 "a", reportAt 2 "b"] }] :=
  (adopts_iff_fillsInOrder firstLeader 1
    [{ slot := 1, ballot := 1, accepted := [reportAt 1 "a", reportAt 2 "b"] }] rfl (by decide)
    (by decide) (by decide)).mpr
    ⟨[setX "a", setX "b"], by decide, Or.inr ⟨[setX "a", setX "b"], [], by decide⟩⟩

/-- **A gap shifts the values behind it**: the only report is for slot 2, and its value is proposed
for slot 1. -/
theorem adoption_shifted_by_gap :
    let promises : List Promise := [{ slot := 1, ballot := 1, accepted := [reportAt 2 "a"] }]
    (firstLeader.processPrepare 1 promises).1 = .success ∧
      (firstLeader.processPrepare 1 promises).2.nthProposal 0 =
        some { slot := 1, ballot := 1, value := setX "a" } ∧
      ¬ firstLeader.Adopts 1 promises := by
  refine ⟨by decide, by decide, fun hadopt => ?_⟩
  obtain ⟨prop, hprop, _, hcarries⟩ := hadopt 1 (le_refl 1) ⟨reportAt 2 "a", by decide, by decide⟩
  have hfirst : (firstLeader.processPrepare 1
      [{ slot := 1, ballot := 1, accepted := [reportAt 2 "a"] }]).2.nthProposal (1 - 1) =
      some { slot := 1, ballot := 1, value := setX "a" } := by decide
  rw [hfirst] at hprop
  obtain rfl := Option.some.inj hprop
  exact absurd hcarries (by decide)

end Proposer

end PaxosWasm
