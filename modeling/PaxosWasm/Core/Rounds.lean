import PaxosWasm.Core.AcceptorVotes
import PaxosWasm.Core.PhaseOne

/-!
# Rounds of ballots

Core acceptors under the discipline of Paxos: an `accept` is issued for a ballot only after a
majority has promised it, with the value Phase 1 picks from those promises. What should follow is
that later ballots pick what an earlier one has chosen. It does not: an acceptor that acknowledges a
value it already holds keeps the old ballot with it, so a later Phase 1 can rank a losing value
above the chosen one. Where no acceptor acknowledges a value it holds under another ballot, every
later ballot picks the chosen value.

`Rounds` has the acceptors and the history of what was prepared, issued and answered. The invariant says
of an acknowledgement what is behind it: an `accept` that was issued, and a report in every later promise
of the same acceptor. From it the argument of Paxos goes through by strong induction on the ballot
(`Inv.later_value`). The hypothesis on acknowledgements enters where an acceptor repeats a value that it
holds under an older ballot.
-/

namespace PaxosWasm

open Library Proposer

/-- `n` acceptors with the history of what they have answered and of the `accept`s issued. -/
structure Rounds (n : Nat) where
  acceptors : Fin n → Acceptor
  /-- The `Promised` replies. -/
  promised : List (Fin n × Promise)
  /-- The `accept`s issued, oldest first. -/
  issued : List Accept
  /-- The `accept`s answered `Accepted`. -/
  accepted : List (Fin n × Accept)

namespace Rounds

variable {n : Nat}

/-- A `prepare` or an issued `accept` reaches an acceptor, at any time and any number of times; a
proposer issues an `accept` on the strength of some promises. -/
inductive Event (n : Nat) where
  | prepare (i : Fin n) (env : Env) (slot : Slot) (ballot : Ballot)
  | issue (accept : Accept) (p : Proposer) (minSlot : Slot) (promises : List Promise)
  | accept (i : Fin n) (env : Env) (accept : Accept)

def start (acceptors : Fin n → Acceptor) : Rounds n :=
  { acceptors, promised := [], issued := [], accepted := [] }

def step (r : Rounds n) : Event n → Rounds n
  | .prepare i env slot ballot =>
      let (res, a) := (r.acceptors i).prepare env slot ballot
      { r with
        acceptors := Function.update r.acceptors i a
        promised := match res with
          | .promised promise => r.promised ++ [(i, promise)]
          | .rejected _ => r.promised }
  | .issue accept _ _ _ => { r with issued := r.issued ++ [accept] }
  | .accept i env accept =>
      let (res, a) := (r.acceptors i).accept env accept.slot accept.ballot accept.value
      { r with
        acceptors := Function.update r.acceptors i a
        accepted := match res with
          | .accepted _ => r.accepted ++ [(i, accept)]
          | .rejected _ => r.accepted }

/-- The promises are `Promised` replies to `prepare minSlot ballot`, of a majority or more. -/
def FromMajority (r : Rounds n) (minSlot : Slot) (ballot : Ballot) (promises : List Promise) :
    Prop :=
  (∀ pr ∈ promises, pr.slot = minSlot ∧ pr.ballot = ballot ∧ ∃ i, (i, pr) ∈ r.promised) ∧
    Majority Finset.univ
      (Finset.univ.filter (fun i : Fin n => ∃ pr ∈ promises, (i, pr) ∈ r.promised))

instance (r : Rounds n) (minSlot : Slot) (ballot : Ballot) (promises : List Promise) :
    Decidable (r.FromMajority minSlot ballot promises) :=
  inferInstanceAs (Decidable (_ ∧ _))

/-! ## The discipline -/

/-- **The discipline**: an `accept` is issued once a majority has promised its ballot from a slot
not above its own, with the value picked from those promises if they report one, and with one value
per slot and ballot; acceptors only see issued `accept`s. -/
def Disciplined (r : Rounds n) : Event n → Prop
  | .prepare _ _ _ _ => True
  | .issue a p minSlot promises =>
      minSlot ≤ a.slot ∧ r.FromMajority minSlot a.ballot promises ∧ p.currentSlot ≤ minSlot ∧
        (∀ v ∈ p.picks minSlot promises a.slot, v = a.value) ∧
        ∀ a' ∈ r.issued, a'.slot = a.slot → a'.ballot = a.ballot → a'.value = a.value
  | .accept _ _ a => a ∈ r.issued

instance (r : Rounds n) : ∀ e, Decidable (r.Disciplined e)
  | .prepare _ _ _ _ => isTrue trivial
  | .issue _ _ _ _ => inferInstanceAs (Decidable (_ ∧ _ ∧ _ ∧ _ ∧ _))
  | .accept _ _ _ => inferInstanceAs (Decidable (_ ∈ _))

/-- The acceptor acknowledges a value it holds under another ballot. -/
def KeepsOldBallot (r : Rounds n) : Event n → Prop
  | .accept i _ a => (r.acceptors i).highestPromisedBallot ≤ a.ballot ∧
      ∃ pv ∈ (r.acceptors i).accepted.get? a.slot, pv.value = some a.value ∧ pv.ballot ≠ a.ballot
  | _ => False

/-- **A chosen value is recovered**: a value acknowledged by a majority at `ballot` is what every
later ballot picks from the promises of a majority. -/
def ChosenPicked (r : Rounds n) : Prop :=
  ∀ a : Accept, Chosen Finset.univ (fun i a => (i, a) ∈ r.accepted) a →
    ∀ ballot minSlot promises, a.ballot < ballot → minSlot ≤ a.slot →
      r.FromMajority minSlot ballot promises →
        ∀ p : Proposer, p.currentSlot ≤ minSlot → p.picks minSlot promises a.slot = some a.value

/-! ## The invariant

An acknowledged value is held under its own ballot, and a promise reports what its acceptor had
acknowledged below it. A relabelled acknowledgement would break the first of these. -/

/-- An accepted value, as an acceptor stores and reports it. -/
def asPValue (a : Accept) : PValue := { slot := a.slot, ballot := a.ballot, value := some a.value }

/-- **What a disciplined run without relabelled acknowledgements maintains.** -/
structure Inv (r : Rounds n) : Prop where
  disabled : ∀ i, (r.acceptors i).storage.settings.enabled = false
  /-- One value per slot and ballot. -/
  unique : ∀ a ∈ r.issued, ∀ a' ∈ r.issued, a'.slot = a.slot → a'.ballot = a.ballot →
    a'.value = a.value
  /-- What is held was issued. -/
  held : ∀ i s pv, (r.acceptors i).accepted.get? s = some pv →
    ∃ a ∈ r.issued, a.slot = s ∧ pv = asPValue a
  /-- What was acknowledged is held under its own ballot. -/
  acked : ∀ i a, (i, a) ∈ r.accepted →
    a ∈ r.issued ∧ (r.acceptors i).accepted.get? a.slot = some (asPValue a)
  promisedLe : ∀ i pr, (i, pr) ∈ r.promised → pr.ballot ≤ (r.acceptors i).highestPromisedBallot
  /-- A promise reports what its acceptor holds. -/
  reported : ∀ i pr, (i, pr) ∈ r.promised → ∀ pv ∈ pr.accepted,
    (r.acceptors i).accepted.get? pv.slot = some pv
  /-- A promise reports all that its acceptor ever acknowledges below its ballot. -/
  seen : ∀ i pr a, (i, pr) ∈ r.promised → (i, a) ∈ r.accepted → a.ballot < pr.ballot →
    pr.slot ≤ a.slot → asPValue a ∈ pr.accepted
  /-- Each `accept` was issued on promises whose reports had been issued before it. -/
  justified : ∀ before a after, r.issued = before ++ a :: after →
    ∃ minSlot promises, minSlot ≤ a.slot ∧ r.FromMajority minSlot a.ballot promises ∧
      (∀ pv ∈ reports promises, ∃ a' ∈ before, pv = asPValue a') ∧
      ∀ v ∈ (bestReport promises a.slot).bind PValue.value, v = a.value

theorem FromMajority.mono {r r' : Rounds n} (h : r.promised ⊆ r'.promised) {minSlot : Slot}
    {ballot : Ballot} {promises : List Promise} (hq : r.FromMajority minSlot ballot promises) :
    r'.FromMajority minSlot ballot promises := by
  obtain ⟨hall, _, hcard⟩ := hq
  refine ⟨fun pr hpr => ?_, Finset.subset_univ _, lt_of_lt_of_le hcard ?_⟩
  · obtain ⟨hslot, hballot, i, hi⟩ := hall pr hpr
    exact ⟨hslot, hballot, i, h hi⟩
  · refine Nat.mul_le_mul_left 2 (Finset.card_le_card (fun i hi => ?_))
    obtain ⟨pr, hpr, hi⟩ := (Finset.mem_filter.mp hi).2
    exact Finset.mem_filter.mpr ⟨Finset.mem_univ i, pr, hpr, h hi⟩

/-- Everything a promise of the history reports was issued. -/
theorem Inv.issued_of_report {r : Rounds n} (h : r.Inv) {minSlot : Slot} {ballot : Ballot}
    {promises : List Promise} (hq : r.FromMajority minSlot ballot promises) {pv : PValue}
    (hpv : pv ∈ reports promises) : ∃ a ∈ r.issued, pv = asPValue a := by
  obtain ⟨pr, hpr, hmem⟩ := List.mem_flatMap.mp hpv
  obtain ⟨_, _, i, hi⟩ := hq.1 pr hpr
  obtain ⟨a, ha, _, heq⟩ := h.held i _ pv (h.reported i pr hi pv hmem)
  exact ⟨a, ha, heq⟩

/-! ### Steps

Promises and acceptances only add to the history. The step with an argument in it is the `accept` that is
acknowledged under the ballot of the value held, which has to be its own. -/

theorem Inv.start {acceptors : Fin n → Acceptor}
    (hoff : ∀ i, (acceptors i).storage.settings.enabled = false)
    (hempty : ∀ i, (acceptors i).accepted = ∅) : (Rounds.start acceptors).Inv where
  disabled := hoff
  unique := fun _ h => nomatch h
  held := by
    intro i s pv h
    rw [show (Rounds.start acceptors).acceptors i = acceptors i from rfl, hempty i] at h
    cases h
  acked := fun _ _ h => nomatch h
  promisedLe := fun _ _ h => nomatch h
  reported := fun _ _ h => nomatch h
  seen := fun _ _ _ h => nomatch h
  justified := fun before a after h => by simp [Rounds.start] at h

theorem Inv.issue {r : Rounds n} (h : r.Inv) {a : Accept} {p : Proposer} {minSlot : Slot}
    {promises : List Promise} (hd : r.Disciplined (.issue a p minSlot promises)) :
    (r.step (.issue a p minSlot promises)).Inv := by
  obtain ⟨hslot, hq, hcount, hpick, hnew⟩ := hd
  have hmem : ∀ x, x ∈ r.issued → x ∈ r.issued ++ [a] := fun x => List.mem_append_left _
  constructor
  case disabled => exact h.disabled
  case unique =>
    intro x hx y hy hs hb
    rcases List.mem_append.mp hx with hx | hx <;> rcases List.mem_append.mp hy with hy | hy
    · exact h.unique x hx y hy hs hb
    · rw [List.mem_singleton.mp hy] at hs hb ⊢
      exact (hnew x hx hs.symm hb.symm).symm
    · rw [List.mem_singleton.mp hx] at hs hb ⊢
      exact hnew y hy hs hb
    · rw [List.mem_singleton.mp hx, List.mem_singleton.mp hy]
  case held =>
    intro i s pv hpv
    obtain ⟨x, hx, hs, heq⟩ := h.held i s pv hpv
    exact ⟨x, hmem x hx, hs, heq⟩
  case acked => exact fun i x hx => ⟨hmem x (h.acked i x hx).1, (h.acked i x hx).2⟩
  case promisedLe => exact h.promisedLe
  case reported => exact h.reported
  case seen => exact h.seen
  case justified =>
    intro before x after hsplit
    replace hsplit : r.issued ++ [a] = before ++ x :: after := hsplit
    rcases List.eq_nil_or_concat after with rfl | ⟨after, y, rfl⟩
    · -- the new one: its reports are among the issued ones
      obtain ⟨rfl, hx⟩ := List.append_inj' hsplit rfl
      obtain rfl : a = x := List.singleton_inj.mp hx
      refine ⟨minSlot, promises, hslot, hq, fun pv hpv => h.issued_of_report hq hpv, ?_⟩
      rw [← Proposer.picks_eq promises hcount hslot]
      exact hpick
    · -- an earlier one was justified by what was issued before it
      have hinit : r.issued = before ++ x :: after := by
        have : r.issued ++ [a] = (before ++ x :: after) ++ [y] := by simpa using hsplit
        exact (List.append_inj' this rfl).1
      exact h.justified before x after hinit

theorem Inv.prepare {r : Rounds n} (h : r.Inv) (i : Fin n) (env : Env) (slot : Slot)
    (ballot : Ballot) : (r.step (.prepare i env slot ballot)).Inv := by
  have hframe := (r.acceptors i).prepare_frame env slot ballot
  rcases (r.acceptors i).prepare_cases env slot ballot with ⟨_, he⟩ | ⟨hle, hres, hhigh⟩
  · -- a rejection changes nothing
    have hstep : r.step (.prepare i env slot ballot) = r := by
      simp only [step, he, Function.update_eq_self]
    rw [hstep]
    exact h
  · generalize hp : (r.acceptors i).prepare env slot ballot = result at hframe hres hhigh
    obtain ⟨res, a'⟩ := result
    obtain rfl := hres
    obtain ⟨haccepted, hset⟩ := hframe
    dsimp only at haccepted hset hhigh
    have hstep : r.step (.prepare i env slot ballot) =
        { r with
          acceptors := Function.update r.acceptors i a'
          promised := r.promised ++
            [(i, { slot, ballot, accepted := (r.acceptors i).collectAcceptedFrom slot })] } := by
      simp only [step, hp]
    rw [hstep]
    -- no accepted value and no setting changes, and the promised ballot does not go down
    have hmap : ∀ j, (Function.update r.acceptors i a' j).accepted = (r.acceptors j).accepted := by
      intro j
      by_cases hj : j = i
      · subst hj
        rw [Function.update_self, haccepted]
      · rw [Function.update_of_ne hj]
    have hhighest : ∀ j, (r.acceptors j).highestPromisedBallot ≤
        (Function.update r.acceptors i a' j).highestPromisedBallot := by
      intro j
      by_cases hj : j = i
      · subst hj
        rw [Function.update_self, hhigh]
        exact hle
      · rw [Function.update_of_ne hj]
    have hnew : ∀ j pr, (j, pr) ∈ r.promised ++
        [(i, { slot, ballot, accepted := (r.acceptors i).collectAcceptedFrom slot })] →
        (j, pr) ∈ r.promised ∨ (j = i ∧
          pr = { slot, ballot, accepted := (r.acceptors i).collectAcceptedFrom slot }) := by
      intro j pr hpr
      rcases List.mem_append.mp hpr with hpr | hpr
      · exact Or.inl hpr
      · exact Or.inr (Prod.mk.inj (List.mem_singleton.mp hpr))
    constructor
    case disabled =>
      intro j
      by_cases hj : j = i
      · subst hj
        simp only [Function.update_self, hset]
        exact h.disabled j
      · simp only [Function.update_of_ne hj]
        exact h.disabled j
    case unique => exact h.unique
    case held => exact fun j s pv hpv => h.held j s pv (hmap j ▸ hpv)
    case acked => exact fun j a ha => ⟨(h.acked j a ha).1, hmap j ▸ (h.acked j a ha).2⟩
    case promisedLe =>
      intro j pr hpr
      rcases hnew j pr hpr with hpr | ⟨rfl, rfl⟩
      · exact le_trans (h.promisedLe j pr hpr) (hhighest j)
      · simp only [Function.update_self, hhigh]
        exact le_refl _
    case reported =>
      intro j pr hpr pv hpv
      rw [hmap]
      rcases hnew j pr hpr with hpr | ⟨rfl, rfl⟩
      · exact h.reported j pr hpr pv hpv
      · obtain ⟨s, _, hs⟩ := OrdMap.mem_valuesFrom.mp hpv
        obtain ⟨a, _, rfl, rfl⟩ := h.held j s pv hs
        exact hs
    case seen =>
      intro j pr a hpr ha hlt hslot
      rcases hnew j pr hpr with hpr | ⟨rfl, rfl⟩
      · exact h.seen j pr a hpr ha hlt hslot
      · exact OrdMap.mem_valuesFrom.mpr ⟨a.slot, hslot, (h.acked j a ha).2⟩
    case justified =>
      intro before a after hsplit
      obtain ⟨minSlot, promises, hslot, hq, hrest⟩ := h.justified before a after hsplit
      exact ⟨minSlot, promises, hslot, hq.mono (List.subset_append_left ..), hrest⟩

/-- An acknowledged value is held under the ballot of the very `accept` that is acknowledged. -/
theorem Inv.held_of_acks {r : Rounds n} (h : r.Inv) {i : Fin n} {env : Env} {a : Accept}
    (hown : ¬ r.KeepsOldBallot (.accept i env a))
    (hack : (r.acceptors i).Acks env a.slot a.ballot a.value) :
    (r.acceptors i).highestPromisedBallot ≤ a.ballot ∧
      ((r.acceptors i).accept env a.slot a.ballot a.value).2.accepted.get? a.slot =
        some (asPValue a) := by
  obtain ⟨_, _, hentries, hacks⟩ := Acceptor.accept_of_disabled (h.disabled i) env a.slot
    a.ballot a.value
  obtain ⟨hle, pv, hpv, hval, hold | hballot⟩ := hacks hack
  · have hballot : pv.ballot = a.ballot := by
      by_contra hne
      exact hown ⟨hle, pv, hold, hval, hne⟩
    obtain ⟨a', _, hs, rfl⟩ := h.held i a.slot pv hold
    refine ⟨hle, hpv.trans ?_⟩
    obtain rfl : a' = a := by
      obtain ⟨s', b', v'⟩ := a'
      obtain ⟨s, b, v⟩ := a
      obtain rfl : v' = v := Option.some.inj hval
      obtain rfl : b' = b := hballot
      obtain rfl : s' = s := hs
      rfl
    rfl
  · refine ⟨hle, hpv.trans (congrArg some ?_)⟩
    rcases hentries a.slot pv hpv with hold | ⟨_, rfl⟩
    · obtain ⟨a', _, hs, rfl⟩ := h.held i a.slot pv hold
      simp only [asPValue] at hval hballot ⊢
      rw [hs, hballot, hval]
    · rfl

/-- What an `accept` does to the acceptors and to the history. -/
theorem step_accept (r : Rounds n) (i : Fin n) (env : Env) (a : Accept) :
    ∃ accepted, r.step (.accept i env a) =
        { r with
          acceptors := Function.update r.acceptors i
            ((r.acceptors i).accept env a.slot a.ballot a.value).2
          accepted } ∧
      ∀ j x, (j, x) ∈ accepted → (j, x) ∈ r.accepted ∨
        (j = i ∧ x = a ∧ (r.acceptors i).Acks env a.slot a.ballot a.value) := by
  cases hres : ((r.acceptors i).accept env a.slot a.ballot a.value).1 with
  | accepted reply =>
      refine ⟨r.accepted ++ [(i, a)], by simp only [step, hres], fun j x hx => ?_⟩
      rcases List.mem_append.mp hx with hx | hx
      · exact Or.inl hx
      · obtain ⟨rfl, rfl⟩ := Prod.mk.inj (List.mem_singleton.mp hx)
        exact Or.inr ⟨rfl, rfl, reply, hres⟩
  | rejected b => exact ⟨r.accepted, by simp only [step, hres], fun j x hx => Or.inl hx⟩

theorem Inv.accept {r : Rounds n} (h : r.Inv) {i : Fin n} {env : Env} {a : Accept}
    (hissued : a ∈ r.issued) (hown : ¬ r.KeepsOldBallot (.accept i env a)) :
    (r.step (.accept i env a)).Inv := by
  obtain ⟨hext, hhigh, hentries, _⟩ := Acceptor.accept_of_disabled (h.disabled i) env a.slot
    a.ballot a.value
  have hoff : ((r.acceptors i).accept env a.slot a.ballot a.value).2.storage.settings.enabled =
      false := Acceptor.call_disabled (h.disabled i) (env, .accept a.slot a.ballot a.value)
  have hheld := h.held_of_acks hown
  obtain ⟨accepted, hstep, hcases⟩ := r.step_accept i env a
  rw [hstep]
  generalize ((r.acceptors i).accept env a.slot a.ballot a.value).2 = a'
    at hext hhigh hentries hoff hheld
  -- no acceptor loses a value or forgets a promise
  have hmap : ∀ j, OrdMap.Extends (r.acceptors j).accepted
      (Function.update r.acceptors i a' j).accepted := by
    intro j
    by_cases hj : j = i
    · subst hj
      rw [Function.update_self]
      exact hext
    · rw [Function.update_of_ne hj]
      exact OrdMap.Extends.refl _
  have hhighest : ∀ j, (Function.update r.acceptors i a' j).highestPromisedBallot =
      (r.acceptors j).highestPromisedBallot := by
    intro j
    by_cases hj : j = i
    · subst hj
      rw [Function.update_self, hhigh]
    · rw [Function.update_of_ne hj]
  constructor
  case disabled =>
    intro j
    by_cases hj : j = i
    · subst hj
      simp only [Function.update_self]
      exact hoff
    · simp only [Function.update_of_ne hj]
      exact h.disabled j
  case unique => exact h.unique
  case held =>
    intro j s pv hpv
    by_cases hj : j = i
    · subst hj
      simp only [Function.update_self] at hpv
      rcases hentries s pv hpv with hold | ⟨hs, rfl⟩
      · exact h.held j s pv hold
      · exact ⟨a, hissued, hs.symm, rfl⟩
    · simp only [Function.update_of_ne hj] at hpv
      exact h.held j s pv hpv
  case acked =>
    intro j x hx
    rcases hcases j x hx with hx | ⟨rfl, rfl, hack⟩
    · exact ⟨(h.acked j x hx).1, hmap j _ _ (h.acked j x hx).2⟩
    · refine ⟨hissued, ?_⟩
      simp only [Function.update_self]
      exact (hheld hack).2
  case promisedLe => exact fun j pr hpr => (hhighest j).symm ▸ h.promisedLe j pr hpr
  case reported => exact fun j pr hpr pv hpv => hmap j _ _ (h.reported j pr hpr pv hpv)
  case seen =>
    intro j pr x hpr hx hlt hslot
    rcases hcases j x hx with hx | ⟨rfl, rfl, hack⟩
    · exact h.seen j pr x hpr hx hlt hslot
    · -- no ballot below the promised one is acknowledged any more
      exact absurd (le_trans (h.promisedLe j pr hpr) (hheld hack).1) (Nat.not_le_of_lt hlt)
  case justified => exact h.justified

/-! ## Later ballots

A majority that promises a later ballot shares an acceptor with the one that has acknowledged the value.
The report of that acceptor is the highest, or one of a ballot in between, for which the same holds by
induction. -/

/-- If all reported ballots above the chosen one carry the chosen value, so does the best report of
any later majority. -/
theorem Inv.bestReport_eq {r : Rounds n} (h : r.Inv) {a : Accept}
    (hchosen : Chosen Finset.univ (fun i a => (i, a) ∈ r.accepted) a) {minSlot : Slot}
    {ballot : Ballot} {promises : List Promise} (hlt : a.ballot < ballot)
    (hslot : minSlot ≤ a.slot) (hq : r.FromMajority minSlot ballot promises)
    (hlater : ∀ pv ∈ reports promises, pv.slot = a.slot → a.ballot < pv.ballot →
      pv.value = some a.value) :
    (bestReport promises a.slot).bind PValue.value = some a.value := by
  obtain ⟨S, hS, hacked⟩ := hchosen
  obtain ⟨i, hiS, hiQ⟩ := hS.exists_common hq.2
  obtain ⟨pr, hpr, hi⟩ := (Finset.mem_filter.mp hiQ).2
  obtain ⟨hprslot, hprballot, _⟩ := hq.1 pr hpr
  have hseen := h.seen i pr a hi (hacked i hiS) (hprballot ▸ hlt) (hprslot ▸ hslot)
  have hreport : asPValue a ∈ reports promises := List.mem_flatMap.mpr ⟨pr, hpr, hseen⟩
  obtain ⟨best, hbest, hle⟩ := exists_bestReport hreport
  replace hbest : bestReport promises a.slot = some best := hbest
  rw [hbest]
  show best.value = some a.value
  rcases Nat.lt_or_eq_of_le hle with hlt' | heq
  · exact hlater best (bestReport_mem hbest) (bestReport_slot hbest) hlt'
  · -- the same ballot: one value per slot and ballot
    obtain ⟨a', ha', rfl⟩ := h.issued_of_report hq (bestReport_mem hbest)
    have hs := bestReport_slot hbest
    exact congrArg some (h.unique a (h.acked i a (hacked i hiS)).1 a' ha' hs heq.symm)

/-- **Every `accept` of a later ballot carries the chosen value**, by induction on the order in
which they are issued. -/
theorem Inv.later_value {r : Rounds n} (h : r.Inv) {a : Accept}
    (hchosen : Chosen Finset.univ (fun i a => (i, a) ∈ r.accepted) a) :
    ∀ before after, r.issued = before ++ after →
      ∀ x ∈ before, x.slot = a.slot → a.ballot < x.ballot → x.value = a.value := by
  intro before
  induction before using List.reverseRecOn with
  | nil => exact fun _ _ x hx => nomatch hx
  | append_singleton before y ih =>
      intro after hsplit x hx hs hlt
      have hsplit' : r.issued = before ++ y :: after := by simpa using hsplit
      rcases List.mem_append.mp hx with hx | hx
      · exact ih (y :: after) hsplit' x hx hs hlt
      · obtain rfl := List.mem_singleton.mp hx
        obtain ⟨minSlot, promises, hslot, hq, hreports, hpick⟩ := h.justified before x after hsplit'
        have hbest := h.bestReport_eq hchosen hlt (hs ▸ hslot) hq (fun pv hpv hpvs hpvb => by
          obtain ⟨a', ha', rfl⟩ := hreports pv hpv
          exact congrArg some (ih (x :: after) hsplit' a' ha' hpvs hpvb))
        exact (hpick a.value (hs ▸ hbest)).symm

theorem Inv.chosenPicked {r : Rounds n} (h : r.Inv) : r.ChosenPicked := by
  intro a hchosen ballot minSlot promises hlt hslot hq p hcount
  rw [picks_eq promises hcount hslot]
  refine h.bestReport_eq hchosen hlt hslot hq (fun pv hpv hs hb => ?_)
  obtain ⟨a', ha', rfl⟩ := h.issued_of_report hq hpv
  exact congrArg some (h.later_value hchosen r.issued [] (by simp) a' ha' hs hb)

instance (r : Rounds n) : ∀ e, Decidable (r.KeepsOldBallot e)
  | .prepare _ _ _ _ => isFalse id
  | .issue _ _ _ _ => isFalse id
  | .accept i _ a => by
      unfold KeepsOldBallot
      infer_instance

/-- **A chosen value is picked by every later ballot**, in every disciplined run in which no
acceptor acknowledges a value it holds under another ballot. -/
theorem chosen_value_picked (hash : String → Nat) (dir : Fin n → Acceptor.Dir) (env : Fin n → Env)
    (nodeId : Fin n → String) (config : Fin n → RunConfig)
    (hoff : ∀ i, (config i).persistentStorage = false) (events : List (Event n))
    (hdisciplined : Guarded step Disciplined
      (start (fun i => Acceptor.new hash (dir i) (env i) (nodeId i) (config i))) events)
    (hown : Guarded step (fun r e => ¬ KeepsOldBallot r e)
      (start (fun i => Acceptor.new hash (dir i) (env i) (nodeId i) (config i))) events) :
    (run step (start (fun i => Acceptor.new hash (dir i) (env i) (nodeId i) (config i)))
      events).ChosenPicked := by
  refine Inv.chosenPicked (run_invariant_of_guarded (fun r e h hg => ?_)
    (Inv.start hoff (fun _ => rfl)) (hdisciplined.and hown))
  cases e with
  | prepare i env slot ballot => exact h.prepare i env slot ballot
  | issue a p minSlot promises => exact h.issue hg.1
  | accept i env a => exact h.accept hg.1 hg.2

/-! ## Three acceptors

A round after the value has been chosen, and three rounds in which a value is acknowledged under a ballot
other than the one it is held under. -/

/-- Three acceptors without storage. -/
def threeAcceptors : Rounds 3 :=
  start (fun i => Acceptor.new (fun _ => 0) Directory.empty Env.quiet (toString i)
    RunConfig.inMemory)

/-- A proposer in its first round. -/
def anyProposer : Proposer := Proposer.new Directory.empty Env.quiet true 3 1 RunConfig.inMemory

/-- A promise for slot 1, with what was accepted there before. -/
def promiseOf (ballot : Ballot) (accepted : List PValue) : Promise :=
  { slot := 1, ballot, accepted }

/-- The report of `set x value` for slot 1. -/
def held (ballot : Ballot) (value : KvValue) : PValue :=
  { slot := 1, ballot, value := some (setX value) }

/-- One round for slot 1: the acceptors `prepared` promise, the value is issued, the acceptors
`asked` are asked to accept it. -/
def round (ballot : Ballot) (value : KvValue) (prepared : List (Fin 3)) (promises : List Promise)
    (asked : List (Fin 3)) : List (Event 3) :=
  prepared.map (fun i => .prepare i Env.quiet 1 ballot)
    ++ .issue { slot := 1, ballot, value := setX value } anyProposer 1 promises
    :: asked.map (fun i => .accept i Env.quiet { slot := 1, ballot, value := setX value })

/-- The value of ballot 1 is chosen, and the next ballot picks it. -/
theorem chosen_value_picked_second_ballot :
    (run step threeAcceptors
      (round 1 "a" [0, 1] [promiseOf 1 []] [0, 1]
        ++ [.prepare 1 Env.quiet 1 2, .prepare 2 Env.quiet 1 2])).ChosenPicked :=
  chosen_value_picked (fun _ => 0) (fun _ => Directory.empty) (fun _ => Env.quiet) toString
    (fun _ => RunConfig.inMemory) (fun _ => rfl) _ (by decide) (by decide)

/-- Acceptor 0 accepts `"a"` in ballot 1 and acceptor 1 accepts `"b"` in ballot 2. In ballot 3 the
acceptors 0 and 2 choose `"a"`, which acceptor 0 keeps under ballot 1. -/
def threeRounds : List (Event 3) :=
  round 1 "a" [0, 1] [promiseOf 1 []] [0]
    ++ round 2 "b" [1, 2] [promiseOf 2 []] [1]
    ++ round 3 "a" [0, 2] [promiseOf 3 [held 1 "a"], promiseOf 3 []] [0, 2]

/-- **A chosen value is not picked**: `"a"` was chosen in ballot 3, and a majority of promises for
ballot 4 makes Phase 1 pick `"b"`. -/
theorem chosen_value_not_picked :
    Guarded step Disciplined threeAcceptors
        (threeRounds ++ [.prepare 0 Env.quiet 1 4, .prepare 1 Env.quiet 1 4]) ∧
      ¬ (run step threeAcceptors
        (threeRounds ++ [.prepare 0 Env.quiet 1 4, .prepare 1 Env.quiet 1 4])).ChosenPicked := by
  refine ⟨by decide, fun hpicked => ?_⟩
  have hpick := hpicked { slot := 1, ballot := 3, value := setX "a" } ⟨{0, 2}, by decide, by decide⟩
    4 1 [promiseOf 4 [held 1 "a"], promiseOf 4 [held 2 "b"]] (by decide) (by decide) (by decide)
    anyProposer (by decide)
  exact absurd hpick (by decide)

end Rounds

end PaxosWasm
