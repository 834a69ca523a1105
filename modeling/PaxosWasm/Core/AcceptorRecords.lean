import PaxosWasm.Core.AcceptorVotes

/-!
# What the core acceptor has stored when it answers

`prepare` and `accept` change the memory first and call the storage second, and a failed call is only
logged: the reply goes out all the same. The proposer, for its part, stops when its state cannot be
saved. So an acknowledgement is backed by a record exactly when the calls that enter something new
find a storage that works.
-/

namespace PaxosWasm

open Library

namespace Acceptor

/-! ## The records of a run

Which calls enter something new, which replies are acknowledgements, and when the storage has what they
acknowledge. -/

/-- The call passes a promises vector with `b` to `save_state`, which returns `Ok`. -/
def SavesPromise (b : Ballot) (a : Acceptor) (c : Env × Call) : Prop :=
  match c.2 with
  | .prepare _ ballot =>
      a.highestPromisedBallot < ballot ∧ a.storage.enabled = true ∧
        (a.storage.store.saveState ⟨a.promises ++ [ballot]⟩).1 = .ok () ∧ b ∈ a.promises ++ [ballot]
  | .accept _ _ _ => False

/-- The call passes a p-value of `value` at `s` to `save_change`, which returns `Ok`. -/
def SavesValue (s : Slot) (v : Value) (a : Acceptor) (c : Env × Call) : Prop :=
  match c.2 with
  | .prepare _ _ => False
  | .accept slot ballot value =>
      a.highestPromisedBallot ≤ ballot ∧ a.accepted.get? slot = none ∧ a.storage.enabled = true ∧
        (a.storage.store.saveChange { slot, ballot, value := some value }).1 = .ok () ∧
        slot = s ∧ value = v

/-- The call is answered neither `Promised` nor `Accepted`, or the promise or the value it
acknowledges has been stored, at the latest in this call. -/
def Backed (a₀ : Acceptor) (before : List (Env × Call)) (c : Env × Call) : Prop :=
  match c.2 with
  | .prepare slot ballot =>
      ∀ p, ((run call a₀ before).prepare c.1 slot ballot).1 = .promised p →
        Happens call (SavesPromise p.ballot) a₀ (before ++ [c])
  | .accept slot ballot value =>
      ∀ r, ((run call a₀ before).accept c.1 slot ballot value).1 = .accepted r →
        Happens call (SavesValue r.slot value) a₀ (before ++ [c])

/-- The next storage call of the acceptor succeeds. -/
def StorageHelper.Saves (h : StorageHelper) : Prop := h.enabled = true ∧ h.store.Succeeds

/-- The call is below the promised ballot or finds a storage that works, if it enters anything new: a
ballot above the promised one, a value for a slot that holds none. Ballot `0` is promised from the
start and never entered; a value may be entered a second time, after a checkpoint has pruned it. -/
def Persists (a₀ : Acceptor) (before : List (Env × Call)) (c : Env × Call) : Prop :=
  let a := run call a₀ before
  match c.2 with
  | .prepare _ ballot =>
      ballot < a.highestPromisedBallot ∨
        0 < ballot ∧ (a.highestPromisedBallot < ballot → a.storage.Saves)
  | .accept slot ballot value =>
      ballot < a.highestPromisedBallot ∨ (a.accepted.get? slot).isSome ∨ a.storage.Saves ∨
        Happens call (SavesValue slot value) a₀ before

/-! ## The promises in memory

A ballot is added only if it is above the last one, so the last one is the highest; and one that has been
saved stays in memory. -/

variable {a a₀ : Acceptor}

theorem promises_prepare (a : Acceptor) (env : Env) (slot : Slot) (ballot : Ballot) :
    (a.prepare env slot ballot).2.promises =
      if a.highestPromisedBallot < ballot then a.promises ++ [ballot] else a.promises := by
  unfold prepare
  dsimp only
  split
  · next hlt => rw [if_neg (Nat.not_lt.mpr hlt.le)]
  · split <;> rfl

theorem promises_accept (a : Acceptor) (env : Env) (slot : Slot) (ballot : Ballot) (value : Value) :
    (a.accept env slot ballot value).2.promises = a.promises := by
  rcases a.accept_cases env slot ballot value with ⟨_, he, _⟩ | ⟨_, _, _, _, he⟩ | ⟨_, _, he⟩
  all_goals rw [he]
  rfl

/-- The promises of a run: positive, and none above the last one. -/
def Rising (a : Acceptor) : Prop := ∀ b ∈ a.promises, 0 < b ∧ b ≤ a.highestPromisedBallot

theorem Rising.call (h : a.Rising) (c : Env × Call) : (a.call c).Rising := by
  obtain ⟨env, c⟩ := c
  cases c with
  | prepare slot ballot =>
      intro b hb
      replace hb : b ∈ (a.prepare env slot ballot).2.promises := hb
      show 0 < b ∧ b ≤ ((a.prepare env slot ballot).2.promises.getLast?.getD 0)
      rw [promises_prepare] at hb ⊢
      split at hb
      · next hlt =>
        rw [if_pos hlt]
        simp only [List.getLast?_append, List.getLast?_singleton, Option.some_or, Option.getD_some]
        rcases List.mem_append.mp hb with hb | hb
        · exact ⟨(h b hb).1, (h b hb).2.trans hlt.le⟩
        · obtain rfl := List.mem_singleton.mp hb
          exact ⟨Nat.zero_lt_of_lt hlt, le_refl _⟩
      · next hle =>
        rw [if_neg hle]
        exact h b hb
  | accept slot ballot value =>
      show ∀ b ∈ (a.accept env slot ballot value).2.promises,
        0 < b ∧ b ≤ ((a.accept env slot ballot value).2.promises.getLast?.getD 0)
      rw [promises_accept]
      exact h

/-- What a run has stored of promises is in memory. -/
theorem mem_promises_of_saved (a₀ : Acceptor) (calls : List (Env × Call)) {b : Ballot}
    (h : Happens call (SavesPromise b) a₀ calls) : b ∈ (run call a₀ calls).promises := by
  induction calls using List.reverseRecOn with
  | nil => exact h.elim
  | append_singleton calls c ih =>
      rw [run_snoc]
      rw [happens_snoc] at h
      obtain ⟨env, c⟩ := c
      cases c with
      | prepare slot ballot =>
          show b ∈ (prepare _ env slot ballot).2.promises
          rw [promises_prepare]
          rcases h with h | ⟨hlt, _, _, hmem⟩
          · split
            · exact List.mem_append_left _ (ih h)
            · exact ih h
          · rw [if_pos hlt]
            exact hmem
      | accept slot ballot value =>
          show b ∈ (accept _ env slot ballot value).2.promises
          rw [promises_accept]
          exact ih (h.resolve_right id)

/-! ## What is in memory has been stored

As long as every call that enters something finds a storage that works. -/

/-- The promises and the accepted values in memory have been stored by the calls. -/
structure Kept (a₀ : Acceptor) (calls : List (Env × Call)) (a : Acceptor) : Prop where
  promises : ∀ b ∈ a.promises, Happens call (SavesPromise b) a₀ calls
  accepted : ∀ s v, a.Holds s v → Happens call (SavesValue s v) a₀ calls

theorem Kept.prepare {before : List (Env × Call)} (hkept : Kept a₀ before (run call a₀ before))
    {env : Env} {slot : Slot} {ballot : Ballot}
    (h : Persists a₀ before (env, .prepare slot ballot)) :
    Backed a₀ before (env, .prepare slot ballot) ∧
      Kept a₀ (before ++ [(env, .prepare slot ballot)])
        (run call a₀ (before ++ [(env, .prepare slot ballot)])) := by
  rw [run_snoc]
  generalize ha : run call a₀ before = a at hkept h
  have hcall : a.call (env, .prepare slot ballot) = (a.prepare env slot ballot).2 := rfl
  -- what has been stored before, and what this call stores
  have hold : ∀ b ∈ a.promises,
      Happens call (SavesPromise b) a₀ (before ++ [(env, .prepare slot ballot)]) :=
    fun b hb => happens_snoc.mpr (Or.inl (hkept.promises b hb))
  have hnew : a.highestPromisedBallot < ballot → a.storage.Saves → ∀ b ∈ a.promises ++ [ballot],
      Happens call (SavesPromise b) a₀ (before ++ [(env, .prepare slot ballot)]) := by
    intro hlt hsaves b hb
    apply happens_snoc.mpr
    right
    rw [ha]
    exact ⟨hlt, hsaves.1, (StorageResource.attempt_ok_iff ..).mpr hsaves.2, hb⟩
  have hsaves : a.highestPromisedBallot < ballot → a.storage.Saves := by
    intro hlt
    simp only [Persists, ha] at h
    rcases h with h | h
    · exact absurd h (Nat.not_lt.mpr hlt.le)
    · exact h.2 hlt
  constructor
  · intro p hp
    rw [ha] at hp
    rcases a.prepare_cases env slot ballot with ⟨_, he⟩ | ⟨hle, hpr, _⟩
    · rw [he] at hp
      cases hp
    · obtain rfl := PromiseResult.promised.inj (hpr.symm.trans hp)
      rcases Nat.lt_or_ge a.highestPromisedBallot ballot with hlt | hge
      · exact hnew hlt (hsaves hlt) ballot (List.mem_append_right _ (List.mem_singleton.mpr rfl))
      · -- the promised ballot itself, which is not the `0` of an empty vector
        apply hold
        simp only [Persists, ha] at h
        have hpos : 0 < ballot := by
          rcases h with h | h
          · exact absurd h (Nat.not_lt.mpr hle)
          · exact h.1
        have hhigh : a.highestPromisedBallot = ballot := le_antisymm hle hge
        rw [highestPromisedBallot] at hhigh
        cases hlast : a.promises.getLast? with
        | none =>
            rw [hlast] at hhigh
            exact absurd hhigh hpos.ne
        | some b =>
            rw [hlast] at hhigh
            obtain rfl : b = ballot := hhigh
            exact List.mem_of_getLast? hlast
  · rw [hcall]
    constructor
    · intro b hb
      rw [promises_prepare] at hb
      split at hb
      · next hlt => exact hnew hlt (hsaves hlt) b hb
      · exact hold b hb
    · intro s v hholds
      rw [Holds, (a.prepare_frame env slot ballot).1] at hholds
      exact happens_snoc.mpr (Or.inl (hkept.accepted s v hholds))

/-- A checkpoint only removes values: what is held after an `accept` was held before, or is the value
it has recorded. -/
theorem holds_record {env : Env} {slot s : Slot} {ballot : Ballot} {value v : Value}
    (h : (a.record env slot ballot value).Holds s v) :
    (s = slot ∧ v = value) ∨ a.Holds s v := by
  obtain ⟨pv, hpv, hv⟩ := h
  have hins : (a.accepted.insert slot { slot, ballot, value := some value }).get? s = some pv := by
    rcases a.record_accepted env slot ballot value with he | ⟨_, he⟩
    · rw [he] at hpv
      exact hpv
    · rw [he] at hpv
      exact get?_of_prune hpv
  rw [OrdMap.get?_insert] at hins
  split at hins
  · next hs =>
    obtain rfl := Option.some.inj hins
    exact Or.inl ⟨hs, (Option.some.inj hv).symm⟩
  · exact Or.inr ⟨pv, hins, hv⟩

theorem Kept.accept {before : List (Env × Call)} (hkept : Kept a₀ before (run call a₀ before))
    {env : Env} {slot : Slot} {ballot : Ballot} {value : Value}
    (h : Persists a₀ before (env, .accept slot ballot value)) :
    Backed a₀ before (env, .accept slot ballot value) ∧
      Kept a₀ (before ++ [(env, .accept slot ballot value)])
        (run call a₀ (before ++ [(env, .accept slot ballot value)])) := by
  rw [run_snoc]
  generalize ha : run call a₀ before = a at hkept h
  have hcall : a.call (env, .accept slot ballot value) = (a.accept env slot ballot value).2 := rfl
  have hold : ∀ s v, a.Holds s v →
      Happens call (SavesValue s v) a₀ (before ++ [(env, .accept slot ballot value)]) :=
    fun s v hv => happens_snoc.mpr (Or.inl (hkept.accepted s v hv))
  have hpromises : ∀ b ∈ (a.accept env slot ballot value).2.promises,
      Happens call (SavesPromise b) a₀ (before ++ [(env, .accept slot ballot value)]) := by
    intro b hb
    rw [promises_accept] at hb
    exact happens_snoc.mpr (Or.inl (hkept.promises b hb))
  rw [hcall]
  simp only [Backed, ha]
  rcases a.accept_cases env slot ballot value with
    ⟨_, he, _⟩ | ⟨pv, _, hpv, hval, he⟩ | ⟨hle, hnone, he⟩
  · -- rejected
    rw [he] at hpromises ⊢
    exact ⟨fun r hr => (by cases hr), ⟨hpromises, hold⟩⟩
  · -- acknowledged again
    rw [he] at hpromises ⊢
    refine ⟨fun r hr => ?_, ⟨hpromises, hold⟩⟩
    obtain rfl := AcceptedResult.accepted.inj hr
    exact hold slot value ⟨pv, hpv, hval⟩
  · -- recorded now; a checkpoint may have pruned an earlier record
    have hnew : Happens call (SavesValue slot value) a₀
        (before ++ [(env, .accept slot ballot value)]) := by
      apply happens_snoc.mpr
      simp only [Persists, ha, hnone, Option.isSome_none, Bool.false_eq_true, false_or] at h
      rcases h with h | h | h
      · exact absurd h (Nat.not_lt.mpr hle)
      · right
        rw [ha]
        exact ⟨hle, hnone, h.1, (StorageResource.attempt_ok_iff ..).mpr h.2, rfl, rfl⟩
      · exact Or.inl h
    rw [he] at hpromises ⊢
    refine ⟨fun r hr => ?_, ⟨hpromises, fun s v hv => ?_⟩⟩
    · obtain rfl := AcceptedResult.accepted.inj hr
      exact hnew
    · rcases holds_record hv with ⟨rfl, rfl⟩ | hv
      · exact hnew
      · exact hold s v hv

/-- **A run that finds a working storage** where it needs one has everything stored. -/
theorem kept_run {calls : List (Env × Call)} (hnew : a₀.promises = [] ∧ a₀.accepted = ∅)
    (h : AtEach (Persists a₀) calls) :
    AtEach (Backed a₀) calls ∧ Kept a₀ calls (run call a₀ calls) := by
  induction calls using List.reverseRecOn with
  | nil =>
      refine ⟨atEach_nil _, ⟨fun b hb => ?_, fun s v hv => ?_⟩⟩
      · rw [run_nil, hnew.1] at hb
        cases hb
      · obtain ⟨pv, hpv, _⟩ := hv
        rw [run_nil, hnew.2, OrdMap.get?_empty] at hpv
        cases hpv
  | append_singleton before c ih =>
      obtain ⟨hbefore, hc⟩ := atEach_snoc.mp h
      obtain ⟨hbacked, hkept⟩ := ih hbefore
      obtain ⟨env, c⟩ := c
      cases c with
      | prepare slot ballot =>
          obtain ⟨hb, hk⟩ := hkept.prepare hc
          exact ⟨atEach_snoc.mpr ⟨hbacked, hb⟩, hk⟩
      | accept slot ballot value =>
          obtain ⟨hb, hk⟩ := hkept.accept hc
          exact ⟨atEach_snoc.mpr ⟨hbacked, hb⟩, hk⟩

/-! ## An acknowledgement that is stored needs a working storage

The other direction: a call that enters something new and acknowledges it has stored it itself. -/

theorem Backed.persists {before : List (Env × Call)} {c : Env × Call}
    (hrising : (run call a₀ before).Rising) (h : Backed a₀ before c) : Persists a₀ before c := by
  obtain ⟨env, c⟩ := c
  have hsaved : ∀ b, Happens call (SavesPromise b) a₀ before → b ∈ (run call a₀ before).promises :=
    fun b => mem_promises_of_saved a₀ before
  cases c with
  | prepare slot ballot =>
      simp only [Backed, happens_snoc] at h
      simp only [Persists]
      generalize run call a₀ before = a at h hrising hsaved ⊢
      rcases a.prepare_cases env slot ballot with ⟨hlt, _⟩ | ⟨hle, hp, _⟩
      · exact Or.inl hlt
      · right
        rcases h _ hp with hb | ⟨hlt, hon, hok, _⟩
        · -- stored earlier, so it is one of the promises in memory
          have hmem := hrising ballot (hsaved ballot hb)
          exact ⟨hmem.1, fun hlt => absurd hmem.2 (Nat.not_le.mpr hlt)⟩
        · exact ⟨Nat.zero_lt_of_lt hlt,
            fun _ => ⟨hon, (StorageResource.attempt_ok_iff ..).mp hok⟩⟩
  | accept slot ballot value =>
      simp only [Backed, happens_snoc] at h
      simp only [Persists]
      generalize run call a₀ before = a at h
      rcases a.accept_cases env slot ballot value with
        ⟨_, _, hlt | ⟨pv, hpv, _⟩⟩ | ⟨pv, _, hpv, _⟩ | ⟨_, _, he⟩
      · exact Or.inl hlt
      · exact Or.inr (Or.inl (by rw [hpv]; rfl))
      · exact Or.inr (Or.inl (by rw [hpv]; rfl))
      · right
        right
        rcases h _ (congrArg Prod.fst he) with hb | ⟨_, _, hon, hok, _⟩
        · exact Or.inr hb
        · exact Or.inl ⟨hon, (StorageResource.attempt_ok_iff ..).mp hok⟩

/-- **Acknowledgements and records**: under any pattern of failures, every acknowledgement of a run
comes after a record of what it acknowledges if and only if the calls that enter something new find a
storage that works. -/
theorem acknowledgements_backed_iff (hash : String → Nat) (dir : Dir) (env : Env) (nodeId : String)
    (config : RunConfig) (calls : List (Env × Call)) :
    AtEach (Backed (new hash dir env nodeId config)) calls ↔
      AtEach (Persists (new hash dir env nodeId config)) calls := by
  constructor
  · intro h before c after he
    have hrising : (run call (new hash dir env nodeId config) before).Rising :=
      run_invariant (fun _ c hr => hr.call c) (fun _ hb => by cases hb) before
    exact (h before c after he).persists hrising
  · intro h
    exact (kept_run ⟨rfl, rfl⟩ h).1

/-- **A promise without a record**: the disk is full, `save_state` fails, and the prepare for ballot 5
is answered `Promised`. -/
theorem promised_on_full_disk :
    let dir : Dir := { Directory.empty with script := [some "no space left on device"] }
    let config : RunConfig := { RunConfig.inMemory with persistentStorage := true }
    ¬ AtEach (Backed (new (fun _ => 0) dir .quiet "11" config)) [(.quiet, .prepare 1 5)] := by
  intro dir config h
  rcases h [] (.quiet, .prepare 1 5) [] rfl { slot := 1, ballot := 5, accepted := [] } rfl with
    ⟨_, _, hok, _⟩ | hnil
  · cases hok
  · exact hnil

end Acceptor

end PaxosWasm
