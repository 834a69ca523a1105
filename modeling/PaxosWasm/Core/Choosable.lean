import PaxosWasm.Core.AcceptorVotes

/-!
# What can still be chosen

The core acceptor never gives up a value it holds, not even for a higher ballot. Without storage this
decides how a slot can end: some continuation of a run chooses a value if and only if a majority of the
acceptors hold nothing else there, and then the next round that is not disturbed chooses it. Where no
value has such a majority, as after a split vote, the slot is never decided.
-/

namespace PaxosWasm

open Library

namespace Acceptor

/-- The acceptor holds no other value for the slot. -/
def OpenTo (a : Acceptor) (s : Slot) (v : Value) : Prop :=
  ∀ pv ∈ a.accepted.get? s, pv.value = some v

instance (a : Acceptor) (s : Slot) (v : Value) : Decidable (a.OpenTo s v) :=
  inferInstanceAs (Decidable (∀ pv ∈ a.accepted.get? s, _))

/-- One round for a single slot, as an acceptor sees it. -/
def attempt (env : Env) (s : Slot) (b : Ballot) (v : Value) : List (Env × Call) :=
  [(env, .prepare s b), (env, .accept s b v)]

variable {a : Acceptor} {s : Slot} {v : Value}

theorem Holds.openTo (h : a.Holds s v) : a.OpenTo s v := by
  intro pv hpv
  obtain ⟨pv', hpv', hval⟩ := h
  obtain rfl := Option.some.inj (hpv'.symm.trans hpv)
  exact hval

/-! ## Calls -/

/-- Without storage no call removes anything. -/
theorem extends_call (hoff : a.storage.settings.enabled = false) (c : Env × Call) :
    OrdMap.Extends a.accepted (a.call c).accepted := by
  obtain ⟨env, ⟨slot, ballot⟩ | ⟨slot, ballot, value⟩⟩ := c
  · have hframe := (a.prepare_frame env slot ballot).1
    intro k pv hpv
    simpa [call, hframe] using hpv
  · exact (accept_of_disabled hoff env slot ballot value).1

/-- **Openness is only ever lost.** -/
theorem OpenTo.of_run (hoff : a.storage.settings.enabled = false) {calls : List (Env × Call)}
    (h : (run Acceptor.call a calls).OpenTo s v) : a.OpenTo s v := by
  induction calls generalizing a with
  | nil => exact h
  | cons c cs ih =>
      have hnext : (a.call c).OpenTo s v := ih (call_disabled hoff c) h
      intro pv hpv
      exact hnext pv (extends_call hoff c s pv hpv)

theorem Acknowledged.openTo (hoff : a.storage.settings.enabled = false) {calls : List (Env × Call)}
    (h : a.Acknowledged calls s v) : a.OpenTo s v :=
  .of_run hoff (h.holds hoff).openTo

theorem Acknowledged.append {calls : List (Env × Call)} (h : a.Acknowledged calls s v)
    (more : List (Env × Call)) : a.Acknowledged (calls ++ more) s v := by
  obtain ⟨before, env, ballot, after, rfl, hack⟩ := h
  exact ⟨before, env, ballot, after ++ more, by simp, hack⟩

theorem Acknowledged.prepend {before calls : List (Env × Call)}
    (h : (run Acceptor.call a before).Acknowledged calls s v) : a.Acknowledged (before ++ calls) s v := by
  obtain ⟨before', env, ballot, after, rfl, hack⟩ := h
  refine ⟨before ++ before', env, ballot, after, by simp, ?_⟩
  rw [run_append]
  exact hack

/-- An acceptor that has promised no higher ballot acknowledges what it is open to. -/
theorem OpenTo.acks (h : a.OpenTo s v) {b : Ballot} (hb : a.highestPromisedBallot ≤ b) (env : Env) :
    a.Acks env s b v := by
  rcases a.accept_cases env s b v with ⟨b', he, hlt | ⟨pv, hpv, hne⟩⟩ | ⟨pv, _, _, _, he⟩ | ⟨_, _, he⟩
  · exact absurd hb (Nat.not_le_of_lt hlt)
  · exact absurd (h pv hpv) hne
  · exact ⟨_, congrArg Prod.fst he⟩
  · exact ⟨_, congrArg Prod.fst he⟩

/-- **A round at a ballot that is high enough** gets the vote of every acceptor that is open. -/
theorem OpenTo.acknowledged_attempt (h : a.OpenTo s v) {b : Ballot} (hb : a.highestPromisedBallot ≤ b)
    (env : Env) : a.Acknowledged (attempt env s b v) s v := by
  refine ⟨[(env, .prepare s b)], env, b, [], rfl, ?_⟩
  have hprepared : (a.prepare env s b).2.highestPromisedBallot ≤ b := by
    rcases a.prepare_cases env s b with ⟨hlt, _⟩ | ⟨_, _, he⟩
    · exact absurd hb (Nat.not_le_of_lt hlt)
    · exact le_of_eq he
  apply OpenTo.acks _ hprepared
  intro pv hpv
  apply h
  simpa [run, call, (a.prepare_frame env s b).1] using hpv

/-! ## Majorities

A value is chosen by a majority that has acknowledged it, and it can be as long as a majority is open to it. -/

variable {n : Nat} {acceptors : Fin n → Acceptor}

/-- What the acceptors have acknowledged at the end of their calls, a majority of them at least. -/
def ChosenBy (acceptors : Fin n → Acceptor) (calls : Fin n → List (Env × Call)) (s : Slot)
    (v : Value) : Prop :=
  Chosen Finset.univ (fun i u => (acceptors i).Acknowledged (calls i) s u) v

/-- After the calls, a majority of the acceptors hold no other value. -/
def OpenMajority (acceptors : Fin n → Acceptor) (calls : Fin n → List (Env × Call)) (s : Slot)
    (v : Value) : Prop :=
  Chosen Finset.univ (fun i u => (run Acceptor.call (acceptors i) (calls i)).OpenTo s u) v

instance (acceptors : Fin n → Acceptor) (calls : Fin n → List (Env × Call)) (s : Slot) (v : Value) :
    Decidable (OpenMajority acceptors calls s v) :=
  inferInstanceAs (Decidable (Chosen _ _ _))

/-- What is chosen in a continuation has a majority that is open to it before. -/
theorem ChosenBy.openMajority (hoff : ∀ i, (acceptors i).storage.settings.enabled = false)
    {before calls : Fin n → List (Env × Call)}
    (h : ChosenBy acceptors (fun i => before i ++ calls i) s v) :
    OpenMajority acceptors before s v := by
  refine Chosen.mono (fun i hack => ?_) h
  have hholds := (hack.holds (hoff i)).openTo
  rw [run_append] at hholds
  exact hholds.of_run (run_disabled (hoff i) (before i))

/-- The votes of an open majority are won by one round. -/
theorem OpenMajority.chosenBy {before : Fin n → List (Env × Call)}
    (h : OpenMajority acceptors before s v) {b : Ballot}
    (hb : ∀ i, (run Acceptor.call (acceptors i) (before i)).highestPromisedBallot ≤ b)
    (env : Fin n → Env) : ChosenBy acceptors (fun i => before i ++ attempt (env i) s b v) s v :=
  Chosen.mono (fun i hopen => (hopen.acknowledged_attempt (hb i) (env i)).prepend) h

/-- **What can still be chosen**: whatever acceptors without storage have been asked before, a value is
chosen in some continuation if and only if a majority of them hold no other value now, and if and only
if one round with it, at any ballot that none of them is promised above, chooses it. -/
theorem choosable_iff {n : Nat} (hash : String → Nat) (dir : Fin n → Dir) (env : Fin n → Env)
    (nodeId : Fin n → String) (config : Fin n → RunConfig)
    (hoff : ∀ i, (config i).persistentStorage = false) (before : Fin n → List (Env × Call)) (s : Slot)
    (v : Value) :
    let acceptors (i : Fin n) := new hash (dir i) (env i) (nodeId i) (config i)
    ((∃ calls : Fin n → List (Env × Call), ChosenBy acceptors (fun i => before i ++ calls i) s v) ↔
        OpenMajority acceptors before s v) ∧
      ∀ (later : Fin n → Env) (b : Ballot),
        (∀ i, (run Acceptor.call (acceptors i) (before i)).highestPromisedBallot ≤ b) →
        (ChosenBy acceptors (fun i => before i ++ attempt (later i) s b v) s v ↔
          OpenMajority acceptors before s v) := by
  intro acceptors
  have hdisabled : ∀ i, (acceptors i).storage.settings.enabled = false := hoff
  constructor
  · constructor
    · rintro ⟨calls, h⟩
      exact h.openMajority hdisabled
    · intro h
      -- a ballot that is above everything promised
      obtain ⟨b, hb⟩ := (Finset.univ.image (fun i =>
        (run Acceptor.call (acceptors i) (before i)).highestPromisedBallot)).exists_le
      refine ⟨_, h.chosenBy (b := b) (fun i => hb _ ?_) env⟩
      exact Finset.mem_image_of_mem _ (Finset.mem_univ i)
  · intro later b hb
    constructor
    · intro h
      exact h.openMajority hdisabled
    · intro h
      exact h.chosenBy hb later

/-- Each of three acceptors has accepted a value of its own, under a ballot of its own. -/
def splitVote (i : Fin 3) : List (Env × Call) :=
  [(Env.quiet, .accept 1 (i.val + 1) (setX (toString i.val)))]

/-- **A split vote is final.** -/
theorem choosable_iff_split :
    let acceptors (i : Fin 3) := new (fun _ => 0) Directory.empty Env.quiet (toString i) RunConfig.inMemory
    ¬ ∃ v, ∃ calls : Fin 3 → List (Env × Call),
      ChosenBy acceptors (fun i => splitVote i ++ calls i) 1 v := by
  intro acceptors
  rintro ⟨v, hcalls⟩
  obtain ⟨S, ⟨-, hcard⟩, hopen⟩ := (choosable_iff (fun _ => 0) (fun _ => Directory.empty)
    (fun _ => Env.quiet) (fun i : Fin 3 => toString i) (fun _ => RunConfig.inMemory) (fun _ => rfl)
    splitVote 1 v).1.mp hcalls
  have hholds : ∀ i : Fin 3, (run Acceptor.call (acceptors i) (splitVote i)).Holds 1
      (setX (toString i.val)) :=
    fun i => ⟨{ slot := 1, ballot := i.val + 1, value := some (setX (toString i.val)) }, by
      revert i
      decide, rfl⟩
  have hdistinct : ∀ i j : Fin 3, setX (toString i.val) = setX (toString j.val) → i = j := by decide
  have hheld : ∀ i ∈ S, setX (toString i.val) = v := by
    intro i hi
    obtain ⟨pv, hpv, hval⟩ := hholds i
    exact Option.some.inj (hval.symm.trans (hopen i hi pv hpv))
  have hone : S.card ≤ 1 := by
    apply Finset.card_le_one.mpr
    intro i hi j hj
    exact hdistinct i j ((hheld i hi).trans (hheld j hj).symm)
  rw [Finset.card_univ, Fintype.card_fin] at hcard
  omega

end Acceptor

end PaxosWasm
