import PaxosWasm.Core.AcceptorVotes

/-!
# Ballots of the core acceptor

A `prepare` writes the promised ballot, and both operations are refused below it. An `accept` writes
none: it binds the acceptor to a ballot that has been promised, not to a higher one.
-/

namespace PaxosWasm

open Library

namespace Acceptor

def Call.ballot : Call → Ballot
  | .prepare _ ballot => ballot
  | .accept _ ballot _ => ballot

/-- The call is answered `Promised` or `Accepted`. -/
def Grants (a : Acceptor) (c : Env × Call) : Prop :=
  match c.2 with
  | .prepare slot ballot => ∃ p, (a.prepare c.1 slot ballot).1 = .promised p
  | .accept slot ballot value => a.Acks c.1 slot ballot value

/-- The call is answered `Rejected`. -/
def Rejects (a : Acceptor) (c : Env × Call) : Prop :=
  match c.2 with
  | .prepare slot ballot => ∃ b, (a.prepare c.1 slot ballot).1 = .rejected b
  | .accept slot ballot value => ∃ b, (a.accept c.1 slot ballot value).1 = .rejected b

/-- The call concerns no ballot above the promised one, unless it is a `prepare`. -/
def Binds (a : Acceptor) (c : Call) : Prop :=
  match c with
  | .prepare _ _ => True
  | .accept _ ballot _ => ballot ≤ a.highestPromisedBallot

variable {a : Acceptor} {c c' : Env × Call}

/-! ## Rejected calls

Every call with a ballot below the promised one is rejected, and not only those. -/

/-- **A rejected call changes nothing.** -/
theorem call_of_rejects (h : a.Rejects c) : a.call c = a := by
  obtain ⟨env, c⟩ := c
  cases c with
  | prepare slot ballot =>
      obtain ⟨b, hb⟩ := h
      rcases a.prepare_cases env slot ballot with ⟨_, he⟩ | ⟨_, hp, _⟩
      · show (a.prepare env slot ballot).2 = a
        rw [he]
      · cases hp.symm.trans hb
  | accept slot ballot value =>
      obtain ⟨b, hb⟩ := h
      show (a.accept env slot ballot value).2 = a
      rcases a.accept_cases env slot ballot value with ⟨_, he, _⟩ | ⟨_, _, _, _, he⟩ | ⟨_, _, he⟩
      · rw [he]
      · rw [he]
      · rw [he] at hb
        cases hb

/-- Below the promised ballot every call is rejected. -/
theorem rejects_of_lt (h : c.2.ballot < a.highestPromisedBallot) : a.Rejects c := by
  obtain ⟨env, c⟩ := c
  cases c with
  | prepare slot ballot =>
      replace h : ballot < a.highestPromisedBallot := h
      refine ⟨a.highestPromisedBallot, ?_⟩
      rw [prepare, if_pos h]
  | accept slot ballot value =>
      replace h : ballot < a.highestPromisedBallot := h
      refine ⟨a.highestPromisedBallot, ?_⟩
      rw [accept, if_pos h]

/-! ## The promised ballot -/

theorem highestPromisedBallot_accept (env : Env) (slot : Slot) (ballot : Ballot) (value : Value) :
    (a.accept env slot ballot value).2.highestPromisedBallot = a.highestPromisedBallot := by
  rcases a.accept_cases env slot ballot value with ⟨_, he, _⟩ | ⟨_, _, _, _, he⟩ | ⟨_, _, he⟩
  · rw [he]
  · rw [he]
  · rw [he]
    rfl

/-- **The promised ballot never goes down.** -/
theorem highestPromisedBallot_le_call (c : Env × Call) :
    a.highestPromisedBallot ≤ (a.call c).highestPromisedBallot := by
  obtain ⟨env, c⟩ := c
  cases c with
  | prepare slot ballot =>
      show _ ≤ (a.prepare env slot ballot).2.highestPromisedBallot
      rcases a.prepare_cases env slot ballot with ⟨_, he⟩ | ⟨hle, _, he⟩
      · rw [he]
      · rw [he]
        exact hle
  | accept slot ballot value =>
      show _ ≤ (a.accept env slot ballot value).2.highestPromisedBallot
      rw [highestPromisedBallot_accept]

theorem highestPromisedBallot_le_run (a : Acceptor) (calls : List (Env × Call)) :
    a.highestPromisedBallot ≤ (run call a calls).highestPromisedBallot :=
  run_invariant (P := fun x : Acceptor => a.highestPromisedBallot ≤ x.highestPromisedBallot)
    (fun _ c h => h.trans (highestPromisedBallot_le_call c)) (le_refl _) calls

/-- A call that is granted and binds leaves its ballot promised. -/
theorem ballot_le_of_grants (h : a.Grants c) (hbinds : a.Binds c.2) :
    c.2.ballot ≤ (a.call c).highestPromisedBallot := by
  obtain ⟨env, c⟩ := c
  cases c with
  | prepare slot ballot =>
      obtain ⟨p, hp⟩ := h
      rcases a.prepare_cases env slot ballot with ⟨_, he⟩ | ⟨_, _, he⟩
      · rw [he] at hp
        cases hp
      · exact he.ge
  | accept slot ballot value =>
      show ballot ≤ (a.accept env slot ballot value).2.highestPromisedBallot
      rw [highestPromisedBallot_accept]
      exact hbinds

/-! ## Grants and rejections

A promise binds the calls below its ballot. An acceptance does not: it promises nothing. -/

/-- **Ballots of an acceptor**: once it has answered `Promised` for a ballot, or `Accepted` for a
ballot it had promised, it rejects every call below that ballot for the rest of its life; and a
rejected call changes nothing. -/
theorem rejects_below_grants (hash : String → Nat) (dir : Dir) (env : Env) (nodeId : String)
    (config : RunConfig) (before after : List (Env × Call)) (c c' : Env × Call) :
    let a := run call (new hash dir env nodeId config) before
    (a.Grants c → a.Binds c.2 → c'.2.ballot < c.2.ballot → (run call (a.call c) after).Rejects c') ∧
      (a.Rejects c → (a.call c).promises = a.promises ∧ (a.call c).accepted = a.accepted) := by
  intro a
  refine ⟨fun hgrants hbinds hlt => rejects_of_lt ?_, fun h => ?_⟩
  · calc c'.2.ballot < c.2.ballot := hlt
      _ ≤ (a.call c).highestPromisedBallot := ballot_le_of_grants hgrants hbinds
      _ ≤ (run call (a.call c) after).highestPromisedBallot := highestPromisedBallot_le_run _ _
  · rw [call_of_rejects h]
    exact ⟨rfl, rfl⟩

theorem rejects_below_granted_prepare :
    let a := new (fun _ => 0) .empty .quiet "11" .inMemory
    Rejects (run call (a.call (.quiet, .prepare 1 5)) [(.quiet, .accept 1 5 (setX "a"))])
      (.quiet, .prepare 1 3) :=
  (rejects_below_grants (fun _ => 0) .empty .quiet "11" .inMemory []
    [(.quiet, .accept 1 5 (setX "a"))] (.quiet, .prepare 1 5) (.quiet, .prepare 1 3)).1
    ⟨_, rfl⟩ trivial (by decide)

/-- **An accepted ballot is not promised**: an acceptor accepts a value at ballot 5, and then promises
ballot 3. -/
theorem promises_below_accepted :
    let a := new (fun _ => 0) .empty .quiet "11" .inMemory
    let c : Env × Call := (.quiet, .accept 1 5 (setX "a"))
    a.Grants c ∧ ¬ (a.call c).Rejects (.quiet, .prepare 1 3) ∧ 3 < c.2.ballot := by
  refine ⟨⟨_, rfl⟩, fun ⟨b, hb⟩ => ?_, by decide⟩
  cases hb

end Acceptor

end PaxosWasm
