import Mathlib

/-!
# Programs of calls that can fail

A program makes calls, one after the other, on a state that outlives it. A call is done, or it fails,
or the process stops before it; of a call that stops, and of most that fail, the state keeps nothing.
A triple says what holds of
the state however the calls come out: the postcondition if the program returns, and what survives if it
fails or is stopped on its way (`Triple.call`, `Triple.bind`).
-/

namespace Library

/-- How a call comes out. -/
inductive Outcome where
  | done
  | failed (e : String)
  | stopped
deriving DecidableEq, Repr

/-- How a program ends. -/
inductive Ending (α : Type) where
  | returned (a : α)
  | failed (e : String)
  | stopped
deriving DecidableEq, Repr

/-- A program over a state, given how each of its calls comes out. -/
def Calls (κ σ α : Type) : Type := (κ → Outcome) → σ → Ending α × σ

namespace Calls

variable {κ σ α β : Type}

protected def pure (a : α) : Calls κ σ α := fun _ s => (.returned a, s)

protected def bind (p : Calls κ σ α) (f : α → Calls κ σ β) : Calls κ σ β := fun outcome s =>
  match p outcome s with
  | (.returned a, s) => f a outcome s
  | (.failed e, s) => (.failed e, s)
  | (.stopped, s) => (.stopped, s)

instance : Monad (Calls κ σ) where
  pure := Calls.pure
  bind := Calls.bind

/-- A call named `c`, which turns the state by `act`. -/
def call (c : κ) (act : σ → σ) : Calls κ σ Unit := fun outcome s =>
  match outcome c with
  | .done => (.returned (), act s)
  | .failed e => (.failed e, s)
  | .stopped => (.stopped, s)

/-- A call that leaves `broken` behind when it fails. -/
def callElse (c : κ) (act broken : σ → σ) : Calls κ σ Unit := fun outcome s =>
  match outcome c with
  | .done => (.returned (), act s)
  | .failed e => (.failed e, broken s)
  | .stopped => (.stopped, s)

/-- Look at the state. -/
def read (f : σ → α) : Calls κ σ α := fun _ s => (.returned (f s), s)

/-- Go on with `a` if the program fails. -/
def orElse (p : Calls κ σ α) (a : α) : Calls κ σ α := fun outcome s =>
  match p outcome s with
  | (.failed _, s) => (.returned a, s)
  | r => r

/-- The run of a program with given outcomes. -/
def run (p : Calls κ σ α) (outcome : κ → Outcome) (s : σ) : Ending α × σ := p outcome s

/-- Every call is done. -/
def allDone : κ → Outcome := fun _ => .done

/-- From a state in `P`, the program returns in a state that `Q` holds of with the result, or ends
before in a state in `C`. -/
def Triple (P : σ → Prop) (p : Calls κ σ α) (Q : α → σ → Prop) (C : σ → Prop) : Prop :=
  ∀ outcome s, P s →
    match p.run outcome s with
    | (.returned a, s) => Q a s
    | (.failed _, s) => C s
    | (.stopped, s) => C s

/-! ## Runs

What a program comes to with given outcomes, call by call. -/

section Run

variable {outcome : κ → Outcome} {s : σ} {c : κ}

@[simp] theorem pure_run (a : α) : (pure a : Calls κ σ α).run outcome s = (.returned a, s) := rfl

@[simp] theorem bind_run (p : Calls κ σ α) (f : α → Calls κ σ β) :
    (p >>= f).run outcome s =
      match p.run outcome s with
      | (.returned a, s) => (f a).run outcome s
      | (.failed e, s) => (.failed e, s)
      | (.stopped, s) => (.stopped, s) := rfl

@[simp] theorem read_run (f : σ → α) :
    (read f : Calls κ σ α).run outcome s = (.returned (f s), s) := rfl

@[simp] theorem orElse_run (p : Calls κ σ α) (a : α) :
    (p.orElse a).run outcome s =
      match p.run outcome s with
      | (.failed _, s) => (.returned a, s)
      | r => r := rfl

theorem call_run_done (act : σ → σ) (h : outcome c = .done) :
    (call c act).run outcome s = (.returned (), act s) := by
  rw [run, call, h]

theorem call_run_failed (act : σ → σ) {e : String} (h : outcome c = .failed e) :
    (call c act).run outcome s = (.failed e, s) := by
  rw [run, call, h]

theorem call_run_stopped (act : σ → σ) (h : outcome c = .stopped) :
    (call c act).run outcome s = (.stopped, s) := by
  rw [run, call, h]

theorem callElse_run_done (act broken : σ → σ) (h : outcome c = .done) :
    (callElse c act broken).run outcome s = (.returned (), act s) := by
  rw [run, callElse, h]

theorem callElse_run_failed (act broken : σ → σ) {e : String} (h : outcome c = .failed e) :
    (callElse c act broken).run outcome s = (.failed e, broken s) := by
  rw [run, callElse, h]

@[simp] theorem call_run_allDone (act : σ → σ) :
    (call c act).run allDone s = (.returned (), act s) := rfl

end Run

variable {P P' : σ → Prop} {Q Q' : α → σ → Prop} {C C' : σ → Prop}

/-! ## Rules

For each construct of a program one rule, with a postcondition for where it returns and a condition for where
it ends before. -/

namespace Triple

theorem conseq {p : Calls κ σ α} (h : Triple P p Q C) (hP : ∀ s, P' s → P s)
    (hQ : ∀ a s, Q a s → Q' a s) (hC : ∀ s, C s → C' s) : Triple P' p Q' C' := by
  intro outcome s hs
  have h := h outcome s (hP s hs)
  generalize p.run outcome s = r at h ⊢
  obtain ⟨_ | _ | _, s'⟩ := r
  · exact hQ _ _ h
  · exact hC _ h
  · exact hC _ h

theorem pure {a : α} (h : ∀ s, P s → Q a s) : Triple P (Pure.pure a : Calls κ σ α) Q C :=
  fun _ s hs => h s hs

theorem bind {p : Calls κ σ α} {f : α → Calls κ σ β} {R : β → σ → Prop} (h : Triple P p Q C)
    (hf : ∀ a, Triple (Q a) (f a) R C) : Triple P (p >>= f) R C := by
  intro outcome s hs
  have h := h outcome s hs
  rw [bind_run]
  generalize p.run outcome s = r at h ⊢
  obtain ⟨a | _ | _, s'⟩ := r
  · exact hf a outcome s' h
  · exact h
  · exact h

/-- A call leaves the state as it is, or does its work. -/
theorem call {c : κ} {act : σ → σ} {Q : Unit → σ → Prop} (hact : ∀ s, P s → Q () (act s))
    (hend : ∀ s, P s → C s) : Triple P (Calls.call c act) Q C := by
  intro outcome s hs
  cases hc : outcome c with
  | done =>
      rw [call_run_done act hc]
      exact hact s hs
  | failed e =>
      rw [call_run_failed act hc]
      exact hend s hs
  | stopped =>
      rw [call_run_stopped act hc]
      exact hend s hs

theorem read {f : σ → α} (h : ∀ s, P s → Q (f s) s) : Triple P (Calls.read f : Calls κ σ α) Q C :=
  fun _ s hs => h s hs

/-- A failure that is ignored leads to the postcondition too. -/
theorem orElse {p : Calls κ σ α} {a : α} (h : Triple P p Q C) (ha : ∀ s, C s → Q a s) :
    Triple P (p.orElse a) Q C := by
  intro outcome s hs
  have h := h outcome s hs
  rw [orElse_run]
  generalize p.run outcome s = r at h ⊢
  obtain ⟨_ | _ | _, s'⟩ := r
  · exact h
  · exact ha _ h
  · exact h

/-- **However the program ends**, what survives holds, if the postcondition is that too. -/
theorem snd {p : Calls κ σ α} (h : Triple P p (fun _ => C) C) (outcome : κ → Outcome) {s : σ}
    (hs : P s) : C (p.run outcome s).2 := by
  have h := h outcome s hs
  generalize p.run outcome s = r at h ⊢
  obtain ⟨_ | _ | _, s'⟩ := r
  all_goals exact h

end Triple

end Calls

end Library
