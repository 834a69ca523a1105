import Mathlib

/-!
# Runs of a state machine

A machine is a total function `step : σ → ε → σ` over states and events (an event the machine
cannot take leaves the state as it is); a run is the fold of its events. Two rules carry every
result about runs: an invariant that each step keeps holds at the end of a run (`run_invariant`);
and if it is kept only by the steps that meet a condition, it holds at the end of the runs all of
whose steps meet it (`run_invariant_of_guarded`). `Throughout` and `Sometime` speak of all the states
a run passes through, `Guarded` and `Happens` of all its steps, `AtEach` of all its events with what
came before them. `run_simulates` follows a run in an abstract system, and `run_projects` takes it to a
run of a coarser machine.
-/

namespace Library

variable {σ ε : Type} (step : σ → ε → σ)

/-- The state after the events `es`, in order. -/
def run (s : σ) (es : List ε) : σ := es.foldl step s

@[simp] theorem run_nil (s : σ) : run step s [] = s := rfl

@[simp] theorem run_cons (s : σ) (e : ε) (es : List ε) :
    run step s (e :: es) = run step (step s e) es := rfl

theorem run_append (s : σ) (es es' : List ε) :
    run step s (es ++ es') = run step (run step s es) es' := List.foldl_append

theorem run_snoc (s : σ) (es : List ε) (e : ε) :
    run step s (es ++ [e]) = step (run step s es) e := by
  rw [run_append]
  rfl

/-- Every step of the run meets `G`, a condition on the state before the step and its event. -/
def Guarded (G : σ → ε → Prop) : σ → List ε → Prop
  | _, [] => True
  | s, e :: es => G s e ∧ Guarded G (step s e) es

instance Guarded.decidable (G : σ → ε → Prop) [∀ s e, Decidable (G s e)] :
    ∀ s es, Decidable (Guarded step G s es)
  | _, [] => isTrue trivial
  | s, e :: es =>
      have := Guarded.decidable G (step s e) es
      inferInstanceAs (Decidable (_ ∧ _))

variable {step}

theorem guarded_append {G : σ → ε → Prop} {s : σ} {es es' : List ε} :
    Guarded step G s (es ++ es') ↔ Guarded step G s es ∧ Guarded step G (run step s es) es' := by
  induction es generalizing s with
  | nil => simp [Guarded]
  | cons e es ih => simp [Guarded, ih, and_assoc]

theorem guarded_snoc {G : σ → ε → Prop} {s : σ} {es : List ε} {e : ε} :
    Guarded step G s (es ++ [e]) ↔ Guarded step G s es ∧ G (run step s es) e := by
  simp [guarded_append, Guarded]

theorem Guarded.and {G G' : σ → ε → Prop} {s : σ} {es : List ε} (h : Guarded step G s es)
    (h' : Guarded step G' s es) : Guarded step (fun s e => G s e ∧ G' s e) s es := by
  induction es generalizing s with
  | nil => trivial
  | cons e es ih => exact ⟨⟨h.1, h'.1⟩, ih h.2 h'.2⟩

theorem Guarded.mono {G G' : σ → ε → Prop} {s : σ} {es : List ε} (h : Guarded step G s es)
    (hG : ∀ s e, G s e → G' s e) : Guarded step G' s es := by
  induction es generalizing s with
  | nil => trivial
  | cons e es ih => exact ⟨hG s e h.1, ih h.2⟩

/-- On the states of an invariant, conditions that say the same guard the same runs. -/
theorem guarded_congr {P : σ → Prop} (keep : ∀ s e, P s → P (step s e)) {G G' : σ → ε → Prop}
    (hG : ∀ s e, P s → (G s e ↔ G' s e)) {s : σ} (hs : P s) (es : List ε) :
    Guarded step G s es ↔ Guarded step G' s es := by
  induction es generalizing s with
  | nil => exact Iff.rfl
  | cons e es ih => exact and_congr (hG s e hs) (ih (keep s e hs))

variable (step) in
/-- Some step of the run is an `R`, a relation on the state before the step and its event. -/
def Happens (R : σ → ε → Prop) : σ → List ε → Prop
  | _, [] => False
  | s, e :: es => R s e ∨ Happens R (step s e) es

instance Happens.decidable (R : σ → ε → Prop) [∀ s e, Decidable (R s e)] :
    ∀ s es, Decidable (Happens step R s es)
  | _, [] => isFalse id
  | s, e :: es =>
      have := Happens.decidable R (step s e) es
      inferInstanceAs (Decidable (_ ∨ _))

theorem happens_append {R : σ → ε → Prop} {s : σ} {es es' : List ε} :
    Happens step R s (es ++ es') ↔ Happens step R s es ∨ Happens step R (run step s es) es' := by
  induction es generalizing s with
  | nil => simp [Happens]
  | cons e es ih => simp [Happens, ih, or_assoc]

theorem happens_snoc {R : σ → ε → Prop} {s : σ} {es : List ε} {e : ε} :
    Happens step R s (es ++ [e]) ↔ Happens step R s es ∨ R (run step s es) e := by
  simp [happens_append, Happens]

/-- **Invariants under a condition.** What holds at the start and is kept by every step that meets
`G` holds at the end of a run all of whose steps meet `G`. -/
theorem run_invariant_of_guarded {G : σ → ε → Prop} {P : σ → Prop}
    (keep : ∀ s e, P s → G s e → P (step s e)) {s : σ} {es : List ε}
    (hs : P s) (hg : Guarded step G s es) : P (run step s es) := by
  induction es generalizing s with
  | nil => exact hs
  | cons e es ih => exact ih (keep s e hs hg.1) hg.2

/-- **Invariants.** -/
theorem run_invariant {P : σ → Prop} (keep : ∀ s e, P s → P (step s e)) {s : σ}
    (hs : P s) (es : List ε) : P (run step s es) := by
  induction es generalizing s with
  | nil => exact hs
  | cons e es ih => exact ih (keep s e hs)

/-- **Invariants under a condition on the events.** -/
theorem run_invariant_of_mem {E : ε → Prop} {P : σ → Prop}
    (keep : ∀ s e, P s → E e → P (step s e)) {s : σ} {es : List ε}
    (hs : P s) (hes : ∀ e ∈ es, E e) : P (run step s es) := by
  induction es generalizing s with
  | nil => exact hs
  | cons e es ih =>
      exact ih (keep s e hs (hes e (List.mem_cons_self ..)))
        (fun e' he' => hes e' (List.mem_cons_of_mem _ he'))

/-! ## What the steps of a run put out

`collect` gathers it along the run, each step being asked in the state before it. -/

/-- An event of `es ++ [e]` is the last one, or one of those before it. -/
theorem snoc_eq_append_cons {es before after : List ε} {e e' : ε}
    (h : es ++ [e] = before ++ e' :: after) :
    (after = [] ∧ es = before ∧ e = e') ∨ ∃ after', after = after' ++ [e] ∧ es = before ++ e' :: after' := by
  rcases List.eq_nil_or_concat' after with rfl | ⟨after', e'', rfl⟩
  · obtain ⟨rfl, hcons⟩ := List.append_inj' h rfl
    exact Or.inl ⟨rfl, rfl, List.singleton_injective hcons⟩
  · rw [← List.cons_append, ← List.append_assoc] at h
    obtain ⟨hes, hcons⟩ := List.append_inj' h rfl
    obtain rfl := List.singleton_injective hcons
    exact Or.inr ⟨after', rfl, hes⟩

section Collect

variable {α : Type} {out : σ → ε → List α} {s : σ} {es es' : List ε} {e : ε}

variable (step out) in
/-- What the steps put out, in order; `out` says it of a step by the state before it and its event. -/
def collect : σ → List ε → List α
  | _, [] => []
  | s, e :: es => out s e ++ collect (step s e) es

@[simp] theorem collect_nil : collect step out s [] = [] := rfl

theorem collect_append :
    collect step out s (es ++ es') = collect step out s es ++ collect step out (run step s es) es' := by
  induction es generalizing s with
  | nil => rfl
  | cons e es ih =>
      show out s e ++ collect step out (step s e) (es ++ es') = _
      rw [ih, ← List.append_assoc]
      rfl

theorem collect_snoc :
    collect step out s (es ++ [e]) = collect step out s es ++ out (run step s es) e := by
  rw [collect_append]
  simp [collect]

theorem mem_collect {a : α} : a ∈ collect step out s es ↔
    ∃ before e after, es = before ++ e :: after ∧ a ∈ out (run step s before) e := by
  induction es using List.reverseRecOn with
  | nil => simp
  | append_singleton es e ih =>
      rw [collect_snoc, List.mem_append, ih]
      constructor
      · rintro (⟨before, e', after, rfl, ha⟩ | ha)
        · exact ⟨before, e', after ++ [e], by simp, ha⟩
        · exact ⟨es, e, [], rfl, ha⟩
      · rintro ⟨before, e', after, he, ha⟩
        rcases snoc_eq_append_cons he with ⟨-, rfl, rfl⟩ | ⟨after', -, hes⟩
        · exact Or.inr ha
        · exact Or.inl ⟨before, e', after', hes, ha⟩

end Collect

/-! ## The events of a run, each with its past

Conditions on an event that depend on the whole run before it. -/

/-- `Q` holds at every event, given the events before it. -/
def AtEach (Q : List ε → ε → Prop) (es : List ε) : Prop :=
  ∀ before e after, es = before ++ e :: after → Q before e

theorem atEach_nil (Q : List ε → ε → Prop) : AtEach Q [] := by
  intro before e after h
  simp at h

theorem atEach_snoc {Q : List ε → ε → Prop} {es : List ε} {e : ε} :
    AtEach Q (es ++ [e]) ↔ AtEach Q es ∧ Q es e := by
  constructor
  · intro h
    refine ⟨fun before e' after he => ?_, h es e [] rfl⟩
    apply h before e' (after ++ [e])
    rw [he, List.append_assoc, List.cons_append]
  · rintro ⟨h, hlast⟩ before e' after he
    rcases snoc_eq_append_cons he with ⟨-, rfl, rfl⟩ | ⟨after', -, hes⟩
    · exact hlast
    · exact h before e' after' hes

/-- A guarded run meets its condition at each of its events. -/
theorem guarded_iff_atEach {G : σ → ε → Prop} {s : σ} {es : List ε} :
    Guarded step G s es ↔ AtEach (fun before e => G (run step s before) e) es := by
  induction es using List.reverseRecOn with
  | nil => exact ⟨fun _ => atEach_nil _, fun _ => trivial⟩
  | append_singleton es e ih => rw [guarded_snoc, atEach_snoc, ih]

/-! ## The states a run passes through

The first and the last state count among them. -/

variable (step)

/-- `P` holds in every state of the run. -/
def Throughout (P : σ → Prop) (s : σ) (es : List ε) : Prop :=
  ∀ es', es' <+: es → P (run step s es')

/-- `P` holds in some state of the run. -/
def Sometime (P : σ → Prop) (s : σ) (es : List ε) : Prop :=
  ∃ es', es' <+: es ∧ P (run step s es')

variable {step} {P : σ → Prop} {s : σ} {e : ε} {es es' : List ε}

theorem throughout_nil : Throughout step P s [] ↔ P s := by
  refine ⟨fun h => h [] (List.prefix_refl _), fun h es' hes => ?_⟩
  rw [List.prefix_nil.mp hes]
  exact h

theorem throughout_cons :
    Throughout step P s (e :: es) ↔ P s ∧ Throughout step P (step s e) es := by
  constructor
  · intro h
    exact ⟨h [] List.nil_prefix, fun es' hes => h (e :: es') (List.cons_prefix_cons.mpr ⟨rfl, hes⟩)⟩
  · rintro ⟨hs, hrest⟩ es' hes
    cases es' with
    | nil => exact hs
    | cons e' es' =>
        obtain ⟨rfl, hes'⟩ := List.cons_prefix_cons.mp hes
        exact hrest es' hes'

instance Throughout.decidable [DecidablePred P] : ∀ s es, Decidable (Throughout step P s es)
  | s, [] => decidable_of_iff (P s) throughout_nil.symm
  | s, e :: es =>
      have := Throughout.decidable (step s e) es
      decidable_of_iff (P s ∧ Throughout step P (step s e) es) throughout_cons.symm

theorem throughout_append :
    Throughout step P s (es ++ es') ↔ Throughout step P s es ∧ Throughout step P (run step s es) es' := by
  induction es generalizing s with
  | nil => exact ⟨fun h => ⟨throughout_nil.mpr (h [] List.nil_prefix), h⟩, fun h => h.2⟩
  | cons e es ih => rw [List.cons_append, throughout_cons, throughout_cons, ih, and_assoc, run_cons]

theorem Throughout.last (h : Throughout step P s es) : P (run step s es) := h es (List.prefix_refl _)

theorem sometime_last (h : P (run step s es)) : Sometime step P s es := ⟨es, List.prefix_refl _, h⟩

/-- **Simulation**: a relation to an abstract system that each step keeps, up to abstract steps, holds at
the end of a run, and the abstract system can get there. Every state of the run may be taken to meet `P`. -/
theorem run_simulates {α : Type*} {Abs : α → α → Prop} {R : σ → α → Prop} {E : ε → Prop}
    (sim : ∀ s e a, E e → P (step s e) → R s a →
      ∃ a', Relation.ReflTransGen Abs a a' ∧ R (step s e) a')
    (hes : ∀ e ∈ es, E e) (hP : Throughout step P s es) {a : α} (h : R s a) :
    ∃ a', Relation.ReflTransGen Abs a a' ∧ R (run step s es) a' := by
  induction es generalizing s a with
  | nil => exact ⟨a, .refl, h⟩
  | cons e es ih =>
      obtain ⟨-, hrest⟩ := throughout_cons.mp hP
      obtain ⟨a', hsteps, h'⟩ := sim s e a (hes e List.mem_cons_self) (hrest [] List.nil_prefix) h
      obtain ⟨a'', hsteps', h''⟩ := ih (fun e' he' => hes e' (List.mem_cons_of_mem e he')) hrest h'
      exact ⟨a'', hsteps.trans hsteps', h''⟩

/-! ## Projections -/

section Project

variable {τ ε' : Type} {step' : τ → ε' → τ} {f : σ → τ} {out : σ → ε → Option ε'}

/-- **A projection**: where each step is at most one step of another machine, a run is a run of that
machine. -/
theorem run_projects (h : ∀ s e, f (step s e) = run step' (f s) (out s e).toList) :
    f (run step s es) = run step' (f s) (collect step (fun s e => (out s e).toList) s es) := by
  induction es generalizing s with
  | nil => rfl
  | cons e es ih =>
      show f (run step (step s e) es) = run step' (f s) ((out s e).toList ++ collect step _ (step s e) es)
      rw [ih, run_append, h]

/-- The states that the two runs pass through are the same. -/
theorem throughout_projects {P : τ → Prop} (h : ∀ s e, f (step s e) = run step' (f s) (out s e).toList) :
    Throughout step (fun s => P (f s)) s es ↔
      Throughout step' P (f s) (collect step (fun s e => (out s e).toList) s es) := by
  induction es generalizing s with
  | nil => exact throughout_nil.trans throughout_nil.symm
  | cons e es ih =>
      rw [throughout_cons, ih, collect, throughout_append, ← h]
      apply and_congr_left
      intro hrest
      cases hout : out s e with
      | none => exact throughout_nil.symm
      | some e' =>
          have hstep : f (step s e) = step' (f s) e' := by rw [h, hout]; rfl
          have hnext : P (step' (f s) e') := hstep ▸ hrest [] List.nil_prefix
          rw [Option.toList, throughout_cons, throughout_nil]
          exact (and_iff_left hnext).symm

end Project

end Library
