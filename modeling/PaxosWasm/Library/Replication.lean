import Mathlib.Data.List.Induction
import Mathlib.Data.Set.Basic
import Mathlib.Logic.Relation

/-!
# Replicated machines

A deterministic machine is fed with the entries of a log, which are numbered from 1. The log may have
gaps, and it may grow, but what is decided stays. Replicas feed the same log to machines of their own:
they lag behind one another, but they never disagree.
-/

namespace Library

variable {σ ν ρ ι : Type*}

/-- A log grows: what is decided stays. -/
def Grows (d d' : ℕ → Option ν) : Prop := ∀ n v, d n = some v → d' n = some v

/-- Two logs agree where both are decided. -/
def Compatible (d d' : ℕ → Option ν) : Prop := ∀ n v w, d n = some v → d' n = some w → v = w

theorem Grows.refl (d : ℕ → Option ν) : Grows d d := fun _ _ h => h

theorem Grows.trans {d d' d'' : ℕ → Option ν} (h : Grows d d') (h' : Grows d' d'') : Grows d d'' :=
  fun n v hv => h' n v (h n v hv)

theorem Compatible.refl (d : ℕ → Option ν) : Compatible d d :=
  fun _ _ _ hv hw => Option.some.inj (hv.symm.trans hw)

/-! ## Machines

A machine is fed with the entries of a log in order. Its state is determined by the entries decided so
far, and so is each of its answers. -/

/-- A deterministic machine that answers every entry it is fed with. -/
structure Machine (σ ν ρ : Type*) where
  init : σ
  apply : σ → ν → ρ × σ

namespace Machine

variable (M : Machine σ ν ρ) {d d' : ℕ → Option ν} {n : ℕ} {s s' : σ} {v v' : ν} {r r' : ρ}

/-- The first `n` entries of the log are decided, and take the machine to the state. -/
inductive Reaches (d : ℕ → Option ν) : ℕ → σ → Prop
  | init : Reaches d 0 M.init
  | next {n : ℕ} {s : σ} {v : ν} (h : Reaches d n s) (hv : d (n + 1) = some v) :
      Reaches d (n + 1) (M.apply s v).2

/-- The answer to an entry, once the machine has been fed with those before it. -/
inductive Yields (d : ℕ → Option ν) : ℕ → ν → ρ → Prop
  | mk {n : ℕ} {s : σ} {v : ν} (h : M.Reaches d n s) (hv : d (n + 1) = some v) :
      Yields d (n + 1) v (M.apply s v).1

/-- The state after a list of entries. -/
def feed (vs : List ν) : σ := vs.foldl (fun s v => (M.apply s v).2) M.init

theorem feed_snoc (vs : List ν) (v : ν) : M.feed (vs ++ [v]) = (M.apply (M.feed vs) v).2 := by
  rw [feed, feed, List.foldl_append]
  rfl

variable {M}

theorem Reaches.mono (h : M.Reaches d n s) (hd : Grows d d') : M.Reaches d' n s := by
  induction h with
  | init => exact .init
  | next _ hv ih => exact .next ih (hd _ _ hv)

/-- **Replicas agree**: logs that agree take the machine to the same states. -/
theorem Reaches.unique (h : M.Reaches d n s) (h' : M.Reaches d' n s') (hd : Compatible d d') :
    s = s' := by
  induction h generalizing s' with
  | init =>
      cases h'
      rfl
  | next _ hv ih =>
      cases h' with
      | next h' hv' => rw [ih h', hd _ _ _ hv hv']

theorem Reaches.decided (h : M.Reaches d n s) {k : ℕ} (h1 : 1 ≤ k) (hk : k ≤ n) :
    ∃ v, d k = some v := by
  induction h with
  | init => exact absurd (le_trans h1 hk) (Nat.not_succ_le_zero 0)
  | @next n s v _ hv ih =>
      rcases Nat.le_succ_iff.mp hk with hle | rfl
      · exact ih hle
      · exact ⟨v, hv⟩

/-- **The state is that of a list of entries**, the first ones of the log. -/
theorem reaches_iff : M.Reaches d n s ↔
    ∃ vs : List ν, vs.length = n ∧ (∀ k < n, d (k + 1) = vs[k]?) ∧ s = M.feed vs := by
  constructor
  · intro h
    induction h with
    | init => exact ⟨[], rfl, fun k hk => absurd hk (Nat.not_lt_zero k), rfl⟩
    | @next n s v _ hv ih =>
        obtain ⟨vs, rfl, hvs, rfl⟩ := ih
        refine ⟨vs ++ [v], List.length_append, fun k hk => ?_, (M.feed_snoc vs v).symm⟩
        rcases Nat.lt_succ_iff_lt_or_eq.mp hk with hlt | rfl
        · rw [List.getElem?_append_left hlt]
          exact hvs k hlt
        · rw [hv, List.getElem?_concat_length]
  · rintro ⟨vs, rfl, hvs, rfl⟩
    induction vs using List.reverseRecOn with
    | nil => exact .init
    | append_singleton vs v ih =>
        have hlen : (vs ++ [v]).length = vs.length + 1 := List.length_append
        rw [hlen] at hvs ⊢
        rw [feed_snoc]
        refine .next (ih (fun k hk => ?_)) ?_
        · rw [hvs k (Nat.lt_succ_of_lt hk), List.getElem?_append_left hk]
        · rw [hvs vs.length (Nat.lt_succ_self _), List.getElem?_concat_length]

/-! ## Histories

A finite log has a last entry that can be fed: up to there, it is a list. -/

/-- **A finite log has a last entry that can be fed.** -/
theorem exists_last {B : ℕ} (hB : ∀ n, B ≤ n → d (n + 1) = none) (h : M.Reaches d n s) :
    ∃ n' s', M.Reaches d n' s' ∧ d (n' + 1) = none := by
  induction hk : B - n generalizing n s with
  | zero => exact ⟨n, s, h, hB n (Nat.sub_eq_zero_iff_le.mp hk)⟩
  | succ k ih =>
      cases hd : d (n + 1) with
      | none => exact ⟨n, s, h, hd⟩
      | some v => exact ih (h.next hd) (by omega)

/-- **One history**: of a finite log there is a list of entries such that whatever feeds on the log has
been fed with a prefix of the list, and every answer is one to an entry of the list. -/
theorem exists_history {B : ℕ} (hB : ∀ n, B ≤ n → d (n + 1) = none) :
    ∃ vs : List ν, (∀ k < vs.length, d (k + 1) = vs[k]?) ∧
      (∀ n s, M.Reaches d n s → n ≤ vs.length ∧ s = M.feed (vs.take n)) ∧
      ∀ n v r, M.Yields d n v r → ∃ k, n = k + 1 ∧ vs[k]? = some v ∧
        r = (M.apply (M.feed (vs.take k)) v).1 := by
  obtain ⟨N, s, hN, hnone⟩ := exists_last (M := M) hB .init
  obtain ⟨vs, rfl, hvs, -⟩ := reaches_iff.mp hN
  have hfed : ∀ n s, M.Reaches d n s → n ≤ vs.length ∧ s = M.feed (vs.take n) := by
    intro n s h
    have hle : n ≤ vs.length := by
      by_contra hlt
      obtain ⟨v, hv⟩ := h.decided (Nat.le_add_left 1 vs.length) (Nat.lt_of_not_le hlt)
      rw [hnone] at hv
      cases hv
    refine ⟨hle, h.unique (reaches_iff.mpr ⟨vs.take n, List.length_take_of_le hle, ?_, rfl⟩) (.refl d)⟩
    intro k hk
    rw [hvs k (hk.trans_le hle), List.getElem?_take_of_lt hk]
  refine ⟨vs, hvs, hfed, fun n v r h => ?_⟩
  cases h with
  | @mk n s v h hv =>
      obtain ⟨hlt, -⟩ := hfed _ _ (h.next hv)
      exact ⟨n, rfl, by rw [← hvs n hlt]; exact hv, by rw [(hfed n s h).2]⟩

theorem Yields.mono (h : M.Yields d n v r) (hd : Grows d d') : M.Yields d' n v r := by
  cases h with
  | mk h hv => exact .mk (h.mono hd) (hd _ _ hv)

theorem Yields.decided (h : M.Yields d n v r) : d n = some v := by
  cases h with
  | mk _ hv => exact hv

/-- An entry that has been answered has been fed. -/
theorem Yields.reaches (h : M.Yields d n v r) : 1 ≤ n ∧ ∃ s, M.Reaches d n s := by
  cases h with
  | mk h hv => exact ⟨Nat.le_add_left 1 _, _, h.next hv⟩

end Machine

/-! ## Replicated machines

The log, the replicas and the answers given make one state machine, in which the log grows and each
replica goes on by itself. -/

/-- **A replicated machine**: a log, replicas that have been fed with its first entries, and answers
that have been given. -/
structure Replicated (M : Machine σ ν ρ) (ι : Type*) where
  decided : ℕ → Option ν
  /-- How far a replica has come, and its state. -/
  replica : ι → Option (ℕ × σ)
  /-- The numbers of entries, the entries and the answers to them. -/
  told : Set (ℕ × ν × ρ)
  reaches : ∀ i n s, replica i = some (n, s) → M.Reaches decided n s
  truthful : ∀ n v r, (n, v, r) ∈ told → M.Yields decided n v r

namespace Replicated

variable {M : Machine σ ν ρ}

/-- Nothing is decided, and all replicas are at the start. -/
def idle (M : Machine σ ν ρ) (here : ι → Bool) : Replicated M ι where
  decided _ := none
  replica i := if here i then some (0, M.init) else none
  told := ∅
  reaches i n s h := by
    split at h
    · obtain ⟨rfl, rfl⟩ := Prod.mk.inj (Option.some.inj h)
      exact .init
    · cases h
  truthful _ _ _ h := h.elim

/-- **What a replicated machine may do**: decide entries, have a replica go on, and give answers. -/
inductive Step (x y : Replicated M ι) : Prop
  | decide (hgrows : Grows x.decided y.decided) (hreplica : y.replica = x.replica)
      (htold : y.told = x.told)
  | advance {i : ι} {n n' : ℕ} {s s' : σ} (hat : x.replica i = some (n, s)) (hon : n ≤ n')
      (hnow : y.replica i = some (n', s')) (hothers : ∀ j, j ≠ i → y.replica j = x.replica j)
      (hdecided : y.decided = x.decided) (htold : y.told = x.told)
  | tell (htold : x.told ⊆ y.told) (hdecided : y.decided = x.decided)
      (hreplica : y.replica = x.replica)

/-- A run of a replicated machine. -/
def Run : Replicated M ι → Replicated M ι → Prop := Relation.ReflTransGen Step

variable {x y : Replicated M ι}

theorem Step.grows (h : Step x y) : Grows x.decided y.decided := by
  cases h with
  | decide hgrows _ _ => exact hgrows
  | advance _ _ _ _ hdecided _ => rw [hdecided]; exact .refl _
  | tell _ hdecided _ => rw [hdecided]; exact .refl _

/-- **Decisions are final.** -/
theorem Run.grows (h : Run x y) : Grows x.decided y.decided := by
  induction h with
  | refl => exact .refl _
  | tail _ hstep ih => exact ih.trans hstep.grows

/-- **Growth is a run**, if at most one replica goes on. -/
theorem run_of_grows (hgrows : Grows x.decided y.decided) (htold : x.told ⊆ y.told)
    (hmoves : y.replica = x.replica ∨ ∃ i n n' s s', x.replica i = some (n, s) ∧ n ≤ n' ∧
      y.replica i = some (n', s') ∧ ∀ j, j ≠ i → y.replica j = x.replica j) : Run x y := by
  let decided : Replicated M ι :=
    { x with
      decided := y.decided
      reaches := fun i n s h => (x.reaches i n s h).mono hgrows
      truthful := fun n v r h => (x.truthful n v r h).mono hgrows }
  let moved : Replicated M ι := { decided with replica := y.replica, reaches := y.reaches }
  have hdecide : Run x decided := .single (.decide hgrows rfl rfl)
  have hmove : Run decided moved := by
    rcases hmoves with he | ⟨i, n, n', s, s', hat, hon, hnow, hothers⟩
    · exact .single (.decide (.refl _) he rfl)
    · exact .single (.advance hat hon hnow hothers rfl rfl)
  exact (hdecide.trans hmove).tail (.tell htold rfl rfl)

end Replicated

end Library
