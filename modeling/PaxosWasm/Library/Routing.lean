import Mathlib.Data.List.Induction
import Mathlib.Logic.Function.Basic

/-!
# Routing answers

A server takes requests from channels and answers them, under keys that several channels may use. It
keeps a map that knows for a key the channel to be answered. If whatever is taken is entered, and every
answer goes to the channel that the map knows and takes the key out, then answers go to whom they are due.
-/

namespace Library

variable {κ χ α : Type}

/-! ## Requests and answers -/

/-- What a server does under a key: it takes a request from a channel, or answers to one. -/
inductive Traffic (κ χ : Type) where
  | taken (chan : χ) (key : κ)
  | answered (chan : χ) (key : κ)
deriving DecidableEq

namespace Traffic

def key : Traffic κ χ → κ
  | taken _ k => k
  | answered _ k => k

@[simp] theorem key_taken (chan : χ) (k : κ) : (taken chan k).key = k := rfl

@[simp] theorem key_answered (chan : χ) (k : κ) : (answered chan k).key = k := rfl

variable [DecidableEq κ]

/-- The last that a server has done under a key. -/
def last (k : κ) (log : List (Traffic κ χ)) : Option (Traffic κ χ) :=
  (log.filter (fun e => decide (e.key = k))).getLast?

theorem last_snoc (k : κ) (log : List (Traffic κ χ)) (e : Traffic κ χ) :
    last k (log ++ [e]) = if e.key = k then some e else last k log := by
  unfold last
  rw [List.filter_append]
  by_cases hk : e.key = k
  · simp [hk]
  · simp [hk]

/-! ## Routed answers

It is enough to know the last thing done under a key. -/

/-- **Every answer goes to the channel that was the last to ask**, and has not been answered since. -/
def Routed (log : List (Traffic κ χ)) : Prop :=
  ∀ l chan k, l ++ [answered chan k] <+: log → last k l = some (taken chan k)

theorem routed_nil : Routed ([] : List (Traffic κ χ)) := by
  intro l chan k h
  have hnil := List.prefix_nil.mp h
  simp at hnil

variable {log : List (Traffic κ χ)} {e : Traffic κ χ} {chan : χ} {k : κ}

theorem Routed.snoc (h : Routed log)
    (he : ∀ chan k, e = answered chan k → last k log = some (taken chan k)) : Routed (log ++ [e]) := by
  intro l chan k hl
  rcases List.prefix_concat_iff.mp hl with hl | hl
  · obtain ⟨rfl, he'⟩ := List.append_inj' hl rfl
    exact he chan k (List.cons.inj he').1.symm
  · exact h l chan k hl

theorem Routed.take (h : Routed log) (chan : χ) (k : κ) : Routed (log ++ [taken chan k]) := by
  apply h.snoc
  intro chan' k' he
  cases he

theorem Routed.answer (h : Routed log) (hlast : last k log = some (taken chan k)) :
    Routed (log ++ [answered chan k]) := by
  apply h.snoc
  intro chan' k' he
  cases he
  exact hlast

theorem Routed.init (h : Routed (log ++ [e])) : Routed log :=
  fun l chan k hl => h l chan k (hl.trans (List.prefix_append log [e]))

/-- **A channel gets no more answers under a key than it has asked for**: one less as long as its last
request is open. -/
theorem Routed.count_le [DecidableEq χ] (h : Routed log) (chan : χ) (k : κ) :
    log.count (answered chan k) + (if last k log = some (taken chan k) then 1 else 0) ≤
      log.count (taken chan k) := by
  induction log using List.reverseRecOn with
  | nil => simp [last]
  | append_singleton log e ih =>
      -- the open request is what the next answer is counted against
      have hbefore := ih h.init
      rw [last_snoc, List.count_append, List.count_append]
      cases e with
      | taken c k' =>
          by_cases hk : k' = k
          · subst hk
            by_cases hc : c = chan
            · subst hc
              simp only [key_taken, if_true, List.count_singleton_self]
              have hno : List.count (answered c k') [taken c k'] = 0 := by simp
              omega
            · simp [hc]
              omega
          · simpa [hk] using hbefore
      | answered c k' =>
          have hlast := h log c k' (List.prefix_refl _)
          by_cases hk : k' = k
          · subst hk
            rw [hlast] at hbefore
            by_cases hc : c = chan
            · subst hc
              simpa using hbefore
            · simpa [hc] using hbefore
          · simpa [hk] using hbefore

/-! ## The map

A server keeps a channel for each key under which something is due, and has to forget the channels that
are closed. -/

/-- **What the map knows**: channels that are due an answer, and of the live ones all. -/
structure Tracks (live : χ → Prop) (m : κ → Option χ) (log : List (Traffic κ χ)) : Prop where
  due : ∀ k chan, m k = some chan → last k log = some (taken chan k)
  all : ∀ k chan, live chan → last k log = some (taken chan k) → m k = some chan

variable {live live' : χ → Prop} {m : κ → Option χ}

theorem tracks_nil (live : χ → Prop) : Tracks live (fun _ => none) ([] : List (Traffic κ χ)) := by
  constructor
  · intro k chan h
    cases h
  · intro k chan _ h
    cases h

theorem Tracks.take (h : Tracks live m log) (chan : χ) (k : κ) :
    Tracks live (Function.update m k (some chan)) (log ++ [taken chan k]) := by
  constructor
  · intro k' c hk
    rw [last_snoc, key_taken]
    by_cases he : k' = k
    · subst he
      rw [Function.update_self] at hk
      rw [Option.some.inj hk]
      exact if_pos rfl
    · rw [Function.update_of_ne he] at hk
      rw [if_neg (Ne.symm he)]
      exact h.due k' c hk
  · intro k' c hlive hlast
    rw [last_snoc, key_taken] at hlast
    by_cases he : k' = k
    · subst he
      rw [if_pos rfl] at hlast
      cases hlast
      exact Function.update_self ..
    · rw [if_neg (Ne.symm he)] at hlast
      rw [Function.update_of_ne he]
      exact h.all k' c hlive hlast

/-- An answer takes the key out of the map. -/
theorem Tracks.answer (h : Tracks live m log) (chan : χ) (k : κ) :
    Tracks live (Function.update m k none) (log ++ [answered chan k]) := by
  constructor
  · intro k' c hk
    rw [last_snoc, key_answered]
    by_cases he : k' = k
    · subst he
      rw [Function.update_self] at hk
      cases hk
    · rw [Function.update_of_ne he] at hk
      rw [if_neg (Ne.symm he)]
      exact h.due k' c hk
  · intro k' c hlive hlast
    rw [last_snoc, key_answered] at hlast
    by_cases he : k' = k
    · subst he
      rw [if_pos rfl] at hlast
      cases hlast
    · rw [if_neg (Ne.symm he)] at hlast
      rw [Function.update_of_ne he]
      exact h.all k' c hlive hlast

/-- The map may forget channels, as long as those are not live any more. -/
theorem Tracks.forget (h : Tracks live m log) {m' : κ → Option χ}
    (hsub : ∀ k chan, m' k = some chan → m k = some chan)
    (hlive : ∀ chan, live' chan → live chan)
    (hkeeps : ∀ k chan, live' chan → m k = some chan → m' k = some chan) : Tracks live' m' log := by
  constructor
  · intro k chan hk
    exact h.due k chan (hsub k chan hk)
  · intro k chan hchan hlast
    exact hkeeps k chan hchan (h.all k chan (hlive chan hchan) hlast)

/-- **Requests that are taken one after the other.** -/
theorem Tracks.takeEach (f : (κ → Option χ) → α → κ → Option χ) (chan : α → χ) (key : α → κ)
    (hf : ∀ m x, f m x = Function.update m (key x) (some (chan x))) (xs : List α)
    (h : Tracks live m log) (hr : Routed log) :
    Tracks live (xs.foldl f m) (log ++ xs.map (fun x => taken (chan x) (key x))) ∧
      Routed (log ++ xs.map (fun x => taken (chan x) (key x))) ∧
      ∀ k c, xs.foldl f m k = some c → m k = some c ∨ ∃ x ∈ xs, chan x = c := by
  induction xs generalizing m log with
  | nil =>
      rw [List.map_nil, List.append_nil]
      exact ⟨h, hr, fun _ _ hk => Or.inl hk⟩
  | cons x xs ih =>
      rw [List.foldl_cons, hf, List.map_cons, List.append_cons]
      obtain ⟨htracks, hrouted, hfrom⟩ := ih (h.take (chan x) (key x)) (hr.take (chan x) (key x))
      refine ⟨htracks, hrouted, fun k c hk => ?_⟩
      rcases hfrom k c hk with hold | ⟨y, hy, hc⟩
      · by_cases he : k = key x
        · subst he
          rw [Function.update_self] at hold
          exact Or.inr ⟨x, List.mem_cons_self, Option.some.inj hold⟩
        · rw [Function.update_of_ne he] at hold
          exact Or.inl hold
      · exact Or.inr ⟨y, List.mem_cons_of_mem x hy, hc⟩

end Traffic

end Library
