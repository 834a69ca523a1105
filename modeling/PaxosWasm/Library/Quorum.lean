import PaxosWasm.Library.OrdMap

/-!
# Majorities and votes

A majority of a finite set of voters is a subset of more than half of them. Two majorities share a
voter, so where each voter votes for at most one value, at most one value is chosen by a majority.
-/

namespace Library

variable {ι ν : Type}

/-- `S` is more than half of `A`. -/
def Majority (A S : Finset ι) : Prop := S ⊆ A ∧ A.card < 2 * S.card

instance [DecidableEq ι] (A S : Finset ι) : Decidable (Majority A S) := inferInstanceAs (Decidable (_ ∧ _))

/-- A quorum of `⌊n/2⌋ + 1` voters is a majority. -/
theorem majority_of_card {A S : Finset ι} (hsub : S ⊆ A) (hcard : A.card / 2 + 1 ≤ S.card) :
    Majority A S :=
  ⟨hsub, by omega⟩

/-- **Two majorities share a voter.** -/
theorem Majority.exists_common [DecidableEq ι] {A S T : Finset ι} (hS : Majority A S) (hT : Majority A T) :
    ∃ i ∈ S, i ∈ T := by
  by_contra hno
  have hdisj : Disjoint S T := Finset.disjoint_left.mpr (fun i hi hi' => hno ⟨i, hi, hi'⟩)
  have hle : (S ∪ T).card ≤ A.card := Finset.card_le_card (Finset.union_subset hS.1 hT.1)
  rw [Finset.card_union_of_disjoint hdisj] at hle
  have := hS.2
  have := hT.2
  omega

/-- A majority of `A` votes for `v`. -/
def Chosen (A : Finset ι) (vote : ι → ν → Prop) (v : ν) : Prop :=
  ∃ S, Majority A S ∧ ∀ i ∈ S, vote i v

theorem Chosen.mono {A : Finset ι} {vote vote' : ι → ν → Prop} {v : ν}
    (h : ∀ i, vote i v → vote' i v) : Chosen A vote v → Chosen A vote' v
  | ⟨S, hS, hv⟩ => ⟨S, hS, fun i hi => h i (hv i hi)⟩

/-- What is chosen has a voter. -/
theorem Chosen.exists_voter {A : Finset ι} {vote : ι → ν → Prop} {v : ν} (h : Chosen A vote v) :
    ∃ i ∈ A, vote i v := by
  obtain ⟨S, ⟨hsub, hcard⟩, hvotes⟩ := h
  obtain ⟨i, hi⟩ : S.Nonempty := Finset.card_pos.mp (by omega)
  exact ⟨i, hsub hi, hvotes i hi⟩

/-- A majority votes for `v` if and only if the voters for `v` are one. -/
theorem chosen_iff_card {A : Finset ι} {vote : ι → ν → Prop} {v : ν} [DecidablePred (vote · v)] :
    Chosen A vote v ↔ A.card < 2 * (A.filter (vote · v)).card := by
  constructor
  · rintro ⟨S, ⟨hsub, hcard⟩, hvotes⟩
    have hle : S.card ≤ (A.filter (vote · v)).card :=
      Finset.card_le_card (fun i hi => Finset.mem_filter.mpr ⟨hsub hi, hvotes i hi⟩)
    omega
  · exact fun h => ⟨_, ⟨Finset.filter_subset _ A, h⟩, fun i hi => (Finset.mem_filter.mp hi).2⟩

instance {A : Finset ι} {vote : ι → ν → Prop} {v : ν} [DecidablePred (vote · v)] :
    Decidable (Chosen A vote v) :=
  decidable_of_iff _ chosen_iff_card.symm

/-- **At most one value is chosen** where every voter votes for at most one. -/
theorem Chosen.unique [DecidableEq ι] {A : Finset ι} {vote : ι → ν → Prop} {v w : ν}
    (single : ∀ i ∈ A, vote i v → vote i w → v = w)
    (hv : Chosen A vote v) (hw : Chosen A vote w) : v = w := by
  obtain ⟨S, hS, hSv⟩ := hv
  obtain ⟨T, hT, hTw⟩ := hw
  obtain ⟨i, hiS, hiT⟩ := hS.exists_common hT
  exact single i (hS.1 hiS) (hSv i hiS) (hTw i hiT)

/-! ## Counting

Votes are counted value by value, and by voters where each voter has one vote. -/

/-- How many of the votes are for each of the values. -/
def tally [DecidableEq ν] (votes : List ν) : AList (fun _ : ν => Nat) :=
  votes.foldl (fun counts v => counts.insert v ((counts.lookup v).getD 0 + 1)) ∅

theorem tally_snoc [DecidableEq ν] (votes : List ν) (v : ν) :
    tally (votes ++ [v]) =
      (tally votes).insert v (((tally votes).lookup v).getD 0 + 1) := by
  rw [tally, List.foldl_append]
  rfl

theorem lookup_tally [DecidableEq ν] (votes : List ν) (v : ν) :
    (tally votes).lookup v = if v ∈ votes then some (votes.count v) else none := by
  induction votes using List.reverseRecOn with
  | nil => rfl
  | append_singleton votes w ih =>
      rw [tally_snoc]
      by_cases hv : v = w
      · subst hv
        rw [AList.lookup_insert, ih]
        by_cases hmem : v ∈ votes
        · simp [hmem]
        · simp [hmem, List.count_eq_zero_of_not_mem hmem]
      · rw [AList.lookup_insert_ne hv, ih]
        simp [hv, Ne.symm hv]

/-- **The entries of a tally** are the values voted for, with the number of their votes. -/
theorem mem_entries_tally [DecidableEq ν] {votes : List ν} {v : ν} {n : Nat} :
    ⟨v, n⟩ ∈ (tally votes).entries ↔ v ∈ votes ∧ votes.count v = n := by
  rw [← AList.mem_lookup_iff, lookup_tally]
  split <;> simp_all

/-- **Votes counted by voter.** The entries of a map that meet a condition belong to as many
different keys. -/
theorem OrdMap.exists_voters {κ α : Type} [LinearOrder κ] (m : OrdMap κ α) (p : α → Bool) :
    ∃ S : Finset κ, S.card = (m.values.filter p).length ∧
      ∀ k ∈ S, ∃ v, m.get? k = some v ∧ p v = true := by
  have hnodup : ((m.entries.filter (fun e => p e.2)).map Prod.fst).Nodup :=
    m.keys_nodup.sublist (List.filter_sublist.map Prod.fst)
  refine ⟨((m.entries.filter (fun e => p e.2)).map Prod.fst).toFinset, ?_, fun k hk => ?_⟩
  · rw [List.toFinset_card_of_nodup hnodup, List.length_map, OrdMap.values, List.filter_map,
      List.length_map]
    rfl
  · obtain ⟨e, he, rfl⟩ := List.mem_map.mp (List.mem_toFinset.mp hk)
    obtain ⟨hmem, hp⟩ := List.mem_filter.mp he
    exact ⟨e.2, OrdMap.mem_entries.mpr hmem, hp⟩

/-- Different keys of entries that meet a condition are counted as so many. -/
theorem OrdMap.card_voters_le {κ α : Type} [LinearOrder κ] (m : OrdMap κ α) (p : α → Bool)
    {S : Finset κ} (hS : ∀ k ∈ S, ∃ v, m.get? k = some v ∧ p v = true) :
    S.card ≤ (m.values.filter p).length := by
  have hsub : S ⊆ ((m.entries.filter (fun e => p e.2)).map Prod.fst).toFinset := by
    intro k hk
    obtain ⟨v, hv, hp⟩ := hS k hk
    refine List.mem_toFinset.mpr (List.mem_map.mpr ⟨(k, v), ?_, rfl⟩)
    exact List.mem_filter.mpr ⟨OrdMap.mem_entries.mp hv, hp⟩
  calc S.card ≤ ((m.entries.filter (fun e => p e.2)).map Prod.fst).toFinset.card :=
        Finset.card_le_card hsub
    _ ≤ ((m.entries.filter (fun e => p e.2)).map Prod.fst).length := List.toFinset_card_le _
    _ = (m.values.filter p).length := by
        rw [List.length_map, OrdMap.values, List.filter_map, List.length_map]
        rfl

end Library
