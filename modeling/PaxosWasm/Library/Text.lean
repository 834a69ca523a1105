import Mathlib

/-!
# Splitting and joining text

Strings cut at a character or at the occurrences of a pattern, prefixes and suffixes stripped,
fields `name:value` looked up in a list, numbers read back. Each cut comes with the law that it
undoes the joining it is meant to undo: parts without the separator survive `join` and `split`, and
a pattern that ends in a character found nowhere before is cut at its first occurrence.
-/

namespace Library

namespace Text

/-! ## Cutting at a character

`split` and `join` undo each other on parts without the separator. -/

/-- The parts of `s` between the occurrences of `sep`; one part where there is none. -/
def split (s : String) (sep : Char) : List String := (s.toList.splitOn sep).map String.ofList

/-- The parts, with `sep` between them. -/
def join (sep : Char) (parts : List String) : String :=
  String.ofList ([sep].intercalate (parts.map String.toList))

/-- No `c` in `s`. -/
abbrev Free (c : Char) (s : String) : Prop := c ∉ s.toList

theorem toList_join (sep : Char) (parts : List String) :
    (join sep parts).toList = [sep].intercalate (parts.map String.toList) :=
  String.toList_ofList

theorem join_singleton (sep : Char) (s : String) : join sep [s] = s := by
  simp [join]

theorem join_cons (sep : Char) (s : String) {parts : List String} (hne : parts ≠ []) :
    join sep (s :: parts) = s ++ String.singleton sep ++ join sep parts := by
  obtain ⟨t, ts, rfl⟩ := List.exists_cons_of_ne_nil hne
  apply String.toList_inj.mp
  simp [toList_join]

theorem split_of_free {sep : Char} {s : String} (h : Free sep s) : split s sep = [s] := by
  rw [split, List.splitOn_eq_singleton h, List.map_singleton, String.ofList_toList]

/-- A text is cut at every separator, so also at any given one. -/
theorem split_append (sep : Char) (s t : String) :
    split (s ++ String.singleton sep ++ t) sep = split s sep ++ split t sep := by
  simp only [split, String.toList_append, String.toList_singleton, List.append_assoc,
    List.singleton_append, List.splitOn_append_cons_self, List.map_append]

/-- **A joined text is cut where its parts are**, and between them. -/
theorem split_join {sep : Char} {parts : List String} (hne : parts ≠ []) :
    split (join sep parts) sep = parts.flatMap (fun part => split part sep) := by
  induction parts with
  | nil => exact absurd rfl hne
  | cons s parts ih =>
      by_cases hnil : parts = []
      · subst hnil
        simp [join_singleton]
      · rw [join_cons sep s hnil, split_append, ih hnil, List.flatMap_cons]

/-- **Parts without the separator survive joining and splitting.** -/
theorem split_join_of_free {sep : Char} {parts : List String} (hfree : ∀ s ∈ parts, Free sep s)
    (hne : parts ≠ []) : split (join sep parts) sep = parts := by
  rw [split_join hne, List.flatMap_congr (fun s hs => split_of_free (hfree s hs))]
  exact List.flatMap_singleton' parts

theorem notMem_of_mem_splitOn {α : Type} [DecidableEq α] {a : α} {l cs : List α}
    (h : cs ∈ l.splitOn a) : a ∉ cs := by
  induction l generalizing cs with
  | nil =>
      simp at h
      subst h
      exact List.not_mem_nil
  | cons x l ih =>
      rw [List.splitOn_cons_eq_if_modifyHead] at h
      split at h
      · rcases List.mem_cons.mp h with rfl | h
        · exact List.not_mem_nil
        · exact ih h
      · next hx =>
        obtain ⟨d, ds, hds⟩ := List.exists_cons_of_ne_nil (List.splitOn_ne_nil a l)
        rw [hds, List.modifyHead_cons] at h
        rcases List.mem_cons.mp h with rfl | h
        · intro hmem
          rcases List.mem_cons.mp hmem with rfl | hmem
          · exact hx (beq_self_eq_true a)
          · exact ih (by rw [hds]; exact List.mem_cons_self ..) hmem
        · exact ih (by rw [hds]; exact List.mem_cons_of_mem _ h)

/-- No part contains the separator. -/
theorem free_of_mem_split {sep : Char} {s part : String} (h : part ∈ split s sep) : Free sep part := by
  obtain ⟨cs, hcs, rfl⟩ := List.mem_map.mp h
  rw [Free, String.toList_ofList]
  exact notMem_of_mem_splitOn hcs

/-- A character of the joined text is the separator or one of the parts'. -/
theorem mem_join {sep c : Char} {parts : List String} (h : c ∈ (join sep parts).toList) :
    c = sep ∨ ∃ s ∈ parts, c ∈ s.toList := by
  induction parts with
  | nil => simp [join] at h
  | cons s parts ih =>
      by_cases hne : parts = []
      · subst hne
        rw [join_singleton] at h
        exact Or.inr ⟨s, List.mem_cons_self .., h⟩
      · rw [join_cons sep s hne] at h
        simp only [String.toList_append, String.toList_singleton, List.mem_append,
          List.mem_singleton] at h
        rcases h with (h | h) | h
        · exact Or.inr ⟨s, List.mem_cons_self .., h⟩
        · exact Or.inl h
        · rcases ih h with h | ⟨t, ht, hc⟩
          · exact Or.inl h
          · exact Or.inr ⟨t, List.mem_cons_of_mem _ ht, hc⟩

theorem free_join {sep c : Char} {parts : List String} (hsep : c ≠ sep)
    (hfree : ∀ s ∈ parts, Free c s) : Free c (join sep parts) := by
  intro h
  rcases mem_join h with h | ⟨s, hs, hc⟩
  · exact hsep h
  · exact hfree s hs hc

/-! ## Cutting at a pattern

The first occurrence counts, and the search goes on behind it. -/

/-- What stands before and after the first occurrence of `pat`. -/
def cut {α : Type} [DecidableEq α] (pat : List α) : List α → Option (List α × List α)
  | [] => if pat = [] then some ([], []) else none
  | c :: cs =>
      if pat <+: c :: cs then some ([], (c :: cs).drop pat.length)
      else (cut pat cs).map (fun x => (c :: x.1, x.2))

/-- The parts between the occurrences of `pat`, for a `pat` that is not empty. -/
def cutAll {α : Type} [DecidableEq α] (pat : List α) : Nat → List α → List (List α)
  | 0, s => [s]
  | fuel + 1, s =>
      match cut pat s with
      | none => [s]
      | some (before, after) => before :: cutAll pat fuel after

section Cut

variable {α : Type} [DecidableEq α] {pat s t a b : List α}

theorem eq_of_cut (h : cut pat s = some (a, b)) : s = a ++ pat ++ b := by
  induction s generalizing a with
  | nil =>
      unfold cut at h
      split at h
      · next hpat =>
        obtain ⟨rfl, rfl⟩ := Prod.mk.inj (Option.some.inj h)
        simp [hpat]
      · cases h
  | cons c cs ih =>
      unfold cut at h
      split at h
      · next hpre =>
        obtain ⟨rfl, rfl⟩ := Prod.mk.inj (Option.some.inj h)
        exact (List.prefix_iff_eq_append.mp hpre).symm
      · obtain ⟨⟨a', b'⟩, hcut, he⟩ := Option.map_eq_some_iff.mp h
        obtain ⟨rfl, rfl⟩ := Prod.mk.inj he
        rw [ih hcut]
        rfl

/-- There is nothing to cut exactly if the pattern does not occur. -/
theorem cut_eq_none_iff : cut pat s = none ↔ ¬ pat <:+: s := by
  induction s with
  | nil => simp [cut]
  | cons c cs ih =>
      unfold cut
      rw [List.infix_cons_iff]
      split
      · next hpre => simp [hpre]
      · next hpre => simp [hpre, ih]

theorem cut_eq_none_of_notMem {x : α} (hx : x ∈ pat) (hs : x ∉ s) : cut pat s = none :=
  cut_eq_none_iff.mpr (fun h => hs (h.subset hx))

/-- What follows does not move the first occurrence. -/
theorem cut_append_right (h : cut pat s = some (a, b)) (t : List α) :
    cut pat (s ++ t) = some (a, b ++ t) := by
  induction s generalizing a with
  | nil =>
      unfold cut at h
      split at h
      · next hpat =>
        obtain ⟨rfl, rfl⟩ := Prod.mk.inj (Option.some.inj h)
        subst hpat
        cases t <;> simp [cut]
      · cases h
  | cons c cs ih =>
      rw [List.cons_append]
      unfold cut at h ⊢
      split at h
      · next hpre =>
        obtain ⟨rfl, rfl⟩ := Prod.mk.inj (Option.some.inj h)
        have hpre' : pat <+: c :: (cs ++ t) := hpre.trans (List.prefix_append (c :: cs) t)
        rw [if_pos hpre', ← List.cons_append, List.drop_append_of_le_length hpre.length_le]
      · next hpre =>
        obtain ⟨⟨a', b'⟩, hcut, he⟩ := Option.map_eq_some_iff.mp h
        obtain ⟨rfl, rfl⟩ := Prod.mk.inj he
        have hpre' : ¬ pat <+: c :: (cs ++ t) := by
          intro hpre'
          -- the pattern fits into `cs`, so what it is a prefix of reaches no further
          have hlen := congrArg List.length (eq_of_cut hcut)
          simp at hlen
          refine hpre (List.prefix_of_prefix_length_le hpre' (List.prefix_append (c :: cs) t) ?_)
          simp
          omega
        rw [if_neg hpre', ih hcut]
        rfl

/-- **A pattern that ends in a character found nowhere before** is cut at its first occurrence. -/
theorem cut_append {q : List α} {x : α} (hq : x ∉ q) (ha : x ∉ a) (b : List α) :
    cut (q ++ [x]) (a ++ (q ++ [x]) ++ b) = some (a, b) := by
  induction a with
  | nil =>
      have hpre : q ++ [x] <+: q ++ [x] ++ b := List.prefix_append _ _
      cases q with
      | nil => simp [cut]
      | cons c q =>
          show cut (c :: q ++ [x]) (c :: (q ++ [x] ++ b)) = _
          rw [cut, if_pos (by simp)]
          simp
  | cons c a ih =>
      have hpre : ¬ q ++ [x] <+: c :: (a ++ (q ++ [x]) ++ b) := by
        intro hpre
        -- the last character of the pattern would stand among `c :: a` and `q`
        have hget := hpre.getElem (i := q.length) (by simp)
        rw [List.getElem_append_right (le_refl _)] at hget
        have hmem : x ∈ c :: (a ++ q) := by
          have hlt : q.length < (c :: (a ++ q)).length := by simp
          have hsame : c :: (a ++ (q ++ [x]) ++ b) = c :: (a ++ q) ++ ([x] ++ b) := by simp
          simp only [hsame, List.getElem_append_left hlt] at hget
          simp only [Nat.sub_self, List.getElem_cons_zero] at hget
          rw [hget]
          exact List.getElem_mem hlt
        rcases List.mem_cons.mp hmem with rfl | hmem
        · exact ha (List.mem_cons_self ..)
        · rcases List.mem_append.mp hmem with hmem | hmem
          · exact ha (List.mem_cons_of_mem _ hmem)
          · exact hq hmem
      rw [List.cons_append, List.cons_append, cut, if_neg hpre, ih (fun h => ha (List.mem_cons_of_mem _ h))]
      rfl

theorem length_lt_of_cut (hpat : pat ≠ []) (h : cut pat s = some (a, b)) : b.length < s.length := by
  have hpos : 0 < pat.length := List.length_pos_iff.mpr hpat
  rw [eq_of_cut h]
  simp
  omega

/-- Enough fuel is the length of what is cut. -/
theorem cutAll_fuel (hpat : pat ≠ []) {fuel : Nat} (h : s.length ≤ fuel) :
    cutAll pat fuel s = cutAll pat s.length s := by
  induction fuel using Nat.strong_induction_on generalizing s with
  | _ fuel ih =>
      cases s with
      | nil =>
          have hcut : cut pat ([] : List α) = none := by simp [cut, hpat]
          cases fuel <;> simp [cutAll, hcut]
      | cons c cs =>
          cases fuel with
          | zero => simp at h
          | succ fuel =>
              rw [cutAll, List.length_cons, cutAll]
              cases hcut : cut pat (c :: cs) with
              | none => rfl
              | some x =>
                  obtain ⟨a, b⟩ := x
                  have hlt := length_lt_of_cut hpat hcut
                  simp at h hlt
                  dsimp only
                  rw [ih fuel (Nat.lt_succ_self _) (by omega)]
                  by_cases hlen : cs.length = fuel
                  · rw [hlen, ih fuel (Nat.lt_succ_self _) (by omega)]
                  · rw [ih cs.length (by omega) (by omega)]

theorem cutAll_of_none (h : cut pat s = none) : cutAll pat s.length s = [s] := by
  cases s with
  | nil => rfl
  | cons c cs => rw [List.length_cons, cutAll, h]

theorem cutAll_of_some (hpat : pat ≠ []) (h : cut pat s = some (a, b)) :
    cutAll pat s.length s = a :: cutAll pat b.length b := by
  have hlt := length_lt_of_cut hpat h
  cases s with
  | nil => simp at hlt
  | cons c cs =>
      rw [List.length_cons, cutAll, h]
      dsimp only
      rw [cutAll_fuel hpat (by simp at hlt; omega)]

theorem length_cutAll_pos (hpat : pat ≠ []) : 0 < (cutAll pat s.length s).length := by
  cases h : cut pat s with
  | none => simp [cutAll_of_none h]
  | some x => simp [cutAll_of_some hpat (show cut pat s = some (x.1, x.2) from h)]

/-- There is one part exactly if the pattern does not occur. -/
theorem length_cutAll_eq_one (hpat : pat ≠ []) :
    (cutAll pat s.length s).length = 1 ↔ cut pat s = none := by
  cases h : cut pat s with
  | none => simp [cutAll_of_none h]
  | some x =>
      have hpos := length_cutAll_pos (s := x.2) hpat
      rw [cutAll_of_some hpat (show cut pat s = some (x.1, x.2) from h), List.length_cons]
      simp only [reduceCtorEq, iff_false]
      omega

/-- The pattern `[c, c]` after something that does not end in `c`. -/
theorem cut_append_pair {c : α} (hend : s.getLast? ≠ some c) (hcut : cut [c, c] s = none) (t : List α) :
    cut [c, c] (s ++ [c, c] ++ t) = some (s, t) := by
  induction s with
  | nil => simp [cut]
  | cons x s ih =>
      rw [cut_eq_none_iff, List.infix_cons_iff] at hcut
      have hpre : ¬ [c, c] <+: x :: (s ++ [c, c] ++ t) := by
        intro hpre
        obtain ⟨rfl, htail⟩ := List.cons_prefix_cons.mp hpre
        cases s with
        | nil => simp at hend
        | cons y s =>
            obtain ⟨hy, _⟩ := List.cons_prefix_cons.mp htail
            rw [← hy] at hcut
            exact hcut (Or.inl (by simp))
      have hend' : s.getLast? ≠ some c := by
        cases s with
        | nil => simp
        | cons y s => simpa using hend
      rw [List.cons_append, List.cons_append, cut, if_neg hpre,
        ih hend' (cut_eq_none_iff.mpr (fun h => hcut (Or.inr h)))]
      rfl

/-- **Two texts joined by the pattern `[c, c]`** are cut like each of them, unless the first ends in
`c`. -/
theorem cutAll_append_pair {c : α} (hend : s.getLast? ≠ some c) (t : List α) :
    cutAll [c, c] (s ++ [c, c] ++ t).length (s ++ [c, c] ++ t) =
      cutAll [c, c] s.length s ++ cutAll [c, c] t.length t := by
  have hpat : [c, c] ≠ [] := List.cons_ne_nil _ _
  induction hn : s.length using Nat.strong_induction_on generalizing s with
  | _ n ih =>
      subst hn
      cases hcut : cut [c, c] s with
      | none => rw [cutAll_of_some hpat (cut_append_pair hend hcut t), cutAll_of_none hcut]; rfl
      | some x =>
          obtain ⟨a, b⟩ := x
          have hcut' : cut [c, c] (s ++ [c, c] ++ t) = some (a, b ++ [c, c] ++ t) := by
            rw [List.append_assoc, cut_append_right hcut, List.append_assoc]
          have hb : b.getLast? ≠ some c := by
            rw [eq_of_cut hcut] at hend
            cases hlast : b.getLast? with
            | none =>
                obtain rfl := List.getLast?_eq_none_iff.mp hlast
                simp at hend
            | some d =>
                rw [List.getLast?_append, hlast] at hend
                simpa using hend
          rw [cutAll_of_some hpat hcut', cutAll_of_some hpat hcut,
            ih b.length (length_lt_of_cut hpat hcut) hb rfl, List.cons_append]

end Cut

/-- What stands before and after the first occurrence of `pat` in `s`. -/
def splitOnce (s pat : String) : Option (String × String) :=
  (cut pat.toList s.toList).map (fun x => (String.ofList x.1, String.ofList x.2))

/-- The parts of `s` between the occurrences of `pat`, none of which overlap. -/
def splitStr (s pat : String) : List String :=
  (cutAll pat.toList s.toList.length s.toList).map String.ofList

def stripPrefix (s pre : String) : Option String :=
  if pre.toList <+: s.toList then some (String.ofList (s.toList.drop pre.toList.length)) else none

def stripSuffix (s suf : String) : Option String :=
  if suf.toList <:+ s.toList then
    some (String.ofList (s.toList.take (s.toList.length - suf.toList.length)))
  else none

/-! ## Laws for strings

What cutting and stripping make of a text that has been put together. -/

theorem splitOnce_append {q a : String} {x : Char} (hq : Free x q) (ha : Free x a) (b : String) :
    splitOnce (a ++ (q ++ String.singleton x) ++ b) (q ++ String.singleton x) = some (a, b) := by
  simp only [splitOnce, String.toList_append, String.toList_singleton]
  rw [cut_append hq ha]
  simp

theorem splitOnce_eq_none {s pat : String} {x : Char} (hx : x ∈ pat.toList) (hs : Free x s) :
    splitOnce s pat = none := by
  rw [splitOnce, cut_eq_none_of_notMem hx hs]
  rfl

theorem stripPrefix_append (pre s : String) : stripPrefix (pre ++ s) pre = some s := by
  simp [stripPrefix]

theorem stripSuffix_append (s suf : String) : stripSuffix (s ++ suf) suf = some s := by
  simp [stripSuffix]

/-! ## Doubled characters

Where two separators stand side by side in a joined text, there is an empty part between them. -/

section Doubled

variable {α : Type} {c : α} {s t : List α}

/-- A doubled character does not reach into a text without it. -/
theorem infix_of_append_left (hs : c ∉ s) (h : [c, c] <:+: s ++ t) : [c, c] <:+: t := by
  induction s with
  | nil => exact h
  | cons x s ih =>
      rw [List.cons_append, List.infix_cons_iff] at h
      rcases h with h | h
      · obtain ⟨rfl, _⟩ := List.cons_prefix_cons.mp h
        exact absurd (List.mem_cons_self ..) hs
      · exact ih (fun hmem => hs (List.mem_cons_of_mem _ hmem)) h

theorem infix_of_append_right (ht : c ∉ t) (h : [c, c] <:+: s ++ t) : [c, c] <:+: s := by
  rw [← List.reverse_infix, List.reverse_append] at h
  rw [← List.reverse_infix]
  exact infix_of_append_left (by simpa using ht) h

/-- One separator alone is not doubled. -/
theorem not_infix_append_cons (hs : c ∉ s) (ht : ¬ [c, c] <:+: t) (hhead : t.head? ≠ some c) :
    ¬ [c, c] <:+: s ++ c :: t := by
  intro h
  have h' := infix_of_append_left hs h
  rw [List.infix_cons_iff] at h'
  rcases h' with h' | h'
  · obtain ⟨_, htail⟩ := List.cons_prefix_cons.mp h'
    obtain ⟨u, hu⟩ := htail
    rw [← hu] at hhead
    exact hhead rfl
  · exact ht h'

end Doubled

/-- **Joining parts that are not empty doubles no separator.** -/
theorem not_doubled_join {sep : Char} {parts : List String} (hfree : ∀ s ∈ parts, Free sep s)
    (hne : ∀ s ∈ parts, s ≠ "") :
    ¬ [sep, sep] <:+: (join sep parts).toList ∧ (join sep parts).toList.head? ≠ some sep := by
  induction parts with
  | nil => simp [join]
  | cons s parts ih =>
      obtain ⟨hbars, hhead⟩ := ih (fun t ht => hfree t (List.mem_cons_of_mem _ ht))
        (fun t ht => hne t (List.mem_cons_of_mem _ ht))
      have hs := hfree s (List.mem_cons_self ..)
      -- a part that is not empty begins with another character
      obtain ⟨x, xs, hx⟩ : ∃ x xs, s.toList = x :: xs :=
        List.exists_cons_of_ne_nil (fun hnil => hne s (List.mem_cons_self ..)
          (String.toList_inj.mp (hnil.trans (String.toList_empty).symm)))
      have hxsep : x ≠ sep := by
        rintro rfl
        exact hs (by rw [hx]; exact List.mem_cons_self ..)
      by_cases hnil : parts = []
      · subst hnil
        rw [join_singleton]
        refine ⟨fun h => hs (h.subset (List.mem_cons_self ..)), ?_⟩
        rw [hx]
        simpa using hxsep
      · rw [join_cons sep s hnil]
        simp only [String.toList_append, String.toList_singleton, List.append_assoc,
          List.singleton_append]
        refine ⟨not_infix_append_cons hs hbars hhead, ?_⟩
        rw [hx]
        simpa using hxsep

/-! ## Fields

A field has a name and a value, with a colon between them. Of two fields with one name the later one
counts. -/

/-- The field `name:value`. -/
def keyed (name value : String) : String := name ++ ":" ++ value

/-- The value of a field, if it has this name. -/
def value? (name part : String) : Option String :=
  match splitOnce part ":" with
  | some (key, value) => if key = name then some value else none
  | none => none

/-- The value of the last field with this name. -/
def field (name : String) (parts : List String) : Option String :=
  (parts.filterMap (value? name)).getLast?

theorem value?_keyed {key : String} (hkey : Free ':' key) (name value : String) :
    value? name (keyed key value) = if key = name then some value else none := by
  have h := splitOnce_append (q := "") (x := ':') List.not_mem_nil hkey value
  rw [String.empty_append] at h
  rw [value?, keyed, show ":" = String.singleton ':' from rfl, h]

/-- A field that is found reads as its name and its value. -/
theorem eq_keyed_of_value? {name part value : String} (h : value? name part = some value) :
    part = keyed name value := by
  unfold value? at h
  split at h
  · next key v hsplit =>
    split at h
    · next hkey =>
      obtain ⟨x, hcut, he⟩ := Option.map_eq_some_iff.mp hsplit
      obtain ⟨rfl, rfl⟩ := Prod.mk.inj he
      have hpart := eq_of_cut (show cut ":".toList part.toList = some (x.1, x.2) from hcut)
      rw [← Option.some.inj h, ← hkey]
      apply String.toList_inj.mp
      simp [keyed, hpart]
    · cases h
  · cases h

theorem value?_of_free {name part : String} (h : Free ':' part) : value? name part = none := by
  rw [value?, splitOnce_eq_none (x := ':') (by decide) h]

theorem field_nil (name : String) : field name [] = none := rfl

/-- Of two fields of one name the later one counts. -/
theorem field_append (name : String) (parts parts' : List String) :
    field name (parts ++ parts') = (field name parts').or (field name parts) := by
  rw [field, List.filterMap_append, List.getLast?_append]
  rfl

theorem field_cons (name part : String) (parts : List String) :
    field name (part :: parts) = (field name parts).or (value? name part) := by
  rw [← List.singleton_append, field_append]
  congr 1
  rw [field]
  cases h : value? name part with
  | none => rw [List.filterMap_cons_none h]; rfl
  | some v => rw [List.filterMap_cons_some h]; rfl

/-- A value free of `c` in a field whose name is. -/
theorem free_keyed {c : Char} {name value : String} (hc : c ≠ ':') (hname : Free c name)
    (hvalue : Free c value) : Free c (keyed name value) := by
  simp [Free, keyed] at hname hvalue ⊢
  exact ⟨hname, hc, hvalue⟩

/-! ## Numbers

A number is read back from its digits, if it is below the bound of its type. A plus sign
in front is allowed. -/

/-- A number in decimal digits, with or without a plus sign, below `bound`. -/
def parseNat (bound : Nat) (s : String) : Option Nat :=
  let digits := match s.toList with
    | '+' :: digits => digits
    | digits => digits
  if digits ≠ [] ∧ digits.all Char.isDigit ∧ Nat.ofDigitChars 10 digits 0 < bound then
    some (Nat.ofDigitChars 10 digits 0)
  else none

theorem isDigit_of_mem_toString {n : Nat} {c : Char} (h : c ∈ (toString n).toList) : c.isDigit := by
  rw [Nat.toString_eq_repr, Nat.toList_repr] at h
  exact Nat.isDigit_of_mem_toDigits (by decide) (by decide) h

/-- **A number is read back.** -/
theorem parseNat_toString {bound n : Nat} (h : n < bound) : parseNat bound (toString n) = some n := by
  have hdigits : ∀ c ∈ Nat.toDigits 10 n, c.isDigit :=
    fun c hc => Nat.isDigit_of_mem_toDigits (by decide) (by decide) hc
  have hne : Nat.toDigits 10 n ≠ [] := Nat.toDigits_ne_nil
  have hplain : (match Nat.toDigits 10 n with
      | '+' :: digits => digits
      | digits => digits) = Nat.toDigits 10 n := by
    split
    · next digits he =>
      have := hdigits '+' (by rw [he]; exact List.mem_cons_self ..)
      cases this
    · rfl
  rw [parseNat, Nat.toString_eq_repr, Nat.toList_repr]
  simp only [hplain]
  rw [Nat.ofDigitChars_ten_toDigits, if_pos ⟨hne, List.all_eq_true.mpr hdigits, h⟩]

theorem free_toString {c : Char} (hc : c.isDigit = false) (n : Nat) : Free c (toString n) := by
  intro h
  rw [isDigit_of_mem_toString h] at hc
  cases hc

end Text

end Library
