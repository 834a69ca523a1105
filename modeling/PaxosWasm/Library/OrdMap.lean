import Mathlib

/-!
# Ordered finite maps

A finite map over a linear order, kept as the list of its entries in strictly increasing key
order. The order is a field, so an unsorted or duplicated key cannot be built, and the whole API
reduces in the kernel, so that a run of a program over such maps can be evaluated.

Everything is read through one bridge, `mem_entries`: looking a key up finds `v` exactly when the
pair is an entry. The lookup laws (`get?_insert`, `get?_retain`, …) and extensionality follow from
it.
-/

namespace Library

/-- Entries in strictly increasing key order. -/
abbrev Ascending {κ α : Type} [LinearOrder κ] (es : List (κ × α)) : Prop :=
  es.Pairwise (fun x y => x.1 < y.1)

/-- A finite map from `κ` to `α` as its strictly sorted entries. -/
structure OrdMap (κ α : Type) [LinearOrder κ] where
  entries : List (κ × α)
  sorted : Ascending entries

namespace OrdMap

variable {κ α β : Type} [LinearOrder κ]

/-! ## Entry lists

An insertion keeps the entries in order, and puts the new one in the place of an old one with its key. -/

/-- Insert or overwrite one entry, keeping the order. -/
def insertEntry (k : κ) (v : α) : List (κ × α) → List (κ × α)
  | [] => [(k, v)]
  | e :: es =>
      if k < e.1 then (k, v) :: e :: es
      else if k = e.1 then (k, v) :: es
      else e :: insertEntry k v es

theorem mem_insertEntry {k : κ} {v : α} {es : List (κ × α)} {x : κ × α}
    (h : x ∈ insertEntry k v es) : x = (k, v) ∨ x ∈ es := by
  induction es with
  | nil => simpa [insertEntry] using h
  | cons e es ih =>
      rw [insertEntry] at h
      split at h
      · simpa using h
      · split at h
        · rcases List.mem_cons.mp h with rfl | h
          · exact Or.inl rfl
          · exact Or.inr (List.mem_cons_of_mem _ h)
        · rcases List.mem_cons.mp h with rfl | h
          · exact Or.inr (List.mem_cons_self ..)
          · rcases ih h with rfl | h
            · exact Or.inl rfl
            · exact Or.inr (List.mem_cons_of_mem _ h)

theorem ascending_insertEntry (k : κ) (v : α) {es : List (κ × α)} (h : Ascending es) :
    Ascending (insertEntry k v es) := by
  induction es with
  | nil => simp [insertEntry, Ascending]
  | cons e es ih =>
      obtain ⟨hhd, htl⟩ := List.pairwise_cons.mp h
      rw [insertEntry]
      split
      · next hlt =>
        refine List.pairwise_cons.mpr ⟨fun x hx => ?_, h⟩
        rcases List.mem_cons.mp hx with rfl | hx
        · exact hlt
        · exact lt_trans hlt (hhd x hx)
      · next hlt =>
        split
        · next heq =>
          exact List.pairwise_cons.mpr ⟨fun x hx => heq ▸ hhd x hx, htl⟩
        · next hne =>
          refine List.pairwise_cons.mpr ⟨fun x hx => ?_, ih htl⟩
          rcases mem_insertEntry hx with rfl | hx
          · exact lt_of_le_of_ne (not_lt.mp hlt) (Ne.symm hne)
          · exact hhd x hx

/-! ## Operations

Each is defined on the list of the entries and comes with a proof that the order is kept. -/

instance : EmptyCollection (OrdMap κ α) := ⟨⟨[], List.Pairwise.nil⟩⟩

instance : Inhabited (OrdMap κ α) := ⟨∅⟩

/-- The value stored at `k`. -/
def get? (m : OrdMap κ α) (k : κ) : Option α :=
  (m.entries.find? (fun e => e.1 = k)).map Prod.snd

def contains (m : OrdMap κ α) (k : κ) : Bool := (m.get? k).isSome

def insert (m : OrdMap κ α) (k : κ) (v : α) : OrdMap κ α :=
  ⟨insertEntry k v m.entries, ascending_insertEntry k v m.sorted⟩

/-- Keep the entries whose key satisfies `p`. -/
def retain (m : OrdMap κ α) (p : κ → Bool) : OrdMap κ α :=
  ⟨m.entries.filter (fun e => p e.1), m.sorted.filter _⟩

def keys (m : OrdMap κ α) : List κ := m.entries.map Prod.fst

def values (m : OrdMap κ α) : List α := m.entries.map Prod.snd

def size (m : OrdMap κ α) : Nat := m.entries.length

/-- The greatest key. -/
def lastKey? (m : OrdMap κ α) : Option κ := m.entries.getLast?.map Prod.fst

/-- The greatest entry. -/
def last? (m : OrdMap κ α) : Option (κ × α) := m.entries.getLast?

/-- The values at keys from `k` on, in key order. -/
def valuesFrom (m : OrdMap κ α) (k : κ) : List α :=
  (m.entries.filter (fun e => decide (k ≤ e.1))).map Prod.snd

/-- The sub-map of the `n` greatest keys. -/
def takeLast (m : OrdMap κ α) (n : Nat) : OrdMap κ α :=
  ⟨m.entries.drop (m.entries.length - n), m.sorted.sublist (List.drop_sublist _ _)⟩

/-- Take the least entry off the map. -/
def popFirst (m : OrdMap κ α) : Option (κ × α) × OrdMap κ α :=
  (m.entries.head?, ⟨m.entries.tail, m.sorted.sublist (List.tail_sublist _)⟩)

/-- Insert a list of entries from left to right; later entries win. -/
def insertAll (m : OrdMap κ α) (es : List (κ × α)) : OrdMap κ α :=
  es.foldl (fun m e => m.insert e.1 e.2) m

/-! ## Lookup and membership

A lookup finds an entry of the list, and the laws of the operations are laws about lookups. -/

theorem eq_of_mem {m : OrdMap κ α} {k : κ} {v w : α}
    (hv : (k, v) ∈ m.entries) (hw : (k, w) ∈ m.entries) : v = w := by
  obtain ⟨es, hs⟩ := m
  induction es with
  | nil => cases hv
  | cons e es ih =>
      obtain ⟨hhd, htl⟩ := List.pairwise_cons.mp hs
      rcases List.mem_cons.mp hv with rfl | hv' <;> rcases List.mem_cons.mp hw with he | hw'
      · exact (congrArg Prod.snd he).symm
      · exact absurd (hhd _ hw') (lt_irrefl _)
      · subst he; exact absurd (hhd _ hv') (lt_irrefl _)
      · exact ih htl hv' hw'

/-- **The bridge**: a lookup finds `v` exactly when `(k, v)` is an entry. -/
theorem mem_entries {m : OrdMap κ α} {k : κ} {v : α} :
    m.get? k = some v ↔ (k, v) ∈ m.entries := by
  constructor
  · intro h
    obtain ⟨e, he, rfl⟩ := Option.map_eq_some_iff.mp h
    have hk : e.1 = k := by simpa using List.find?_some he
    subst hk
    exact List.mem_of_find?_eq_some he
  · intro h
    rw [get?]
    cases hf : m.entries.find? (fun e => decide (e.1 = k)) with
    | none => simpa using List.find?_eq_none.mp hf _ h
    | some e =>
        have hk : e.1 = k := by simpa using List.find?_some hf
        have hmem : (k, e.2) ∈ m.entries := hk ▸ List.mem_of_find?_eq_some hf
        simp [eq_of_mem hmem h]

@[simp] theorem get?_empty (k : κ) : (∅ : OrdMap κ α).get? k = none := rfl

@[simp] theorem entries_empty : (∅ : OrdMap κ α).entries = [] := rfl

theorem contains_iff {m : OrdMap κ α} {k : κ} : m.contains k = true ↔ ∃ v, m.get? k = some v := by
  rw [contains, Option.isSome_iff_exists]

theorem mem_entries_insert {m : OrdMap κ α} {k k' : κ} {v v' : α} :
    (k', v') ∈ (m.insert k v).entries ↔ (k' = k ∧ v' = v) ∨ (k' ≠ k ∧ (k', v') ∈ m.entries) := by
  obtain ⟨es, hs⟩ := m
  show (k', v') ∈ insertEntry k v es ↔ _
  induction es with
  | nil => simp [insertEntry]
  | cons e es ih =>
      obtain ⟨hhd, htl⟩ := List.pairwise_cons.mp hs
      -- the walk compares the key with the first one
      rw [insertEntry]
      split
      · next hlt =>
        -- the new entry comes before all others
        have hne : ∀ x ∈ e :: es, x.1 ≠ k := by
          intro x hx
          rcases List.mem_cons.mp hx with rfl | hx
          · exact ne_of_gt hlt
          · exact ne_of_gt (lt_trans hlt (hhd x hx))
        constructor
        · intro h
          rcases List.mem_cons.mp h with h | h
          · exact Or.inl (by simpa using h)
          · exact Or.inr ⟨hne _ h, h⟩
        · rintro (⟨rfl, rfl⟩ | ⟨_, h⟩)
          · exact List.mem_cons_self ..
          · exact List.mem_cons_of_mem _ h
      · split
        · next heq =>
          -- it replaces the first one
          have hne : ∀ x ∈ es, x.1 ≠ k := fun x hx => heq ▸ ne_of_gt (hhd x hx)
          constructor
          · intro h
            rcases List.mem_cons.mp h with h | h
            · exact Or.inl (by simpa using h)
            · exact Or.inr ⟨hne _ h, List.mem_cons_of_mem _ h⟩
          · rintro (⟨rfl, rfl⟩ | ⟨hk, h⟩)
            · exact List.mem_cons_self ..
            · rcases List.mem_cons.mp h with h | h
              · exact absurd (congrArg Prod.fst h) (by simpa [← heq] using hk)
              · exact List.mem_cons_of_mem _ h
        · next hne =>
          constructor
          · intro h
            rcases List.mem_cons.mp h with h | h
            · exact Or.inr ⟨fun hk => hne (by rw [← hk, ← h]), h ▸ List.mem_cons_self ..⟩
            · rcases (ih htl).mp h with h | ⟨hk, h⟩
              · exact Or.inl h
              · exact Or.inr ⟨hk, List.mem_cons_of_mem _ h⟩
          · rintro (h | ⟨hk, h⟩)
            · exact List.mem_cons_of_mem _ ((ih htl).mpr (Or.inl h))
            · rcases List.mem_cons.mp h with h | h
              · exact h ▸ List.mem_cons_self ..
              · exact List.mem_cons_of_mem _ ((ih htl).mpr (Or.inr ⟨hk, h⟩))

theorem get?_insert (m : OrdMap κ α) (k k' : κ) (v : α) :
    (m.insert k v).get? k' = if k' = k then some v else m.get? k' := by
  apply Option.ext
  intro w
  rw [mem_entries, mem_entries_insert]
  split
  · next h => simp [h, eq_comm]
  · next h => simp [h, mem_entries]

@[simp] theorem get?_insert_self (m : OrdMap κ α) (k : κ) (v : α) :
    (m.insert k v).get? k = some v := by
  simp [get?_insert]

theorem get?_insert_of_ne (m : OrdMap κ α) {k k' : κ} (v : α) (h : k' ≠ k) :
    (m.insert k v).get? k' = m.get? k' := by
  simp [get?_insert, h]

@[simp] theorem get?_retain (m : OrdMap κ α) (p : κ → Bool) (k : κ) :
    (m.retain p).get? k = if p k then m.get? k else none := by
  apply Option.ext
  intro w
  rw [mem_entries, retain, List.mem_filter]
  split
  · next h => simp [h, mem_entries]
  · next h => simp [h]

/-- How many of the values satisfy `P` after an insertion: the new value counts, the old one at the
key no more. -/
theorem countP_values_insert (m : OrdMap κ α) (k : κ) (v : α) (P : α → Bool) :
    (m.insert k v).values.countP P + (if (m.get? k).any P then 1 else 0) =
      m.values.countP P + (if P v then 1 else 0) := by
  obtain ⟨es, hs⟩ := m
  show ((insertEntry k v es).map Prod.snd).countP P +
      (if ((es.find? (fun e => e.1 = k)).map Prod.snd).any P then 1 else 0) =
    (es.map Prod.snd).countP P + (if P v then 1 else 0)
  induction es with
  | nil => simp [insertEntry]
  | cons e es ih =>
      obtain ⟨hhd, htl⟩ := List.pairwise_cons.mp hs
      rw [insertEntry]
      split
      · next hlt =>
        -- no entry has the key
        have hnone : (e :: es).find? (fun e => e.1 = k) = none := by
          rw [List.find?_eq_none]
          intro x hx heq
          have hle : e.1 ≤ x.1 := by
            rcases List.mem_cons.mp hx with rfl | hx
            · exact le_refl _
            · exact (hhd x hx).le
          exact absurd (of_decide_eq_true heq) (hlt.trans_le hle).ne'
        rw [hnone]
        simp [List.countP_cons]
      · split
        · next heq =>
          rw [List.find?_cons_of_pos (by simp [heq])]
          simp only [List.map_cons, List.countP_cons, Option.map_some, Option.any_some]
          omega
        · next hne =>
          rw [List.find?_cons_of_neg (by simp [Ne.symm hne])]
          have h := ih htl
          simp only [List.map_cons, List.countP_cons]
          omega

/-- Maps with the same lookups are equal. -/
theorem ext_get? {m m' : OrdMap κ α} (h : ∀ k, m.get? k = m'.get? k) : m = m' := by
  obtain ⟨es, hs⟩ := m
  obtain ⟨es', hs'⟩ := m'
  have hmem : ∀ x, x ∈ es ↔ x ∈ es' := by
    intro x
    have h₁ := mem_entries (m := ⟨es, hs⟩) (k := x.1) (v := x.2)
    have h₂ := mem_entries (m := ⟨es', hs'⟩) (k := x.1) (v := x.2)
    rw [← h₁, ← h₂, h]
  have hnd : ∀ {l : List (κ × α)}, Ascending l → l.Nodup := by
    intro l hl
    refine List.Pairwise.imp (fun {x y} hlt => ?_) hl
    exact fun heq => absurd hlt (by rw [heq]; exact lt_irrefl _)
  have hperm : es.Perm es' := (List.perm_ext_iff_of_nodup (hnd hs) (hnd hs')).mpr hmem
  have : es = es' := hperm.eq_of_pairwise (fun _ _ _ _ h₁ h₂ => absurd h₁ (lt_asymm h₂)) hs hs'
  subst this
  rfl

/-! ## Keys and values

The keys are in order and without repetition, so the last one is the greatest. -/

theorem mem_keys {m : OrdMap κ α} {k : κ} : k ∈ m.keys ↔ ∃ v, m.get? k = some v := by
  simp [keys, mem_entries]

theorem mem_values {m : OrdMap κ α} {v : α} : v ∈ m.values ↔ ∃ k, m.get? k = some v := by
  simp [values, mem_entries]

theorem keys_sorted (m : OrdMap κ α) : m.keys.Pairwise (· < ·) :=
  List.pairwise_map.mpr m.sorted

theorem keys_nodup (m : OrdMap κ α) : m.keys.Nodup :=
  m.keys_sorted.imp (fun h => ne_of_lt h)

theorem length_keys (m : OrdMap κ α) : m.keys.length = m.size := by simp [keys, size]

theorem mem_valuesFrom {m : OrdMap κ α} {k : κ} {v : α} :
    v ∈ m.valuesFrom k ↔ ∃ k', k ≤ k' ∧ m.get? k' = some v := by
  simp [valuesFrom, mem_entries, and_comm]

theorem lastKey?_eq_none {m : OrdMap κ α} : m.lastKey? = none ↔ m = ∅ := by
  obtain ⟨es, hs⟩ := m
  constructor
  · intro h
    have hes : es = [] := by simpa [lastKey?] using h
    subst hes
    rfl
  · rintro h
    rw [h]
    rfl

/-- The last key is a key, and no key exceeds it. -/
theorem lastKey?_spec {m : OrdMap κ α} {k : κ} (h : m.lastKey? = some k) :
    (∃ v, m.get? k = some v) ∧ ∀ k' v, m.get? k' = some v → k' ≤ k := by
  obtain ⟨e, he, rfl⟩ := Option.map_eq_some_iff.mp h
  obtain ⟨es, hsplit⟩ := List.getLast?_eq_some_iff.mp he
  refine ⟨⟨e.2, mem_entries.mpr (by rw [hsplit]; simp)⟩, fun k' v hk' => ?_⟩
  have hmem := mem_entries.mp hk'
  have hs := m.sorted
  rw [hsplit] at hmem hs
  rcases List.mem_append.mp hmem with hmem | hmem
  · exact le_of_lt ((List.pairwise_append.mp hs).2.2 _ hmem e (by simp))
  · exact le_of_eq (congrArg Prod.fst (List.mem_singleton.mp hmem))

/-- The greatest key is characterized by its specification. -/
theorem lastKey?_eq_some {m : OrdMap κ α} {k : κ} (hk : ∃ v, m.get? k = some v)
    (hmax : ∀ k' v, m.get? k' = some v → k' ≤ k) : m.lastKey? = some k := by
  obtain ⟨v, hv⟩ := hk
  cases hlast : m.lastKey? with
  | none =>
      rw [lastKey?_eq_none.mp hlast] at hv
      cases hv
  | some l =>
      obtain ⟨⟨w, hw⟩, hlmax⟩ := lastKey?_spec hlast
      exact congrArg some (le_antisymm (hmax l w hw) (hlmax k v hv))

theorem lastKey?_insert (m : OrdMap κ α) (k : κ) (v : α) :
    (m.insert k v).lastKey? = some (m.lastKey?.elim k (max k)) := by
  apply lastKey?_eq_some
  · cases hlast : m.lastKey? with
    | none => exact ⟨v, get?_insert_self m k v⟩
    | some l =>
        show ∃ w, (m.insert k v).get? (max k l) = some w
        obtain ⟨⟨w, hw⟩, _⟩ := lastKey?_spec hlast
        rw [get?_insert]
        split
        · exact ⟨v, rfl⟩
        · next hne =>
          rw [max_eq_right (le_of_not_ge (fun hle => hne (max_eq_left hle)))]
          exact ⟨w, hw⟩
  · intro k' w hk'
    rw [get?_insert] at hk'
    cases hlast : m.lastKey? with
    | none =>
        rw [lastKey?_eq_none.mp hlast] at hk'
        split at hk'
        · next heq => exact le_of_eq heq
        · cases hk'
    | some l =>
        show k' ≤ max k l
        split at hk'
        · next heq => exact heq ▸ le_max_left ..
        · exact le_trans ((lastKey?_spec hlast).2 k' w hk') (le_max_right ..)

/-! ## Extension

One map extends another if it agrees with it wherever that has a value. -/

/-- `m'` holds everything `m` holds. -/
def Extends (m m' : OrdMap κ α) : Prop := ∀ k v, m.get? k = some v → m'.get? k = some v

theorem Extends.refl (m : OrdMap κ α) : Extends m m := fun _ _ h => h

theorem Extends.trans {m m' m'' : OrdMap κ α} (h : Extends m m') (h' : Extends m' m'') :
    Extends m m'' :=
  fun k v hk => h' k v (h k v hk)

theorem extends_insert {m : OrdMap κ α} {k : κ} (v : α) (h : m.get? k = none) :
    Extends m (m.insert k v) := by
  intro k' v' hk'
  have hne : k' ≠ k := by
    rintro rfl
    rw [h] at hk'
    cases hk'
  rw [get?_insert_of_ne _ _ hne, hk']

/-! ## The greatest entries

What is left of a map when the entries with the least keys are dropped. -/

/-- What `takeLast` keeps is what the map holds there. -/
theorem get?_of_takeLast {m : OrdMap κ α} {n : Nat} {k : κ} {v : α}
    (h : (m.takeLast n).get? k = some v) : m.get? k = some v :=
  mem_entries.mpr (List.mem_of_mem_drop (mem_entries.mp h))

/-- A map of at most `n` entries is kept whole. -/
theorem takeLast_of_size_le {m : OrdMap κ α} {n : Nat} (h : m.size ≤ n) : m.takeLast n = m := by
  obtain ⟨es, hs⟩ := m
  have hz : es.length - n = 0 := Nat.sub_eq_zero_of_le h
  simp [takeLast, hz]

theorem takeLast_takeLast (m : OrdMap κ α) (n n' : Nat) :
    (m.takeLast n).takeLast n' = m.takeLast (min n n') := by
  obtain ⟨es, hs⟩ := m
  simp only [takeLast, List.drop_drop, List.length_drop, mk.injEq]
  congr 1
  omega

/-- Inserting above every key appends. -/
theorem entries_insert_of_lt {m : OrdMap κ α} {k : κ} (v : α) (h : ∀ k' ∈ m.keys, k' < k) :
    (m.insert k v).entries = m.entries ++ [(k, v)] := by
  obtain ⟨es, hs⟩ := m
  show insertEntry k v es = es ++ [(k, v)]
  replace h : ∀ e ∈ es, e.1 < k := fun e he => h e.1 (List.mem_map_of_mem he)
  induction es with
  | nil => rfl
  | cons e es ih =>
      have hlt : e.1 < k := h e (List.mem_cons_self ..)
      rw [insertEntry, if_neg (lt_asymm hlt), if_neg (ne_of_gt hlt),
        ih hs.of_cons (fun e' he' => h e' (List.mem_cons_of_mem _ he'))]
      rfl

/-- The greatest entries after inserting above every key. -/
theorem entries_takeLast_insert_of_lt {m : OrdMap κ α} {k : κ} (v : α)
    (h : ∀ k' ∈ m.keys, k' < k) (n : Nat) :
    ((m.insert k v).takeLast (n + 1)).entries = (m.takeLast n).entries ++ [(k, v)] := by
  simp only [takeLast, entries_insert_of_lt v h, List.length_append, List.length_singleton]
  rw [show m.entries.length + 1 - (n + 1) = m.entries.length - n by omega,
    List.drop_append_of_le_length (Nat.sub_le ..)]

/-! ## Folding insertions

A list of insertions makes a map in which the last insertion at each key counts. -/

@[simp] theorem insertAll_nil (m : OrdMap κ α) : m.insertAll [] = m := rfl

@[simp] theorem insertAll_cons (m : OrdMap κ α) (e : κ × α) (es : List (κ × α)) :
    m.insertAll (e :: es) = (m.insert e.1 e.2).insertAll es := rfl

theorem insertAll_append (m : OrdMap κ α) (es es' : List (κ × α)) :
    m.insertAll (es ++ es') = (m.insertAll es).insertAll es' :=
  List.foldl_append

/-- Every entry of a folded map was there before or is one of the inserted ones. -/
theorem get?_insertAll_cases {m : OrdMap κ α} {es : List (κ × α)} {k : κ} {v : α}
    (h : (m.insertAll es).get? k = some v) : m.get? k = some v ∨ (k, v) ∈ es := by
  induction es generalizing m with
  | nil => exact Or.inl h
  | cons e es ih =>
      rcases ih h with h | h
      · rw [get?_insert] at h
        split at h
        · next hk =>
          have hv : e.2 = v := by simpa using h
          exact Or.inr (by rw [hk, ← hv]; exact List.mem_cons_self ..)
        · exact Or.inl h
      · exact Or.inr (List.mem_cons_of_mem _ h)

/-- An inserted key that no later insertion overwrites. -/
theorem get?_insertAll_of_notMem {m : OrdMap κ α} {es : List (κ × α)} {k : κ}
    (h : ∀ v, (k, v) ∉ es) : (m.insertAll es).get? k = m.get? k := by
  induction es generalizing m with
  | nil => rfl
  | cons e es ih =>
      have hne : k ≠ e.1 := by
        intro hk
        exact h e.2 (by rw [hk]; exact List.mem_cons_self ..)
      rw [insertAll_cons, ih (fun v hv => h v (List.mem_cons_of_mem _ hv)),
        get?_insert_of_ne _ _ hne]

/-- Where all insertions at `k` agree, the folded map holds what they insert. -/
theorem get?_insertAll_of_agree {m : OrdMap κ α} {es : List (κ × α)} {k : κ} {v : α}
    (hall : ∀ w, (k, w) ∈ es → w = v) (hmem : (k, v) ∈ es) :
    (m.insertAll es).get? k = some v := by
  induction es generalizing m with
  | nil => cases hmem
  | cons e es ih =>
      rw [insertAll_cons]
      by_cases hlater : (k, v) ∈ es
      · exact ih (fun w hw => hall w (List.mem_cons_of_mem _ hw)) hlater
      · have he : e = (k, v) := by
          rcases List.mem_cons.mp hmem with h | h
          · exact h.symm
          · exact absurd h hlater
        have hnone : ∀ w, (k, w) ∉ es := by
          intro w hw
          rw [hall w (List.mem_cons_of_mem _ hw)] at hw
          exact hlater hw
        rw [get?_insertAll_of_notMem hnone, he, get?_insert_self]

/-- The order of the insertions does not matter where all insertions at a key agree. -/
theorem insertAll_congr {m : OrdMap κ α} {es es' : List (κ × α)} (hmem : ∀ e, e ∈ es ↔ e ∈ es')
    (hone : ∀ k v w, (k, v) ∈ es → (k, w) ∈ es → v = w) : m.insertAll es = m.insertAll es' := by
  apply ext_get?
  intro k
  by_cases hk : ∃ v, (k, v) ∈ es
  · obtain ⟨v, hv⟩ := hk
    rw [get?_insertAll_of_agree (fun w hw => hone k w v hw hv) hv,
      get?_insertAll_of_agree (fun w hw => hone k w v ((hmem _).mpr hw) hv) ((hmem _).mp hv)]
  · simp only [not_exists] at hk
    rw [get?_insertAll_of_notMem hk, get?_insertAll_of_notMem (fun v hv => hk v ((hmem _).mpr hv))]

/-- The value of the last entry for `k` in a list. -/
def lastValue? (es : List (κ × α)) (k : κ) : Option α :=
  (es.filter (fun e => decide (e.1 = k))).getLast?.map Prod.snd

theorem lastValue?_snoc (es : List (κ × α)) (e : κ × α) (k : κ) :
    lastValue? (es ++ [e]) k = if k = e.1 then some e.2 else lastValue? es k := by
  unfold lastValue?
  rw [List.filter_append]
  by_cases hk : e.1 = k
  · rw [if_pos hk.symm, List.filter_cons_of_pos (by simpa using hk), List.filter_nil,
      List.getLast?_concat]
    rfl
  · rw [if_neg (fun h => hk h.symm), List.filter_cons_of_neg (by simpa using hk), List.filter_nil,
      List.append_nil]

/-- **The last insertion at a key decides.** -/
theorem get?_insertAll (m : OrdMap κ α) (es : List (κ × α)) (k : κ) :
    (m.insertAll es).get? k = (lastValue? es k).or (m.get? k) := by
  induction es using List.reverseRecOn with
  | nil => rfl
  | append_singleton es e ih =>
      rw [insertAll_append, insertAll_cons, insertAll_nil, get?_insert, lastValue?_snoc, ih]
      split
      · rfl
      · rfl

/-- Folding the entries of a map over another overlays it. -/
theorem get?_insertAll_entries (m m' : OrdMap κ α) (k : κ) :
    (m.insertAll m'.entries).get? k = (m'.get? k).or (m.get? k) := by
  obtain ⟨es, hs⟩ := m'
  induction es generalizing m with
  | nil => rfl
  | cons e es ih =>
      obtain ⟨hhd, htl⟩ := List.pairwise_cons.mp hs
      show ((m.insert e.1 e.2).insertAll es).get? k = _
      have hrec := ih (m.insert e.1 e.2) htl
      simp only at hrec
      rw [hrec, get?_insert]
      by_cases hk : k = e.1
      · have hnone : (⟨es, htl⟩ : OrdMap κ α).get? k = none := by
          cases hg : (⟨es, htl⟩ : OrdMap κ α).get? k with
          | none => rfl
          | some w => exact absurd (hhd _ (mem_entries.mp hg)) (by simp [hk])
        have hsome : (⟨e :: es, hs⟩ : OrdMap κ α).get? k = some e.2 := by
          rw [mem_entries, hk]
          exact List.mem_cons_self ..
        rw [hnone, hsome, if_pos hk]
        rfl
      · have hsame : (⟨e :: es, hs⟩ : OrdMap κ α).get? k = (⟨es, htl⟩ : OrdMap κ α).get? k := by
          apply Option.ext
          intro w
          rw [mem_entries, mem_entries]
          constructor
          · intro h
            rcases List.mem_cons.mp h with h | h
            · exact absurd (congrArg Prod.fst h) hk
            · exact h
          · exact fun h => List.mem_cons_of_mem _ h
        rw [hsame, if_neg hk]

/-! ## Mapping the values

The keys and their order stay what they are. -/

def map (f : α → β) (m : OrdMap κ α) : OrdMap κ β :=
  ⟨m.entries.map (fun e => (e.1, f e.2)), List.pairwise_map.mpr m.sorted⟩

@[simp] theorem get?_map (f : α → β) (m : OrdMap κ α) (k : κ) : (m.map f).get? k = (m.get? k).map f := by
  simp only [get?, map, List.find?_map, Option.map_map]
  rfl

@[simp] theorem map_empty (f : α → β) : (∅ : OrdMap κ α).map f = ∅ := rfl

theorem map_insert (f : α → β) (m : OrdMap κ α) (k : κ) (v : α) :
    (m.insert k v).map f = (m.map f).insert k (f v) := by
  apply ext_get?
  intro k'
  rw [get?_map, get?_insert, get?_insert, get?_map]
  split <;> rfl

theorem map_insertAll (f : α → β) (m : OrdMap κ α) (es : List (κ × α)) :
    (m.insertAll es).map f = (m.map f).insertAll (es.map (fun e => (e.1, f e.2))) := by
  induction es generalizing m with
  | nil => rfl
  | cons e es ih => rw [insertAll_cons, ih, map_insert, List.map_cons, insertAll_cons]

/-- Inserting what is there changes nothing. -/
theorem insert_of_get? {m : OrdMap κ α} {k : κ} {v : α} (h : m.get? k = some v) : m.insert k v = m := by
  apply ext_get?
  intro k'
  rw [get?_insert]
  split
  · next hk => rw [hk, h]
  · rfl

end OrdMap

end Library
