import Mathlib

/-!
# Decimals of a fixed width

Numbers written with leading zeros compare like the numbers themselves, whatever text follows them,
because the comparison is decided before either of them ends. `Below` is that relation on lists: one
that appending anything to either side keeps. The order on a mixed radix, such as days in months in
years, comes down to the order of the parts in the same way (`sum_add_lt_sum_add_iff`).
-/

namespace Library

/-! ## Lists that differ -/

section Below

variable {α β : Type} [LT α] [LT β]

/-- At the first place where the lists differ, the first one has the lesser element. -/
inductive Below : List α → List α → Prop where
  | head {a b : α} (hlt : a < b) (l l' : List α) : Below (a :: l) (b :: l')
  | tail (a : α) {l l' : List α} (h : Below l l') : Below (a :: l) (a :: l')

namespace Below

variable {l l' : List α}

theorem lt (h : Below l l') : l < l' := by
  induction h with
  | head hlt l l' => exact List.cons_lt_cons_iff.mpr (Or.inl hlt)
  | tail a h ih => exact List.cons_lt_cons_iff.mpr (Or.inr ⟨rfl, ih⟩)

/-- What follows makes no difference. -/
theorem append (h : Below l l') (more more' : List α) : Below (l ++ more) (l' ++ more') := by
  induction h with
  | head hlt l l' => exact .head hlt _ _
  | tail a h ih => exact .tail a ih

theorem append_left (front : List α) (h : Below l l') : Below (front ++ l) (front ++ l') := by
  induction front with
  | nil => exact h
  | cons a front ih => exact .tail a ih

/-- A function that respects the order of the elements keeps the lists in order. -/
theorem map {f : α → β} (h : Below l l') (hf : ∀ a ∈ l, ∀ b ∈ l', a < b → f a < f b) :
    Below (l.map f) (l'.map f) := by
  induction h with
  | head hlt l l' =>
      exact .head (hf _ (List.mem_cons_self ..) _ (List.mem_cons_self ..) hlt) _ _
  | tail a h ih =>
      exact .tail _ (ih fun x hx y hy =>
        hf x (List.mem_cons_of_mem _ hx) y (List.mem_cons_of_mem _ hy))

/-- Of two lists in order, the lesser one differs from the other unless it is its beginning. -/
theorem of_lt (hlt : l < l') (hfront : ¬ l <+: l') : Below l l' := by
  induction l generalizing l' with
  | nil => exact absurd List.nil_prefix hfront
  | cons a l ih =>
      cases l' with
      | nil => cases hlt
      | cons b l' =>
          rcases List.cons_lt_cons_iff.mp hlt with hab | ⟨rfl, hrest⟩
          · exact .head hab _ _
          · exact .tail a (ih hrest fun h => hfront ((List.prefix_cons_inj a).mpr h))

end Below

end Below

/-! ## Digits -/

/-- The last `width` decimal digits of `n`, the most significant one first. -/
def decimal : Nat → Nat → List Char
  | 0, _ => []
  | width + 1, n => Nat.digitChar (n / 10 ^ width % 10) :: decimal width (n % 10 ^ width)

theorem digitChar_lt {m n : Nat} (hlt : m < n) (hn : n < 10) : Nat.digitChar m < Nat.digitChar n := by
  interval_cases n <;> interval_cases m <;> decide

theorem mem_decimal {width n : Nat} {c : Char} (hc : c ∈ decimal width n) : '0' ≤ c ∧ c ≤ '9' := by
  induction width generalizing n with
  | zero => cases hc
  | succ width ih =>
      rcases List.mem_cons.mp hc with rfl | hc
      · have hdigit : n / 10 ^ width % 10 < 10 := Nat.mod_lt _ (by decide)
        generalize n / 10 ^ width % 10 = d at hdigit ⊢
        interval_cases d <;> decide
      · exact ih hc

/-- **Decimals of one width compare like the numbers.** -/
theorem below_decimal {width m n : Nat} (hlt : m < n) (hn : n < 10 ^ width) :
    Below (decimal width m) (decimal width n) := by
  induction width generalizing m n with
  | zero =>
      rw [pow_zero] at hn
      omega
  | succ width ih =>
      have hpos : 0 < 10 ^ width := Nat.pow_pos (by decide)
      have hm : m / 10 ^ width < 10 :=
        Nat.div_lt_of_lt_mul (lt_trans hlt (by rwa [pow_succ] at hn))
      have hn' : n / 10 ^ width < 10 := Nat.div_lt_of_lt_mul (by rwa [pow_succ] at hn)
      rw [decimal, decimal, Nat.mod_eq_of_lt hm, Nat.mod_eq_of_lt hn']
      rcases Nat.lt_or_eq_of_le (Nat.div_le_div_right hlt.le) with hdigit | hdigit
      · exact .head (digitChar_lt hdigit hn') _ _
      · -- the same first digit, so the rest decides
        rw [hdigit]
        refine .tail _ (ih ?_ (Nat.mod_lt _ hpos))
        have hm_eq := Nat.div_add_mod m (10 ^ width)
        have hn_eq := Nat.div_add_mod n (10 ^ width)
        rw [hdigit] at hm_eq
        omega

/-- A decimal is cut between any two digits. -/
theorem decimal_add (width more n : Nat) :
    decimal (width + more) n = decimal width (n / 10 ^ more) ++ decimal more (n % 10 ^ more) := by
  induction width generalizing n with
  | zero =>
      rw [Nat.zero_add, decimal, List.nil_append]
      cases more with
      | zero => rfl
      | succ more =>
          rw [decimal, decimal, Nat.mod_mod_of_dvd _ (pow_dvd_pow 10 (Nat.le_succ more)),
            pow_succ, Nat.mod_mul_right_div_self, Nat.mod_mod]
  | succ width ih =>
      rw [Nat.succ_add, decimal, decimal, ih, List.cons_append, Nat.div_div_eq_div_mul, ← pow_add,
        Nat.add_comm more width, pow_add, Nat.mod_mul_left_div_self,
        Nat.mod_mod_of_dvd _ (Nat.dvd_mul_left ..)]

/-- **A field of fixed width** decides, or what follows it does. -/
theorem below_decimal_append {width m n : Nat} (hn : n < 10 ^ width) {rest rest' : List Char}
    (h : m < n ∨ m = n ∧ Below rest rest') :
    Below (decimal width m ++ rest) (decimal width n ++ rest') := by
  rcases h with hlt | ⟨rfl, hrest⟩
  · exact (below_decimal hlt hn).append _ _
  · exact hrest.append_left _

/-! ## Blocks of different lengths -/

open Finset in
/-- **Places in consecutive blocks** of the lengths `f 0`, `f 1`, and so on are in the order of their
blocks, and within a block in the order of their offsets. -/
theorem sum_add_lt_sum_add_iff {f : Nat → Nat} {a b r s : Nat} (hr : r < f a) (hs : s < f b) :
    ∑ i ∈ range a, f i + r < ∑ i ∈ range b, f i + s ↔ a < b ∨ a = b ∧ r < s := by
  have hearlier : ∀ {a b r s : Nat}, r < f a → a < b →
      ∑ i ∈ range a, f i + r < ∑ i ∈ range b, f i + s := by
    intro a b r s hr hab
    have hblock : ∑ i ∈ range (a + 1), f i ≤ ∑ i ∈ range b, f i :=
      sum_le_sum_of_subset (range_subset_range.mpr hab)
    rw [sum_range_succ] at hblock
    omega
  constructor
  · intro h
    rcases lt_trichotomy a b with hab | rfl | hba
    · exact Or.inl hab
    · exact Or.inr ⟨rfl, by omega⟩
    · exact absurd h (lt_asymm (hearlier hs hba))
  · rintro (hab | ⟨rfl, hrs⟩)
    · exact hearlier hr hab
    · omega

open Finset in
theorem sum_add_eq_sum_add {f : Nat → Nat} {a b r s : Nat} (hr : r < f a) (hs : s < f b)
    (h : ∑ i ∈ range a, f i + r = ∑ i ∈ range b, f i + s) : a = b ∧ r = s := by
  have hlt := (sum_add_lt_sum_add_iff hr hs).not.mp (Nat.not_lt_of_le h.ge)
  have hgt := (sum_add_lt_sum_add_iff hs hr).not.mp (Nat.not_lt_of_le h.le)
  omega

/-- Places in blocks of one length. -/
theorem mul_add_lt_mul_add_iff {k a b r s : Nat} (hr : r < k) (hs : s < k) :
    a * k + r < b * k + s ↔ a < b ∨ a = b ∧ r < s := by
  have h := sum_add_lt_sum_add_iff (f := fun _ => k) (a := a) (b := b) hr hs
  simpa only [Finset.sum_const, Finset.card_range, smul_eq_mul] using h

theorem mul_add_eq_mul_add {k a b r s : Nat} (hr : r < k) (hs : s < k)
    (h : a * k + r = b * k + s) : a = b ∧ r = s := by
  have hlt := (mul_add_lt_mul_add_iff hr hs).not.mp (Nat.not_lt_of_le h.ge)
  have hgt := (mul_add_lt_mul_add_iff hs hr).not.mp (Nat.not_lt_of_le h.le)
  omega

/-! ## Texts in the order of numbers -/

/-- The text of a value depends on the number it stands for, and is in the order of that number. -/
structure Prints {σ α : Type} [LT α] (number : σ → Nat) (text : σ → List α) : Prop where
  eq : ∀ {s t}, number s = number t → text s = text t
  below : ∀ {s t}, number s < number t → Below (text s) (text t)

namespace Prints

variable {σ α β : Type} [LT α] [LT β] {number : σ → Nat}

/-- **One more field** of fixed width, behind a separator. -/
theorem field {text : σ → List Char} (h : Prints number text) {f : σ → Nat} {k width : Nat} (hf : ∀ s, f s < k)
    (hk : k ≤ 10 ^ width) (sep : Char) :
    Prints (fun s => number s * k + f s) (fun s => text s ++ sep :: decimal width (f s)) where
  eq := by
    intro s t hst
    obtain ⟨hnumber, hfield⟩ := mul_add_eq_mul_add (hf s) (hf t) hst
    rw [h.eq hnumber, hfield]
  below := by
    intro s t hst
    rcases (mul_add_lt_mul_add_iff (hf s) (hf t)).mp hst with hnumber | ⟨hnumber, hfield⟩
    · exact (h.below hnumber).append _ _
    · rw [h.eq hnumber]
      exact (Below.tail sep (below_decimal hfield (lt_of_lt_of_le (hf t) hk))).append_left _

variable {text : σ → List α}

/-- Two texts are in order exactly if the numbers are. -/
theorem lt_iff [Std.Asymm (fun a b : α => a < b)] (h : Prints number text) {s t : σ} :
    text s < text t ↔ number s < number t := by
  constructor
  · intro hlt
    rcases lt_trichotomy (number s) (number t) with hst | hst | hst
    · exact hst
    · rw [h.eq hst] at hlt
      exact absurd hlt (List.lt_irrefl _)
    · exact absurd hlt (List.lt_asymm (h.below hst).lt)
  · exact fun hlt => (h.below hlt).lt

/-- The same text around each. -/
theorem around (h : Prints number text) (front back : List α) :
    Prints number (fun s => front ++ text s ++ back) where
  eq := by
    intro s t hst
    rw [h.eq hst]
  below := fun hst => ((h.below hst).append_left front).append back back

/-- Every element written as another one, in the same order. -/
theorem map (h : Prints number text) {f : α → β}
    (hf : ∀ s t, ∀ a ∈ text s, ∀ b ∈ text t, a < b → f a < f b) :
    Prints number (fun s => (text s).map f) where
  eq := by
    intro s t hst
    rw [h.eq hst]
  below := fun hst => (h.below hst).map (hf _ _)

end Prints

end Library
