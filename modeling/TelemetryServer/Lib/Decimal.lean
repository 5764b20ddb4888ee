import Mathlib.Data.Nat.Basic
import Mathlib.Tactic.Ring

/-! The order of texts in which decimal numbers are followed by a separator.

A separator comes before every digit, so such texts are ordered as the numbers are when
their digits are aligned on the left. -/

namespace Decimal

/-- The number of decimal digits. -/
def width (n : Nat) : Nat := (Nat.toDigits 10 n).length

/-- The digits of `a` come before those of `b`: padded on the right to one width they make
the smaller number, or the same one with fewer digits. -/
def Before (a b : Nat) : Prop :=
  a * 10 ^ (width b - width a) < b * 10 ^ (width a - width b) ∨
  a * 10 ^ (width b - width a) = b * 10 ^ (width a - width b) ∧ width a < width b

instance (a b : Nat) : Decidable (Before a b) := inferInstanceAs (Decidable (_ ∨ _ ∧ _))

section Digits

variable {xs ys s t : List Char} {n : Nat}

abbrev value (digits : List Char) : Nat := Nat.ofDigitChars 10 digits 0

def padded (n : Nat) (digits : List Char) : Nat := value digits * 10 ^ (n - digits.length)

theorem value_cons (c : Char) (cs : List Char) :
    value (c :: cs) = (c.toNat - 48) * 10 ^ cs.length + value cs := by
  rw [value, Nat.ofDigitChars_cons, Nat.ofDigitChars_eq_ofDigitChars_zero, Nat.mul_zero, Nat.zero_add,
    Nat.mul_comm]
  rfl

theorem value_lt (digits : ∀ c ∈ xs, c.isDigit = true) : value xs < 10 ^ xs.length := by
  induction xs with
  | nil => decide
  | cons c cs ih =>
      have rest := ih (fun d member => digits d (List.mem_cons_of_mem _ member))
      have digit := Char.isDigit_iff_toNat.mp (digits c List.mem_cons_self)
      have small : c.toNat - 48 + 1 ≤ 10 := by
        have most : c.toNat ≤ 57 := digit.2
        omega
      calc
        value (c :: cs) = (c.toNat - 48) * 10 ^ cs.length + value cs := value_cons c cs
        _ < (c.toNat - 48) * 10 ^ cs.length + 10 ^ cs.length := Nat.add_lt_add_left rest _
        _ = (c.toNat - 48 + 1) * 10 ^ cs.length := by ring
        _ ≤ 10 * 10 ^ cs.length := Nat.mul_le_mul_right _ small
        _ = 10 ^ (c :: cs).length := by rw [List.length_cons, Nat.pow_succ, Nat.mul_comm]

theorem padded_cons (c : Char) (cs : List Char) (fits : cs.length ≤ n) :
    padded (n + 1) (c :: cs) = (c.toNat - 48) * 10 ^ n + padded n cs := by
  have same : n + 1 - (c :: cs).length = n - cs.length := by
    rw [List.length_cons]
    omega
  rw [padded, padded, value_cons, same, Nat.add_mul, Nat.mul_assoc, ← Nat.pow_add]
  congr 3
  omega

theorem padded_lt (digits : ∀ c ∈ xs, c.isDigit = true) (fits : xs.length ≤ n) :
    padded n xs < 10 ^ n := by
  calc
    padded n xs = value xs * 10 ^ (n - xs.length) := rfl
    _ < 10 ^ xs.length * 10 ^ (n - xs.length) :=
      Nat.mul_lt_mul_of_pos_right (value_lt digits) (Nat.pow_pos (by decide))
    _ = 10 ^ n := by
      rw [← Nat.pow_add]
      congr 1
      omega

/-- The first digits decide before anything padded behind them. -/
theorem leading_lt {d e p q r : Nat} (small : p < r) (less : d < e) : d * r + p < e * r + q := by
  have whole : (d + 1) * r ≤ e * r := Nat.mul_le_mul_right _ less
  rw [Nat.add_mul, Nat.one_mul] at whole
  omega

/-- Runs of digits in front of a separator are compared as left-aligned numbers. -/
theorem digits_lt_iff {sep : Char} (low : sep < '0') (left : ∀ c ∈ xs, c.isDigit = true)
    (right : ∀ c ∈ ys, c.isDigit = true) (fits : xs.length ≤ n) (fits' : ys.length ≤ n) :
    xs ++ sep :: s < ys ++ sep :: t ↔
      (padded n xs < padded n ys ∨ padded n xs = padded n ys ∧ xs.length < ys.length) ∨
        xs = ys ∧ s < t := by
  have below : ∀ c : Char, c.isDigit = true → sep < c := by
    intro c digit
    exact Nat.lt_of_lt_of_le low (Char.isDigit_iff_toNat.mp digit).1
  induction xs generalizing ys n with
  | nil =>
      cases ys with
      | nil => simp
      | cons y ys =>
          have first := below y (right y List.mem_cons_self)
          have zero : padded n [] = 0 := Nat.zero_mul _
          simp only [List.nil_append, List.cons_append, List.cons_lt_cons_iff, first, true_or, zero,
            List.length_nil, List.length_cons, Nat.zero_lt_succ, and_true, true_iff]
          exact Or.inl (Nat.eq_zero_or_pos _ |>.symm.imp id Eq.symm)
  | cons x xs ih =>
      cases ys with
      | nil =>
          have first := below x (left x List.mem_cons_self)
          have zero : padded n [] = 0 := Nat.zero_mul _
          have later : ¬ x < sep := Nat.lt_asymm first
          have other : x ≠ sep := fun same => Nat.lt_irrefl _ (same ▸ first)
          simp [List.cons_lt_cons_iff, later, other, zero]
      | cons y ys =>
          cases n with
          | zero => exact absurd fits (by simp)
          | succ n =>
              rw [List.length_cons] at fits fits'
              have lefts : ∀ c ∈ xs, c.isDigit = true := fun c member =>
                left c (List.mem_cons_of_mem _ member)
              have rights : ∀ c ∈ ys, c.isDigit = true := fun c member =>
                right c (List.mem_cons_of_mem _ member)
              have small := padded_lt lefts (Nat.le_of_succ_le_succ fits)
              have small' := padded_lt rights (Nat.le_of_succ_le_succ fits')
              have digit := Char.isDigit_iff_toNat.mp (left x List.mem_cons_self)
              have digit' := Char.isDigit_iff_toNat.mp (right y List.mem_cons_self)
              have least : 48 ≤ x.toNat := digit.1
              have least' : 48 ≤ y.toNat := digit'.1
              have tails : xs ++ sep :: s < ys ++ sep :: t ↔
                  (padded n xs < padded n ys ∨ padded n xs = padded n ys ∧ xs.length < ys.length) ∨
                    xs = ys ∧ s < t :=
                ih lefts rights (Nat.le_of_succ_le_succ fits) (Nat.le_of_succ_le_succ fits')
              rw [List.cons_append, List.cons_append, List.cons_lt_cons_iff, tails,
                padded_cons x xs (by omega), padded_cons y ys (by omega), List.length_cons, List.length_cons]
              rcases Nat.lt_trichotomy x.toNat y.toNat with less | same | more
              · have order := @leading_lt _ _ _ (padded n ys) _ small
                  (by omega : x.toNat - 48 < y.toNat - 48)
                have smaller : x < y := less
                simp [smaller, order]
              · have equal : x = y := Char.toNat_inj.mp same
                subst equal
                simp
              · have order := @leading_lt _ _ _ (padded n xs) _ small'
                  (by omega : y.toNat - 48 < x.toNat - 48)
                have larger : ¬ x < y := Nat.lt_asymm more
                have other : x ≠ y := fun equal => Nat.lt_irrefl _ (equal ▸ more)
                simp [larger, other]
                omega

end Digits

theorem toDigits_digits (a : Nat) : ∀ c ∈ Nat.toDigits 10 a, c.isDigit = true :=
  fun _ member => Nat.isDigit_of_mem_toDigits (by decide) (by decide) member

theorem toDigits_inj {a b : Nat} (same : Nat.toDigits 10 a = Nat.toDigits 10 b) : a = b := by
  have values := congrArg value same
  rwa [value, value, Nat.ofDigitChars_ten_toDigits, Nat.ofDigitChars_ten_toDigits] at values

theorem number_lt_iff {sep : Char} (low : sep < '0') {a b : Nat} {s t : List Char} :
    Nat.toDigits 10 a ++ sep :: s < Nat.toDigits 10 b ++ sep :: t ↔ Before a b ∨ a = b ∧ s < t := by
  have aligned : max (width a) (width b) - width a = width b - width a := by omega
  have aligned' : max (width a) (width b) - width b = width a - width b := by omega
  rw [digits_lt_iff low (toDigits_digits a) (toDigits_digits b) (le_max_left (width a) (width b))
    (le_max_right (width a) (width b))]
  have left : padded (max (width a) (width b)) (Nat.toDigits 10 a) = a * 10 ^ (width b - width a) := by
    rw [padded, value, Nat.ofDigitChars_ten_toDigits, ← aligned]
    rfl
  have right : padded (max (width a) (width b)) (Nat.toDigits 10 b) = b * 10 ^ (width a - width b) := by
    rw [padded, value, Nat.ofDigitChars_ten_toDigits, ← aligned']
    rfl
  rw [left, right]
  constructor
  · rintro (before | ⟨same, less⟩)
    · exact Or.inl before
    · exact Or.inr ⟨toDigits_inj same, less⟩
  · rintro (before | ⟨rfl, less⟩)
    · exact Or.inl before
    · exact Or.inr ⟨rfl, less⟩

theorem split_inj {sep : Char} {xs ys s t : List Char} (left : sep ∉ xs) (right : sep ∉ ys)
    (same : xs ++ sep :: s = ys ++ sep :: t) : xs = ys ∧ s = t := by
  induction xs generalizing ys with
  | nil =>
      cases ys with
      | nil => exact ⟨rfl, List.tail_eq_of_cons_eq same⟩
      | cons y ys =>
          have head := List.head_eq_of_cons_eq same
          rw [head] at right
          exact absurd List.mem_cons_self right
  | cons x xs ih =>
      cases ys with
      | nil =>
          have head := List.head_eq_of_cons_eq same
          rw [← head] at left
          exact absurd List.mem_cons_self left
      | cons y ys =>
          have head := List.head_eq_of_cons_eq same
          have tail := List.tail_eq_of_cons_eq same
          rcases ih (fun member => left (List.mem_cons_of_mem _ member))
            (fun member => right (List.mem_cons_of_mem _ member)) tail with ⟨rfl, rest⟩
          exact ⟨by rw [head], rest⟩

theorem prefix_lt_iff (front : List Char) {s t : List Char} : front ++ s < front ++ t ↔ s < t := by
  induction front with
  | nil => rfl
  | cons c cs ih => rw [List.cons_append, List.cons_append, List.cons_lt_cons_self, ih]

theorem not_mem_toDigits {c : Char} (other : c.isDigit = false) (a : Nat) : c ∉ Nat.toDigits 10 a := by
  intro member
  rw [toDigits_digits a c member] at other
  cases other

theorem repr_past {a : Int} (past : 0 ≤ a) : (toString a).toList = Nat.toDigits 10 a.toNat := by
  rw [Int.toString_eq_repr, Int.repr_eq_if, if_pos past, Nat.toList_repr]

theorem repr_negative {a : Int} (negative : a < 0) :
    (toString a).toList = '-' :: Nat.toDigits 10 (-a).toNat := by
  rw [Int.toString_eq_repr, Int.repr_eq_if, if_neg (by omega), String.toList_append, Nat.toList_repr]
  rfl

theorem not_mem_repr {c : Char} (other : c.isDigit = false) (sign : c ≠ '-') (a : Int) :
    c ∉ (toString a).toList := by
  by_cases past : 0 ≤ a
  · rw [repr_past past]
    exact not_mem_toDigits other _
  · rw [repr_negative (by omega)]
    intro member
    rcases List.mem_cons.mp member with same | rest
    · exact sign same
    · exact not_mem_toDigits other _ rest

theorem repr_inj {a b : Int} (same : (toString a).toList = (toString b).toList) : a = b := by
  have digit : ∀ n : Nat, '-' ∉ Nat.toDigits 10 n := not_mem_toDigits (by decide)
  by_cases past : 0 ≤ a
  · by_cases past' : 0 ≤ b
    · rw [repr_past past, repr_past past'] at same
      have equal := toDigits_inj same
      omega
    · rw [repr_past past, repr_negative (by omega)] at same
      exact absurd (same ▸ List.mem_cons_self) (digit a.toNat)
  · by_cases past' : 0 ≤ b
    · rw [repr_negative (by omega), repr_past past'] at same
      exact absurd (same ▸ List.mem_cons_self) (digit b.toNat)
    · rw [repr_negative (by omega), repr_negative (by omega)] at same
      have equal := toDigits_inj (List.tail_eq_of_cons_eq same)
      omega

end Decimal
