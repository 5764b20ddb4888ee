import Mathlib.Data.List.Induction
import Mathlib.Data.Nat.Bitwise

namespace BigEndian

/-- The number a byte string stands for. -/
def value (bytes : List UInt8) : Nat := bytes.foldl (fun n byte => n * 256 + byte.toNat) 0

/-- The last `width` base-256 digits of a number. -/
def digits (width n : Nat) : List UInt8 :=
  (List.range width).map (fun i => UInt8.ofNat (n / 256 ^ (width - 1 - i)))

@[simp] theorem value_nil : value [] = 0 := rfl

@[simp] theorem value_concat (bytes : List UInt8) (byte : UInt8) :
    value (bytes ++ [byte]) = value bytes * 256 + byte.toNat := by
  simp [value]

theorem value_single (byte : UInt8) : value [byte] = byte.toNat := by
  simp [value]

theorem digits_length (width n : Nat) : (digits width n).length = width := by
  rw [digits, List.length_map, List.length_range]

theorem digits_succ (width n : Nat) :
    digits (width + 1) n = digits width (n / 256) ++ [UInt8.ofNat n] := by
  have last : width + 1 - 1 - width = 0 := by omega
  rw [digits, List.range_succ, List.map_append, List.map_singleton, last, pow_zero, Nat.div_one, digits]
  congr 1
  apply List.map_congr_left
  intro i inside
  have before : i < width := List.mem_range.mp inside
  have power : width + 1 - 1 - i = (width - 1 - i) + 1 := by omega
  rw [power, pow_succ', Nat.div_div_eq_div_mul]

theorem value_digits (width n : Nat) : value (digits width n) = n % 256 ^ width := by
  induction width generalizing n with
  | zero => rw [pow_zero, Nat.mod_one]; rfl
  | succ width ih =>
      have last : (UInt8.ofNat n).toNat = n % 256 := UInt8.toNat_ofNat'
      rw [digits_succ, value_concat, ih, last, pow_succ', Nat.mod_mul]
      omega

theorem eq_of_value_eq {a b : List UInt8} (size : a.length = b.length) (same : value a = value b) :
    a = b := by
  induction a using List.reverseRecOn generalizing b with
  | nil => exact (List.length_eq_zero_iff.mp size.symm).symm
  | append_singleton front last ih =>
      rcases List.eq_nil_or_concat b with rfl | ⟨front', last', rfl⟩
      · simp at size
      · rw [List.concat_eq_append] at size same ⊢
        rw [value_concat, value_concat] at same
        have low := last.toNat_lt
        have low' := last'.toNat_lt
        have tail : last = last' := UInt8.toNat_inj.mp (by omega)
        have head := ih (b := front') (by simpa using size) (by omega)
        rw [head, tail]

theorem value_lt (bytes : List UInt8) : value bytes < 256 ^ bytes.length := by
  induction bytes using List.reverseRecOn with
  | nil => simp
  | append_singleton front last ih =>
      have low := last.toNat_lt
      rw [value_concat, List.length_append, List.length_singleton, pow_succ]
      omega

theorem digits_value {bytes : List UInt8} {width : Nat} (size : bytes.length = width) :
    digits width (value bytes) = bytes := by
  subst size
  apply eq_of_value_eq (digits_length _ _)
  rw [value_digits, Nat.mod_eq_of_lt (value_lt bytes)]

/-- Reading one more byte by shift and or. -/
theorem shift_or (n : Nat) (byte : UInt8) : n <<< 8 ||| byte.toNat = n * 256 + byte.toNat := by
  rw [← Nat.shiftLeft_add_eq_or_of_lt byte.toNat_lt, Nat.shiftLeft_eq]

end BigEndian
