import Mathlib.Data.List.Basic
import Mathlib.Tactic.Ring
import Mathlib.Tactic.Linarith

namespace Blocks

variable {α : Type}

/-- The complete blocks of `n` elements, in order; a shorter tail is left out. -/
def blocks (n : Nat) (l : List α) : List (List α) :=
  (List.range (l.length / n)).map (fun i => (l.drop (n * i)).take n)

/-- The longest prefix made of complete blocks. -/
def cut (n : Nat) (l : List α) : List α := l.take (n * (l.length / n))

theorem blocks_length (n : Nat) (l : List α) : (blocks n l).length = l.length / n := by
  simp [blocks]

theorem cut_length (n : Nat) (l : List α) : (cut n l).length = n * (l.length / n) := by
  simp only [cut, List.length_take]
  exact min_eq_left (Nat.mul_div_le _ _)

theorem dvd_cut_length (n : Nat) (l : List α) : n ∣ (cut n l).length :=
  ⟨l.length / n, cut_length n l⟩

theorem cut_eq_self {n : Nat} {l : List α} (aligned : n ∣ l.length) : cut n l = l := by
  rw [cut, Nat.mul_div_cancel' aligned, List.take_length]

theorem cut_append {n : Nat} {l : List α} (aligned : n ∣ l.length) (r : List α) :
    cut n (l ++ r) = l ++ cut n r := by
  obtain ⟨k, hk⟩ := aligned
  rcases Nat.eq_zero_or_pos n with rfl | positive
  · simp only [Nat.zero_mul, List.length_eq_zero_iff] at hk
    simp [cut, hk]
  · have count : (l ++ r).length / n = k + r.length / n := by
      rw [List.length_append, hk, Nat.add_comm, Nat.add_mul_div_left _ _ positive, Nat.add_comm]
    rw [cut, count, Nat.mul_add, ← hk, List.take_length_add_append, cut]

theorem blocks_of_lt {n : Nat} {l : List α} (short : l.length < n) : blocks n l = [] := by
  simp [blocks, Nat.div_eq_of_lt short]

theorem length_of_mem_blocks {n : Nat} {l b : List α} (member : b ∈ blocks n l) :
    b.length = n := by
  obtain ⟨i, inside, rfl⟩ := List.mem_map.mp member
  have bound : i < l.length / n := List.mem_range.mp inside
  have room : n * i + n ≤ l.length := by
    calc n * i + n = n * (i + 1) := by ring
      _ ≤ n * (l.length / n) := Nat.mul_le_mul_left _ bound
      _ ≤ l.length := Nat.mul_div_le _ _
  simp only [List.length_take, List.length_drop]
  omega

theorem blocks_block_append {n : Nat} (positive : 0 < n) {b : List α} (whole : b.length = n)
    (l : List α) : blocks n (b ++ l) = b :: blocks n l := by
  have count : (b ++ l).length / n = l.length / n + 1 := by
    rw [List.length_append, whole, Nat.add_comm, Nat.add_div_right _ positive]
  rw [blocks, count, List.range_succ_eq_map, List.map_cons, List.map_map, blocks]
  congr 1
  · simp [← whole]
  · apply List.map_congr_left
    intro i _
    have shift : n * (i + 1) = b.length + n * i := by rw [whole]; ring
    simp [shift]

theorem blocks_flatten_append {n : Nat} (positive : 0 < n) {bs : List (List α)}
    (whole : ∀ b ∈ bs, b.length = n) (l : List α) :
    blocks n (bs.flatten ++ l) = bs ++ blocks n l := by
  induction bs with
  | nil => simp
  | cons b bs ih =>
      have first : b.length = n := whole b List.mem_cons_self
      have rest := ih (fun b' member => whole b' (List.mem_cons_of_mem _ member))
      rw [List.flatten_cons, List.append_assoc, blocks_block_append positive first, rest,
        List.cons_append]

theorem flatten_blocks (n : Nat) (l : List α) : (blocks n l).flatten = cut n l := by
  have partialSum : ∀ k, k ≤ l.length / n →
      ((List.range k).map (fun i => (l.drop (n * i)).take n)).flatten = l.take (n * k) := by
    intro k
    induction k with
    | zero => simp
    | succ k ih =>
        intro bound
        rw [List.range_succ, List.map_append, List.flatten_append, ih (by omega)]
        simp only [List.map_cons, List.map_nil, List.flatten_cons, List.flatten_nil,
          List.append_nil]
        rw [Nat.mul_add, Nat.mul_one, List.take_add]
  exact partialSum _ le_rfl

theorem cut_append_drop (n : Nat) (l : List α) : cut n l ++ l.drop (n * (l.length / n)) = l :=
  List.take_append_drop _ _

/-- Cutting at a block boundary cuts the list of blocks. -/
theorem blocks_append {n : Nat} (positive : 0 < n) {l : List α} (aligned : n ∣ l.length)
    (r : List α) : blocks n (l ++ r) = blocks n l ++ blocks n r := by
  have split : (blocks n l).flatten = l := by rw [flatten_blocks, cut_eq_self aligned]
  calc blocks n (l ++ r) = blocks n ((blocks n l).flatten ++ r) := by rw [split]
    _ = blocks n l ++ blocks n r :=
      blocks_flatten_append positive (fun _ member => length_of_mem_blocks member) r

theorem flatten_length {n : Nat} {bs : List (List α)} (whole : ∀ b ∈ bs, b.length = n) :
    bs.flatten.length = n * bs.length := by
  induction bs with
  | nil => simp
  | cons b bs ih =>
      have first : b.length = n := whole b List.mem_cons_self
      have rest := ih (fun b' member => whole b' (List.mem_cons_of_mem _ member))
      simp only [List.flatten_cons, List.length_append, List.length_cons, first, rest]
      ring

end Blocks
