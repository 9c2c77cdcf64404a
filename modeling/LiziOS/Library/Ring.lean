import Mathlib.Logic.Function.Basic
import Mathlib.Data.List.Basic
import Mathlib.Tactic.SplitIfs

/-! Circular buffers of `n` cells: the elements lie from `tail` up to `head`, around the end. -/

namespace Ring

variable {α : Type*} {n head tail : Nat} {cell : Nat → α}

def next (n pos : Nat) : Nat := (pos + 1) % n

def size (n tail head : Nat) : Nat := (head + n - tail) % n

/-- The elements from the oldest to the newest. -/
def contents (n : Nat) (cell : Nat → α) (tail head : Nat) : List α :=
  (List.range (size n tail head)).map fun i => cell ((tail + i) % n)

theorem mod_wrap {i : Nat} (bound : i < n + n) : i % n = if i < n then i else i - n := by
  split
  · exact Nat.mod_eq_of_lt ‹_›
  · have above : n ≤ i := by omega
    rw [Nat.mod_eq_sub_mod above]
    exact Nat.mod_eq_of_lt (by omega)

theorem next_lt (inside : head < n) : next n head < n := Nat.mod_lt _ (by omega)

theorem size_lt (tail : Nat) (inside : head < n) : size n tail head < n := Nat.mod_lt _ (by omega)

theorem next_eq (inside : head < n) : next n head = if head + 1 < n then head + 1 else 0 := by
  unfold next
  rw [mod_wrap (by omega)]
  split
  · rfl
  · omega

theorem size_eq (headInside : head < n) (tailInside : tail < n) :
    size n tail head = if tail ≤ head then head - tail else head + n - tail := by
  unfold size
  rw [mod_wrap (by omega)]
  split <;> split <;> omega

theorem size_put (headInside : head < n) (tailInside : tail < n) (room : next n head ≠ tail) :
    size n tail (next n head) = size n tail head + 1 := by
  rw [next_eq headInside] at room ⊢
  rw [size_eq headInside tailInside, size_eq (by split <;> omega) tailInside]
  split_ifs at room ⊢ <;> omega

theorem size_take (headInside : head < n) (tailInside : tail < n) (some_ : head ≠ tail) :
    size n tail head = size n (next n tail) head + 1 := by
  rw [next_eq tailInside]
  rw [size_eq headInside tailInside, size_eq headInside (by split <;> omega)]
  split_ifs <;> omega

/-- One cell always stays empty. -/
theorem size_full (headInside : head < n) (tailInside : tail < n) :
    next n head = tail ↔ size n tail head + 1 = n := by
  rw [next_eq headInside, size_eq headInside tailInside]
  split_ifs <;> omega

@[simp] theorem contents_length : (contents n cell tail head).length = size n tail head := by
  simp [contents]

/-- The cell at `head` is not one of the cells in use. -/
theorem cell_ne_head {i : Nat} (headInside : head < n) (tailInside : tail < n)
    (used : i < size n tail head) : (tail + i) % n ≠ head := by
  rw [size_eq headInside tailInside] at used
  rw [mod_wrap (by split_ifs at used <;> omega)]
  split_ifs at used ⊢ <;> omega

theorem cell_at_head (headInside : head < n) (tailInside : tail < n) :
    (tail + size n tail head) % n = head := by
  rw [size_eq headInside tailInside]
  rw [mod_wrap (by split <;> omega)]
  split <;> split <;> omega

theorem contents_put (x : α) (headInside : head < n) (tailInside : tail < n)
    (room : next n head ≠ tail) :
    contents n (Function.update cell head x) tail (next n head) = contents n cell tail head ++ [x] := by
  unfold contents
  rw [size_put headInside tailInside room, List.range_succ, List.map_append]
  congr 1
  · apply List.map_congr_left
    intro i member
    have used := List.mem_range.mp member
    exact Function.update_of_ne (cell_ne_head headInside tailInside used) _ _
  · simp [cell_at_head headInside tailInside]

theorem contents_take (headInside : head < n) (tailInside : tail < n) (some_ : head ≠ tail) :
    contents n cell tail head = cell tail :: contents n cell (next n tail) head := by
  unfold contents
  rw [size_take headInside tailInside some_, List.range_succ_eq_map, List.map_cons, List.map_map]
  congr 1
  · rw [Nat.add_zero, Nat.mod_eq_of_lt tailInside]
  · apply List.map_congr_left
    intro i member
    have below := List.mem_range.mp member
    have small := size_lt (next n tail) headInside
    simp only [Function.comp_apply]
    congr 1
    rw [next_eq tailInside, mod_wrap (by omega), mod_wrap (by split <;> omega)]
    split_ifs <;> omega

end Ring
