import Mathlib.Data.List.Basic

/-! A queue that loses what comes while it is full. -/

namespace LossyQueue

variable {α : Type*}

/-- What has been sent so far, what of it has been given out, and what of it still waits. -/
inductive Run (capacity : Nat) : List α → List α → List α → Prop where
  | start : Run capacity [] [] []
  | put {sent given waiting : List α} (x : α) (room : waiting.length < capacity)
      (earlier : Run capacity sent given waiting) : Run capacity (sent ++ [x]) given (waiting ++ [x])
  | lose {sent given waiting : List α} (x : α) (full : waiting.length = capacity)
      (earlier : Run capacity sent given waiting) : Run capacity (sent ++ [x]) given waiting
  | take {sent given waiting : List α} (x : α) (earlier : Run capacity sent given (x :: waiting)) :
      Run capacity sent (given ++ [x]) waiting

variable {capacity : Nat} {sent given waiting : List α}

theorem Run.bounded (run : Run capacity sent given waiting) : waiting.length ≤ capacity := by
  induction run with
  | start => exact Nat.zero_le _
  | put x room earlier ih =>
    rw [List.length_append, List.length_singleton]
    exact room
  | lose x full earlier ih => exact ih
  | take x earlier ih => exact Nat.le_of_succ_le ih

/-- Nothing is given out twice, out of order, or without having been sent. -/
theorem Run.sublist (run : Run capacity sent given waiting) : (given ++ waiting).Sublist sent := by
  induction run with
  | start => exact .refl _
  | put x room earlier ih =>
    rw [← List.append_assoc]
    exact ih.append_right [x]
  | lose x full earlier ih => exact ih.trans (List.sublist_append_left _ _)
  | take x earlier ih =>
    rw [List.append_assoc]
    exact ih

/-- Nothing is lost before the queue has been full. -/
theorem Run.complete (run : Run capacity sent given waiting) (few : sent.length ≤ capacity) :
    given ++ waiting = sent := by
  induction run with
  | start => rfl
  | put x room earlier ih =>
    rw [List.length_append] at few
    rw [← List.append_assoc, ih (by omega)]
  | lose x full earlier ih =>
    have shorter := earlier.sublist.length_le
    rw [List.length_append, List.length_singleton] at few
    rw [List.length_append] at shorter
    omega
  | take x earlier ih =>
    rw [List.append_assoc]
    exact ih few

end LossyQueue
