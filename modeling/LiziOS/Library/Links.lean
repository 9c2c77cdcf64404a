import Mathlib.Data.List.Chain
import Mathlib.Logic.Function.Basic

namespace Links

/-! Doubly linked cells: `next` and `prev` say where each cell points. -/

variable {P : Type*} {next prev next' prev' : P → P} {p q a b x : P} {xs us vs cells : List P}

/-- Consecutive cells point to each other. -/
def Linked (next prev : P → P) (cells : List P) : Prop :=
  cells.IsChain fun p q => next p = q ∧ prev q = p

/-- Only the last cell's `next` and the first cell's `prev` are free. -/
theorem Linked.frame (linked : Linked next prev cells) (nextSame : ∀ c ∈ cells.dropLast, next' c = next c)
    (prevSame : ∀ c ∈ cells.tail, prev' c = prev c) : Linked next' prev' cells := by
  induction cells with
  | nil => exact .nil
  | cons p cells ih =>
    cases cells with
    | nil => exact .singleton p
    | cons q cells =>
      obtain ⟨⟨forward, backward⟩, rest⟩ := List.isChain_cons_cons.mp linked
      refine List.isChain_cons_cons.mpr ⟨⟨?_, ?_⟩, ih rest ?_ ?_⟩
      · rw [nextSame p (by simp), forward]
      · rw [prevSame q (by simp), backward]
      · intro c member
        exact nextSame c (by rw [List.dropLast_cons_cons]; exact List.mem_cons_of_mem _ member)
      · intro c member
        exact prevSame c (List.mem_cons_of_mem _ member)

theorem Linked.reverse (linked : Linked next prev cells) : Linked prev next cells.reverse := by
  refine List.isChain_reverse.mpr ?_
  exact List.IsChain.imp (fun _ _ link => ⟨link.2, link.1⟩) linked

/-- Follows `step` from `p` to `stop`: the cells before `stop`. -/
def walk [DecidableEq P] (step : P → P) (stop : P) : Nat → P → Option (List P)
  | 0, _ => none
  | fuel + 1, p => if p = stop then some [] else (walk step stop fuel (step p)).map (p :: ·)

section

variable [DecidableEq P]

/-- A cell that is not among them is put between two neighbours. -/
theorem Linked.insert (linked : Linked next prev (us ++ a :: b :: vs)) (nodup : (us ++ a :: b :: vs).Nodup)
    (outside : x ∉ us ++ a :: b :: vs) :
    Linked (Function.update (Function.update next a x) x b) (Function.update (Function.update prev x a) b x)
      (us ++ a :: x :: b :: vs) := by
  obtain ⟨before, _, after⟩ := List.isChain_append_cons_cons.mp linked
  rw [List.nodup_append] at nodup
  simp only [List.mem_append, List.mem_cons, not_or] at outside
  obtain ⟨notBefore, notA, notB, notAfter⟩ := outside
  obtain ⟨_, nodup, apart⟩ := nodup
  simp only [List.nodup_cons, List.mem_cons, not_or] at nodup
  refine List.isChain_append_cons_cons.mpr ⟨?_, ?_, List.isChain_cons_cons.mpr ⟨?_, ?_⟩⟩
  · refine Linked.frame before ?_ ?_
    · intro c member
      rw [List.dropLast_concat] at member
      rw [Function.update_of_ne, Function.update_of_ne]
      · exact apart c member a (by simp)
      · exact ne_of_mem_of_not_mem member notBefore
    · intro c member
      have member := List.mem_append.mp (List.mem_of_mem_tail member)
      rw [List.mem_singleton] at member
      rw [Function.update_of_ne, Function.update_of_ne]
      · rcases member with member | rfl
        · exact ne_of_mem_of_not_mem member notBefore
        · exact Ne.symm notA
      · rcases member with member | rfl
        · exact apart c member b (by simp)
        · exact nodup.1.1
  · refine ⟨?_, ?_⟩
    · rw [Function.update_of_ne (Ne.symm notA), Function.update_self]
    · rw [Function.update_of_ne notB, Function.update_self]
  · exact ⟨Function.update_self .., Function.update_self ..⟩
  · refine Linked.frame after ?_ ?_
    · intro c member
      have member := List.mem_cons.mp ((List.dropLast_sublist _).subset member)
      rw [Function.update_of_ne, Function.update_of_ne]
      · rcases member with rfl | member
        · exact Ne.symm nodup.1.1
        · exact ne_of_mem_of_not_mem member nodup.1.2
      · rcases member with rfl | member
        · exact Ne.symm notB
        · exact ne_of_mem_of_not_mem member notAfter
    · intro c member
      rw [List.tail_cons] at member
      rw [Function.update_of_ne, Function.update_of_ne]
      · exact ne_of_mem_of_not_mem member notAfter
      · exact ne_of_mem_of_not_mem member nodup.2.1

/-- A cell between two neighbours is taken out. -/
theorem Linked.remove (linked : Linked next prev (us ++ a :: x :: b :: vs))
    (nodup : (us ++ a :: x :: b :: vs).Nodup) :
    Linked (Function.update next a b) (Function.update prev b a) (us ++ a :: b :: vs) := by
  obtain ⟨before, _, rest⟩ := List.isChain_append_cons_cons.mp linked
  obtain ⟨_, after⟩ := List.isChain_cons_cons.mp rest
  rw [List.nodup_append] at nodup
  obtain ⟨_, nodup, apart⟩ := nodup
  simp only [List.nodup_cons, List.mem_cons, not_or] at nodup
  refine List.isChain_append_cons_cons.mpr ⟨?_, ?_, ?_⟩
  · refine Linked.frame before ?_ ?_
    · intro c member
      rw [List.dropLast_concat] at member
      rw [Function.update_of_ne]
      exact apart c member a (by simp)
    · intro c member
      have member := List.mem_append.mp (List.mem_of_mem_tail member)
      rw [List.mem_singleton] at member
      rw [Function.update_of_ne]
      rcases member with member | rfl
      · exact apart c member b (by simp)
      · exact nodup.1.2.1
  · exact ⟨Function.update_self .., Function.update_self ..⟩
  · refine Linked.frame after ?_ ?_
    · intro c member
      have member := List.mem_cons.mp ((List.dropLast_sublist _).subset member)
      rw [Function.update_of_ne]
      rcases member with rfl | member
      · exact Ne.symm nodup.1.2.1
      · exact ne_of_mem_of_not_mem member nodup.1.2.2
    · intro c member
      rw [List.tail_cons] at member
      rw [Function.update_of_ne]
      exact ne_of_mem_of_not_mem member nodup.2.2.1

/-- Following the links from the first cell visits the cells in their order. -/
theorem Linked.walk (linked : Linked next prev (p :: xs ++ [q])) (stop : q ∉ xs) {fuel : Nat}
    (enough : xs.length < fuel) : walk next q fuel (next p) = some xs := by
  induction xs generalizing p fuel with
  | nil =>
    cases fuel with
    | zero => exact absurd enough (Nat.not_lt_zero _)
    | succ fuel => rw [Links.walk, if_pos (List.isChain_cons_cons.mp linked).1.1]
  | cons x xs ih =>
    obtain ⟨⟨forward, _⟩, rest⟩ := List.isChain_cons_cons.mp linked
    rw [List.mem_cons, not_or] at stop
    cases fuel with
    | zero => exact absurd enough (Nat.not_lt_zero _)
    | succ fuel =>
      rw [List.length_cons] at enough
      rw [Links.walk, forward, if_neg (Ne.symm stop.1), ih rest stop.2 (by omega)]
      rfl

end

end Links
