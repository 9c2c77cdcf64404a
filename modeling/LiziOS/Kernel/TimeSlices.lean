import LiziOS.Kernel.Thread
import Mathlib.Algebra.BigOperators.Group.List.Basic
import Mathlib.Algebra.GroupWithZero.Nat

namespace LiziOS

/-! Threads that never block, under the clock interrupt alone. -/

variable {T : Type*} {k s : Threads T} {t u : T} {ts us order : List T} {c : U8}

/-- The number of interrupts in which the threads have their turns. -/
def slices (k : Threads T) (ts : List T) : Nat := (ts.map fun t => (k.task t).priority.toNat + 1).sum

/-- The threads of the list, the first one running and the others ready, each with all its ticks. -/
structure Lined (k : Threads T) (order : List T) : Prop where
  nodup : order.Nodup
  first : order = k.current :: k.readyList
  magic : ∀ t ∈ order, (k.task t).stackMagic = 0x19870916
  ticks : ∀ t ∈ order, (k.task t).ticks = (k.task t).priority
  running : (k.task k.current).status = .running
  ready : ∀ t ∈ k.readyList, (k.task t).status = .ready

theorem Lined.positive (lined : Lined k order) : 0 < order.length := by
  rw [lined.first]
  exact Nat.succ_pos _

theorem turn_nodup (nodup : order.Nodup) {i : Nat} (inside : i < order.length) :
    (order[i] :: (order.drop (i + 1) ++ order.take i)).Nodup := by
  have split : order[i] :: (order.drop (i + 1) ++ order.take i) = order.drop i ++ order.take i := by
    rw [List.drop_eq_getElem_cons inside, List.cons_append]
  rw [split]
  refine (List.perm_append_comm.nodup_iff).mpr ?_
  rw [List.take_append_drop]
  exact nodup

theorem slices_succ {i : Nat} (inside : i < order.length) :
    slices k (order.take (i + 1)) = slices k (order.take i) + ((k.task order[i]).priority.toNat + 1) := by
  unfold slices
  rw [List.take_succ_eq_append_getElem inside, List.map_append, List.sum_append]
  simp

/-- Every number of interrupts before the end of a round falls into one turn. -/
theorem slices_split (order : List T) {n : Nat} (less : n < slices k order) :
    ∃ i, ∃ inside : i < order.length, ∃ j ≤ (k.task order[i]).priority.toNat,
      n = slices k (order.take i) + j := by
  induction order generalizing n with
  | nil => simp [slices] at less
  | cons t ts ih =>
    by_cases first : n ≤ (k.task t).priority.toNat
    · exact ⟨0, by simp, n, first, by simp [slices]⟩
    · have rest : n - ((k.task t).priority.toNat + 1) < slices k ts := by
        simp only [slices, List.map_cons, List.sum_cons] at less ⊢
        omega
      obtain ⟨i, inside, j, enough, eq⟩ := ih rest
      refine ⟨i + 1, by simpa using inside, j, by simpa using enough, ?_⟩
      simp only [slices, List.take_succ_cons, List.map_cons, List.sum_cons] at eq ⊢
      omega

variable [DecidableEq T]

/-- A number of clock interrupts, one after the other. -/
def clockInterrupts : Nat → Threads T → Except Fault (Threads T)
  | 0, k => .ok k
  | n + 1, k =>
    match clockInterruptHandler none k with
    | .ok next => clockInterrupts n next
    | .error fault => .error fault

theorem clockInterrupts_one (done : clockInterruptHandler none k = .ok s) : clockInterrupts 1 k = .ok s := by
  simp [clockInterrupts, done]

theorem clockInterrupts_add {m : Nat} (n : Nat) (first : clockInterrupts m k = .ok s) :
    clockInterrupts (m + n) k = clockInterrupts n s := by
  induction m generalizing k with
  | zero =>
    cases first
    rw [Nat.zero_add]
  | succ m ih =>
    rw [Nat.add_right_comm]
    simp only [clockInterrupts] at first ⊢
    split at first
    · rename_i next ticked
      exact ih first
    · contradiction

/-- The threads as `k` has them, `t` running with `c` ticks left and `ts` waiting for their turns. -/
def onTurn (k : Threads T) (t : T) (ts : List T) (c : U8) : Threads T :=
  { k with
    current := t
    readyList := ts
    task := fun x =>
      if x = t then { k.task x with status := .running, ticks := c }
      else if x ∈ ts then { k.task x with status := .ready, ticks := (k.task x).priority }
      else k.task x }

theorem onTurn_current (k : Threads T) (t : T) (ts : List T) (c : U8) :
    (onTurn k t ts c).task t = { k.task t with status := .running, ticks := c } := if_pos rfl

/-- Ticks are counted down to 0. -/
theorem tick (magic : (k.task t).stackMagic = 0x19870916) (left : c ≠ 0) :
    clockInterruptHandler none (onTurn k t ts c) = .ok (onTurn k t ts (c - 1)) := by
  have current : (onTurn k t ts c).current = t := rfl
  simp only [clockInterruptHandler, current, onTurn_current, magic, left, ↓reduceIte]
  congr 1
  simp only [Threads.setTask, onTurn]
  congr 1
  funext x
  by_cases same : x = t
  · subst same
    simp [magic]
  · simp [same]

/-- At 0 ticks the next thread takes its turn, and the one before goes to the end of the list. -/
theorem turn (magic : (k.task t).stackMagic = 0x19870916) (nodup : (t :: ts).Nodup)
    (order : ts ++ [t] = u :: us) :
    clockInterruptHandler none (onTurn k t ts 0) = .ok (onTurn k u us (k.task u).priority) := by
  have current : (onTurn k t ts 0).current = t := rfl
  have list : (onTurn k t ts 0).readyList = ts := rfl
  have absent : elemFind ts t = false := by
    simpa [elemFind] using (List.nodup_cons.mp nodup).1
  have members (x : T) : (x ∈ ts ∨ x = t) ↔ (x = u ∨ x ∈ us) := by
    rw [← List.mem_cons, ← order, List.mem_append, List.mem_singleton]
  have fresh : u ∉ us := by
    have permuted : (u :: us).Nodup := by
      rw [← order]
      exact (List.perm_append_singleton t ts).nodup_iff.mpr nodup
    exact (List.nodup_cons.mp permuted).1
  have popped : listTake none (listAppend ts t) = some (u, us) := by
    unfold listTake listAppend
    rw [order]
    rfl
  simp only [clockInterruptHandler, schedule, deschedule, dispatch, current, list, onTurn_current, magic, absent,
    ↓reduceIte, popped, Bool.false_eq_true]
  congr 1
  simp only [Threads.setTask, onTurn]
  congr 1
  funext x
  have member := members x
  by_cases next : x = u
  · subst next
    by_cases same : x = t
    · subst same
      simp [magic]
    · have waiting : x ∈ ts := by
        rcases member.mpr (.inl rfl) with waits | eq
        · exact waits
        · exact absurd eq same
      simp [same, waiting]
  · by_cases same : x = t
    · subst same
      have waiting : x ∈ us := (member.mp (.inr rfl)).resolve_left next
      simp [next, waiting, magic]
    · have waiting : x ∈ ts ↔ x ∈ us := by
        constructor
        · exact fun waits => (member.mp (.inl waits)).resolve_left next
        · exact fun waits => (member.mpr (.inr waits)).resolve_right same
      simp [next, same, waiting]

theorem ticks_down (magic : (k.task t).stackMagic = 0x19870916) (j : Nat) (enough : j ≤ c.toNat) :
    clockInterrupts j (onTurn k t ts c) = .ok (onTurn k t ts (c - BitVec.ofNat 8 j)) := by
  induction j with
  | zero => simp [clockInterrupts]
  | succ j ih =>
    have left : c - BitVec.ofNat 8 j ≠ 0 := by
      intro zero
      have value : (c - BitVec.ofNat 8 j).toNat = c.toNat - j := by
        rw [BitVec.toNat_sub, BitVec.toNat_ofNat]
        omega
      rw [zero, show (0 : U8).toNat = 0 from rfl] at value
      omega
    have next : c - BitVec.ofNat 8 j - 1 = c - BitVec.ofNat 8 (j + 1) := by
      rw [BitVec.sub_sub, BitVec.ofNat_add]
      rfl
    rw [clockInterrupts_add 1 (ih (by omega)), clockInterrupts_one (tick magic left), next]

/-- A whole time slice: one interrupt for each tick, and the one that finds none left. -/
theorem slice (magic : (k.task t).stackMagic = 0x19870916) (nodup : (t :: ts).Nodup)
    (order : ts ++ [t] = u :: us) :
    clockInterrupts (c.toNat + 1) (onTurn k t ts c) = .ok (onTurn k u us (k.task u).priority) := by
  have empty : c - BitVec.ofNat 8 c.toNat = 0 := by simp
  have counted : clockInterrupts c.toNat (onTurn k t ts c) = .ok (onTurn k t ts (c - BitVec.ofNat 8 c.toNat)) :=
    ticks_down magic c.toNat (Nat.le_refl c.toNat)
  rw [empty] at counted
  rw [clockInterrupts_add 1 counted, clockInterrupts_one (turn magic nodup order)]

/-! Rounds. -/

/-- The turn of the thread number `i`, with `c` ticks left: behind it the later threads, then the
    earlier ones. -/
def turnOf (k : Threads T) (order : List T) (i : Nat) (inside : i < order.length) (c : U8) : Threads T :=
  onTurn k order[i] (order.drop (i + 1) ++ order.take i) c

theorem unchanged {task : TaskStruct} {status : TaskStatus} {c : U8} (same : task.status = status)
    (left : task.ticks = c) : { task with status := status, ticks := c } = task := by
  rw [← same, ← left]

theorem Lined.initial (lined : Lined k order) (inside : 0 < order.length) :
    turnOf k order 0 inside (k.task order[0]).priority = k := by
  obtain ⟨nodup, first, magic, ticks, running, ready⟩ := lined
  subst first
  obtain ⟨current, task, main, list, all⟩ := k
  simp only [turnOf, onTurn, List.getElem_cons_zero, List.drop_succ_cons, List.drop_zero, List.take_zero,
    List.append_nil] at *
  congr 1
  funext x
  by_cases same : x = current
  · subst same
    rw [if_pos rfl]
    exact unchanged running (ticks x List.mem_cons_self)
  · by_cases waits : x ∈ list
    · rw [if_neg same, if_pos waits]
      exact unchanged (ready x waits) (ticks x (List.mem_cons_of_mem _ waits))
    · rw [if_neg same, if_neg waits]

/-- The turns of a round, one after the other. -/
theorem turns (lined : Lined k order) (i : Nat) (inside : i < order.length) :
    clockInterrupts (slices k (order.take i)) k = .ok (turnOf k order i inside (k.task order[i]).priority) := by
  induction i with
  | zero =>
    rw [lined.initial inside]
    rfl
  | succ i ih =>
    have before : i < order.length := by omega
    have next : (order.drop (i + 1) ++ order.take i) ++ [order[i]] =
        order[i + 1] :: (order.drop (i + 2) ++ order.take (i + 1)) := by
      rw [List.append_assoc, ← List.take_succ_eq_append_getElem before, List.drop_eq_getElem_cons inside,
        List.cons_append]
    rw [slices_succ before, clockInterrupts_add _ (ih before)]
    exact slice (lined.magic _ (List.getElem_mem before)) (turn_nodup lined.nodup before) next

theorem round (lined : Lined k order) : clockInterrupts (slices k order) k = .ok k := by
  have positive := lined.positive
  obtain ⟨n, length⟩ : ∃ n, order.length = n + 1 := ⟨order.length - 1, by omega⟩
  have last : n < order.length := by omega
  have whole : order.take (n + 1) = order := List.take_of_length_le (by omega)
  have next : (order.drop (n + 1) ++ order.take n) ++ [order[n]] =
      order[0] :: (order.drop 1 ++ order.take 0) := by
    rw [List.append_assoc, ← List.take_succ_eq_append_getElem last, whole, List.drop_of_length_le (by omega),
      List.nil_append, List.take_zero, List.append_nil, ← List.drop_eq_getElem_cons positive, List.drop_zero]
  have total : slices k order = slices k (order.take n) + ((k.task order[n]).priority.toNat + 1) := by
    rw [← slices_succ last, whole]
  rw [total, clockInterrupts_add _ (turns lined n last)]
  have done := slice (c := (k.task order[n]).priority) (lined.magic _ (List.getElem_mem last))
    (turn_nodup lined.nodup last) next
  exact done.trans (congrArg Except.ok (lined.initial positive))

theorem rounds (lined : Lined k order) (r : Nat) : clockInterrupts (r * slices k order) k = .ok k := by
  induction r with
  | zero =>
    rw [Nat.zero_mul]
    rfl
  | succ r ih =>
    rw [Nat.add_mul, Nat.one_mul, clockInterrupts_add _ ih]
    exact round lined

/-! The law. -/

/-- The thread number `i` runs after the interrupts with `j` of its ticks used, and the others wait in
    order, each with all its ticks. -/
structure Turn (k : Threads T) (order : List T) (i j : Nat) (inside : i < order.length)
    (s : Threads T) : Prop where
  current : s.current = order[i]
  readyList : s.readyList = order.drop (i + 1) ++ order.take i
  ticks : (s.task order[i]).ticks.toNat + j = (k.task order[i]).priority.toNat
  running : (s.task order[i]).status = .running
  waiting : ∀ t ∈ order, t ≠ order[i] → (s.task t).status = .ready ∧ (s.task t).ticks = (k.task t).priority
  priority : ∀ t, (s.task t).priority = (k.task t).priority

structure RoundRobin (k : Threads T) (order : List T) : Prop where
  /-- the thread number `i` has its priority and one interrupt more, behind those before it -/
  turn : ∀ r i j, (inside : i < order.length) → j ≤ (k.task order[i]).priority.toNat →
    ∃ s, clockInterrupts (r * slices k order + (slices k (order.take i) + j)) k = .ok s ∧
      Turn k order i j inside s
  /-- after a round everything is as it was -/
  period : ∀ r, clockInterrupts (r * slices k order) k = .ok k
  /-- every number of interrupts falls into a turn -/
  cover : ∀ n, ∃ r i j, ∃ inside : i < order.length, j ≤ (k.task order[i]).priority.toNat ∧
    n = r * slices k order + (slices k (order.take i) + j)

theorem turnOf_turn {i j : Nat} (inside : i < order.length)
    (enough : j ≤ (k.task order[i]).priority.toNat) :
    Turn k order i j inside (turnOf k order i inside ((k.task order[i]).priority - BitVec.ofNat 8 j)) := by
  refine ⟨rfl, rfl, ?_, ?_, ?_, ?_⟩
  · unfold turnOf
    rw [onTurn_current]
    dsimp only
    rw [BitVec.toNat_sub, BitVec.toNat_ofNat]
    have small := (k.task order[i]).priority.isLt
    omega
  · unfold turnOf
    rw [onTurn_current]
  · intro t member other
    have waits : t ∈ order.drop (i + 1) ++ order.take i := by
      have split := List.take_append_drop i order
      rw [List.drop_eq_getElem_cons inside] at split
      rw [← split, List.mem_append, List.mem_cons] at member
      rw [List.mem_append]
      rcases member with earlier | same | later
      · exact .inr earlier
      · exact absurd same other
      · exact .inl later
    simp only [turnOf, onTurn]
    rw [if_neg other, if_pos waits]
    exact ⟨rfl, rfl⟩
  · intro t
    simp only [turnOf, onTurn]
    split
    · rfl
    · split <;> rfl

/-- Threads that never block run in turn, each for one interrupt more than its priority says. -/
theorem round_robin (lined : Lined k order) : RoundRobin k order := by
  refine ⟨?_, rounds lined, ?_⟩
  · intro r i j inside enough
    refine ⟨_, ?_, turnOf_turn inside enough⟩
    rw [clockInterrupts_add _ (rounds lined r), clockInterrupts_add _ (turns lined i inside)]
    exact ticks_down (lined.magic _ (List.getElem_mem inside)) j enough
  · intro n
    have positive : 0 < slices k order := by
      rw [lined.first]
      simp only [slices, List.map_cons, List.sum_cons]
      omega
    obtain ⟨i, inside, j, enough, eq⟩ := slices_split order (Nat.mod_lt n positive)
    refine ⟨n / slices k order, i, j, inside, enough, ?_⟩
    rw [← eq, Nat.mul_comm, Nat.div_add_mod]

/-- Two threads with 2 and 0 ticks. -/
def twoThreads : Threads Nat where
  current := 0
  task t := { status := if t = 0 then .running else .ready, priority := if t = 0 then 2 else 0,
              ticks := if t = 0 then 2 else 0, pgdir := 0, stackMagic := 0x19870916 }
  mainThread := 0
  readyList := [1]
  allList := [0, 1]

theorem round_robin_two : RoundRobin twoThreads [0, 1] :=
  round_robin ⟨by decide, rfl, by decide, by decide, rfl, by decide⟩

end LiziOS
