import Mathlib.Logic.Function.Basic
import Mathlib.Tactic.IntervalCases

/-! Byte-addressed memory, the little-endian words in it and the bits of a bitmap in it. -/

namespace ByteMemory

abbrev Memory := Nat → BitVec 8

def word (m : Memory) (a : Nat) : BitVec 32 := m (a + 3) ++ m (a + 2) ++ m (a + 1) ++ m a

def byteOf (w : BitVec 32) (i : Nat) : BitVec 8 := w.extractLsb' (8 * i) 8

def setWord (m : Memory) (a : Nat) (w : BitVec 32) : Memory := fun i =>
  if a ≤ i ∧ i < a + 4 then byteOf w (i - a) else m i

/-- Bit `i` of the bitmap whose first byte is at `base`. -/
def bit (m : Memory) (base i : Nat) : Bool := (m (base + i / 8)).getLsbD (i % 8)

variable {m m' : Memory} {a b i : Nat} {w : BitVec 32}

theorem append_toNat {w v : Nat} (x : BitVec w) (y : BitVec v) : (x ++ y).toNat = x.toNat * 2 ^ v + y.toNat := by
  rw [BitVec.toNat_append, ← Nat.shiftLeft_add_eq_or_of_lt y.isLt, Nat.shiftLeft_eq]

theorem word_bit (m : Memory) (a : Nat) (below : i < 32) :
    (word m a).getLsbD i = (m (a + i / 8)).getLsbD (i % 8) := by
  unfold word
  simp only [BitVec.getLsbD_append]
  interval_cases i <;> simp

theorem byteOf_bit (w : BitVec 32) (i : Nat) {j : Nat} (below : j < 8) :
    (byteOf w i).getLsbD j = w.getLsbD (8 * i + j) := by
  simp [byteOf, below]

@[simp] theorem word_setWord (m : Memory) (a : Nat) (w : BitVec 32) : word (setWord m a w) a = w := by
  apply BitVec.eq_of_getLsbD_eq
  intro i below
  rw [word_bit _ _ below]
  unfold setWord
  rw [if_pos (by omega), byteOf_bit _ _ (by omega)]
  congr 1
  omega

theorem word_congr (same : ∀ i, a ≤ i → i < a + 4 → m' i = m i) : word m' a = word m a := by
  unfold word
  rw [same a (by omega) (by omega), same (a + 1) (by omega) (by omega),
    same (a + 2) (by omega) (by omega), same (a + 3) (by omega) (by omega)]

theorem setWord_outside (w : BitVec 32) (outside : i < a ∨ a + 4 ≤ i) : setWord m a w i = m i := by
  unfold setWord
  rw [if_neg (by omega)]

/-- A word stored byte by byte. -/
theorem setWord_bytes (m : Memory) (a : Nat) (w : BitVec 32) :
    Function.update (Function.update (Function.update (Function.update m a (byteOf w 0)) (a + 1)
      (byteOf w 1)) (a + 2) (byteOf w 2)) (a + 3) (byteOf w 3) = setWord m a w := by
  funext i
  unfold setWord
  by_cases inside : a ≤ i ∧ i < a + 4
  · obtain ⟨j, rfl⟩ : ∃ j, i = a + j := ⟨i - a, by omega⟩
    have small : j < 4 := by omega
    interval_cases j <;> simp
  · rw [if_neg inside]
    rw [Function.update_of_ne (by omega), Function.update_of_ne (by omega),
      Function.update_of_ne (by omega), Function.update_of_ne (by omega)]

theorem word_setWord_outside (w : BitVec 32) (apart : b + 4 ≤ a ∨ a + 4 ≤ b) :
    word (setWord m a w) b = word m b := by
  apply word_congr
  intro i above below
  apply setWord_outside
  omega

theorem word_zero (zero : ∀ i, a ≤ i → i < a + 4 → m i = 0) : word m a = 0 := by
  unfold word
  rw [zero a (by omega) (by omega), zero (a + 1) (by omega) (by omega),
    zero (a + 2) (by omega) (by omega), zero (a + 3) (by omega) (by omega)]
  rfl

theorem bit_congr {base : Nat} (same : m' (base + i / 8) = m (base + i / 8)) :
    bit m' base i = bit m base i := by
  unfold bit
  rw [same]

/-- Setting one bit in the byte that holds it. -/
theorem bit_set {base j : Nat} (m : Memory) :
    bit (Function.update m (base + j / 8) (m (base + j / 8) ||| ((1 : BitVec 8) <<< (j % 8)))) base i =
      (decide (i = j) || bit m base i) := by
  unfold bit
  by_cases same : i / 8 = j / 8
  · rw [same, Function.update_self, BitVec.getLsbD_or, BitVec.getLsbD_shiftLeft]
    have small : i % 8 < 8 := Nat.mod_lt _ (by omega)
    by_cases eq : i = j
    · subst eq
      simp [small]
    · have other : i % 8 ≠ j % 8 := by omega
      by_cases less : i % 8 < j % 8
      · simp [less, eq]
      · have positive : i % 8 - j % 8 ≠ 0 := by omega
        simp [small, less, eq, positive]
  · rw [Function.update_of_ne (by omega)]
    have other : i ≠ j := by rintro rfl; exact same rfl
    simp [other]

/-- Setting one bit of a word in the byte that holds it. -/
theorem word_set (m : Memory) (a i : Nat) :
    word (Function.update m (a + i / 8) (m (a + i / 8) ||| (1 : BitVec 8) <<< (i % 8))) a =
      word m a ||| (1 : BitVec 32) <<< i := by
  apply BitVec.eq_of_getLsbD_eq
  intro j inside
  have set := @bit_set j a i m
  unfold bit at set
  rw [word_bit _ _ inside, set, BitVec.getLsbD_or, word_bit _ _ inside, BitVec.getLsbD_shiftLeft,
    decide_eq_true inside, Bool.true_and]
  by_cases same : j = i
  · simp [same]
  · by_cases less : j < i
    · simp [same, less]
    · have positive : j - i ≠ 0 := by omega
      simp [same, less, positive]

end ByteMemory
