import LiziOS.Library.ByteMemory

/-! Words of 32 bits on a stack that grows downwards in byte memory. -/

namespace Stack

open ByteMemory

variable {m m' : Memory} {a top x : Nat} {w : BitVec 32} {words more : List (BitVec 32)}

/-- Memory once the words have been pushed, the first one first. -/
def push (m : Memory) (top : Nat) : List (BitVec 32) → Memory
  | [] => m
  | w :: words => push (setWord m (top - 4) w) (top - 4) words

/-- The words from the address on, the first one lowest. -/
def WordsAt (m : Memory) : Nat → List (BitVec 32) → Prop
  | _, [] => True
  | a, w :: words => word m a = w ∧ WordsAt m (a + 4) words

instance decidableWordsAt (m : Memory) : ∀ a words, Decidable (WordsAt m a words)
  | _, [] => .isTrue True.intro
  | a, w :: words =>
    have := decidableWordsAt m (a + 4) words
    inferInstanceAs (Decidable (word m a = w ∧ WordsAt m (a + 4) words))

theorem WordsAt.congr (there : WordsAt m a words)
    (same : ∀ x, a ≤ x → x < a + 4 * words.length → m' x = m x) : WordsAt m' a words := by
  induction words generalizing a with
  | nil => exact True.intro
  | cons w words ih =>
    rw [List.length_cons] at same
    constructor
    · exact (word_congr fun x low high => same x low (by omega)).trans there.1
    · exact ih there.2 fun x low high => same x (by omega) (by omega)

theorem wordsAt_append : WordsAt m a (words ++ more) ↔
    WordsAt m a words ∧ WordsAt m (a + 4 * words.length) more := by
  induction words generalizing a with
  | nil => simp [WordsAt]
  | cons w words ih =>
    rw [List.cons_append, WordsAt, ih, WordsAt, and_assoc, List.length_cons]
    rw [show a + 4 * (words.length + 1) = a + 4 + 4 * words.length by omega]

theorem push_outside (room : 4 * words.length ≤ top) (outside : x < top - 4 * words.length ∨ top ≤ x) :
    push m top words x = m x := by
  induction words generalizing m top with
  | nil => rfl
  | cons w words ih =>
    rw [List.length_cons] at room outside
    rw [push, ih (by omega) (by omega)]
    exact setWord_outside w (by omega)

/-- What has been pushed last lies lowest. -/
theorem push_words (room : 4 * words.length ≤ top) :
    WordsAt (push m top words) (top - 4 * words.length) words.reverse := by
  induction words generalizing m top with
  | nil => exact True.intro
  | cons w words ih =>
    rw [List.length_cons] at room ⊢
    rw [push, List.reverse_cons, wordsAt_append, List.length_reverse]
    have place : top - 4 * (words.length + 1) = top - 4 - 4 * words.length := by omega
    rw [place]
    constructor
    · exact ih (by omega)
    · have above : top - 4 - 4 * words.length + 4 * words.length = top - 4 := by omega
      rw [above]
      constructor
      · have kept : word (push (setWord m (top - 4) w) (top - 4) words) (top - 4) =
            word (setWord m (top - 4) w) (top - 4) := by
          apply word_congr
          intro x low high
          exact push_outside (by omega) (.inr low)
        rw [kept, word_setWord]
      · exact True.intro

end Stack
