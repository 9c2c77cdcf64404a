import LiziOS.Strings
import Mathlib.Algebra.Order.Group.Int
import Mathlib.Data.List.Lex

namespace LiziOS.Strings

open Recorded

/-! `strcmp` and `memcmp`: the order of strings. -/

variable {s t : Ram 32} {m : U32 → U8} {x y lhs rhs p q r : U32} {a b c : List U8}

/-- The characters as numbers, the terminator being one of them. -/
def key (chars : List U8) : List Int := chars.map BitVec.toInt ++ [0]

/-- Strings are ordered as dictionaries order words. -/
def ordering (a b : List U8) : Int := if key a < key b then -1 else if key b < key a then 1 else 0

/-- Two characters compared. -/
def sign (c d : U8) : Int := if c.toInt < d.toInt then -1 else if d.toInt < c.toInt then 1 else 0

/-- The byte at which a string is. -/
def head (chars : List U8) : U8 := chars.headD eos

theorem StringAt.head (string : StringAt m x a) : m x = head a := by
  cases a with
  | nil => exact string
  | cons c a => exact string.1

theorem key_injective (same : key a = key b) : a = b := by
  have numbers : a.map BitVec.toInt = b.map BitVec.toInt := List.append_cancel_right same
  exact List.map_injective_iff.mpr (fun _ _ => BitVec.eq_of_toInt_eq) numbers

theorem key_head (a : List U8) : ∃ rest, key a = (head a).toInt :: rest := by
  cases a with
  | nil => exact ⟨[], rfl⟩
  | cons c a => exact ⟨key a, rfl⟩

theorem ordering_cons (c : U8) (a b : List U8) : ordering (c :: a) (c :: b) = ordering a b := by
  have cons (a b : List U8) : key (c :: a) < key (c :: b) ↔ key a < key b := by
    change c.toInt :: key a < c.toInt :: key b ↔ _
    rw [List.cons_lt_cons_iff]
    simp
  unfold ordering
  simp only [cons]

/-- Where the first characters differ, they decide. -/
theorem ordering_heads (differ : head a ≠ head b) : ordering a b = sign (head a) (head b) := by
  have numbers : (head a).toInt ≠ (head b).toInt := fun same => differ (BitVec.eq_of_toInt_eq same)
  obtain ⟨as, keyA⟩ := key_head a
  obtain ⟨bs, keyB⟩ := key_head b
  unfold ordering sign
  rw [keyA, keyB]
  simp only [List.cons_lt_cons_iff, numbers, numbers.symm, false_and, or_false]

theorem ordering_self (a : List U8) : ordering a a = 0 := by
  unfold ordering
  rw [if_neg (lt_irrefl _), if_neg (lt_irrefl _)]

theorem ordering_eq_zero : ordering a b = 0 ↔ a = b := by
  constructor
  · intro zero
    unfold ordering at zero
    split at zero
    · contradiction
    · rename_i noLess
      split at zero
      · contradiction
      · rename_i noMore
        exact key_injective (le_antisymm (not_lt.mp noMore) (not_lt.mp noLess))
  · rintro rfl
    exact ordering_self a

theorem ordering_swap (a b : List U8) : ordering b a = -ordering a b := by
  unfold ordering
  rcases lt_trichotomy (key a) (key b) with less | same | more
  · rw [if_neg less.asymm, if_pos less, if_pos less]
    rfl
  · rw [same, if_neg (lt_irrefl _), if_neg (lt_irrefl _)]
    rfl
  · rw [if_pos more, if_neg more.asymm, if_pos more]

theorem ordering_nonpos : ordering a b ≤ 0 ↔ key a ≤ key b := by
  unfold ordering
  rcases lt_trichotomy (key a) (key b) with less | same | more
  · rw [if_pos less]
    exact ⟨fun _ => less.le, fun _ => by decide⟩
  · rw [same, if_neg (lt_irrefl _), if_neg (lt_irrefl _)]
    exact ⟨fun _ => le_rfl, fun _ => le_rfl⟩
  · rw [if_neg more.asymm, if_pos more]
    exact ⟨fun no => absurd no (by decide), fun no => absurd more no.not_gt⟩

theorem ordering_neg : ordering a b < 0 ↔ key a < key b := by
  have back := ordering_nonpos (a := b) (b := a)
  rw [ordering_swap] at back
  have turned : ordering a b < 0 ↔ ¬ -ordering a b ≤ 0 := by omega
  rw [turned, back, not_le]

theorem ordering_trans (first : ordering a b ≤ 0) (second : ordering b c ≤ 0) :
    ordering a c ≤ 0 ∧ (ordering a b < 0 ∨ ordering b c < 0 → ordering a c < 0) := by
  rw [ordering_nonpos] at *
  rw [ordering_neg, ordering_neg, ordering_neg]
  exact ⟨first.trans second, fun strict => strict.elim (fun less => less.trans_le second) first.trans_lt⟩

/-! The loops. -/

theorem char_slt (c d : U8) : (char c).slt (char d) ↔ c.toInt < d.toInt := by
  unfold char
  rw [BitVec.slt, BitVec.toInt_signExtend_of_le (by decide), BitVec.toInt_signExtend_of_le (by decide),
    decide_eq_true_iff]

/-- The bytes of the two strings. -/
def Compared (lhs rhs : U32) (a b : List U8) (x : U32) : Prop :=
  Range lhs (a.length + 1) x ∨ Range rhs (b.length + 1) x

theorem Compared.cons {c d : U8} (inside : Compared (lhs + 1) (rhs + 1) a b x) :
    Compared lhs rhs (c :: a) (d :: b) x := inside.imp Range.succ Range.succ

variable {readable : U32 → Prop}

theorem compareChars_ends (left : readable lhs) (right : readable rhs) :
    ∃ t, compareChars lhs rhs s = some (sign (s.bytes lhs) (s.bytes rhs), t) ∧
      Within readable (fun _ => False) s t := by
  have once {s : Ram 32} : Within readable (fun _ => False) s ((s.read lhs).read rhs) :=
    (within_read left).trans (within_read right)
  have twice {s : Ram 32} : Within readable (fun _ => False) s ((s.read rhs).read lhs) :=
    (within_read right).trans (within_read left)
  have less := char_slt (s.bytes lhs) (s.bytes rhs)
  have more := char_slt (s.bytes rhs) (s.bytes lhs)
  unfold compareChars sign
  rw [bind_load, bind_load, read_bytes]
  by_cases first : (char (s.bytes lhs)).slt (char (s.bytes rhs))
  · rw [if_pos first, if_pos (less.mp first)]
    exact ⟨_, rfl, once⟩
  · rw [if_neg first, if_neg (mt less.mpr first), bind_load, bind_load, read_bytes, read_bytes, read_bytes,
      read_bytes, read_bytes]
    by_cases second : (char (s.bytes rhs)).slt (char (s.bytes lhs))
    · rw [if_pos second, if_pos (more.mp second)]
      exact ⟨_, rfl, once.trans twice⟩
    · rw [if_neg second, if_neg (mt more.mpr second)]
      exact ⟨_, rfl, once.trans twice⟩

/-- The loop of `strcmp` goes on while the characters are the same and not NUL. -/
theorem strcmpGoesOn_ends (left : readable lhs) (right : readable rhs) :
    ∃ t, strcmpGoesOn lhs rhs s = some (decide (s.bytes lhs = s.bytes rhs ∧ s.bytes lhs ≠ eos), t) ∧
      t.bytes = s.bytes ∧ Within readable (fun _ => False) s t := by
  have both : Within readable (fun _ => False) s ((s.read lhs).read rhs) :=
    (within_read left).trans (within_read right)
  unfold strcmpGoesOn
  rw [bind_load, bind_load, read_bytes]
  by_cases same : s.bytes lhs = s.bytes rhs
  · rw [if_pos same, bind_load, read_bytes, read_bytes]
    by_cases more : s.bytes lhs ≠ eos
    · rw [if_pos more, bind_load, decide_eq_true (And.intro same more)]
      refine ⟨(((s.read lhs).read rhs).read lhs).read rhs, ?_, rfl,
        (both.trans (within_read left)).trans (within_read right)⟩
      rw [read_bytes, read_bytes, read_bytes, ← same, decide_eq_true more]
      rfl
    · rw [if_neg more, decide_eq_false fun goes => more goes.2]
      exact ⟨_, rfl, rfl, both.trans (within_read left)⟩
  · rw [if_neg same, decide_eq_false fun goes => same goes.1]
    exact ⟨_, rfl, rfl, both⟩

theorem heads_same (left : ∀ c ∈ a, c ≠ eos) (same : head a = head b) (more : head a ≠ eos) :
    ∃ c as bs, a = c :: as ∧ b = c :: bs := by
  cases a with
  | nil => exact absurd rfl more
  | cons c as =>
    cases b with
    | nil => exact absurd same (left c List.mem_cons_self)
    | cons d bs =>
      obtain rfl : c = d := same
      exact ⟨c, as, bs, rfl, rfl⟩

theorem empty_string (string : StringAt m x a) (ends : head a = eos) : a = [] := by
  cases a with
  | nil => rfl
  | cons c rest => exact absurd ends string.2.1

theorem heads_end (left : StringAt m lhs a) (right : StringAt m rhs b) (same : head a = head b)
    (ends : head a = eos) : a = b := by
  rw [empty_string left ends, empty_string right (same ▸ ends)]

theorem compared_left : Compared lhs rhs a b lhs := .inl (range_self (Nat.succ_pos _))

theorem compared_right : Compared lhs rhs a b rhs := .inr (range_self (Nat.succ_pos _))

/-- The loop of `strcmp` stops where the strings part or end together. -/
theorem strcmp_stops (left : StringAt s.bytes lhs a) (right : StringAt s.bytes rhs b)
    (stops : ¬ (head a = head b ∧ head a ≠ eos)) :
    ∃ t, (∀ turns, strcmp lhs rhs (turns + 1) s = some (ordering a b, t)) ∧
      Within (Compared lhs rhs a b) (fun _ => False) s t := by
  obtain ⟨t, goes, kept, within⟩ := @strcmpGoesOn_ends s lhs rhs (Compared lhs rhs a b) compared_left compared_right
  rw [left.head, right.head, decide_eq_false stops] at goes
  obtain ⟨u, compared, within'⟩ := @compareChars_ends t lhs rhs (Compared lhs rhs a b) compared_left compared_right
  have value : sign (head a) (head b) = ordering a b := by
    by_cases same : head a = head b
    · have equal : a = b := heads_end left right same (by tauto)
      rw [equal, ordering_self, sign, if_neg (lt_irrefl _), if_neg (lt_irrefl _)]
    · exact (ordering_heads same).symm
  refine ⟨u, fun turns => ?_, within.trans within'⟩
  rw [strcmp, bind_ok goes, if_neg (by simp), compared, kept, left.head, right.head, value]

theorem heads_part (left : StringAt m lhs a) (b : List U8) :
    (∃ c as bs, a = c :: as ∧ b = c :: bs) ∨ ¬ (head a = head b ∧ head a ≠ eos) := by
  by_cases more : head a = head b ∧ head a ≠ eos
  · exact .inl (heads_same (stringAt_iff.mp left).2 more.1 more.2)
  · exact .inr more

theorem strcmp_ends (left : StringAt s.bytes lhs a) (right : StringAt s.bytes rhs b) :
    ∃ t, (∀ turns, a.length < turns → strcmp lhs rhs turns s = some (ordering a b, t)) ∧
      Within (Compared lhs rhs a b) (fun _ => False) s t := by
  induction a generalizing s lhs rhs b with
  | nil =>
    obtain ⟨t, stops, within⟩ := strcmp_stops left right fun more => more.2 rfl
    refine ⟨t, fun turns enough => ?_, within⟩
    obtain ⟨fewer, rfl⟩ := Nat.exists_eq_add_one_of_ne_zero (Nat.ne_zero_of_lt enough)
    exact stops fewer
  | cons c as ih =>
    rcases heads_part left b with ⟨_, _, bs, same, rfl⟩ | stop
    · cases same
      obtain ⟨t, goes, kept, within⟩ :=
        @strcmpGoesOn_ends s lhs rhs (Compared lhs rhs (c :: as) (c :: bs)) compared_left compared_right
      rw [left.1, right.1, decide_eq_true ⟨rfl, left.2.1⟩] at goes
      rw [← kept] at left right
      obtain ⟨u, ends, within'⟩ := ih left.2.2 right.2.2
      refine ⟨u, fun turns enough => ?_, within.trans (within'.mono (fun x => Compared.cons) fun _ no => no)⟩
      obtain ⟨fewer, rfl⟩ := Nat.exists_eq_add_one_of_ne_zero (Nat.ne_zero_of_lt enough)
      rw [strcmp, bind_ok goes, if_pos rfl, ends fewer (Nat.lt_of_succ_lt_succ enough), ordering_cons]
    · obtain ⟨t, stops, within⟩ := strcmp_stops left right stop
      refine ⟨t, fun turns enough => ?_, within⟩
      obtain ⟨fewer, rfl⟩ := Nat.exists_eq_add_one_of_ne_zero (Nat.ne_zero_of_lt enough)
      exact stops fewer

/-- Where the loop of `memcmp` has stopped, with this many bytes left. -/
def Parted (lhs rhs : U32) (a b : List U8) (s : Ram 32) (count : Nat) : Prop :=
  ∃ x y rest t, memcmpLoop lhs rhs count s = some ((x, y, rest), t) ∧ rest ≠ 0 ∧
    sign (t.bytes x) (t.bytes y) = ordering a b ∧ Compared lhs rhs a b x ∧ Compared lhs rhs a b y ∧
    Within (Compared lhs rhs a b) (fun _ => False) s t

theorem memcmpLoop_parts (left : StringAt s.bytes lhs a) (right : StringAt s.bytes rhs b)
    (differ : head a ≠ head b) (count : Nat) : Parted lhs rhs a b s (count + 1) := by
  refine ⟨lhs, rhs, count + 1, (s.read lhs).read rhs, ?_, Nat.succ_ne_zero _, ?_, compared_left, compared_right,
    (within_read compared_left).trans (within_read compared_right)⟩
  · rw [memcmpLoop, bind_load, bind_load, read_bytes, left.head, right.head, if_neg differ]
    rfl
  · rw [read_bytes, read_bytes, left.head, right.head, ordering_heads differ]

/-- Strings that differ part within the shorter one or at its end. -/
theorem memcmpLoop_ends (left : StringAt s.bytes lhs a) (right : StringAt s.bytes rhs b) (differ : a ≠ b)
    {count : Nat} (enough : min a.length b.length < count) : Parted lhs rhs a b s count := by
  induction a generalizing s lhs rhs b count with
  | nil =>
    obtain ⟨count, rfl⟩ := Nat.exists_eq_succ_of_ne_zero (Nat.ne_zero_of_lt enough)
    exact memcmpLoop_parts left right (fun same => differ (heads_end left right same rfl)) count
  | cons c as ih =>
    obtain ⟨count, rfl⟩ := Nat.exists_eq_succ_of_ne_zero (Nat.ne_zero_of_lt enough)
    rcases heads_part left b with ⟨_, _, bs, same, rfl⟩ | stop
    · cases same
      have shorter : min as.length bs.length < count := by
        simp only [List.length_cons] at enough
        omega
      obtain ⟨x, y, rest, t, ends, more, value, inX, inY, within⟩ :=
        ih (s := (s.read lhs).read rhs) left.2.2 right.2.2 (fun equal => differ (by rw [equal])) shorter
      refine ⟨x, y, rest, t, ?_, more, value.trans (ordering_cons c as bs).symm, inX.cons, inY.cons,
        ((within_read compared_left).trans (within_read compared_right)).trans
          (within.mono (fun x => Compared.cons) fun _ no => no)⟩
      rw [memcmpLoop, bind_load, bind_load, read_bytes, left.1, right.1, if_pos rfl, ends]
    · exact memcmpLoop_parts left right (fun same => stop ⟨same, left.2.1⟩) count

theorem memcmp_ends (left : StringAt s.bytes lhs a) (right : StringAt s.bytes rhs b) (differ : a ≠ b)
    {count : U32} (enough : min a.length b.length + 1 ≤ count.toNat) :
    ∃ t, memcmp lhs rhs count s = some (ordering a b, t) ∧ Within (Compared lhs rhs a b) (fun _ => False) s t := by
  obtain ⟨x, y, rest, t, ends, more, value, inX, inY, within⟩ := memcmpLoop_ends left right differ enough
  obtain ⟨u, compared, within'⟩ := compareChars_ends (s := t) inX inY
  refine ⟨u, ?_, within.trans within'⟩
  unfold memcmp
  rw [bind_ok ends]
  change (if rest = 0 then pure 0 else compareChars x y) t = _
  rw [if_neg more, compared, value]

/-- What `strcmp` returns for two strings. -/
def Strcmp (s : Ram 32) (lhs rhs : U32) (a b : List U8) (r : Int) : Prop :=
  ∃ t, Returns (strcmp lhs rhs) s r t ∧ Within (Compared lhs rhs a b) (fun _ => False) s t

theorem strcmp_returns (left : StringAt s.bytes lhs a) (right : StringAt s.bytes rhs b) :
    Strcmp s lhs rhs a b (ordering a b) := by
  obtain ⟨t, ends, within⟩ := strcmp_ends left right
  exact ⟨t, ⟨a.length + 1, ends⟩, within⟩

/-- `strcmp` is a total order of strings, with which `memcmp` agrees where it may look far enough. -/
theorem comparison_laws (first : StringAt s.bytes p a) (second : StringAt s.bytes q b)
    (third : StringAt s.bytes r c) :
    ∃ ab ba bc ac, Strcmp s p q a b ab ∧ Strcmp s q p b a ba ∧ Strcmp s q r b c bc ∧ Strcmp s p r a c ac ∧
      (ab = 0 ↔ a = b) ∧ ba = -ab ∧ (ab ≤ 0 → bc ≤ 0 → ac ≤ 0 ∧ (ab < 0 ∨ bc < 0 → ac < 0)) ∧
      (a ≠ b → ∀ n : U32, min a.length b.length + 1 ≤ n.toNat →
        ∃ t, memcmp p q n s = some (ab, t) ∧ Within (Compared p q a b) (fun _ => False) s t) :=
  ⟨_, _, _, _, strcmp_returns first second, strcmp_returns second first, strcmp_returns second third,
    strcmp_returns first third, ordering_eq_zero, ordering_swap a b, ordering_trans,
    fun differ _ enough => memcmp_ends first second differ enough⟩

theorem comparison_laws_ab : ∃ r, Strcmp abMemory 0x1000 0x1001 [0x61, 0x62] [0x62] r ∧ r ≠ 0 ∧
    ∃ t, memcmp 0x1000 0x1001 2 abMemory = some (r, t) := by
  obtain ⟨r, _, _, _, compared, _, _, _, zero, _, _, agree⟩ :=
    comparison_laws abMemory_string abMemory_string.2.2 (c := []) (r := 0x2000) rfl
  obtain ⟨t, same, _⟩ := agree (by decide) 2 (by decide)
  exact ⟨r, compared, fun is => absurd (zero.mp is) (by decide), t, same⟩

end LiziOS.Strings
