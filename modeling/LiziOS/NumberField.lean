import LiziOS.FormatOutput
import LiziOS.Strings
import Mathlib.Data.Nat.Digits.Lemmas

namespace LiziOS.Vsprintf

/-! The layout and the value of the fields that `number`, `%s` and `%c` put out. -/

/-- The byte at `digits[value]`. -/
def symbol (flags : U32) (value : Nat) : U8 :=
  if value < 10 then ascii '0' + BitVec.ofNat 8 value
  else (if has flags small then ascii 'a' else ascii 'A') + BitVec.ofNat 8 (value - 10)

/-- The number of which the digits are put out. -/
def magnitude (flags num : U32) : Nat := if has flags sign then num.toInt.natAbs else num.toNat

/-- The digits of `n` in the base, the highest first and no leading zeros, a single 0 for 0. -/
def numeral (flags : U32) (base n : Nat) : List U8 :=
  ((if n = 0 then [0] else Nat.digits base n).map (symbol flags)).reverse

def signs (flags num : U32) : List U8 :=
  if has flags sign && decide (num.toInt < 0) then [ascii '-']
  else if has flags plus then [ascii '+']
  else if has flags space then [ascii ' ']
  else []

def mark (flags base : U32) : List U8 :=
  if !has flags special then []
  else if base = 8 then [ascii '0']
  else if base = 16 then [ascii '0', if has flags small then ascii 'x' else ascii 'X']
  else []

/-- A field with sign and prefix in `front`. -/
def field (flags : U32) (width precision : Int) (front digits : List U8) : List U8 :=
  let fill := (width - (front.length + max precision digits.length)).toNat
  List.replicate (if has flags left || has flags zeropad then 0 else fill) (ascii ' ') ++ front ++
    List.replicate (if has flags zeropad && !has flags left then fill else 0) (ascii '0') ++
    List.replicate (precision - digits.length).toNat (ascii '0') ++ digits ++
    List.replicate (if has flags left then fill else 0) (ascii ' ')

/-- Content padded with spaces. -/
def padded (flags : U32) (width : Int) (content : List U8) : List U8 :=
  let fill := (width - content.length).toNat
  List.replicate (if has flags left then 0 else fill) (ascii ' ') ++ content ++
    List.replicate (if has flags left then fill else 0) (ascii ' ')

section Lengths

variable {flags : U32} {width precision : Int} {front digits content : List U8}

theorem field_length : ((field flags width precision front digits).length : Int) =
    max width (front.length + max precision digits.length) := by
  unfold field
  simp only [List.length_append, List.length_replicate]
  cases has flags left <;> cases has flags zeropad <;> simp <;> omega

theorem padded_length : ((padded flags width content).length : Int) = max width content.length := by
  unfold padded
  simp only [List.length_append, List.length_replicate]
  cases has flags left <;> simp <;> omega

end Lengths

/-! The flags. -/

/-- `flags` behind `if (flags & LEFT) flags &= ~ZEROPAD`. -/
def kept (flags : U32) : U32 := if has flags left then flags &&& ~~~zeropad else flags

section Flags

variable {flags flag : U32}

theorem has_masked (other : ~~~zeropad &&& flag = flag) : has (flags &&& ~~~zeropad) flag = has flags flag := by
  unfold has
  rw [BitVec.and_assoc, other]

theorem has_zeropad_masked : has (flags &&& ~~~zeropad) zeropad = false := by
  unfold has
  rw [BitVec.and_assoc, show ~~~zeropad &&& zeropad = 0 from rfl]
  simp

theorem has_kept (other : ~~~zeropad &&& flag = flag) : has (kept flags) flag = has flags flag := by
  unfold kept
  split
  · exact has_masked other
  · rfl

theorem has_kept_zeropad : has (kept flags) zeropad = (has flags zeropad && !has flags left) := by
  unfold kept
  split
  next isLeft => rw [has_zeropad_masked, isLeft, Bool.not_true, Bool.and_false]
  next notLeft => rw [eq_false_of_ne_true notLeft, Bool.not_false, Bool.and_true]

theorem kept_masked (isLeft : has (kept flags) left = true) : has (kept flags) zeropad = false := by
  rw [has_kept (by rfl)] at isLeft
  rw [has_kept_zeropad, isLeft]
  exact Bool.and_false _

theorem has_both {other : U32} (apart : flag + other = flag ||| other) :
    has flags (flag + other) = (has flags flag || has flags other) := by
  have spread : flags &&& (flag ||| other) = (flags &&& flag) ||| (flags &&& other) := by
    ext i
    simp [Bool.and_or_distrib_left]
  unfold has
  rw [apart, spread]
  have neither : (flags &&& flag) ||| (flags &&& other) = 0 ↔ flags &&& flag = 0 ∧ flags &&& other = 0 :=
    BitVec.or_eq_zero_iff
  rw [Bool.eq_iff_iff, Bool.or_eq_true, bne_iff_ne, bne_iff_ne, bne_iff_ne, ne_eq, neither]
  tauto

theorem symbol_kept : symbol (kept flags) = symbol flags := by
  funext value
  unfold symbol
  rw [has_kept (by rfl)]

theorem mark_kept {base : U32} : mark (kept flags) base = mark flags base := by
  unfold mark
  rw [has_kept (by rfl), has_kept (by rfl)]

theorem signs_kept {num : U32} : signs (kept flags) num = signs flags num := by
  unfold signs
  rw [has_kept (by rfl), has_kept (by rfl), has_kept (by rfl)]

theorem magnitude_kept {num : U32} : magnitude (kept flags) num = magnitude flags num := by
  unfold magnitude
  rw [has_kept (by rfl)]

theorem numeral_kept {base n : Nat} : numeral (kept flags) base n = numeral flags base n := by
  unfold numeral
  rw [symbol_kept]

end Flags

/-! The digits. -/

section Digits

variable {flags base num index : U32}

theorem digit_symbol (below : index.toNat < 36) : digit flags index = symbol flags index.toNat := by
  have narrow (b : U32) (small : b.toNat < 256) : b.setWidth 8 = BitVec.ofNat 8 b.toNat := by
    apply BitVec.eq_of_toNat_eq
    rw [BitVec.toNat_setWidth, BitVec.toNat_ofNat]
  unfold digit symbol
  by_cases decimal : index.toNat < 10
  · have ult : index.ult 10 = true := by rw [BitVec.ult, decide_eq_true_iff]; exact decimal
    rw [if_pos ult, if_pos decimal, narrow index (by omega)]
  · have ult : index.ult 10 = false := by rw [BitVec.ult, decide_eq_false_iff_not]; exact decimal
    have left : (index - 10).toNat = index.toNat - 10 := by
      rw [BitVec.toNat_sub_of_le (by rw [BitVec.le_def]; exact Nat.le_of_not_lt decimal)]
      rfl
    rw [if_neg (by rw [ult]; exact Bool.false_ne_true), if_neg decimal, narrow (index - 10) (by omega), left]

/-- The loop puts out the digits, the lowest first. -/
theorem wordDigits_eq (two : 2 ≤ base.toNat) (few : base.toNat ≤ 36) (turns : Nat) (num : U32)
    (fits : num.toNat < 2 ^ turns) :
    wordDigits flags base turns num = (Nat.digits base.toNat num.toNat).map (symbol flags) := by
  induction turns generalizing num with
  | zero =>
    have zero : num.toNat = 0 := by omega
    rw [zero, Nat.digits_zero]
    rfl
  | succ turns ih =>
    by_cases zero : num = 0
    · rw [wordDigits, if_pos zero, zero]
      simp
    · have positive : 0 < num.toNat := by
        rcases Nat.eq_zero_or_pos num.toNat with none | some
        · exact absurd (BitVec.eq_of_toNat_eq none) zero
        · exact some
      have smaller : num.toNat / base.toNat < 2 ^ turns := by
        rw [Nat.div_lt_iff_lt_mul (by omega)]
        rw [pow_succ] at fits
        exact fits.trans_le (Nat.mul_le_mul_left _ two)
      have below : (num % base).toNat < 36 := by
        rw [BitVec.toNat_umod]
        exact (Nat.mod_lt _ (by omega)).trans_le few
      rw [wordDigits, if_neg zero, ih _ (by rw [BitVec.toNat_udiv]; exact smaller), digit_symbol below,
        Nat.digits_def' two positive, List.map_cons, BitVec.toNat_umod, BitVec.toNat_udiv]

theorem digits_length (two : 2 ≤ base.toNat) (n : Nat) (word : n < 2 ^ 32) :
    (numeral flags base.toNat n).length ≤ 32 := by
  unfold numeral
  rw [List.length_reverse, List.length_map]
  split
  · simp
  · rw [Nat.digits_length_le_iff two]
    exact word.trans_le (Nat.pow_le_pow_left two 32)

theorem digits_numeral {dbl : Doubles} (two : 2 ≤ base.toNat) (few : base.toNat ≤ 36)
    (whole : has flags double = false) :
    digits dbl (num.setWidth 64) base flags = (numeral flags base.toNat num.toNat).reverse := by
  have low : (num.setWidth 64 : U64).setWidth 32 = num := by
    apply BitVec.eq_of_toNat_eq
    simp
  unfold digits numeral
  rw [if_neg (by rw [whole]; exact Bool.false_ne_true), low, List.reverse_reverse]
  by_cases zero : num = 0
  · rw [if_pos zero, zero, if_pos (show (0 : U32).toNat = 0 from rfl)]
    rfl
  · have some : num.toNat ≠ 0 := fun none => zero (BitVec.eq_of_toNat_eq none)
    rw [if_neg zero, if_neg some, wordDigits_eq two few 32 num num.isLt]

end Digits

/-! The padding loops. -/

section Loops

variable {count bound size precision flags : U32} {front tmp : List U8}

theorem toInt_sub_fits {a b : U32} (low : -2 ^ 31 ≤ a.toInt - b.toInt) (high : a.toInt - b.toInt < 2 ^ 31) :
    (a - b).toInt = a.toInt - b.toInt := by
  rw [BitVec.toInt_sub]
  exact Int.bmod_eq_of_le (by omega) (by omega)

theorem toNat_of_nonneg {a : U32} (nonneg : 0 ≤ a.toInt) : a.toNat = a.toInt.toNat := by
  have word := a.isLt
  rw [BitVec.toInt_eq_toNat_cond] at nonneg ⊢
  split at nonneg
  next small => rw [if_pos small, Int.toNat_natCast]
  next large => omega

theorem slt_iff {a b : U32} : a.slt b = true ↔ a.toInt < b.toInt := BitVec.slt_iff_toInt_lt

theorem decremented : (count - 1).toInt = if count.toInt = -2 ^ 31 then 2 ^ 31 - 1 else count.toInt - 1 := by
  have low := @BitVec.le_toInt 32 count
  have high := @BitVec.toInt_lt 32 count
  have one : (1 : U32).toInt = 1 := rfl
  by_cases least : count.toInt = -2 ^ 31
  · have same : count = 0x80000000#32 := BitVec.eq_of_toInt_eq (by rw [least]; rfl)
    rw [same]
    decide
  · rw [if_neg least, toInt_sub_fits (by omega) (by omega), one]

/-- The turns of `while (bound < count--)`. -/
theorem whileBelow_turns : (whileBelow bound count).1 = (count.toInt - bound.toInt).toNat := by
  unfold whileBelow
  by_cases more : bound.slt count = true
  · have less := slt_iff.mp more
    have exactly : ((count - bound).toNat : Int) = count.toInt - bound.toInt := by
      have word := count.isLt
      have word' := bound.isLt
      rw [BitVec.toInt_eq_toNat_cond, BitVec.toInt_eq_toNat_cond] at less ⊢
      rw [BitVec.toNat_sub]
      split at less <;> split at less <;> omega
    rw [if_pos more]
    exact (Int.toNat_natCast _).symm.trans (congrArg Int.toNat exactly)
  · have least : ¬ bound.toInt < count.toInt := fun less => more (slt_iff.mpr less)
    rw [if_neg more]
    exact (Int.toNat_of_nonpos (by omega)).symm

/-- What it leaves of the count. -/
theorem whileBelow_rest : (whileBelow bound count).2.toInt =
    if bound.toInt < count.toInt then (bound - 1).toInt else (count - 1).toInt := by
  unfold whileBelow
  by_cases more : bound.slt count = true
  · rw [if_pos more, if_pos (slt_iff.mp more)]
  · rw [if_neg more, if_neg fun less => more (slt_iff.mpr less)]

theorem turns_eq : (whileBelow 0#32 count).1 = count.toInt.toNat := by
  have zero : (0#32).toInt = 0 := rfl
  rw [whileBelow_turns, zero, Int.sub_zero]

/-- What `while (count-- > 0)` leaves. -/
theorem whileBelow_wraps : (whileBelow 0#32 count).2.toInt =
    if 0 < count.toInt then -1 else if count.toInt = -2 ^ 31 then 2 ^ 31 - 1 else count.toInt - 1 := by
  have zero : (0#32).toInt = 0 := rfl
  have under : (0#32 - 1).toInt = -1 := rfl
  rw [whileBelow_rest, zero, under, decremented]

theorem whileBelow_left (room : -2 ^ 31 < count.toInt) :
    (whileBelow 0#32 count).2.toInt = if 0 < count.toInt then -1 else count.toInt - 1 := by
  rw [whileBelow_wraps, if_neg room.ne']

/-- `while (--count > 0)`. -/
theorem whilePositive_eq : (whilePositive count).1 = (count - 1).toInt.toNat ∧
    (whilePositive count).2.toInt = min 0 (count - 1).toInt := by
  have zero : (0 : U32).toInt = 0 := rfl
  unfold whilePositive
  by_cases more : (0 : U32).slt (count - 1) = true
  · have positive := slt_iff.mp more
    rw [zero] at positive
    rw [if_pos more, toNat_of_nonneg positive.le]
    exact ⟨rfl, (min_eq_left positive.le).symm⟩
  · have least : ¬ 0 < (count - 1).toInt := fun less => more (slt_iff.mpr (by rw [zero]; exact less))
    rw [if_neg more]
    exact ⟨(Int.toNat_of_nonpos (not_lt.mp least)).symm, (min_eq_right (not_lt.mp least)).symm⟩

/-- The bytes that `number` puts out with the sign and the prefix in `front`, `flags` being masked. -/
def laid (flags size precision : U32) (front tmp : List U8) : List U8 :=
  let i := BitVec.ofNat 32 tmp.length
  let precision := if precision.slt i then i else precision
  let size := size - BitVec.ofNat 32 front.length - precision
  let (spaces, size) := if !has flags (zeropad + left) then whileBelow 0 size else (0, size)
  let (pads, size) := if !has flags left then whileBelow 0 size else (0, size)
  List.replicate spaces (ascii ' ') ++ front ++
    List.replicate pads (if has flags zeropad then ascii '0' else ascii ' ') ++
    List.replicate (whileBelow i precision).1 (ascii '0') ++ tmp.reverse ++
    List.replicate (whileBelow 0 size).1 (ascii ' ')

/-- `sign` as `number` puts it out. -/
def signed (dbl : Doubles) (num : U64) (flags : U32) : List U8 :=
  if (signOf dbl num flags).1 ≠ 0 then [(signOf dbl num flags).1] else []

theorem number_laid {dbl : Doubles} {num : U64} {base : U32}
    (valid : (base.slt 2 || (36 : U32).slt base) = false) :
    number dbl num base size precision flags =
      .ok (laid (kept flags) size precision (signed dbl num (kept flags) ++ mark (kept flags) base)
        (digits dbl (signOf dbl num (kept flags)).2 base (kept flags))) := by
  unfold number
  rw [valid, if_neg Bool.false_ne_true, show (if has flags left then flags &&& ~~~zeropad else flags) =
    kept flags from rfl]
  generalize kept flags = flags
  have x : digit flags 33 = if has flags small then ascii 'x' else ascii 'X' := by
    unfold digit
    rw [if_neg (by decide)]
    split <;> rfl
  unfold laid signed mark
  obtain ⟨sign, num⟩ := signOf dbl num flags
  rw [x]
  dsimp only
  have three : size - 1#32 - 2#32 = size - 3#32 := by bv_omega
  have two : size - 1#32 - 1#32 = size - 2#32 := by bv_omega
  by_cases unsigned : sign = 0#8
  · by_cases plain : has flags special
    · by_cases hex : base = 16#32
      · simp [unsigned, plain, hex]
      · by_cases octal : base = 8#32
        · simp [unsigned, plain, octal]
        · simp [unsigned, plain, hex, octal]
    · simp [unsigned, plain]
  · by_cases plain : has flags special
    · by_cases hex : base = 16#32
      · simp [unsigned, plain, hex, three]
      · by_cases octal : base = 8#32
        · simp [unsigned, plain, octal, two]
        · simp [unsigned, plain, hex, octal]
    · simp [unsigned, plain]

/-- A loop whose count is not above 0 makes no turn. -/
theorem no_turns (least : count.toInt ≤ 0) : (whileBelow 0#32 count).1 = 0 := by
  rw [turns_eq]
  omega

theorem toInt_length {n : Nat} (small : n < 2 ^ 31) : (BitVec.ofNat 32 n).toInt = n := by
  rw [BitVec.toInt_eq_toNat_of_lt (by rw [BitVec.toNat_ofNat]; omega), BitVec.toNat_ofNat,
    Nat.mod_eq_of_lt (by omega)]

theorem widened {i : U32} : (if precision.slt i then i else precision).toInt = max precision.toInt i.toInt := by
  split
  next more => exact (max_eq_right (slt_iff.mp more).le).symm
  next most => exact (max_eq_left (not_lt.mp fun less => most (slt_iff.mpr less))).symm

theorem laid_field (masked : has flags left = true → has flags zeropad = false)
    (sizeLow : -1 ≤ size.toInt) (sizeHigh : size.toInt < 2 ^ 30) (precisionHigh : precision.toInt < 2 ^ 30)
    (short : front.length ≤ 3) (few : tmp.length ≤ 36) :
    laid flags size precision front tmp = field flags size.toInt precision.toInt front tmp.reverse := by
  have count : (BitVec.ofNat 32 tmp.length).toInt = tmp.length := toInt_length (by omega)
  have fronts : (BitVec.ofNat 32 front.length).toInt = front.length := toInt_length (by omega)
  have zero : (0#32).toInt = 0 := rfl
  unfold laid
  dsimp only
  have wide := @widened precision (BitVec.ofNat 32 tmp.length)
  generalize (if precision.slt (BitVec.ofNat 32 tmp.length) then BitVec.ofNat 32 tmp.length else precision) =
    digits at wide
  rw [count] at wide
  have signless : (size - BitVec.ofNat 32 front.length).toInt = size.toInt - front.length := by
    rw [toInt_sub_fits (by omega) (by omega), fronts]
  have rest : (size - BitVec.ofNat 32 front.length - digits).toInt =
      size.toInt - (front.length + max precision.toInt tmp.length) := by
    rw [toInt_sub_fits (by omega) (by omega), signless, wide]
    omega
  have zeros : (whileBelow (BitVec.ofNat 32 tmp.length) digits).1 = (precision.toInt - tmp.length).toNat := by
    rw [whileBelow_turns, count, wide]
    omega
  generalize size - BitVec.ofNat 32 front.length - digits = size' at rest
  have turns : (whileBelow 0#32 size').1 =
      (size.toInt - (front.length + max precision.toInt tmp.length)).toNat := by
    rw [turns_eq, rest]
  -- the first loop that runs leaves a count below 0, and none is left for the ones behind it
  have spent : (whileBelow 0#32 size').2.toInt ≤ 0 ∧ -2 ^ 31 < (whileBelow 0#32 size').2.toInt := by
    rw [whileBelow_left (by omega)]
    split <;> omega
  have again := @whileBelow_left (whileBelow 0#32 size').2 spent.2
  rw [has_both (by rfl), zeros]
  unfold field
  rw [List.length_reverse]
  cases isLeft : has flags left
  · cases isZero : has flags zeropad
    · have thrice : (whileBelow 0#32 (whileBelow 0#32 size').2).2.toInt ≤ 0 := by
        rw [again]
        split <;> omega
      simp [turns, no_turns spent.1, no_turns thrice]
    · simp [turns, no_turns spent.1]
  · simp [masked isLeft, turns]

theorem field_kept {width precision : Int} :
    field (kept flags) width precision front tmp = field flags width precision front tmp := by
  unfold field
  rw [has_kept (by rfl), has_kept_zeropad]
  cases has flags left <;> cases has flags zeropad <;> rfl

end Loops

/-! The fields. -/

section Fields

variable {dbl : Doubles} {num base width precision flags : U32} {args : List U32} {mem : Memory}

theorem signOf_word (whole : has flags double = false) :
    ∃ word : U32, (signOf dbl (num.setWidth 64) flags).2 = word.setWidth 64 ∧
      word.toNat = magnitude flags num ∧ signed dbl (num.setWidth 64) flags = signs flags num := by
  have low : (num.setWidth 64 : U64).setWidth 32 = num := by
    apply BitVec.eq_of_toNat_eq
    simp
  have zero : (0#32).toInt = 0 := rfl
  unfold signed signs signOf magnitude
  rw [whole, low, Bool.false_and, if_neg Bool.false_ne_true, Bool.not_false, Bool.and_true]
  by_cases negative : num.toInt < 0
  · have below : num.slt 0#32 = true := slt_iff.mpr (by rw [zero]; exact negative)
    by_cases isSigned : has flags sign = true
    · refine ⟨-num, ?_, ?_, ?_⟩
      · simp [below, isSigned]
      · rw [if_pos isSigned, BitVec.toNat_neg]
        have word := num.isLt
        rw [BitVec.toInt_eq_toNat_cond] at negative ⊢
        split at negative <;> omega
      · simp [below, isSigned, negative, ascii]
    · have unsigned := eq_false_of_ne_true isSigned
      refine ⟨num, ?_, by rw [unsigned]; rfl, ?_⟩
      · simp [unsigned]
      · cases has flags plus <;> cases has flags space <;> simp [unsigned, ascii]
  · have above : num.slt 0#32 = false :=
      eq_false_of_ne_true fun less => negative (by rw [← zero]; exact slt_iff.mp less)
    refine ⟨num, ?_, ?_, ?_⟩
    · simp [above]
    · split
      · rw [toNat_of_nonneg (by omega)]
        omega
      · rfl
    · cases has flags plus <;> cases has flags space <;> simp [above, negative, ascii]

/-- What a call of `number` puts behind `str`, and what it puts into `tmp`. -/
structure NumberField (dbl : Doubles) (num base width precision flags : U32) (front digits : List U8) : Prop where
  text : number dbl (num.setWidth 64) base width precision flags =
    .ok (field flags width.toInt precision.toInt front digits)
  length : ((field flags width.toInt precision.toInt front digits).length : Int) =
    max width.toInt (front.length + max precision.toInt digits.length)
  tmp : Vsprintf.digits dbl (signOf dbl (num.setWidth 64) (kept flags)).2 base (kept flags) = digits.reverse
  room : digits.length ≤ 36

theorem signs_length : (signs flags num).length ≤ 1 := by
  unfold signs
  split <;> [skip; split <;> [skip; split]] <;> simp

theorem mark_length : (mark flags base).length ≤ 2 := by
  unfold mark
  split <;> [skip; split <;> [skip; split]] <;> simp

theorem valid_base (two : 2 ≤ base.toNat) (few : base.toNat ≤ 36) :
    (base.slt 2 || (36 : U32).slt base) = false := by
  have exactly : base.toInt = base.toNat := BitVec.toInt_eq_toNat_of_lt (by omega)
  have least : (2 : U32).toInt = 2 := rfl
  have most : (36 : U32).toInt = 36 := rfl
  rw [Bool.or_eq_false_iff]
  constructor
  · exact eq_false_of_ne_true fun less => by have := slt_iff.mp less; omega
  · exact eq_false_of_ne_true fun less => by have := slt_iff.mp less; omega

theorem number_field (two : 2 ≤ base.toNat) (few : base.toNat ≤ 36) (widthLow : -1 ≤ width.toInt)
    (widthHigh : width.toInt < 2 ^ 30) (precisionHigh : precision.toInt < 2 ^ 30)
    (whole : has flags double = false) :
    NumberField dbl num base width precision flags (signs flags num ++ mark flags base)
      (numeral flags base.toNat (magnitude flags num)) := by
  have kind : has (kept flags) double = false := by rw [has_kept (by rfl), whole]
  obtain ⟨word, abs, value, sign⟩ := @signOf_word dbl num (kept flags) kind
  rw [magnitude_kept] at value
  rw [signs_kept] at sign
  have tmp : Vsprintf.digits dbl (signOf dbl (num.setWidth 64) (kept flags)).2 base (kept flags) =
      (numeral flags base.toNat (magnitude flags num)).reverse := by
    rw [abs, digits_numeral two few kind, value, numeral_kept]
  have short : (numeral flags base.toNat (magnitude flags num)).length ≤ 32 :=
    digits_length two _ (by rw [← value]; exact word.isLt)
  refine ⟨?_, field_length, tmp, short.trans (by omega)⟩
  have one := @signs_length num flags
  have marks := @mark_length base flags
  rw [number_laid (valid_base two few), tmp, sign, mark_kept,
    laid_field kept_masked widthLow widthHigh precisionHigh ?_ ?_, field_kept, List.reverse_reverse]
  · rw [List.length_append]
    omega
  · rw [List.length_reverse]
    omega

end Fields

/-! `%s` and `%c`. -/

section Content

variable {count width precision flags s i : U32} {args : List U32} {mem : Memory} {chars : List U8}

theorem strlenFrom_string (string : Strings.StringAt mem (s + i) chars) (turns : Nat) (enough : chars.length < turns) :
    strlenFrom mem s turns i = .ok (i + BitVec.ofNat 32 chars.length) := by
  induction chars generalizing i turns with
  | nil =>
    obtain ⟨fewer, rfl⟩ := Nat.exists_eq_add_of_lt enough
    rw [strlenFrom, if_pos (show mem (s + i) = 0 from string), List.length_nil]
    exact congrArg _ (BitVec.add_zero i).symm
  | cons c chars ih =>
    obtain ⟨fewer, rfl⟩ := Nat.exists_eq_add_of_lt enough
    obtain ⟨here, some, rest⟩ := string
    rw [List.length_cons] at enough ⊢
    have next : Strings.StringAt mem (s + (i + 1)) chars := by
      rw [← BitVec.add_assoc]
      exact rest
    have nonzero : ¬ mem (s + i) = 0 := by
      rw [here]
      exact some
    rw [strlenFrom, if_neg nonzero, ih next _ (by omega)]
    exact congrArg _ (by rw [BitVec.add_assoc, Nat.add_comm, BitVec.ofNat_add]; rfl)

theorem strlen_string (string : Strings.StringAt mem s chars) :
    strlen mem s = .ok (BitVec.ofNat 32 chars.length) := by
  have start : Strings.StringAt mem (s + 0) chars := by
    rw [show s + 0 = s from BitVec.add_zero s]
    exact string
  unfold strlen
  rw [strlenFrom_string start _ string.short]
  exact congrArg _ (BitVec.zero_add _)

theorem stringBytes_string (string : Strings.StringAt mem s chars) {n : Nat} (within : n ≤ chars.length)
    (small : n < 2 ^ 31) : stringBytes mem s (BitVec.ofNat 32 n) = chars.take n := by
  have long : (BitVec.ofNat 32 n).toNat = n := by
    rw [BitVec.toNat_ofNat]
    exact Nat.mod_eq_of_lt (by omega)
  unfold stringBytes
  split
  next some =>
    rw [long]
    apply List.ext_getElem
    · rw [List.length_map, List.length_range, List.length_take, Nat.min_eq_left within]
    · intro j below _
      rw [List.length_map, List.length_range] at below
      rw [List.getElem_map, List.getElem_range, List.getElem_take]
      exact string.get (by omega)
  next none =>
    have nothing : ¬ 0 < n := fun positive => none (slt_iff.mpr (by
      rw [toInt_length small]
      exact Int.natCast_pos.mpr positive))
    rw [Nat.eq_zero_of_not_pos nothing, List.take_zero]

/-- What `while (len < count--)` leaves from a length that is not below 0. -/
theorem spent_below {len : U32} (nonneg : 0 ≤ len.toInt) (room : -2 ^ 31 < count.toInt) :
    (whileBelow len count).2.toInt < len.toInt := by
  have high := @BitVec.toInt_lt 32 len
  rw [whileBelow_rest, decremented, decremented]
  split <;> split <;> omega

/-- The bytes of a string argument that its precision leaves. -/
def truncated (precision : Int) (chars : List U8) : List U8 :=
  if precision < 0 then chars else chars.take precision.toNat

theorem convString_padded (string : Strings.StringAt mem s chars) (countable : chars.length < 2 ^ 31)
    (room : -2 ^ 31 < width.toInt) :
    convString flags width precision (s :: args) mem =
      .ok ⟨padded flags width.toInt (truncated precision.toInt chars), args, mem⟩ := by
  have exactly : (BitVec.ofNat 32 chars.length).toInt = chars.length := toInt_length countable
  have zero : (0 : U32).toInt = 0 := rfl
  obtain ⟨n, within, len, content⟩ : ∃ n, n ≤ chars.length ∧
      (if precision.slt 0 then BitVec.ofNat 32 chars.length
        else if precision.slt (BitVec.ofNat 32 chars.length) then precision
        else BitVec.ofNat 32 chars.length) = BitVec.ofNat 32 n ∧
      truncated precision.toInt chars = chars.take n := by
    unfold truncated
    by_cases none : precision.toInt < 0
    · refine ⟨chars.length, le_rfl, if_pos (slt_iff.mpr (by rw [zero]; exact none)), ?_⟩
      rw [if_pos none, List.take_length]
    · rw [if_neg none, if_neg fun less => none (by rw [← zero]; exact slt_iff.mp less)]
      by_cases less : precision.toInt < chars.length
      · refine ⟨precision.toInt.toNat, by omega, ?_, rfl⟩
        rw [if_pos (slt_iff.mpr (by rw [exactly]; exact less)), ← toNat_of_nonneg (by omega)]
        exact (BitVec.ofNat_toNat 32 precision).trans (BitVec.setWidth_eq precision) |>.symm
      · refine ⟨chars.length, le_rfl, if_neg fun short => less (by rw [← exactly]; exact slt_iff.mp short), ?_⟩
        rw [List.take_length, List.take_of_length_le (by omega)]
  have counted : (BitVec.ofNat 32 n).toInt = n := toInt_length (by omega)
  have turns := @whileBelow_turns width (BitVec.ofNat 32 n)
  have below := @spent_below width (BitVec.ofNat 32 n) (by omega) room
  have finished := @whileBelow_turns (whileBelow (BitVec.ofNat 32 n) width).2 (BitVec.ofNat 32 n)
  rw [counted] at turns finished below
  unfold convString padded
  rw [content, List.length_take, Nat.min_eq_left within]
  simp only [vaArg, ok_bind, strlen_string string, len, stringBytes_string string within (by omega), pure,
    Except.pure]
  cases has flags left
  · have ended : (whileBelow (BitVec.ofNat 32 n) (whileBelow (BitVec.ofNat 32 n) width).2).1 = 0 := by
      rw [finished]
      omega
    simp [turns, ended]
  · simp [turns]

theorem whilePositive_turns (room : -2 ^ 31 < count.toInt) :
    (whilePositive count).1 = (count.toInt - 1).toNat ∧
      (whilePositive count).2.toInt = if 1 < count.toInt then 0 else count.toInt - 1 := by
  have fewer : (count - 1).toInt = count.toInt - 1 := by
    rw [decremented, if_neg room.ne']
  rw [whilePositive_eq.1, whilePositive_eq.2, fewer]
  refine ⟨rfl, ?_⟩
  split <;> omega

theorem convChar_padded {c : U32} (room : -2 ^ 31 + 1 < width.toInt) :
    convChar flags width (c :: args) mem = .ok ⟨padded flags width.toInt [c.setWidth 8], args, mem⟩ := by
  obtain ⟨turns, left⟩ := @whilePositive_turns width (by omega)
  have later := (@whilePositive_turns (whilePositive width).2 (by rw [left]; split <;> omega)).1
  unfold convChar padded
  rw [List.length_singleton]
  simp only [vaArg, ok_bind, pure, Except.pure]
  cases has flags Vsprintf.left
  · have ended : (whilePositive (whilePositive width).2).1 = 0 := by
      rw [later, left]
      split <;> omega
    simp [turns, ended]
  · simp [turns]

end Content

/-- The layout and the value of a number, and of the content of `%s` and `%c`. -/
theorem field_layout :
    (∀ (dbl : Doubles) (num base width precision flags : U32), 2 ≤ base.toNat → base.toNat ≤ 36 →
      -1 ≤ width.toInt → width.toInt < 2 ^ 30 → -1 ≤ precision.toInt → precision.toInt < 2 ^ 30 →
      has flags double = false →
      NumberField dbl num base width precision flags (signs flags num ++ mark flags base)
        (numeral flags base.toNat (magnitude flags num))) ∧
    (∀ (dbl : Doubles) (length : Nat) (width precision flags s : U32) (chars : List U8) (args : List U32)
      (mem : Memory), Strings.StringAt mem s chars → chars.length < 2 ^ 31 →
      -1 ≤ width.toInt → width.toInt < 2 ^ 30 → -1 ≤ precision.toInt → precision.toInt < 2 ^ 30 →
      convert dbl length flags width precision (ascii 's') (s :: args) mem =
        .ok ⟨padded flags width.toInt (truncated precision.toInt chars), args, mem⟩ ∧
      ((padded flags width.toInt (truncated precision.toInt chars)).length : Int) =
        max width.toInt (truncated precision.toInt chars).length) ∧
    (∀ (dbl : Doubles) (length : Nat) (width precision flags c : U32) (args : List U32) (mem : Memory),
      -1 ≤ width.toInt → width.toInt < 2 ^ 30 →
      convert dbl length flags width precision (ascii 'c') (c :: args) mem =
        .ok ⟨padded flags width.toInt [c.setWidth 8], args, mem⟩ ∧
      ((padded flags width.toInt [c.setWidth 8]).length : Int) = max width.toInt 1) := by
  refine ⟨?_, ?_, ?_⟩
  · intro dbl num base width precision flags two few widthLow widthHigh precisionLow precisionHigh whole
    exact number_field two few widthLow widthHigh precisionHigh whole
  · intro dbl length width precision flags s chars args mem string countable widthLow _ _ _
    exact ⟨convString_padded string countable (by omega), padded_length⟩
  · intro dbl length width precision flags c args mem widthLow _
    exact ⟨convChar_padded (by omega), padded_length⟩

/-- `%014d` of the most negative value, `%-6.1s` of `ab` and `%3c` of `z`. -/
theorem field_layout_samples :
    number plainDoubles ((0x80000000 : U32).setWidth 64) 10 14 (-1) (sign ||| zeropad) =
      .ok ("-0002147483648".toList.map ascii) ∧
    convert plainDoubles 0 left 6 1 (ascii 's') [0x1000] Strings.abMemory.bytes =
      .ok ⟨"a     ".toList.map ascii, [], Strings.abMemory.bytes⟩ ∧
    convert plainDoubles 0 0 3 (-1) (ascii 'c') [122] Strings.abMemory.bytes =
      .ok ⟨"  z".toList.map ascii, [], Strings.abMemory.bytes⟩ := by
  obtain ⟨numbers, strings, chars⟩ := field_layout
  have minus := (numbers plainDoubles 0x80000000 10 14 (-1) (sign ||| zeropad) (by decide) (by decide) (by decide)
    (by decide) (by decide) (by decide) (by decide)).text
  have content := (strings plainDoubles 0 6 1 left 0x1000 [0x61, 0x62] [] Strings.abMemory.bytes
    Strings.abMemory_string (by decide) (by decide) (by decide) (by decide) (by decide)).1
  have single := (chars plainDoubles 0 3 (-1) 0 122 [] Strings.abMemory.bytes (by decide) (by decide)).1
  exact ⟨minus.trans (congrArg _ (by decide)), content.trans (by rfl), single.trans (by rfl)⟩

end LiziOS.Vsprintf
