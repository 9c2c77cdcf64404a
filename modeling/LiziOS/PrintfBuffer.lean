import LiziOS.NumberField

namespace LiziOS.Vsprintf

/-! The buffer of `printf` against the sizes of the fields that a format puts into it. -/

/-- The offsets in `buf` to which a call with this output has stored: those of the bytes and of the NUL behind
    them. The separator that `str--` takes back stood where the next byte or the NUL is stored. -/
def stored (text : List U8) : List Nat := List.range (text.length + 1)

/-- No byte beyond the 1024 bytes of `buf` is written. -/
def InBuffer (text : List U8) : Prop := ∀ offset ∈ stored text, offset < 1024

/-- `console_print_str`: the call of `vsprintf` that it makes. -/
def consolePrintStr (dbl : Doubles) (fuel : Nat) (str : U32) (mem : Memory) : Except Fault Result :=
  vsprintf dbl fuel [ascii '%', ascii 's'] [str] mem

/-! The sizes, from the format and the arguments alone. A width near the least integer, which only a `*` or a
    number that overflows can give, is counted down past it and on from the greatest one. -/

def digitCount (base n : Nat) : Nat := max 1 (Nat.digits base n).length

def fieldSize (flags : U32) (width precision : Int) (front digits : Nat) : Nat :=
  let used := front + max precision digits
  let loops := if has flags left then 0 else if has flags zeropad then 1 else 2
  if width - used - loops < -2 ^ 31 then 2 ^ 31 else (max width used).toNat

def numberSize (dbl : Doubles) (num : U64) (base width precision flags : U32) : Nat :=
  let word := num.setWidth 32
  let negative := if has flags double then dbl.negative num else has flags sign && decide (word.toInt < 0)
  let digits := if has flags double then
      7 + digitCount base.toNat (dbl.whole (if negative then dbl.negate num else num)).toNat
    else digitCount base.toNat (magnitude flags word)
  let front := (if negative || has flags plus || has flags space then 1 else 0) + (mark flags base).length
  fieldSize flags width.toInt precision.toInt front digits

def charSize (flags : U32) (width : Int) : Nat :=
  if width - (if has flags left then 1 else 2) < -2 ^ 31 then 2 ^ 31 else (max width 1).toNat

def stringSize (flags : U32) (width precision len : Int) : Nat :=
  let taken := if precision < 0 then len else min precision len
  if !has flags left && (width = -2 ^ 31 || taken = -2 ^ 31 && taken < width) then 2 ^ 31
  else (width - taken).toNat + taken.toNat

/-- What a directive takes of the buffer, and the arguments and the memory behind it. -/
structure Sized where
  size : Nat
  args : List U32
  mem : Memory

def numberSized (dbl : Doubles) (base flags width precision : U32) (args : List U32) (mem : Memory) :
    Except Fault Sized := do
  let (num, args) ← vaArg args
  pure ⟨numberSize dbl (num.setWidth 64) base width precision flags, args, mem⟩

def bytesSized (dbl : Doubles) (base width precision flags : U32) (count : Nat) (args : List U32)
    (mem : Memory) : Except Fault Sized := do
  let (ptr, args) ← vaArg args
  let sizes := (List.range count).map fun i =>
    numberSize dbl ((mem (ptr + BitVec.ofNat 32 i)).setWidth 64) base width precision flags
  pure ⟨sizes.sum + (count - 1), args, mem⟩

def convertSized (dbl : Doubles) (length : Nat) (flags width precision : U32) (conv : U8) (args : List U32)
    (mem : Memory) : Except Fault Sized :=
  if conv = ascii 'c' then do
    let (_, args) ← vaArg args
    pure ⟨charSize flags width.toInt, args, mem⟩
  else if conv = ascii 's' then do
    let (s, args) ← vaArg args
    let len ← strlen mem s
    pure ⟨stringSize flags width.toInt precision.toInt len.toInt, args, mem⟩
  else if conv = ascii 'o' then numberSized dbl 8 flags width precision args mem
  else if conv = ascii 'p' then
    if width = -1 then numberSized dbl 16 (flags ||| zeropad) 8 precision args mem
    else numberSized dbl 16 flags width precision args mem
  else if conv = ascii 'x' then numberSized dbl 16 (flags ||| small) width precision args mem
  else if conv = ascii 'X' then numberSized dbl 16 flags width precision args mem
  else if conv = ascii 'd' || conv = ascii 'i' then numberSized dbl 10 (flags ||| sign) width precision args mem
  else if conv = ascii 'u' then numberSized dbl 10 flags width precision args mem
  else if conv = ascii 'n' then do
    let (ip, args) ← vaArg args
    pure ⟨0, args, writeInt mem ip (BitVec.ofNat 32 length)⟩
  else if conv = ascii 'f' then do
    let (num, args) ← vaDouble args
    pure ⟨numberSize dbl num 10 width precision (flags ||| sign ||| double), args, mem⟩
  else if conv = ascii 'b' then numberSized dbl 2 flags width precision args mem
  else if conv = ascii 'm' then bytesSized dbl 16 2 precision (flags ||| (small ||| zeropad)) 6 args mem
  else if conv = ascii 'r' then bytesSized dbl 10 width precision (flags ||| small) 4 args mem
  else .ok ⟨(if conv ≠ ascii '%' then 1 else 0) + (if conv ≠ 0 then 1 else 0), args, mem⟩

/-- The size of what stands in front of `fmt`: a literal or a directive. -/
def turnSized (dbl : Doubles) (length : Nat) (fmt : Fmt) (args : List U32) (mem : Memory) :
    Except Fault (Fmt × Sized) := do
  if fmt.deref ≠ ascii '%' then
    let fmt ← fmt.advance
    pure (fmt, ⟨1, args, mem⟩)
  else
    let fmt ← fmt.advance
    let (fmt, flags) := scanFlags fmt.passed fmt.rest 0
    let (fmt, flags, width, args) ← scanWidth fmt flags args
    let (fmt, precision, args) ← scanPrecision fmt args
    let fmt ← scanQualifier fmt
    let sized ← convertSized dbl length flags width precision fmt.deref args mem
    let fmt ← endTurn fmt
    pure (fmt, sized)

/-- The sum of the sizes. -/
def formatSize (dbl : Doubles) : Nat → Nat → Fmt → List U32 → Memory → Except Fault Nat
  | 0, _, _, _, _ => .error .outOfFuel
  | fuel + 1, length, fmt, args, mem =>
    if fmt.deref = 0 then .ok 0
    else do
      let (next, sized) ← turnSized dbl length fmt args mem
      let others ← formatSize dbl fuel (length + sized.size) next sized.args sized.mem
      pure (sized.size + others)

/-- The literals and the fields of the format take 1023 bytes at most. -/
def Fits (dbl : Doubles) (fuel : Nat) (fmt : List U8) (args : List U32) (mem : Memory) : Prop :=
  ∃ size, formatSize dbl fuel 0 ⟨[], fmt⟩ args mem = .ok size ∧ size ≤ 1023

/-- Two lengths agree, or neither fits. -/
def Near (a b : Nat) : Prop := a = b ∨ 1023 < a ∧ 1023 < b

theorem Near.refl (a : Nat) : Near a a := .inl rfl

theorem Near.add {a b c d : Nat} (first : Near a b) (second : Near c d) : Near (a + c) (b + d) := by
  unfold Near at *
  omega

section Laid

variable {flags size precision count : U32} {front tmp : List U8}

theorem difference_wraps {a b : U32} : (a - b).toInt = a.toInt - b.toInt ∨
    (a - b).toInt = a.toInt - b.toInt + 2 ^ 32 ∨ (a - b).toInt = a.toInt - b.toInt - 2 ^ 32 := by
  rw [BitVec.toInt_sub, Int.bmod_def]
  have low := @BitVec.le_toInt 32 a
  have high := @BitVec.toInt_lt 32 a
  have low' := @BitVec.le_toInt 32 b
  have high' := @BitVec.toInt_lt 32 b
  split <;> omega

/-- Two loops over one count: a count of the least integer goes round. -/
theorem two_loops : (whileBelow 0#32 count).1 + (whileBelow 0#32 (whileBelow 0#32 count).2).1 =
    if count.toInt = -2 ^ 31 then 2 ^ 31 - 1 else count.toInt.toNat := by
  rw [turns_eq, turns_eq, whileBelow_wraps]
  split
  next positive => rw [if_neg (by omega)]; omega
  next least => split <;> omega

theorem three_loops : (whileBelow 0#32 count).1 + (whileBelow 0#32 (whileBelow 0#32 count).2).1 +
      (whileBelow 0#32 (whileBelow 0#32 (whileBelow 0#32 count).2).2).1 =
    if count.toInt ≤ -2 ^ 31 + 1 then 2 ^ 31 - 1 else count.toInt.toNat := by
  have low := @BitVec.le_toInt 32 count
  have later := @two_loops (whileBelow 0#32 count).2
  rw [Nat.add_assoc, later, turns_eq, whileBelow_wraps]
  by_cases positive : 0 < count.toInt
  · rw [if_pos positive, if_neg (by decide), if_neg (by omega)]
    omega
  · rw [if_neg positive]
    by_cases least : count.toInt = -2 ^ 31
    · rw [if_pos least, if_neg (by decide), if_pos (by omega)]
      omega
    · rw [if_neg least]
      by_cases next : count.toInt = -2 ^ 31 + 1
      · rw [if_pos (by omega), if_pos (by omega)]
        omega
      · rw [if_neg (by omega), if_neg (by omega)]
        omega

/-- A number that does not fit needs no field; for the others the width alone decides whether the count wraps. -/
theorem near_padded {size used rest l : Int} {pads : Nat} (least : -2 ^ 31 ≤ size) (low : -2 ^ 31 ≤ rest)
    (content : 0 ≤ used) (some : 0 ≤ l) (atMost : l ≤ 2)
    (counted : used ≤ 1023 → rest = if size - used < -2 ^ 31 then size - used + 2 ^ 32 else size - used)
    (padded : pads = if rest < -2 ^ 31 + l then 2 ^ 31 - 1 else rest.toNat) :
    Near (pads + used.toNat) (if size - used - l < -2 ^ 31 then 2 ^ 31 else (max size used).toNat) := by
  unfold Near
  by_cases small : used ≤ 1023
  · have exactly := counted small
    split at exactly <;> split at padded <;> split <;> omega
  · split <;> omega

theorem laid_size (masked : has flags left = true → has flags zeropad = false) (short : front.length ≤ 3)
    (few : tmp.length ≤ 40) :
    Near (laid flags size precision front tmp).length
      (fieldSize flags size.toInt precision.toInt front.length tmp.length) := by
  have count : (BitVec.ofNat 32 tmp.length).toInt = tmp.length := toInt_length (by omega)
  have fronts : (BitVec.ofNat 32 front.length).toInt = front.length := toInt_length (by omega)
  have low := @BitVec.le_toInt 32 size
  have high := @BitVec.toInt_lt 32 size
  unfold laid
  dsimp only
  have wide := @widened precision (BitVec.ofNat 32 tmp.length)
  generalize (if precision.slt (BitVec.ofNat 32 tmp.length) then BitVec.ofNat 32 tmp.length else precision) =
    digits at wide
  rw [count] at wide
  have zeros : (whileBelow (BitVec.ofNat 32 tmp.length) digits).1 + tmp.length = digits.toInt.toNat := by
    rw [whileBelow_turns, count]
    omega
  have first := @difference_wraps size (BitVec.ofNat 32 front.length)
  rw [fronts] at first
  generalize size - BitVec.ofNat 32 front.length = signless at first
  have second := @difference_wraps signless digits
  generalize signless - digits = rest at second
  have low' := @BitVec.le_toInt 32 rest
  have high' := @BitVec.toInt_lt 32 rest
  obtain ⟨used, sum⟩ : ∃ used : Int, used = front.length + max precision.toInt tmp.length := ⟨_, rfl⟩
  have content : 0 ≤ used := by omega
  have counted : used ≤ 1023 → rest.toInt =
      if size.toInt - used < -2 ^ 31 then size.toInt - used + 2 ^ 32 else size.toInt - used := by
    intro small
    split <;> omega
  have two := @two_loops rest
  have three := @three_loops rest
  rw [has_both (by rfl)]
  unfold fieldSize
  rw [← sum]
  cases isLeft : has flags left
  · cases isZero : has flags zeropad
    · have near := near_padded low low' content (l := 2) (by decide) (by decide) counted
        (three.trans (by split <;> split <;> omega))
      simp only [BitVec.ofNat_eq_ofNat, Bool.or_false, Bool.not_false, ↓reduceIte, List.length_append,
        List.length_replicate, List.length_reverse, Bool.false_eq_true]
      refine cast (congrArg (Near · _) ?_) near
      omega
    · have near := near_padded low low' content (l := 1) (by decide) (by decide) counted
        (two.trans (by split <;> split <;> omega))
      simp only [BitVec.ofNat_eq_ofNat, Bool.or_false, Bool.not_false, ↓reduceIte, List.length_append,
        List.length_replicate, List.length_reverse, Bool.false_eq_true, Bool.not_true]
      refine cast (congrArg (Near · _) ?_) near
      omega
  · have near := near_padded low low' content (l := 0) (by decide) (by decide) counted
      ((@turns_eq rest).trans (by split <;> omega))
    simp only [masked isLeft, BitVec.ofNat_eq_ofNat, Bool.or_true, Bool.not_true, ↓reduceIte,
      List.length_append, List.length_replicate, List.length_reverse, Bool.false_eq_true]
    refine cast (congrArg (Near · _) ?_) near
    omega

end Laid

/-! The numbers. -/

section Numbers

variable {dbl : Doubles} {num : U64} {word base width precision flags : U32}

theorem numeral_count {n : Nat} : (numeral flags base.toNat n).length = digitCount base.toNat n := by
  unfold numeral digitCount
  rw [List.length_reverse, List.length_map]
  split
  next zero => rw [zero, Nat.digits_zero]; rfl
  next some =>
    have nonempty : Nat.digits base.toNat n ≠ [] := Nat.digits_ne_nil_iff_ne_zero.mpr some
    exact (Nat.max_eq_right (List.length_pos_iff.mpr nonempty)).symm

theorem mantissa_length (mantissa : Nat) (fval : U32) :
    (mantissaDigits flags base mantissa fval).length = mantissa := by
  induction mantissa generalizing fval with
  | zero => rfl
  | succ mantissa ih => rw [mantissaDigits, List.length_cons, ih]

/-- Six digits behind the point, the point, and those before it. -/
theorem real_length (two : 2 ≤ base.toNat) (few : base.toNat ≤ 36) (real : has flags double = true) :
    (digits dbl num base flags).length = 7 + digitCount base.toNat (dbl.whole num).toNat := by
  have smaller : (dbl.whole num / base).toNat < 2 ^ 32 := (dbl.whole num / base).isLt
  unfold digits
  rw [if_pos real, List.length_append, mantissa_length, List.length_cons, List.length_cons,
    wordDigits_eq two few 32 _ smaller, List.length_map, BitVec.toNat_udiv]
  unfold digitCount
  rcases Nat.eq_zero_or_pos (dbl.whole num).toNat with zero | positive
  · rw [zero, Nat.zero_div, Nat.digits_zero]
    rfl
  · rw [Nat.digits_def' two positive, List.length_cons]
    omega

theorem signed_real (real : has flags double = true) :
    (signed dbl num flags).length = (if dbl.negative num || has flags plus || has flags space then 1 else 0) ∧
      (signOf dbl num flags).2 = if dbl.negative num then dbl.negate num else num := by
  unfold signed signOf
  rw [real]
  cases dbl.negative num <;> cases has flags plus <;> cases has flags space <;> simp [ascii]

theorem signs_count : (signs flags word).length =
    if (has flags sign && decide (word.toInt < 0)) || has flags plus || has flags space then 1 else 0 := by
  unfold signs
  cases has flags sign && decide (word.toInt < 0) <;> cases has flags plus <;> cases has flags space <;> rfl

theorem fieldSize_kept {width precision : Int} {front digits : Nat} :
    fieldSize (kept flags) width precision front digits = fieldSize flags width precision front digits := by
  unfold fieldSize
  rw [has_kept (by rfl), has_kept_zeropad]
  cases has flags left <;> simp

theorem digitCount_le (two : 2 ≤ base.toNat) {n : Nat} (word : n < 2 ^ 32) : digitCount base.toNat n ≤ 32 := by
  rw [← @numeral_count base 0]
  exact digits_length two n word

theorem real_size (two : 2 ≤ base.toNat) (few : base.toNat ≤ 36) (real : has flags double = true) :
    ∃ text, number dbl num base width precision flags = .ok text ∧
      Near text.length (numberSize dbl num base width precision flags) := by
  have kind : has (kept flags) double = true := by rw [has_kept (by rfl), real]
  obtain ⟨signLength, absolute⟩ := @signed_real dbl num (kept flags) kind
  rw [has_kept (by rfl), has_kept (by rfl)] at signLength
  refine ⟨_, number_laid (valid_base two few), ?_⟩
  have tmp := @real_length dbl (signOf dbl num (kept flags)).2 base (kept flags) two few kind
  rw [absolute] at tmp ⊢
  have most := digitCount_le two (dbl.whole (if dbl.negative num then dbl.negate num else num)).isLt
  have marks := @mark_length base flags
  have front : (signed dbl num (kept flags) ++ mark (kept flags) base).length =
      (if dbl.negative num || has flags plus || has flags space then 1 else 0) + (mark flags base).length := by
    rw [List.length_append, signLength, mark_kept]
  have near := @laid_size (kept flags) width precision (signed dbl num (kept flags) ++ mark (kept flags) base)
    (digits dbl (if dbl.negative num then dbl.negate num else num) base (kept flags)) kept_masked
    (by rw [front]; split <;> omega) (by omega)
  rw [front, tmp, fieldSize_kept] at near
  unfold numberSize
  simp only [real, ↓reduceIte]
  exact near

theorem word_size (two : 2 ≤ base.toNat) (few : base.toNat ≤ 36) (whole : has flags double = false) :
    ∃ text, number dbl (word.setWidth 64) base width precision flags = .ok text ∧
      Near text.length (numberSize dbl (word.setWidth 64) base width precision flags) := by
  have low : (word.setWidth 64 : U64).setWidth 32 = word := by
    apply BitVec.eq_of_toNat_eq
    simp
  have kind : has (kept flags) double = false := by rw [has_kept (by rfl), whole]
  obtain ⟨abs, absolute, value, sign⟩ := @signOf_word dbl word (kept flags) kind
  rw [magnitude_kept] at value
  rw [signs_kept] at sign
  have tmp : (digits dbl (abs.setWidth 64) base (kept flags)).length =
      digitCount base.toNat (magnitude flags word) := by
    rw [digits_numeral two few kind, List.length_reverse, numeral_count, value]
  have most := digitCount_le two (show magnitude flags word < 2 ^ 32 by rw [← value]; exact abs.isLt)
  have one := @signs_length word flags
  have marks := @mark_length base flags
  refine ⟨_, number_laid (valid_base two few), ?_⟩
  rw [absolute, sign, mark_kept]
  have near := @laid_size (kept flags) width precision (signs flags word ++ mark flags base)
    (digits dbl (abs.setWidth 64) base (kept flags)) kept_masked
    (by rw [List.length_append]; omega) (by omega)
  rw [List.length_append, signs_count, tmp, fieldSize_kept] at near
  unfold numberSize
  simp only [whole, low, Bool.false_eq_true, ↓reduceIte]
  exact near

theorem number_size (two : 2 ≤ base.toNat) (few : base.toNat ≤ 36) :
    ∃ text, number dbl (word.setWidth 64) base width precision flags = .ok text ∧
      Near text.length (numberSize dbl (word.setWidth 64) base width precision flags) := by
  cases kind : has flags double
  · exact word_size two few kind
  · exact real_size two few kind

end Numbers

/-! `%c` and `%s`. -/

section Content

variable {count bound width precision flags s : U32} {args : List U32} {mem : Memory} {out : Output}

theorem convChar_size (done : convChar flags width args mem = .ok out) :
    ∃ c, vaArg args = .ok (c, out.args) ∧ out.mem = mem ∧ Near out.text.length (charSize flags width.toInt) := by
  cases args with
  | nil =>
    unfold convChar at done
    cases isLeft : has flags left <;> rw [isLeft] at done <;> cases done
  | cons c args =>
    have low := @BitVec.le_toInt 32 width
    have once := @whilePositive_eq width
    have twice := (@whilePositive_eq (whilePositive width).2).1
    rw [decremented] at once twice
    unfold charSize Near
    simp only [convChar, vaArg, ok_bind, pure, Except.pure, Except.ok.injEq] at done
    subst done
    refine ⟨c, rfl, rfl, ?_⟩
    simp only [List.length_append, List.length_replicate, List.length_cons]
    cases has flags left
    · simp only [Bool.not_false, ↓reduceIte, Bool.false_eq_true]
      rw [once.1, twice, once.2]
      split <;> split <;> split <;> omega
    · simp only [Bool.not_true, ↓reduceIte, Bool.false_eq_true]
      rw [once.1]
      split <;> split <;> omega

theorem stringBytes_length {len : U32} : (stringBytes mem s len).length = len.toInt.toNat := by
  have zero : (0 : U32).toInt = 0 := rfl
  unfold stringBytes
  split
  next some =>
    have positive := slt_iff.mp some
    rw [zero] at positive
    rw [List.length_map, List.length_range, toNat_of_nonneg positive.le]
  next none =>
    have least : ¬ 0 < len.toInt := fun less => none (slt_iff.mpr (by rw [zero]; exact less))
    exact (Int.toNat_of_nonpos (by omega)).symm

theorem convString_size (done : convString flags width precision args mem = .ok out) :
    ∃ s len, vaArg args = .ok (s, out.args) ∧ strlen mem s = .ok len ∧ out.mem = mem ∧
      Near out.text.length (stringSize flags width.toInt precision.toInt len.toInt) := by
  cases args with
  | nil => cases done
  | cons s args =>
    unfold convString at done
    simp only [vaArg, ok_bind] at done
    cases counted : strlen mem s with
    | error fault =>
      rw [counted] at done
      cases done
    | ok len =>
      have taken : (if precision.slt 0 then len else if precision.slt len then precision else len).toInt =
          if precision.toInt < 0 then len.toInt else min precision.toInt len.toInt := by
        have zero : (0 : U32).toInt = 0 := rfl
        by_cases none : precision.toInt < 0
        · rw [if_pos (slt_iff.mpr (by rw [zero]; exact none)), if_pos none]
        · rw [if_neg fun less => none (by rw [← zero]; exact slt_iff.mp less), if_neg none]
          by_cases less : precision.toInt < len.toInt
          · rw [if_pos (slt_iff.mpr less), min_eq_left less.le]
          · rw [if_neg fun short => less (slt_iff.mp short), min_eq_right (not_lt.mp less)]
      simp only [counted, ok_bind, pure, Except.pure, Except.ok.injEq] at done
      subst done
      refine ⟨s, len, rfl, counted, rfl, ?_⟩
      unfold stringSize Near
      dsimp only
      rw [← taken]
      generalize (if precision.slt 0 then len else if precision.slt len then precision else len) = content
      have low := @BitVec.le_toInt 32 content
      have low' := @BitVec.le_toInt 32 width
      have high := @BitVec.toInt_lt 32 width
      have high' := @BitVec.toInt_lt 32 content
      have once := @whileBelow_turns width content
      have rest := @whileBelow_rest width content
      have twice := @whileBelow_turns (whileBelow content width).2 content
      rw [decremented, decremented] at rest
      simp only [List.length_append, List.length_replicate, stringBytes_length]
      cases has flags left
      · simp only [Bool.not_false, ↓reduceIte, Bool.true_and, Bool.or_eq_true, Bool.and_eq_true, decide_eq_true_eq]
        rw [once, twice, rest]
        split <;> split <;> split <;> omega
      · simp only [Bool.not_true, ↓reduceIte, Bool.false_and, Bool.false_eq_true]
        rw [once]
        omega

end Content

/-! The conversions, the turns and the whole format. -/

/-- What is put out behind a fault-free step is measured by the sizes. -/
def Measured (outcome : Except Fault Output) (sized : Except Fault Sized) : Prop :=
  ∀ out, outcome = .ok out → ∃ n, sized = .ok ⟨n, out.args, out.mem⟩ ∧ Near out.text.length n

section Format

variable {dbl : Doubles} {fuel length : Nat} {width precision flags base ptr : U32} {conv separator : U8}
  {fmt : Fmt} {args : List U32} {mem : Memory}

theorem Measured.ite {c : Prop} [Decidable c] {a a' : Except Fault Output} {b b' : Except Fault Sized}
    (first : Measured a b) (second : Measured a' b') :
    Measured (if c then a else a') (if c then b else b') := by
  split
  · exact first
  · exact second

theorem convNumber_measured (two : 2 ≤ base.toNat) (few : base.toNat ≤ 36) :
    Measured (convNumber dbl base flags width precision args mem)
      (numberSized dbl base flags width precision args mem) := by
  intro out done
  cases args with
  | nil => cases done
  | cons num args =>
    obtain ⟨text, made, near⟩ := @number_size dbl num base width precision flags two few
    simp only [convNumber, vaArg, ok_bind, made, pure, Except.pure, Except.ok.injEq] at done
    subst done
    exact ⟨_, rfl, near⟩

theorem numbers_size (two : 2 ≤ base.toNat) (few : base.toNat ≤ 36) (count : Nat) :
    ∃ text, numbers dbl base width precision flags separator mem ptr count = .ok text ∧
      Near text.length (((List.range count).map fun i =>
        numberSize dbl ((mem (ptr + BitVec.ofNat 32 i)).setWidth 64) base width precision flags).sum +
          (count - 1)) := by
  induction count generalizing ptr with
  | zero => exact ⟨[], rfl, Near.refl 0⟩
  | succ count ih =>
    obtain ⟨others, rest, near⟩ := @ih (ptr + 1)
    obtain ⟨text, made, near'⟩ := @number_size dbl ((mem ptr).setWidth 32) base width precision flags two few
    have widened (b : U8) : (b.setWidth 32 : U32).setWidth 64 = b.setWidth 64 := by
      apply BitVec.eq_of_toNat_eq
      simp only [BitVec.toNat_setWidth]
      omega
    have next (i : Nat) : ptr + BitVec.ofNat 32 (i + 1) = ptr + 1 + BitVec.ofNat 32 i := by
      rw [BitVec.add_assoc, Nat.add_comm, BitVec.ofNat_add]
      rfl
    rw [widened] at made near'
    rw [numbers, made, ok_bind, rest, ok_bind]
    refine ⟨_, rfl, ?_⟩
    rw [List.range_succ_eq_map, List.map_cons, List.sum_cons, List.map_map, Nat.add_sub_cancel,
      show ptr + BitVec.ofNat 32 0 = ptr from BitVec.add_zero ptr, Nat.add_assoc, List.length_append]
    refine near'.add ?_
    simp only [Function.comp_def, Nat.succ_eq_add_one, next]
    cases count with
    | zero => exact Near.refl 0
    | succ count =>
      have both := near.add (Near.refl 1)
      rw [if_neg (Nat.succ_ne_zero count), List.length_cons]
      rw [Nat.add_sub_cancel, Nat.add_assoc] at both
      exact both

theorem has_set {flag : U32} (bit : flag ≠ 0) : has (flags ||| flag) flag = true := by
  have masked : (flags ||| flag) &&& flag = flag := by
    ext i
    simp only [BitVec.getElem_and, BitVec.getElem_or]
    cases flag[i] <;> simp
  unfold has
  rw [masked, bne_iff_ne]
  exact bit

theorem convert_measured :
    Measured (convert dbl length flags width precision conv args mem)
      (convertSized dbl length flags width precision conv args mem) := by
  have bytes {base width flags : U32} {separator : U8} {count : Nat} (two : 2 ≤ base.toNat)
      (few : base.toNat ≤ 36) : Measured (convBytes dbl base width precision flags separator count args mem)
        (bytesSized dbl base width precision flags count args mem) := by
    intro out done
    cases args with
    | nil => cases done
    | cons ptr args =>
      obtain ⟨text, made, near⟩ := @numbers_size dbl width precision flags base ptr separator mem two few count
      simp only [convBytes, vaArg, ok_bind, made, pure, Except.pure, Except.ok.injEq] at done
      subst done
      exact ⟨_, rfl, near⟩
  unfold convert convertSized
  refine .ite ?char (.ite ?string (.ite (convNumber_measured (by decide) (by decide)) (.ite (.ite
    (convNumber_measured (by decide) (by decide)) (convNumber_measured (by decide) (by decide))) (.ite
    (convNumber_measured (by decide) (by decide)) (.ite (convNumber_measured (by decide) (by decide)) (.ite
    (convNumber_measured (by decide) (by decide)) (.ite (convNumber_measured (by decide) (by decide)) (.ite
    ?count (.ite ?real (.ite (convNumber_measured (by decide) (by decide)) (.ite (bytes (by decide) (by decide)) (.ite
    (bytes (by decide) (by decide)) ?other))))))))))))
  case char =>
    intro out done
    obtain ⟨c, taken, memory, near⟩ := convChar_size done
    rw [taken, ok_bind]
    exact ⟨_, by rw [memory]; rfl, near⟩
  case string =>
    intro out done
    obtain ⟨s, len, taken, counted, memory, near⟩ := convString_size done
    rw [taken, ok_bind]
    dsimp only
    rw [counted, ok_bind]
    exact ⟨_, by rw [memory]; rfl, near⟩
  case count =>
    intro out done
    cases args with
    | nil => cases done
    | cons ip args =>
      cases done
      exact ⟨0, rfl, Near.refl 0⟩
  case real =>
    intro out done
    rcases args with _ | ⟨low, _ | ⟨high, args⟩⟩
    · cases done
    · cases done
    · obtain ⟨text, made, near⟩ := @real_size dbl (high ++ low) 10 width precision (flags ||| sign ||| double)
        (by decide) (by decide) (has_set (by decide))
      simp only [vaDouble, vaArg, ok_bind, pure, Except.pure, made, Except.ok.injEq] at done
      subst done
      exact ⟨_, rfl, near⟩
  case other =>
    intro out done
    cases done
    refine ⟨_, rfl, .inl ?_⟩
    rw [List.length_append]
    congr 1 <;> split <;> rfl

/-- What a sequence that comes to its end consists of. -/
theorem of_bind {α β : Type} {x : Except Fault α} {f : α → Except Fault β} {b : β} (done : (x >>= f) = .ok b) :
    ∃ a, x = .ok a ∧ f a = .ok b := by
  cases x with
  | error fault => cases done
  | ok a => exact ⟨a, rfl, done⟩

theorem turn_measured {next : Fmt} {out : Output} (done : turn dbl length fmt args mem = .ok (next, out)) :
    ∃ n, turnSized dbl length fmt args mem = .ok (next, ⟨n, out.args, out.mem⟩) ∧ Near out.text.length n := by
  unfold turn at done
  unfold turnSized
  by_cases directive : fmt.deref = ascii '%'
  · rw [if_neg (not_not.mpr directive)] at done ⊢
    obtain ⟨begun, advanced, done⟩ := of_bind done
    obtain ⟨wide, scanned, done⟩ := of_bind done
    obtain ⟨precise, scanned', done⟩ := of_bind done
    obtain ⟨last, qualified, done⟩ := of_bind done
    obtain ⟨piece, converted, done⟩ := of_bind done
    obtain ⟨behind, ended, done⟩ := of_bind done
    obtain ⟨n, sized, near⟩ := convert_measured piece converted
    cases done
    refine ⟨n, ?_, near⟩
    rw [advanced, ok_bind]
    dsimp only
    rw [scanned, ok_bind, scanned', ok_bind, qualified, ok_bind, sized, ok_bind, ended]
    rfl
  · rw [if_pos directive] at done ⊢
    obtain ⟨behind, advanced, done⟩ := of_bind done
    cases done
    rw [advanced]
    exact ⟨1, rfl, Near.refl 1⟩

theorem format_measured {pieces : List (List U8)} {out : Output}
    (done : format dbl fuel length fmt args mem = .ok (pieces, out)) :
    formatSize dbl fuel length fmt args mem = .ok out.text.length ∨
      (1023 < out.text.length ∧ ∀ n, formatSize dbl fuel length fmt args mem = .ok n → 1023 < n) := by
  induction fuel generalizing length fmt args mem pieces out with
  | zero => cases done
  | succ fuel ih =>
    rw [format] at done
    rw [formatSize]
    by_cases ended : fmt.deref = 0
    · rw [if_pos ended] at done ⊢
      cases done
      exact .inl rfl
    · rw [if_neg ended] at done ⊢
      obtain ⟨⟨next, piece⟩, turned, done⟩ := of_bind done
      obtain ⟨⟨pieces, others⟩, rest, done⟩ := of_bind done
      obtain ⟨n, sized, near⟩ := turn_measured turned
      cases done
      dsimp only at rest ⊢
      rw [sized, ok_bind, List.length_append]
      dsimp only
      rcases near with rfl | ⟨large, large'⟩
      · rcases ih rest with exactly | ⟨large, all⟩
        · rw [exactly]
          exact .inl rfl
        · refine .inr ⟨by omega, fun m sum => ?_⟩
          obtain ⟨k, behind, sum⟩ := of_bind sum
          have more := all k behind
          cases sum
          omega
      · refine .inr ⟨by omega, fun m sum => ?_⟩
        obtain ⟨k, behind, sum⟩ := of_bind sum
        cases sum
        omega

theorem inBuffer_iff {text : List U8} : InBuffer text ↔ text.length ≤ 1023 := by
  constructor
  · intro inside
    have last := inside text.length (List.mem_range.mpr (Nat.lt_succ_self _))
    omega
  · intro short offset member
    have below := List.mem_range.mp member
    omega

theorem vsprintf_fits {fmt : List U8} {r : Result} (done : vsprintf dbl fuel fmt args mem = .ok r) :
    InBuffer r.text ↔ Fits dbl fuel fmt args mem := by
  obtain ⟨⟨pieces, out⟩, formatted, done⟩ := of_bind done
  cases done
  rw [inBuffer_iff]
  unfold Fits
  rcases format_measured formatted with exactly | ⟨large, all⟩
  · rw [exactly]
    constructor
    · exact fun short => ⟨_, rfl, short⟩
    · rintro ⟨size, same, short⟩
      cases same
      exact short
  · constructor
    · intro short
      exact absurd short (Nat.not_le.mpr large)
    · rintro ⟨size, sized, short⟩
      exact absurd short (Nat.not_le.mpr (all size sized))

/-- A string of almost 2^32 bytes has a length of almost 0 as an integer. -/
theorem consolePrintStr_fits {str : U32} {chars : List U8} (string : Strings.StringAt mem str chars) :
    ∃ r, consolePrintStr dbl 2 str mem = .ok r ∧
      (InBuffer r.text ↔ chars.length ≤ 1023 ∨ 2 ^ 32 - 1024 ≤ chars.length) := by
  have counted := strlen_string string
  have short := string.short
  obtain ⟨len, exactly⟩ : ∃ len : Int, len = (BitVec.ofNat 32 chars.length).toInt := ⟨_, rfl⟩
  have sized : formatSize dbl 2 0 ⟨[], [ascii '%', ascii 's']⟩ [str] mem = .ok (stringSize 0 (-1) (-1) len + 0) := by
    have turned : turnSized dbl 0 ⟨[], [ascii '%', ascii 's']⟩ [str] mem =
        ((strlen mem str >>= fun len => .ok ⟨stringSize 0 (-1) (-1) len.toInt, [], mem⟩) >>=
          fun sized => .ok (⟨[ascii 's', ascii '%'], []⟩, sized)) := rfl
    rw [formatSize, if_neg (by decide), turned, counted, ok_bind, ok_bind, ok_bind, exactly]
    rfl
  obtain ⟨out, converted⟩ : ∃ out, turn dbl 0 ⟨[], [ascii '%', ascii 's']⟩ [str] mem =
      .ok (⟨[ascii 's', ascii '%'], []⟩, out) := by
    have turned : turn dbl 0 ⟨[], [ascii '%', ascii 's']⟩ [str] mem =
        (convString 0 (-1) (-1) [str] mem >>= fun out => .ok (⟨[ascii 's', ascii '%'], []⟩, out)) := rfl
    rw [turned]
    simp only [convString, vaArg, ok_bind, counted]
    exact ⟨_, rfl⟩
  obtain ⟨r, done⟩ : ∃ r, consolePrintStr dbl 2 str mem = .ok r := by
    unfold consolePrintStr vsprintf
    rw [format, if_neg (by decide), converted, ok_bind]
    exact ⟨_, rfl⟩
  refine ⟨r, done, (vsprintf_fits done).trans ?_⟩
  unfold Fits
  rw [sized]
  have size : stringSize 0 (-1) (-1) len =
      if len = -2 ^ 31 then 2 ^ 31 else (-1 - len).toNat + len.toNat := by
    have noLeft : has 0 left = false := rfl
    unfold stringSize
    rw [noLeft]
    by_cases least : len = -2 ^ 31
    · rw [least]
      decide
    · have other : ¬ len = -2147483648 := least
      simp [other]
  have value : len = if chars.length < 2 ^ 31 then (chars.length : Int) else chars.length - 2 ^ 32 := by
    rw [exactly, BitVec.toInt_eq_toNat_cond, BitVec.toNat_ofNat, Nat.mod_eq_of_lt short]
    split <;> split <;> omega
  rw [size]
  constructor
  · rintro ⟨size, same, most⟩
    cases same
    split at value <;> split at most <;> omega
  · intro few
    refine ⟨_, rfl, ?_⟩
    split at value <;> split <;> omega

end Format

/-- A call of `printf` stays in `buf` when its output fits, and `console_print_str` when its string does. -/
theorem printf_in_buffer (dbl : Doubles) (mem : Memory) :
    (∀ (fuel : Nat) (fmt : List U8) (args : List U32) (r : Result), vsprintf dbl fuel fmt args mem = .ok r →
      (InBuffer r.text ↔ Fits dbl fuel fmt args mem)) ∧
    (∀ (str : U32) (chars : List U8), Strings.StringAt mem str chars →
      ∃ r, consolePrintStr dbl 2 str mem = .ok r ∧
        (InBuffer r.text ↔ chars.length ≤ 1023 ∨ 2 ^ 32 - 1024 ≤ chars.length)) :=
  ⟨fun _ _ _ _ done => vsprintf_fits done, fun _ _ string => consolePrintStr_fits string⟩

theorem printf_in_buffer_ab :
    (InBuffer [ascii 'o', ascii 'k'] ↔ Fits plainDoubles 3 [ascii 'o', ascii 'k'] [] fun _ => 0) ∧
      ∃ r, consolePrintStr plainDoubles 2 0x1000 Strings.abMemory.bytes = .ok r ∧ InBuffer r.text := by
  obtain ⟨formats, _⟩ := printf_in_buffer plainDoubles fun _ => 0
  obtain ⟨_, strings⟩ := printf_in_buffer plainDoubles Strings.abMemory.bytes
  obtain ⟨r, done, within⟩ := strings 0x1000 [0x61, 0x62] Strings.abMemory_string
  exact ⟨formats 3 [ascii 'o', ascii 'k'] []
    ⟨[[ascii 'o'], [ascii 'k']], [ascii 'o', ascii 'k'], [], fun _ => 0, some 2⟩ rfl,
    r, done, within.mpr (.inl (by decide))⟩

/-- `printf("%1024c", 'A')` stores its NUL behind `buf`. -/
theorem wide_char_overflows : ¬ ∀ (dbl : Doubles) (fuel : Nat) (fmt : List U8) (args : List U32) (mem : Memory)
    (r : Result), vsprintf dbl fuel fmt args mem = .ok r → InBuffer r.text := by
  intro inside
  obtain ⟨r, done⟩ : ∃ r, vsprintf plainDoubles 2 ("%1024c".toList.map ascii) [65] (fun _ => 0) = .ok r :=
    ⟨_, rfl⟩
  have size : formatSize plainDoubles 2 0 ⟨[], "%1024c".toList.map ascii⟩ [65] (fun _ => 0) = .ok 1024 := rfl
  obtain ⟨n, sized, fits⟩ := (vsprintf_fits done).mp (inside _ _ _ _ _ _ done)
  rw [size] at sized
  cases sized
  exact absurd fits (by decide)

end LiziOS.Vsprintf
