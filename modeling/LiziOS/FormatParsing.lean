import LiziOS.FormatGrammar
import Mathlib.Algebra.GroupWithZero.Nat

namespace LiziOS.Vsprintf

/-! What each directive renders on its own. -/

/-- `flags |= bit` for the byte `c`. -/
def addFlag (flags : U32) (c : U8) : U32 :=
  match flagBit c with
  | some bit => flags ||| bit
  | none => flags

/-- The value of a digit more, as in `skip_atoi`. -/
def addDigit (i : U32) (c : U8) : U32 := i * 10 + c.setWidth 32 - (ascii '0').setWidth 32

/-- The flags, the width and the arguments left. -/
def Count.fieldWidth (flags : U32) (args : List U32) : Count → Except Fault (U32 × U32 × List U32)
  | absent => .ok (flags, -1, args)
  | digits ds => .ok (flags, ds.foldl addDigit 0, args)
  | star => starWidth flags args

def Count.precision (args : List U32) : Count → Except Fault (U32 × List U32)
  | absent => .ok (clamp (-1), args)
  | digits ds => .ok (clamp (ds.foldl addDigit 0), args)
  | star => do
    let (precision, args) ← vaArg args
    pure (clamp precision, args)

def precisionOf (precision : Option Count) (args : List U32) : Except Fault (U32 × List U32) :=
  match precision with
  | none => .ok (-1, args)
  | some count => count.precision args

def Directive.render (dbl : Doubles) (length : Nat) (args : List U32) (mem : Memory) (d : Directive) :
    Except Fault Output := do
  let (flags, fieldWidth, args) ← d.width.fieldWidth (d.flags.foldl addFlag 0) args
  let (precision, args) ← precisionOf d.precision args
  convert dbl length flags fieldWidth precision (d.conv.getD 0) args mem

def Token.render (dbl : Doubles) (length : Nat) (args : List U32) (mem : Memory) :
    Token → Except Fault Output
  | literal c => .ok ⟨[c], args, mem⟩
  | directive d => d.render dbl length args mem

/-- The literals and the directives one after the other, `length` bytes standing in `buf` before them. -/
def render (dbl : Doubles) : List Token → Nat → List U32 → Memory → Except Fault Output
  | [], _, args, mem => .ok ⟨[], args, mem⟩
  | t :: rest, length, args, mem => do
    let out ← t.render dbl length args mem
    let others ← render dbl rest (length + out.text.length) out.args out.mem
    pure ⟨out.text ++ others.text, others.args, others.mem⟩

/-! The stages of the scanner. -/

section Stages

variable {p next more : List U8} {flags : U32} {args : List U32} {count : Count} {d : Directive}

theorem scanFlags_bytes {fs : List U8} (all : ∀ c ∈ fs, isFlag c = true) (stops : Stops isFlag next) :
    scanFlags p (fs ++ next) flags = (⟨fs.reverse ++ p, next⟩, fs.foldl addFlag flags) := by
  induction fs generalizing p flags with
  | nil =>
    cases next with
    | nil => rfl
    | cons c rest =>
      have no : flagBit c = none := Option.not_isSome_iff_eq_none.mp (by simpa [isFlag] using stops c rfl)
      rw [List.nil_append, scanFlags, no]
      rfl
  | cons c fs ih =>
    obtain ⟨bit, found⟩ := Option.isSome_iff_exists.mp (all c List.mem_cons_self)
    have added : addFlag flags c = flags ||| bit := by rw [addFlag, found]
    rw [List.cons_append, scanFlags, found]
    dsimp only
    rw [ih fun b member => all b (List.mem_cons_of_mem _ member), List.reverse_cons, List.append_assoc,
      List.foldl_cons, added]
    rfl

theorem skipAtoi_bytes {ds : List U8} {i : U32} (all : ∀ c ∈ ds, isDigit c = true)
    (stops : Stops isDigit next) :
    skipAtoi p (ds ++ next) i = (⟨ds.reverse ++ p, next⟩, ds.foldl addDigit i) := by
  induction ds generalizing p i with
  | nil =>
    cases next with
    | nil => rfl
    | cons c rest =>
      have no : ¬ isDigit c = true := by simp [stops c rfl]
      rw [List.nil_append, skipAtoi, if_neg no]
      rfl
  | cons c ds ih =>
    have yes : isDigit c = true := all c List.mem_cons_self
    rw [List.cons_append, skipAtoi, if_pos yes, ih fun b member => all b (List.mem_cons_of_mem _ member),
      List.reverse_cons, List.append_assoc]
    rfl

/-- What `*fmt` reads where the scanner stops: a byte that the stage does not take, or the NUL. -/
theorem deref_stops {q : U8 → Bool} (stops : Stops q next) (nul : q 0 = false) :
    q (Fmt.deref ⟨p, next⟩) = false := by
  cases next with
  | nil => exact nul
  | cons c rest => exact stops c rfl

theorem digits_deref {ds : List U8} (nonempty : ds ≠ []) (all : ∀ c ∈ ds, isDigit c = true) :
    isDigit (Fmt.deref ⟨p, ds ++ next⟩) = true := by
  obtain ⟨c, ds, rfl⟩ := List.exists_cons_of_ne_nil nonempty
  exact all c List.mem_cons_self

theorem scanWidth_bytes (greedy : count.Greedy next) :
    scanWidth ⟨p, count.bytes ++ next⟩ flags args =
      (count.fieldWidth flags args).map fun (flags, fieldWidth, args) =>
        (⟨count.bytes.reverse ++ p, next⟩, flags, fieldWidth, args) := by
  unfold scanWidth
  cases count with
  | absent =>
    have no := deref_stops (p := p) greedy (by decide)
    simp only [Bool.or_eq_false_iff, decide_eq_false_iff_not] at no
    rw [Count.bytes, List.nil_append, if_neg (by simp [no.1]), if_neg no.2]
    rfl
  | digits ds =>
    rw [Count.bytes, if_pos (digits_deref greedy.1 greedy.2.1), skipAtoi_bytes greedy.2.1 greedy.2.2]
    rfl
  | star =>
    have no : ¬ isDigit (ascii '*') = true := by decide
    rw [Count.bytes, List.singleton_append, Fmt.deref_cons, if_neg no, if_pos rfl, Fmt.advance_cons, ok_bind,
      Count.fieldWidth]
    cases starWidth flags args <;> rfl

/-- A precision that is no `*` is read as a width is. -/
theorem scanPrecision_bytes (greedy : d.Greedy) (last : d.conv = none → more = [])
    (noStar : d.precision ≠ some .star) :
    scanPrecision ⟨p, d.afterWidth ++ more⟩ args =
      (precisionOf d.precision args).map fun (precision, args) =>
        (⟨d.precisionBytes.reverse ++ p, d.afterPrecision ++ more⟩, precision, args) := by
  unfold scanPrecision Directive.afterWidth Directive.precisionBytes
  cases precision : d.precision with
  | none =>
    have stops := (greedy.point precision).append (Directive.last_precision last)
    have no := of_decide_eq_false (deref_stops (p := p) stops (by decide))
    dsimp only
    rw [List.nil_append, if_neg no]
    rfl
  | some count =>
    have taken := (greedy.precision count precision).append (Directive.last_precision last)
    dsimp only
    rw [List.cons_append, List.cons_append, List.append_assoc, Fmt.deref_cons, if_pos rfl, Fmt.advance_cons,
      ok_bind,
      List.reverse_cons, List.append_assoc]
    cases count with
    | absent =>
      have no := deref_stops (p := ascii '.' :: p) taken (by decide)
      simp only [Bool.or_eq_false_iff, decide_eq_false_iff_not] at no
      rw [Count.bytes, List.nil_append, if_neg (by simp [no.1]), if_neg no.2]
      rfl
    | digits ds =>
      rw [Count.bytes, if_pos (digits_deref taken.1 taken.2.1), skipAtoi_bytes taken.2.1 taken.2.2]
      rfl
    | star => exact absurd precision noStar

theorem scanQualifier_bytes (greedy : d.Greedy) (last : d.conv = none → more = []) :
    scanQualifier ⟨p, d.afterPrecision ++ more⟩ =
      .ok ⟨d.length.toList.reverse ++ p, d.afterLength ++ more⟩ := by
  unfold scanQualifier Directive.afterPrecision
  cases length : d.length with
  | some c =>
    rw [Option.toList_some, List.singleton_append, List.cons_append, Fmt.deref_cons,
      if_pos (greedy.length c length)]
    rfl
  | none =>
    have stops := (greedy.conv length).append (Directive.last last)
    have no := deref_stops (p := p) stops (by decide)
    rw [Option.toList_none, List.nil_append, if_neg (by simp [no])]
    rfl

theorem deref_conv (last : d.conv = none → more = []) :
    Fmt.deref ⟨p, d.afterLength ++ more⟩ = d.conv.getD 0 := by
  unfold Directive.afterLength
  cases conv : d.conv with
  | some c => rfl
  | none => rw [last conv]; rfl

/-- A turn ends behind the conversion, or at the NUL where it is missing. -/
theorem endTurn_bytes (begun : p ≠ []) (last : d.conv = none → more = []) (noNul : ∀ c ∈ d.conv, c ≠ 0) :
    endTurn ⟨p, d.afterLength ++ more⟩ = .ok ⟨d.afterLength.reverse ++ p, more⟩ := by
  unfold endTurn
  rw [deref_conv last]
  unfold Directive.afterLength
  cases conv : d.conv with
  | some c =>
    rw [Option.getD_some, if_neg (noNul c conv)]
    rfl
  | none =>
    obtain ⟨c, p, rfl⟩ := List.exists_cons_of_ne_nil begun
    rw [Option.getD_none, if_pos rfl, last conv]
    rfl

theorem turn_directive (dbl : Doubles) (length : Nat) (mem : Memory) (greedy : d.Greedy)
    (last : d.conv = none → more = []) (noNul : ∀ c ∈ d.conv, c ≠ 0) (noStar : d.precision ≠ some .star) :
    turn dbl length ⟨p, (Token.directive d).bytes ++ more⟩ args mem =
      (d.render dbl length args mem).map fun out => (⟨(Token.directive d).bytes.reverse ++ p, more⟩, out) := by
  have stops := greedy.stops.append (Directive.last_flags last)
  have width := greedy.width.append (Directive.last_width last)
  unfold turn
  rw [Token.bytes, List.cons_append, Fmt.deref_cons, if_neg (not_not.mpr rfl), Fmt.advance_cons, ok_bind]
  dsimp only
  rw [Directive.tail, List.append_assoc, scanFlags_bytes greedy.flags stops]
  dsimp only
  rw [Directive.afterFlags, List.append_assoc, scanWidth_bytes width]
  unfold Directive.render
  cases d.width.fieldWidth (d.flags.foldl addFlag 0) args with
  | error fault => rfl
  | ok scanned =>
    obtain ⟨flags, fieldWidth, args⟩ := scanned
    rw [Except.map, ok_bind, ok_bind]
    dsimp only
    rw [scanPrecision_bytes greedy last noStar]
    cases precisionOf d.precision args with
    | error fault => rfl
    | ok scanned =>
      obtain ⟨precision, args⟩ := scanned
      rw [Except.map, ok_bind, ok_bind]
      dsimp only
      rw [scanQualifier_bytes greedy last, ok_bind, deref_conv last]
      cases convert dbl length flags fieldWidth precision (d.conv.getD 0) args mem with
      | error fault => rfl
      | ok out =>
        rw [ok_bind, endTurn_bytes (by simp) last noNul, ok_bind]
        simp [Except.map, Directive.afterPrecision, Directive.afterWidth]
        rfl

theorem scanPrecision_star {arg : U32} :
    scanPrecision ⟨p, ascii '.' :: ascii '*' :: next⟩ (arg :: args) =
      .ok (⟨ascii '.' :: p, ascii '*' :: next⟩, clamp arg, args) := by
  have no : ¬ isDigit (ascii '*') = true := by decide
  unfold scanPrecision
  rw [Fmt.deref_cons, if_pos rfl, Fmt.advance_cons, ok_bind, Fmt.deref_cons, if_neg no, if_pos rfl]
  rfl

theorem scanQualifier_star : scanQualifier ⟨p, ascii '*' :: next⟩ = .ok ⟨p, ascii '*' :: next⟩ := by
  have no : ¬ isQualifier (ascii '*') = true := by decide
  unfold scanQualifier
  rw [Fmt.deref_cons, if_neg no]

theorem convert_star {dbl : Doubles} {length : Nat} {fieldWidth precision : U32} {mem : Memory} :
    convert dbl length flags fieldWidth precision (ascii '*') args mem =
      .ok ⟨[ascii '%', ascii '*'], args, mem⟩ := rfl

theorem endTurn_star : endTurn ⟨p, ascii '*' :: next⟩ = .ok ⟨ascii '*' :: p, next⟩ := rfl

/-- At the `*` of a precision `fmt` stays: the `*` is taken for the conversion. -/
theorem turn_star (dbl : Doubles) (length : Nat) (mem : Memory) {args' : List U32} {fieldWidth arg : U32}
    (greedy : d.Greedy) (last : d.conv = none → more = []) (star : d.precision = some .star)
    (width : d.width.fieldWidth (d.flags.foldl addFlag 0) args = .ok (flags, fieldWidth, arg :: args')) :
    ∃ passed, turn dbl length ⟨p, (Token.directive d).bytes ++ more⟩ args mem =
      .ok (⟨passed, d.afterPrecision ++ more⟩, ⟨[ascii '%', ascii '*'], args', mem⟩) := by
  have stops := greedy.stops.append (Directive.last_flags last)
  have counts := greedy.width.append (Directive.last_width last)
  have behind : d.afterWidth ++ more = ascii '.' :: ascii '*' :: (d.afterPrecision ++ more) := by
    unfold Directive.afterWidth Directive.precisionBytes
    rw [star]
    rfl
  refine ⟨ascii '*' :: ascii '.' :: (d.width.bytes.reverse ++ (d.flags.reverse ++ ascii '%' :: p)), ?_⟩
  unfold turn
  rw [Token.bytes, List.cons_append, Fmt.deref_cons, if_neg (not_not.mpr rfl), Fmt.advance_cons, ok_bind]
  dsimp only
  rw [Directive.tail, List.append_assoc, scanFlags_bytes greedy.flags stops]
  dsimp only
  rw [Directive.afterFlags, List.append_assoc, scanWidth_bytes counts, width, Except.map, ok_bind]
  dsimp only
  rw [behind, scanPrecision_star, ok_bind]
  dsimp only
  rw [scanQualifier_star, ok_bind, Fmt.deref_cons, convert_star, ok_bind, endTurn_star]
  rfl

end Stages

/-! The loop. -/

section Loop

variable {dbl : Doubles} {fuel length : Nat} {args : List U32} {mem : Memory} {p : List U8}
  {t : Token} {next before after : List Token}

theorem Token.bytes_ne_nil (t : Token) : t.bytes ≠ [] := by
  cases t <;> exact List.cons_ne_nil _ _

theorem turn_token (reads : t.Reads next) (noNul : ∀ c ∈ t.bytes, c ≠ 0) (noStar : ¬ t.StarPrecision) :
    turn dbl length ⟨p, t.bytes ++ bytesOf next⟩ args mem =
      (t.render dbl length args mem).map fun out => (⟨t.bytes.reverse ++ p, bytesOf next⟩, out) := by
  cases t with
  | literal c =>
    unfold turn
    rw [Token.bytes, List.singleton_append, Fmt.deref_cons, if_pos (show c ≠ ascii '%' from reads)]
    rfl
  | directive d =>
    refine turn_directive dbl length mem reads.1 (fun missing => by rw [reads.2 missing]; rfl) ?_ noStar
    intro c member
    refine noNul c ?_
    have atEnd : c ∈ d.afterLength := by rwa [Directive.afterLength, Option.mem_toList]
    simp [Token.bytes, Directive.tail, Directive.afterFlags, Directive.afterWidth, Directive.afterPrecision,
      atEnd]

theorem format_token (reads : t.Reads next) (noNul : ∀ c ∈ t.bytes, c ≠ 0) (noStar : ¬ t.StarPrecision) :
    format dbl (fuel + 1) length ⟨p, bytesOf (t :: next)⟩ args mem = (do
      let out ← t.render dbl length args mem
      let (pieces, others) ← format dbl fuel (length + out.text.length)
        ⟨t.bytes.reverse ++ p, bytesOf next⟩ out.args out.mem
      pure (t.bytes :: pieces, ⟨out.text ++ others.text, others.args, others.mem⟩)) := by
  obtain ⟨c, rest, bytes⟩ := List.exists_cons_of_ne_nil t.bytes_ne_nil
  have begun : Fmt.deref ⟨p, t.bytes ++ bytesOf next⟩ ≠ 0 := by
    rw [bytes]
    exact noNul c (by rw [bytes]; exact List.mem_cons_self)
  have piece : (t.bytes ++ bytesOf next).take ((t.bytes ++ bytesOf next).length - (bytesOf next).length) =
      t.bytes := by
    rw [List.length_append, Nat.add_sub_cancel, List.take_left']
    rfl
  rw [format, bytesOf_cons, if_neg begun, turn_token reads noNul noStar]
  cases t.render dbl length args mem with
  | error fault => rfl
  | ok out =>
    rw [Except.map, ok_bind, ok_bind]
    dsimp only
    rw [piece]

/-- The turns over tokens without a `*` as the precision: each has its token for its piece, and the output
    is what the tokens render. -/
theorem format_before (reads : Reads (before ++ after)) (noNul : ∀ c ∈ bytesOf before, c ≠ 0)
    (noStar : ∀ t ∈ before, ¬ t.StarPrecision) :
    format dbl (fuel + before.length) length ⟨p, bytesOf (before ++ after)⟩ args mem = (do
      let out ← render dbl before length args mem
      let (pieces, others) ← format dbl fuel (length + out.text.length)
        ⟨(bytesOf before).reverse ++ p, bytesOf after⟩ out.args out.mem
      pure (before.map Token.bytes ++ pieces, ⟨out.text ++ others.text, others.args, others.mem⟩)) := by
  induction before generalizing length p args mem with
  | nil =>
    rw [render, ok_bind]
    simp only [List.length_nil, Nat.add_zero, List.nil_append, List.map_nil]
    change format dbl fuel length ⟨p, bytesOf after⟩ args mem =
      format dbl fuel length ⟨p, bytesOf after⟩ args mem >>= _
    cases format dbl fuel length ⟨p, bytesOf after⟩ args mem <;> rfl
  | cons t before ih =>
    rw [bytesOf_cons] at noNul
    rw [List.cons_append] at reads ⊢
    obtain ⟨first, others⟩ := reads
    rw [List.length_cons, ← Nat.add_assoc,
      format_token first (fun c member => noNul c (List.mem_append_left _ member))
        (noStar t List.mem_cons_self),
      render]
    cases t.render dbl length args mem with
    | error fault => rfl
    | ok out =>
      have rest := @ih (length + out.text.length) out.args out.mem (t.bytes.reverse ++ p) others
        (fun c member => noNul c (List.mem_append_right _ member))
        (fun t member => noStar t (List.mem_cons_of_mem _ member))
      rw [ok_bind, rest, ok_bind]
      cases render dbl before (length + out.text.length) out.args out.mem with
      | error fault => rfl
      | ok out' =>
        rw [ok_bind, ok_bind, pure_bind]
        dsimp only
        rw [List.length_append, Nat.add_assoc, bytesOf_cons, List.reverse_append, List.append_assoc]
        cases format dbl fuel (length + (out.text.length + out'.text.length))
          ⟨(bytesOf before).reverse ++ (t.bytes.reverse ++ p), bytesOf after⟩ out'.args out'.mem with
        | error fault => rfl
        | ok result => simp [Bind.bind, Except.bind, pure, Except.pure]

end Loop

/-! The arguments that the directives read. -/

/-- The slots of four bytes that a conversion reads. -/
def convSlots (conv : U8) : Nat :=
  if conv = ascii 'f' then 2
  else if conv ∈ "csopxXdiunbmr".toList.map ascii then 1
  else 0

def Count.slots : Count → Nat
  | star => 1
  | _ => 0

def Directive.slots (d : Directive) : Nat :=
  d.width.slots + (d.precision.elim 0 Count.slots + convSlots (d.conv.getD 0))

def Token.slots : Token → Nat
  | literal _ => 0
  | directive d => d.slots

def slots (tokens : List Token) : Nat := (tokens.map Token.slots).sum

/-- No argument points at or just below `z`: a `%n` leaves the byte there. -/
def Apart (z : U32) (args : List U32) : Prop := ∀ ip ∈ args, 4 ≤ (z - ip).toNat

section Arguments

variable {dbl : Doubles} {length : Nat} {args : List U32} {mem : Memory} {flags fieldWidth precision z : U32}
  {conv : U8} {strings : Prop}

theorem vaArg_ok (enough : 1 ≤ args.length) : ∃ arg, vaArg args = .ok (arg, args.drop 1) ∧ arg ∈ args := by
  obtain ⟨arg, rest, rfl⟩ := List.exists_cons_of_length_pos enough
  exact ⟨arg, rfl, List.mem_cons_self⟩

theorem number_ok {num : U64} {base size : U32} (valid : (base.slt 2 || (36 : U32).slt base) = false) :
    ∃ text, number dbl num base size precision flags = .ok text := by
  unfold number
  rw [valid, if_neg Bool.false_ne_true]
  exact ⟨_, rfl⟩

theorem numbers_ok {base size : U32} {separator : U8} (ptr : U32) (count : Nat)
    (valid : (base.slt 2 || (36 : U32).slt base) = false) :
    ∃ text, numbers dbl base size precision flags separator mem ptr count = .ok text := by
  induction count generalizing ptr with
  | zero => exact ⟨_, rfl⟩
  | succ count ih =>
    obtain ⟨text, made⟩ := @number_ok dbl flags precision ((mem ptr).setWidth 64) base size valid
    obtain ⟨others, rest⟩ := ih (ptr + 1)
    rw [numbers, made, rest]
    exact ⟨_, rfl⟩

theorem strlenFrom_ok {s i : U32} {k turns : Nat} (nul : mem (s + (i + BitVec.ofNat 32 k)) = 0)
    (small : k < turns) :
    ∃ len, strlenFrom mem s turns i = .ok len := by
  induction turns generalizing k i with
  | zero => exact absurd small (Nat.not_lt_zero k)
  | succ turns ih =>
    by_cases stops : mem (s + i) = 0
    · exact ⟨i, by rw [strlenFrom, if_pos stops]⟩
    · rw [strlenFrom, if_neg stops]
      cases k with
      | zero => exact absurd (by simpa using nul) stops
      | succ k =>
        have later : i + 1 + BitVec.ofNat 32 k = i + BitVec.ofNat 32 (k + 1) := by
          rw [BitVec.add_assoc, BitVec.ofNat_add, BitVec.add_comm (1 : U32)]
          rfl
        exact ih (by rw [later]; exact nul) (Nat.lt_of_succ_lt_succ small)

theorem strlenFrom_failed {s i : U32} {turns : Nat} {fault : Fault}
    (failed : strlenFrom mem s turns i = .error fault) :
    fault = .unterminated := by
  induction turns generalizing i with
  | zero => cases failed; rfl
  | succ turns ih =>
    rw [strlenFrom] at failed
    by_cases stops : mem (s + i) = 0
    · rw [if_pos stops] at failed
      cases failed
    · rw [if_neg stops] at failed
      exact ih failed

theorem strlen_ok {s z : U32} (nul : mem z = 0) : ∃ len, strlen mem s = .ok len := by
  have reached : s + (0 + BitVec.ofNat 32 (z - s).toNat) = z := by
    rw [BitVec.ofNat_toNat, BitVec.setWidth_eq]
    bv_omega
  exact strlenFrom_ok (by rw [reached]; exact nul) (z - s).isLt

/-- What a rendering with enough arguments does: it reads `count` of them, and where `strings` holds it may
    meet a string that has no end. -/
def Supplied (args : List U32) (mem : Memory) (count : Nat) (strings : Prop) (outcome : Except Fault Output) :
    Prop :=
  (∃ out, outcome = .ok out ∧ out.args = args.drop count ∧ ∀ z, Apart z args → out.mem z = mem z) ∨
    (outcome = .error .unterminated ∧ strings ∧ ∀ z, mem z ≠ 0)

theorem Supplied.pure {text : List U8} {count : Nat} :
    Supplied args mem count strings (.ok ⟨text, args.drop count, mem⟩) :=
  .inl ⟨_, rfl, rfl, fun _ _ => rfl⟩

theorem convChar_supplied (enough : 1 ≤ args.length) :
    Supplied args mem 1 strings (convChar flags fieldWidth args mem) := by
  obtain ⟨arg, taken, -⟩ := vaArg_ok enough
  unfold convChar
  rw [taken]
  exact .pure

theorem convString_supplied (enough : 1 ≤ args.length) :
    Supplied args mem 1 True (convString flags fieldWidth precision args mem) := by
  obtain ⟨arg, taken, -⟩ := vaArg_ok enough
  unfold convString
  rw [taken, ok_bind]
  dsimp only
  cases counted : strlen mem arg with
  | ok len => exact .pure
  | error fault =>
    cases strlenFrom_failed counted
    refine .inr ⟨rfl, trivial, fun z nul => ?_⟩
    obtain ⟨len, found⟩ := strlen_ok (s := arg) nul
    rw [counted] at found
    cases found

theorem convNumber_supplied {base : U32} (enough : 1 ≤ args.length)
    (valid : (base.slt 2 || (36 : U32).slt base) = false) :
    Supplied args mem 1 strings (convNumber dbl base flags fieldWidth precision args mem) := by
  obtain ⟨arg, taken, -⟩ := vaArg_ok enough
  obtain ⟨text, made⟩ := @number_ok dbl flags precision (arg.setWidth 64) base fieldWidth valid
  unfold convNumber
  rw [taken, ok_bind]
  dsimp only
  rw [made]
  exact .pure

theorem convBytes_supplied {base size : U32} {separator : U8} {count : Nat} (enough : 1 ≤ args.length)
    (valid : (base.slt 2 || (36 : U32).slt base) = false) :
    Supplied args mem 1 strings (convBytes dbl base size precision flags separator count args mem) := by
  obtain ⟨arg, taken, -⟩ := vaArg_ok enough
  obtain ⟨text, made⟩ := @numbers_ok dbl mem flags precision base size separator arg count valid
  unfold convBytes
  rw [taken, ok_bind]
  dsimp only
  rw [made]
  exact .pure

theorem convSlots_one (listed : conv ∈ "csopxXdiunbmr".toList.map ascii) : convSlots conv = 1 := by
  have no : conv ≠ ascii 'f' := by
    rintro rfl
    revert listed
    decide
  rw [convSlots, if_neg no, if_pos listed]

theorem writeInt_apart {ip value : U32} (apart : 4 ≤ (z - ip).toNat) : writeInt mem ip value z = mem z := by
  have outside : ¬ (z - ip).ult 4 = true := by
    rw [BitVec.ult_iff_lt, BitVec.lt_def]
    exact Nat.not_lt.mpr apart
  rw [writeInt, if_neg outside]

theorem convert_other (no : conv ∉ "fcsopxXdiunbmr".toList.map ascii) :
    ∃ text, convert dbl length flags fieldWidth precision conv args mem = .ok ⟨text, args, mem⟩ := by
  have others {c : U8} (listed : c ∈ "fcsopxXdiunbmr".toList.map ascii) : ¬ conv = c := by
    rintro rfl
    exact no listed
  refine ⟨(if conv ≠ ascii '%' then [ascii '%'] else []) ++ (if conv ≠ 0 then [conv] else []), ?_⟩
  rw [convert, if_neg (others (by decide)), if_neg (others (by decide)), if_neg (others (by decide)),
    if_neg (others (by decide)), if_neg (others (by decide)), if_neg (others (by decide)),
    if_neg (by simp [others (c := ascii 'd') (by decide), others (c := ascii 'i') (by decide)]),
    if_neg (others (by decide)), if_neg (others (by decide)), if_neg (others (by decide)),
    if_neg (others (by decide)), if_neg (others (by decide)), if_neg (others (by decide))]

theorem convert_supplied (enough : convSlots conv ≤ args.length) :
    Supplied args mem (convSlots conv) (conv = ascii 's')
      (convert dbl length flags fieldWidth precision conv args mem) := by
  by_cases listed : conv ∈ "csopxXdiunbmr".toList.map ascii
  · rw [convSlots_one listed] at enough ⊢
    have cases : conv = ascii 'c' ∨ conv = ascii 's' ∨ conv = ascii 'o' ∨ conv = ascii 'p' ∨ conv = ascii 'x' ∨
        conv = ascii 'X' ∨ conv = ascii 'd' ∨ conv = ascii 'i' ∨ conv = ascii 'u' ∨ conv = ascii 'n' ∨
        conv = ascii 'b' ∨ conv = ascii 'm' ∨ conv = ascii 'r' := by
      simpa using listed
    rcases cases with rfl | rfl | rfl | rfl | rfl | rfl | rfl | rfl | rfl | rfl | rfl | rfl | rfl
    · exact convChar_supplied enough
    · obtain done | ⟨failed, -, none⟩ := @convString_supplied args mem flags fieldWidth precision enough
      · exact .inl done
      · exact .inr ⟨failed, rfl, none⟩
    · exact convNumber_supplied enough (by decide)
    · change Supplied args mem 1 _ (if fieldWidth = -1 then _ else _)
      by_cases default : fieldWidth = -1
      · rw [if_pos default]
        exact convNumber_supplied enough (by decide)
      · rw [if_neg default]
        exact convNumber_supplied enough (by decide)
    · exact convNumber_supplied enough (by decide)
    · exact convNumber_supplied enough (by decide)
    · exact convNumber_supplied enough (by decide)
    · exact convNumber_supplied enough (by decide)
    · exact convNumber_supplied enough (by decide)
    · obtain ⟨ip, taken, member⟩ := vaArg_ok enough
      refine .inl ⟨⟨[], args.drop 1, writeInt mem ip (BitVec.ofNat 32 length)⟩, ?_, rfl, ?_⟩
      · change (vaArg args >>= _) = _
        rw [taken]
        rfl
      · exact fun z apart => writeInt_apart (apart ip member)
    · exact convNumber_supplied enough (by decide)
    · exact convBytes_supplied enough (by decide)
    · exact convBytes_supplied enough (by decide)
  · by_cases float : conv = ascii 'f'
    · subst float
      have two : convSlots (ascii 'f') = 2 := by decide
      rw [two] at enough ⊢
      match args, enough with
      | low :: high :: args, _ =>
        obtain ⟨text, made⟩ := @number_ok dbl (flags ||| sign ||| double) precision (high ++ low) 10 fieldWidth
          (by decide)
        have done : convert dbl length flags fieldWidth precision (ascii 'f') (low :: high :: args) mem =
            .ok ⟨text, args, mem⟩ := by
          have taken : vaDouble (low :: high :: args) = .ok (high ++ low, args) := rfl
          change (vaDouble (low :: high :: args) >>= _) = _
          rw [taken, ok_bind]
          dsimp only
          rw [made]
          rfl
        rw [done]
        exact .inl ⟨_, rfl, rfl, fun _ _ => rfl⟩
    · have none : convSlots conv = 0 := by rw [convSlots, if_neg float, if_neg listed]
      obtain ⟨text, done⟩ := @convert_other dbl length args mem flags fieldWidth precision conv
        (fun member => (List.mem_cons.mp member).elim float listed)
      rw [done, none]
      exact .pure

theorem Apart.drop {count : Nat} (apart : Apart z args) : Apart z (args.drop count) :=
  fun ip member => apart ip (List.mem_of_mem_drop member)

theorem Supplied.seq {count more : Nat} {args' : List U32} {outcome : Except Fault Output}
    (supplied : Supplied args' mem more strings outcome) (rest : args' = args.drop count) :
    Supplied args mem (count + more) strings outcome := by
  subst rest
  rcases supplied with ⟨out, done, behind, kept⟩ | failed
  · exact .inl ⟨out, done, by rw [behind, List.drop_drop], fun z apart => kept z apart.drop⟩
  · exact .inr failed

theorem Count.fieldWidth_ok {count : Count} (enough : count.slots ≤ args.length) :
    ∃ flags' fieldWidth, count.fieldWidth flags args = .ok (flags', fieldWidth, args.drop count.slots) := by
  cases count with
  | absent => exact ⟨flags, -1, rfl⟩
  | digits ds => exact ⟨flags, ds.foldl addDigit 0, rfl⟩
  | star =>
    obtain ⟨arg, taken, -⟩ := vaArg_ok enough
    unfold Count.fieldWidth starWidth
    rw [taken, ok_bind]
    dsimp only
    by_cases negative : arg.slt 0
    · rw [if_pos negative]
      exact ⟨_, _, rfl⟩
    · rw [if_neg negative]
      exact ⟨_, _, rfl⟩

theorem precisionOf_ok {precision : Option Count} (enough : precision.elim 0 Count.slots ≤ args.length) :
    ∃ value, precisionOf precision args = .ok (value, args.drop (precision.elim 0 Count.slots)) := by
  cases precision with
  | none => exact ⟨-1, rfl⟩
  | some count =>
    cases count with
    | absent => exact ⟨_, rfl⟩
    | digits ds => exact ⟨_, rfl⟩
    | star =>
      obtain ⟨arg, taken, -⟩ := vaArg_ok enough
      refine ⟨clamp arg, ?_⟩
      change (vaArg args >>= _) = _
      rw [taken]
      rfl

def Token.ReadsString : Token → Prop
  | .literal _ => False
  | .directive d => d.conv = some (ascii 's')

theorem render_directive {d : Directive} (enough : d.slots ≤ args.length) :
    Supplied args mem d.slots (Token.directive d).ReadsString (d.render dbl length args mem) := by
  unfold Directive.slots at enough ⊢
  obtain ⟨flags, fieldWidth, width⟩ := @Count.fieldWidth_ok args (d.flags.foldl addFlag 0) d.width (by omega)
  obtain ⟨precision, precise⟩ := @precisionOf_ok (args.drop d.width.slots) d.precision
    (by rw [List.length_drop]; omega)
  unfold Directive.render
  rw [width, ok_bind]
  dsimp only
  rw [precise, ok_bind]
  dsimp only
  have converted := @convert_supplied dbl length
    ((args.drop d.width.slots).drop (d.precision.elim 0 Count.slots)) mem flags fieldWidth precision (d.conv.getD 0) (by rw [List.length_drop, List.length_drop]; omega)
  refine Supplied.seq (Supplied.seq ?_ rfl) rfl
  rcases converted with done | ⟨failed, string, none⟩
  · exact .inl done
  · refine .inr ⟨failed, ?_, none⟩
    cases conv : d.conv with
    | none =>
      rw [conv] at string
      exact absurd string (by decide)
    | some c =>
      rw [conv] at string
      exact conv.trans (congrArg some string)

theorem render_token {t : Token} (enough : t.slots ≤ args.length) :
    Supplied args mem t.slots t.ReadsString (t.render dbl length args mem) := by
  cases t with
  | literal c => exact .pure
  | directive d => exact render_directive enough

end Arguments

section Renderings

variable {dbl : Doubles} {length : Nat} {args : List U32} {mem : Memory} {split before after : List Token}

theorem slots_cons (t : Token) (rest : List Token) : slots (t :: rest) = t.slots + slots rest := by
  simp [slots]

/-- With an argument for each slot the rendering completes and has read them all, unless a string that a
    `%s` reads has no end. -/
theorem render_supplied (enough : slots split ≤ args.length) :
    (∃ out, render dbl split length args mem = .ok out ∧ out.args = args.drop (slots split)) ∨
      (render dbl split length args mem = .error .unterminated ∧ ∃ t ∈ split, t.ReadsString) := by
  induction split generalizing length args mem with
  | nil => exact .inl ⟨_, rfl, rfl⟩
  | cons t rest ih =>
    rw [slots_cons] at enough ⊢
    rw [render]
    rcases @render_token dbl length args mem t (by omega) with ⟨out, done, behind, -⟩ | ⟨failed, string, -⟩
    · rw [done, ok_bind]
      rcases @ih (length + out.text.length) out.args out.mem (by rw [behind, List.length_drop]; omega) with
        ⟨others, done', behind'⟩ | ⟨failed, u, member, string⟩
      · rw [done']
        exact .inl ⟨_, rfl, by rw [behind', behind, List.drop_drop]⟩
      · rw [failed]
        exact .inr ⟨rfl, u, List.mem_cons_of_mem _ member, string⟩
    · rw [failed]
      exact .inr ⟨rfl, t, List.mem_cons_self, string⟩

/-- It completes where a NUL stands that no argument points at. -/
theorem render_completes {z : U32} (enough : slots split ≤ args.length) (nul : mem z = 0)
    (apart : Apart z args) :
    ∃ out, render dbl split length args mem = .ok out ∧ out.args = args.drop (slots split) ∧ out.mem z = 0 := by
  induction split generalizing length args mem with
  | nil => exact ⟨_, rfl, rfl, nul⟩
  | cons t rest ih =>
    rw [slots_cons] at enough ⊢
    rw [render]
    rcases @render_token dbl length args mem t (by omega) with ⟨out, done, behind, kept⟩ | ⟨-, -, none⟩
    · obtain ⟨others, done', behind', nul'⟩ := @ih (length + out.text.length) out.args out.mem
        (by rw [behind, List.length_drop]; omega) (by rw [kept z apart]; exact nul)
        (by rw [behind]; exact apart.drop)
      rw [done, ok_bind, done']
      exact ⟨_, rfl, by rw [behind', behind, List.drop_drop], nul'⟩
    · exact absurd nul (none z)

end Renderings

end LiziOS.Vsprintf
