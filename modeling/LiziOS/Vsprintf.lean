import LiziOS.Types
import Mathlib.Algebra.Group.Nat.Defs
import Mathlib.Logic.Function.Basic

namespace LiziOS.Vsprintf

/-! `vsprintf.c`. -/

abbrev U64 := BitVec 64

def ascii (c : Char) : U8 := BitVec.ofNat 8 c.toNat

/-- Why a call does not come to its end: `fmt` leaves its string, a read of an argument behind the last one,
    a string argument that no NUL ends, a base that `number` refuses. -/
inductive Fault where
  | pastEnd
  | beforeStart
  | noArgument
  | unterminated
  | noBase
  | outOfFuel
  deriving DecidableEq, Repr

/-- The pointer `fmt`: the bytes it has passed, the last one first, and those left before the NUL. -/
structure Fmt where
  passed : List U8
  rest : List U8
  deriving DecidableEq

namespace Fmt

/-- `*fmt`. -/
def deref (fmt : Fmt) : U8 := fmt.rest.headD 0

/-- `++fmt`, which would pass the NUL at the end of the string. -/
def advance (fmt : Fmt) : Except Fault Fmt :=
  match fmt.rest with
  | [] => .error .pastEnd
  | b :: rest => .ok ⟨b :: fmt.passed, rest⟩

/-- `--fmt`. -/
def back (fmt : Fmt) : Except Fault Fmt :=
  match fmt.passed with
  | [] => .error .beforeStart
  | b :: passed => .ok ⟨passed, b :: fmt.rest⟩

variable {p rest : List U8} {c : U8}

@[simp] theorem deref_nil : deref ⟨p, []⟩ = 0 := rfl
@[simp] theorem deref_cons : deref ⟨p, c :: rest⟩ = c := rfl
@[simp] theorem advance_cons : advance ⟨p, c :: rest⟩ = .ok ⟨c :: p, rest⟩ := rfl
@[simp] theorem back_cons : back ⟨c :: p, rest⟩ = .ok ⟨p, c :: rest⟩ := rfl

end Fmt

theorem ok_bind {α β : Type} {a : α} {f : α → Except Fault β} : (Except.ok a >>= f) = f a := rfl

abbrev Memory := U32 → U8

/-- What the processor computes on a `double`: whether it is below 0, its negation, `(u32)d`, and
    `(u32)((d - ival) * 1000000)`. -/
structure Doubles where
  negative : U64 → Bool
  negate : U64 → U64
  whole : U64 → U32
  millionths : U64 → U32 → U32

def zeropad : U32 := 0x01
def sign : U32 := 0x02
def plus : U32 := 0x04
def space : U32 := 0x08
def left : U32 := 0x10
def special : U32 := 0x20
def small : U32 := 0x40
def double : U32 := 0x80

/-- `flags & flag`. -/
def has (flags flag : U32) : Bool := flags &&& flag != 0

def isDigit (c : U8) : Bool := ascii '0' ≤ c && c ≤ ascii '9'

/-! The loops of the padding. -/

/-- The turns of `while (bound < count--)`, and the value it leaves in `count`. -/
def whileBelow (bound count : U32) : Nat × U32 :=
  if bound.slt count then ((count - bound).toNat, bound - 1) else (0, count - 1)

/-- The turns of `while (--count > 0)`, and the value it leaves in `count`. -/
def whilePositive (count : U32) : Nat × U32 :=
  if (0 : U32).slt (count - 1) then ((count - 1).toNat, 0) else (0, count - 1)

/-! `number`. -/

def digit (flags index : U32) : U8 :=
  if index.ult 10 then ascii '0' + index.setWidth 8
  else (if has flags small then ascii 'a' else ascii 'A') + (index - 10).setWidth 8

/-- `while (num != 0)`: the digits in the order of `tmp`. A word has at most 32 of them. -/
def wordDigits (flags base : U32) : Nat → U32 → List U8
  | 0, _ => []
  | turns + 1, num =>
    if num = 0 then [] else digit flags (num % base) :: wordDigits flags base turns (num / base)

/-- `while (mantissa--)`. -/
def mantissaDigits (flags base : U32) : Nat → U32 → List U8
  | 0, _ => []
  | mantissa + 1, fval => digit flags (fval % base) :: mantissaDigits flags base mantissa (fval / base)

/-- `tmp[0]` up to `tmp[i - 1]`. The `u32` at `num` is the low half of the `double` there. -/
def digits (dbl : Doubles) (num : U64) (base flags : U32) : List U8 :=
  if has flags double then
    let ival := dbl.whole num
    mantissaDigits flags base 6 (dbl.millionths num ival) ++ ascii '.' ::
      digit flags (ival % base) :: wordDigits flags base 32 (ival / base)
  else if num.setWidth 32 = (0 : U32) then [ascii '0']
  else wordDigits flags base 32 (num.setWidth 32)

/-- The variable `sign`, and the number without it. -/
def signOf (dbl : Doubles) (num : U64) (flags : U32) : U8 × U64 :=
  if has flags double && dbl.negative num then (ascii '-', dbl.negate num)
  else if has flags sign && !has flags double && (num.setWidth 32 : U32).slt 0 then
    (ascii '-', (-(num.setWidth 32 : U32)).setWidth 64)
  else (if has flags plus then ascii '+' else if has flags space then ascii ' ' else 0, num)

/-- The bytes that `number` puts behind `str`. -/
def number (dbl : Doubles) (num : U64) (base size precision flags : U32) : Except Fault (List U8) :=
  let flags := if has flags left then flags &&& ~~~zeropad else flags
  if base.slt 2 || (36 : U32).slt base then .error .noBase
  else
    let pad := if has flags zeropad then ascii '0' else ascii ' '
    let (signed, num) := signOf dbl num flags
    let size := if signed ≠ 0 then size - 1 else size
    let size := if has flags special then
        if base = 16 then size - 2 else if base = 8 then size - 1 else size
      else size
    let tmp := digits dbl num base flags
    let i := BitVec.ofNat 32 tmp.length
    let precision := if precision.slt i then i else precision
    let size := size - precision
    let (spaces, size) := if !has flags (zeropad + left) then whileBelow 0 size else (0, size)
    let before := if signed ≠ 0 then [signed] else []
    let mark := if has flags special then
        if base = 8 then [ascii '0'] else if base = 16 then [ascii '0', digit flags 33] else []
      else []
    let (pads, size) := if !has flags left then whileBelow 0 size else (0, size)
    let zeros := (whileBelow i precision).1
    .ok (List.replicate spaces (ascii ' ') ++ before ++ mark ++ List.replicate pads pad ++
      List.replicate zeros (ascii '0') ++ tmp.reverse ++ List.replicate (whileBelow 0 size).1 (ascii ' '))

/-! The stages of a directive. -/

def flagBit (c : U8) : Option U32 :=
  if c = ascii '-' then some left
  else if c = ascii '+' then some plus
  else if c = ascii ' ' then some space
  else if c = ascii '#' then some special
  else if c = ascii '0' then some zeropad
  else none

/-- The switch behind `repeat`, `fmt` standing behind the `++fmt`. -/
def scanFlags (passed : List U8) : List U8 → U32 → Fmt × U32
  | [], flags => (⟨passed, []⟩, flags)
  | c :: rest, flags =>
    match flagBit c with
    | some bit => scanFlags (c :: passed) rest (flags ||| bit)
    | none => (⟨passed, c :: rest⟩, flags)

/-- The loop of `skip_atoi` from the value `i` on. -/
def skipAtoi (passed : List U8) : List U8 → U32 → Fmt × U32
  | [], i => (⟨passed, []⟩, i)
  | c :: rest, i =>
    if isDigit c then skipAtoi (c :: passed) rest (i * 10 + c.setWidth 32 - (ascii '0').setWidth 32)
    else (⟨passed, c :: rest⟩, i)

/-- `va_arg` of a type of four bytes. -/
def vaArg : List U32 → Except Fault (U32 × List U32)
  | [] => .error .noArgument
  | arg :: args => .ok (arg, args)

/-- `va_arg(args, double)`. -/
def vaDouble (args : List U32) : Except Fault (U64 × List U32) := do
  let (low, args) ← vaArg args
  let (high, args) ← vaArg args
  pure (high ++ low, args)

/-- A width from an argument: the flags, the width and the arguments left. -/
def starWidth (flags : U32) (args : List U32) : Except Fault (U32 × U32 × List U32) := do
  let (fieldWidth, args) ← vaArg args
  if fieldWidth.slt 0 then pure (flags ||| left, -fieldWidth, args) else pure (flags, fieldWidth, args)

def scanWidth (fmt : Fmt) (flags : U32) (args : List U32) :
    Except Fault (Fmt × U32 × U32 × List U32) := do
  if isDigit fmt.deref then
    let (fmt, fieldWidth) := skipAtoi fmt.passed fmt.rest 0
    pure (fmt, flags, fieldWidth, args)
  else if fmt.deref = ascii '*' then
    let fmt ← fmt.advance
    let (flags, fieldWidth, args) ← starWidth flags args
    pure (fmt, flags, fieldWidth, args)
  else pure (fmt, flags, -1, args)

/-- `if (precision < 0) precision = 0`. -/
def clamp (precision : U32) : U32 := if precision.slt 0 then 0 else precision

/-- Behind the `*` of a width `fmt` is advanced, behind the one of a precision it is not. -/
def scanPrecision (fmt : Fmt) (args : List U32) : Except Fault (Fmt × U32 × List U32) := do
  if fmt.deref = ascii '.' then
    let fmt ← fmt.advance
    if isDigit fmt.deref then
      let (fmt, precision) := skipAtoi fmt.passed fmt.rest 0
      pure (fmt, clamp precision, args)
    else if fmt.deref = ascii '*' then
      let (precision, args) ← vaArg args
      pure (fmt, clamp precision, args)
    else pure (fmt, clamp (-1), args)
  else pure (fmt, -1, args)

def isQualifier (c : U8) : Bool := c = ascii 'h' || c = ascii 'l' || c = ascii 'L'

/-- No conversion reads the qualifier. -/
def scanQualifier (fmt : Fmt) : Except Fault Fmt :=
  if isQualifier fmt.deref then fmt.advance else .ok fmt

/-! The conversions. -/

/-- What the switch over the conversions leaves: the bytes it puts behind `str`, the arguments that are
    left, the memory of the pointer arguments. -/
structure Output where
  text : List U8
  args : List U32
  mem : Memory

/-- The turns of the loop of `strlen` from the byte `i` on. -/
def strlenFrom (mem : Memory) (s : U32) : Nat → U32 → Except Fault U32
  | 0, _ => .error .unterminated
  | turns + 1, i => if mem (s + i) = 0 then .ok i else strlenFrom mem s turns (i + 1)

/-- The loop goes round the address space until it meets a NUL. -/
def strlen (mem : Memory) (s : U32) : Except Fault U32 := strlenFrom mem s (2 ^ 32) 0

/-- `*ip = value`. -/
def writeInt (mem : Memory) (ip value : U32) : Memory := fun a =>
  if (a - ip).ult 4 then (value >>> (8 * (a - ip).toNat)).setWidth 8 else mem a

def convChar (flags fieldWidth : U32) (args : List U32) (mem : Memory) : Except Fault Output := do
  let (spaces, fieldWidth) := if !has flags left then whilePositive fieldWidth else (0, fieldWidth)
  let (arg, args) ← vaArg args
  pure ⟨List.replicate spaces (ascii ' ') ++ arg.setWidth 8 ::
    List.replicate (whilePositive fieldWidth).1 (ascii ' '), args, mem⟩

/-- The bytes `s[0]` up to `s[len - 1]`. -/
def stringBytes (mem : Memory) (s len : U32) : List U8 :=
  if (0 : U32).slt len then (List.range len.toNat).map fun i => mem (s + BitVec.ofNat 32 i) else []

def convString (flags fieldWidth precision : U32) (args : List U32) (mem : Memory) :
    Except Fault Output := do
  let (s, args) ← vaArg args
  let len ← strlen mem s
  let len := if precision.slt 0 then len else if precision.slt len then precision else len
  let (spaces, fieldWidth) := if !has flags left then whileBelow len fieldWidth else (0, fieldWidth)
  pure ⟨List.replicate spaces (ascii ' ') ++ stringBytes mem s len ++
    List.replicate (whileBelow len fieldWidth).1 (ascii ' '), args, mem⟩

def convNumber (dbl : Doubles) (base flags fieldWidth precision : U32) (args : List U32) (mem : Memory) :
    Except Fault Output := do
  let (num, args) ← vaArg args
  let text ← number dbl (num.setWidth 64) base fieldWidth precision flags
  pure ⟨text, args, mem⟩

/-- The loop over the bytes at `ptr`: the separator behind the last one is taken back by `str--`. -/
def numbers (dbl : Doubles) (base size precision flags : U32) (separator : U8) (mem : Memory) (ptr : U32) :
    Nat → Except Fault (List U8)
  | 0 => .ok []
  | t + 1 => do
    let text ← number dbl ((mem ptr).setWidth 64) base size precision flags
    let others ← numbers dbl base size precision flags separator mem (ptr + 1) t
    pure (text ++ (if t = 0 then [] else separator :: others))

def convBytes (dbl : Doubles) (base size precision flags : U32) (separator : U8) (count : Nat)
    (args : List U32) (mem : Memory) : Except Fault Output := do
  let (ptr, args) ← vaArg args
  let text ← numbers dbl base size precision flags separator mem ptr count
  pure ⟨text, args, mem⟩

/-- The switch over `*fmt`, `length` being `str - buf`. -/
def convert (dbl : Doubles) (length : Nat) (flags fieldWidth precision : U32) (conv : U8)
    (args : List U32) (mem : Memory) : Except Fault Output :=
  if conv = ascii 'c' then convChar flags fieldWidth args mem
  else if conv = ascii 's' then convString flags fieldWidth precision args mem
  else if conv = ascii 'o' then convNumber dbl 8 flags fieldWidth precision args mem
  else if conv = ascii 'p' then
    if fieldWidth = -1 then convNumber dbl 16 (flags ||| zeropad) 8 precision args mem
    else convNumber dbl 16 flags fieldWidth precision args mem
  else if conv = ascii 'x' then convNumber dbl 16 (flags ||| small) fieldWidth precision args mem
  else if conv = ascii 'X' then convNumber dbl 16 flags fieldWidth precision args mem
  else if conv = ascii 'd' || conv = ascii 'i' then
    convNumber dbl 10 (flags ||| sign) fieldWidth precision args mem
  else if conv = ascii 'u' then convNumber dbl 10 flags fieldWidth precision args mem
  else if conv = ascii 'n' then do
    let (ip, args) ← vaArg args
    pure ⟨[], args, writeInt mem ip (BitVec.ofNat 32 length)⟩
  else if conv = ascii 'f' then do
    let (dnum, args) ← vaDouble args
    let text ← number dbl dnum 10 fieldWidth precision (flags ||| sign ||| double)
    pure ⟨text, args, mem⟩
  else if conv = ascii 'b' then convNumber dbl 2 flags fieldWidth precision args mem
  else if conv = ascii 'm' then
    convBytes dbl 16 2 precision (flags ||| (small ||| zeropad)) (ascii ':') 6 args mem
  else if conv = ascii 'r' then
    convBytes dbl 10 fieldWidth precision (flags ||| small) (ascii '.') 4 args mem
  else
    .ok ⟨(if conv ≠ ascii '%' then [ascii '%'] else []) ++ (if conv ≠ 0 then [conv] else []), args, mem⟩

/-! `vsprintf`. -/

/-- The `++fmt` of the `for` loop behind the switch. At the end of the string the default case has stepped
    back before it. -/
def endTurn (fmt : Fmt) : Except Fault Fmt := do
  let fmt ← if fmt.deref = 0 then fmt.back else pure fmt
  fmt.advance

/-- One turn of the `for` loop, its `++fmt` included. -/
def turn (dbl : Doubles) (length : Nat) (fmt : Fmt) (args : List U32) (mem : Memory) :
    Except Fault (Fmt × Output) := do
  if fmt.deref ≠ ascii '%' then
    let c := fmt.deref
    let fmt ← fmt.advance
    pure (fmt, ⟨[c], args, mem⟩)
  else
    let fmt ← fmt.advance
    let (fmt, flags) := scanFlags fmt.passed fmt.rest 0
    let (fmt, flags, fieldWidth, args) ← scanWidth fmt flags args
    let (fmt, precision, args) ← scanPrecision fmt args
    let fmt ← scanQualifier fmt
    let out ← convert dbl length flags fieldWidth precision fmt.deref args mem
    let fmt ← endTurn fmt
    pure (fmt, out)

/-- The `for` loop with the number of its turns bounded. Besides the output it returns the pieces of the
    format that its turns consumed. -/
def format (dbl : Doubles) : Nat → Nat → Fmt → List U32 → Memory → Except Fault (List (List U8) × Output)
  | 0, _, _, _, _ => .error .outOfFuel
  | fuel + 1, length, fmt, args, mem =>
    if fmt.deref = 0 then .ok ([], ⟨[], args, mem⟩)
    else do
      let (next, out) ← turn dbl length fmt args mem
      let piece := fmt.rest.take (fmt.rest.length - next.rest.length)
      let (pieces, others) ← format dbl fuel (length + out.text.length) next out.args out.mem
      pure (piece :: pieces, ⟨out.text ++ others.text, others.args, others.mem⟩)

/-- What a call leaves: the pieces of the format, the output in `buf`, the arguments left, the memory, and
    the value it returns unless `ASSERT(i < 1024)` fails. -/
structure Result where
  pieces : List (List U8)
  text : List U8
  args : List U32
  mem : Memory
  value : Option U32

/-- The value of a call that has put `text` into `buf`. -/
def returned (text : List U8) : Option U32 :=
  let i := BitVec.ofNat 32 text.length
  if i.slt 1024 then some i else none

def vsprintf (dbl : Doubles) (fuel : Nat) (fmt : List U8) (args : List U32) (mem : Memory) :
    Except Fault Result := do
  let (pieces, out) ← format dbl fuel 0 ⟨[], fmt⟩ args mem
  pure ⟨pieces, out.text, out.args, out.mem, returned out.text⟩

end LiziOS.Vsprintf
