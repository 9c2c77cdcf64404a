import LiziOS.Kernel.IoQueue

namespace LiziOS

/-! `keyboard.c`. -/

def shiftLMake : U16 := 0x2a
def shiftRMake : U16 := 0x36
def altLMake : U16 := 0x38
def altRMake : U16 := 0xe038
def ctrlLMake : U16 := 0x1d
def ctrlRMake : U16 := 0xe01d
def capsLockMake : U16 := 0x3a

/-- The characters of a key, without shift and with it. -/
def keyChars (plain shifted : Char) : U8 × U8 := (BitVec.ofNat 8 plain.toNat, BitVec.ofNat 8 shifted.toNat)

def keymap : List (U8 × U8) := [
  (0, 0), (0x1b, 0x1b),
  keyChars '1' '!', keyChars '2' '@', keyChars '3' '#', keyChars '4' '$', keyChars '5' '%', keyChars '6' '^',
  keyChars '7' '&', keyChars '8' '*', keyChars '9' '(', keyChars '0' ')', keyChars '-' '_', keyChars '=' '+',
  -- backspace and tab
  (0x08, 0x08), (0x09, 0x09),
  keyChars 'q' 'Q', keyChars 'w' 'W', keyChars 'e' 'E', keyChars 'r' 'R', keyChars 't' 'T', keyChars 'y' 'Y',
  keyChars 'u' 'U', keyChars 'i' 'I', keyChars 'o' 'O', keyChars 'p' 'P',
  -- square brackets and braces, enter, the left ctrl key
  (0x5b, 0x7b), (0x5d, 0x7d), (0x0d, 0x0d), (0, 0),
  keyChars 'a' 'A', keyChars 's' 'S', keyChars 'd' 'D', keyChars 'f' 'F', keyChars 'g' 'G', keyChars 'h' 'H',
  keyChars 'j' 'J', keyChars 'k' 'K', keyChars 'l' 'L', keyChars ';' ':',
  -- the quotes, backquote and tilde, the left shift key, backslash and bar
  (0x27, 0x22), (0x60, 0x7e), (0, 0), (0x5c, 0x7c),
  keyChars 'z' 'Z', keyChars 'x' 'X', keyChars 'c' 'C', keyChars 'v' 'V', keyChars 'b' 'B', keyChars 'n' 'N',
  keyChars 'm' 'M', keyChars ',' '<', keyChars '.' '>', keyChars '/' '?',
  -- the right shift key, the left alt key, caps lock
  (0, 0), keyChars '*' '*', (0, 0), keyChars ' ' ' ', (0, 0)]

/-- `keymap[index][shift]`. -/
def curChar (index : U16) (shift : Bool) : U8 :=
  let entry := keymap.getD index.toNat (0, 0)
  if shift then entry.2 else entry.1

structure KeyStatus where
  ctrlStatus : Bool
  shiftStatus : Bool
  altStatus : Bool
  capsLockStatus : Bool
  extScancode : Bool
  deriving DecidableEq

/-- What the handler does beside changing its status variables. -/
inductive KeyEffect where
  | none
  | char (byte : U8)
  | unknownKey
  deriving DecidableEq

namespace KeyStatus

/-- The column of the key map. The first condition lists the keys that are no letters. -/
def shift (f : KeyStatus) (scancode : U16) : Bool :=
  if scancode < 0x0e ∨ scancode = 0x29 ∨ scancode = 0x1a ∨ scancode = 0x1b ∨ scancode = 0x2b ∨ scancode = 0x27 ∨
      scancode = 0x28 ∨ scancode = 0x33 ∨ scancode = 0x34 ∨ scancode = 0x35 then
    if f.shiftStatus then true else false
  else if f.shiftStatus ∧ f.capsLockStatus then false
  else if f.shiftStatus ∨ f.capsLockStatus then true
  else false

def released (f : KeyStatus) (makeCode : U16) : KeyStatus :=
  if makeCode = ctrlLMake ∨ makeCode = ctrlRMake then { f with ctrlStatus := false }
  else if makeCode = shiftLMake ∨ makeCode = shiftRMake then { f with shiftStatus := false }
  else if makeCode = altLMake ∨ makeCode = altRMake then { f with altStatus := false }
  else f

def pressed (f : KeyStatus) (scancode : U16) : KeyStatus :=
  if scancode = ctrlLMake ∨ scancode = ctrlRMake then { f with ctrlStatus := true }
  else if scancode = shiftLMake ∨ scancode = shiftRMake then { f with shiftStatus := true }
  else if scancode = altLMake ∨ scancode = altRMake then { f with altStatus := true }
  else if scancode = capsLockMake then { f with capsLockStatus := !f.capsLockStatus }
  else f

/-- `intr_keyboard_handler` from the point where the scan code is complete. -/
def decode (f : KeyStatus) (scancode : U16) : KeyStatus × KeyEffect :=
  if scancode &&& 0x0080 ≠ 0 then (f.released (scancode &&& 0xff7f), .none)
  else if (0 < scancode ∧ scancode < 0x3b) ∨ scancode = altRMake ∨ scancode = ctrlRMake then
    let shift := f.shift scancode
    let scancode := scancode &&& 0x00ff
    let byte := curChar scancode shift
    if byte ≠ 0 then (f, .char byte)
    else (f.pressed scancode, .none)
  else (f, .unknownKey)

/-- `intr_keyboard_handler` for the byte read from the port. -/
def scan (f : KeyStatus) (byte : U8) : KeyStatus × KeyEffect :=
  let scancode : U16 := byte.setWidth 16
  if scancode = 0xe0 then ({ f with extScancode := true }, .none)
  else if f.extScancode then { f with extScancode := false }.decode (0xe000 ||| scancode)
  else f.decode scancode

end KeyStatus

/-- The keyboard, and the threads around `kbd_buf`. -/
structure Keyboard (T : Type*) where
  status : KeyStatus
  kbdBuf : IoState T
  /-- how often "unknown key" has been printed -/
  unknownKeys : Nat
  /-- the characters typed, each with its place in the buffer, or with none if the buffer was full -/
  typed : List (U8 × Option Nat)

/-- What the keyboard does, and what the threads that read from the buffer do. -/
inductive KeyAct where
  | scan (byte : U8)
  | getchar
  | clock
  | resume

namespace Keyboard

variable {T : Type*} [DecidableEq T]

/-- The call of `ioq_putchar`, where the buffer has room. -/
def put (s : Keyboard T) (wanted : Option T) (byte : U8) : Except Fault (Keyboard T) :=
  if !ioqFull s.kbdBuf.ioq then
    (s.kbdBuf.ioqPutchar wanted byte).map fun kbdBuf =>
      { s with kbdBuf := kbdBuf, typed := s.typed ++ [(byte, some s.kbdBuf.ioq.head.toNat)] }
  else .ok { s with typed := s.typed ++ [(byte, none)] }

def intrKeyboardHandler (s : Keyboard T) (wanted : Option T) (byte : U8) : Except Fault (Keyboard T) :=
  let (status, effect) := s.status.scan byte
  let s := { s with status := status }
  match effect with
  | .none => .ok s
  | .char byte => s.put wanted byte
  | .unknownKey => .ok { s with unknownKeys := s.unknownKeys + 1 }

/-- A step of the threads. -/
def others (s : Keyboard T) (act : IoAct × Option T) : Option (Except Fault (Keyboard T)) :=
  (s.kbdBuf.step act).map fun done => done.map fun kbdBuf => { s with kbdBuf := kbdBuf }

def step (s : Keyboard T) : KeyAct × Option T → Option (Except Fault (Keyboard T))
  | (.scan byte, wanted) =>
    if s.kbdBuf.pc s.kbdBuf.threads.current = .idle then some (s.intrKeyboardHandler wanted byte) else none
  | (.getchar, wanted) => s.others (.getchar, wanted)
  | (.clock, wanted) => s.others (.clock, wanted)
  | (.resume, wanted) => s.others (.resume, wanted)

/-- After `keyboard_init`. -/
structure Start (s : Keyboard T) : Prop where
  status : s.status = ⟨false, false, false, false, false⟩
  kbdBuf : IoState.Start s.kbdBuf
  fresh : s.unknownKeys = 0 ∧ s.typed = []

def system (T : Type*) [DecidableEq T] : Transition.System (Keyboard T) (KeyAct × Option T) Fault where
  start := Start
  step := step

end Keyboard

end LiziOS
