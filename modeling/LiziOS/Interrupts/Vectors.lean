import LiziOS.Interrupts.Frame
import LiziOS.Library.Descriptors
import LiziOS.Library.Pic8259
import LiziOS.Library.Transition

namespace LiziOS.Interrupt

open ByteMemory Pic8259 X86

/-! `interrupt.c`: which handler runs when a device asks for an interrupt, when the processor finds an exception and
when a program executes `int`. -/

/-- `interrupt_num`. -/
def interruptNum : Nat := 0x30

/-- The vectors of `interrupt_handler.asm` whose second argument is 1. -/
def vectorFlag (n : Nat) : Bool := n ∈ [0x08, 0x0a, 0x0b, 0x0d, 0x0e, 0x11, 0x18, 0x1a, 0x1b, 0x1d, 0x1e]

/-- `struct interrupt_descriptor`. -/
structure InterruptDescriptor where
  funcOffsetLowWord : U16
  selector : U16
  dcount : U8
  attr : U8
  funcOffsetHighWord : U16

def InterruptDescriptor.bytes (desc : InterruptDescriptor) : List U8 :=
  [desc.funcOffsetLowWord.setWidth 8, (desc.funcOffsetLowWord >>> 8).setWidth 8,
    desc.selector.setWidth 8, (desc.selector >>> 8).setWidth 8, desc.dcount, desc.attr,
    desc.funcOffsetHighWord.setWidth 8, (desc.funcOffsetHighWord >>> 8).setWidth 8]

def makeIdtDesc (attr : U8) (function : U32) : InterruptDescriptor where
  funcOffsetLowWord := (function &&& 0x0000ffff).setWidth 16
  selector := 1 <<< 3
  dcount := 0
  attr := attr
  funcOffsetHighWord := ((function &&& 0xffff0000) >>> 16).setWidth 16

/-- The addresses that the code is linked to: `intr%1entry` and what follows its call, the handlers, `idt`. -/
structure Linked where
  entry : Nat → U32
  ret : Nat → U32
  distinct : ∀ i < interruptNum, ∀ j < interruptNum, entry i = entry j → i = j
  defaultInterruptHandler : U32
  clockInterruptHandler : U32
  intrKeyboardHandler : U32
  idt : U32

/-- The vector whose code lies at the address. -/
def Linked.vectorAt (linked : Linked) (a : U32) : Option Nat :=
  (List.range interruptNum).find? fun n => linked.entry n == a

/-- What decides about interrupts: the processor with its `idtr`, `idt`, `c_interrupt_entry_table`, and the
    interrupt controllers. -/
structure Wiring where
  cpu : Cpu
  esp0 : U32
  idtLimit : U16
  idtBase : U32
  idt : List U8
  cInterruptEntryTable : List U32
  pics : Pair

namespace Wiring

/-- `pic_init`, as the bytes that it sends. -/
def picInit : List (U16 × U8) :=
  [(0x20, 0b00010001), (0xa0, 0b00010001), (0x21, 0x20), (0xa1, 0x28), (0x21, 0b00000100), (0xa1, 0b00000010),
    (0x21, 0b00000001), (0xa1, 0b00000001), (0x21, 0xfc), (0xa1, 0xff)]

def idtInit (linked : Linked) (w : Wiring) : Wiring :=
  { w with
    cInterruptEntryTable := List.replicate interruptNum linked.defaultInterruptHandler
    idt := (List.range interruptNum).flatMap fun i => (makeIdtDesc 0b10001110 (linked.entry i)).bytes }

def idtOperand (idt : U32) : BitVec 64 := (8 * 0x30 - 1 : BitVec 64) ||| (idt.setWidth 64 <<< 16)

def interruptInit (linked : Linked) (w : Wiring) : Option Wiring :=
  (w.pics.outs picInit).map fun pics =>
    { idtInit linked w with
      pics := pics
      idtLimit := (idtOperand linked.idt).setWidth 16
      idtBase := (idtOperand linked.idt >>> 16).setWidth 32 }

/-- A number past the end of the table is written behind it. -/
def registerHandler (num : U8) (handler : U32) (w : Wiring) : Option Wiring :=
  if num.toNat < w.cInterruptEntryTable.length then
    some { w with cInterruptEntryTable := w.cInterruptEntryTable.set num.toNat handler }
  else none

/-- What `interrupt_init`, `timer_init` and `keyboard_init` do about interrupts. -/
def setUp (linked : Linked) (w : Wiring) : Option Wiring :=
  (w.interruptInit linked).bind fun w =>
    (w.registerHandler 0x20 linked.clockInterruptHandler).bind fun w =>
      w.registerHandler 0x21 linked.intrKeyboardHandler

/-- `default_interrupt_handler` returns; else it prints the name of the exception and stays in a loop. -/
def defaultReturns (intrId : U8) : Bool := intrId == 0x27 || intrId == 0x2f

/-- The gate that the processor finds. -/
def gate (linked : Linked) (w : Wiring) (n : U8) : Option Gate :=
  if 8 * n.toNat + 7 ≤ w.idtLimit.toNat then
    some (Gate.decode fun i => w.idt.getD (w.idtBase.toNat + 8 * n.toNat + i - linked.idt.toNat) 0)
  else none

/-- An interrupt goes through its gate, up to the call of the handler. The `out` of the entry is allowed in every
    ring by the map of the ports. -/
def enter (linked : Linked) (w : Wiring) (n : U8) (errorCode : Option U32) : Option Wiring :=
  match w.gate linked n with
  | none => none
  | some g =>
    if g.present = true ∧ g.type = 0b01110 ∧ g.selector = 8 then
      match linked.vectorAt g.offset with
      | none => none
      | some i =>
        let c := w.cpu.enter w.esp0 g.offset (BitVec.ofNat 8 i) (vectorFlag i) errorCode
        (w.pics.outs (c.sent.drop w.cpu.sent.length)).map fun pics =>
          { w with cpu := c.callHandler (w.cInterruptEntryTable.getD i 0) (linked.ret i), pics := pics }
    else none

/-- The instruction `int n`. A gate that is closed to the program gives a general protection fault. -/
def int (linked : Linked) (w : Wiring) (n : U8) : Option Wiring :=
  match w.gate linked n with
  | none => w.enter linked 13 (some (8 * n.setWidth 32 + 2))
  | some g =>
    if g.Open w.cpu.regs.ring then w.enter linked n none
    else w.enter linked 13 (some (8 * n.setWidth 32 + 2))

/-- The processor listens to the controllers. -/
def accept (linked : Linked) (w : Wiring) : Option Wiring :=
  match w.pics.acknowledge with
  | none => none
  | some (n, pics) => { w with pics := pics }.enter linked n none

/-- What code can do to its ring and its flags. Only gates lead inwards. -/
def Lawful (old new : Registers) : Prop :=
  old.ring ≤ new.ring ∧ (old.ring ≠ 0 → new.iopl = old.iopl) ∧
    (old.iopl < old.ring → new.eflags.getLsbD 9 = old.eflags.getLsbD 9)

instance (old new : Registers) : Decidable (Lawful old new) :=
  inferInstanceAs (Decidable (_ ∧ (_ → _) ∧ (_ → _)))

inductive Event where
  | raise (line : Nat)
  | drop (line : Nat)
  /-- code that touches neither the controllers nor the tables -/
  | run (mem : Memory) (regs : Registers) (esp0 : U32)
  | accept
  | exception (n : U8) (errorCode : Option U32)
  | int (n : U8)

def step (linked : Linked) (w : Wiring) : Event → Option Wiring
  | .raise line => if line < 16 then some { w with pics := w.pics.raise line } else none
  | .drop line => if line < 16 then some { w with pics := w.pics.drop line } else none
  | .run mem regs esp0 =>
    if Lawful w.cpu.regs regs then
      some { w with cpu := { w.cpu with mem := mem, regs := regs }, esp0 := esp0 }
    else none
  | .accept => if w.cpu.regs.eflags.getLsbD 9 then w.accept linked else none
  | .exception n errorCode =>
    if n.toNat ∈ exceptions ∧ errorCode.isSome = pushesErrorCode n.toNat then w.enter linked n errorCode else none
  | .int n => w.int linked n

/-- The runs behind `main`'s initializations. -/
def interrupts (linked : Linked) : Transition.System Wiring Event Empty where
  start w := ∃ u : Wiring, u.setUp linked = some w
  step w event := (w.step linked event).map .ok

end Wiring

variable {linked : Linked} {w w' : Wiring} {c : Cpu} {n : U8} {errorCode : Option U32}

theorem halves (a : U32) :
    (((a >>> 16).setWidth 16 >>> 8 : U16).setWidth 8 ++ ((a >>> 16).setWidth 16 : U16).setWidth 8 ++
      ((a.setWidth 16 : U16) >>> 8).setWidth 8 ++ (a.setWidth 16 : U16).setWidth 8 : BitVec (8 + 8 + 8 + 8)) = a := by
  apply BitVec.eq_of_toNat_eq
  simp only [append_toNat, BitVec.toNat_setWidth, BitVec.toNat_ushiftRight, Nat.shiftRight_eq_div_pow]
  have bound := a.isLt
  omega

/-- The processor finds in a gate what `make_idt_desc` has been given. -/
theorem makeIdtDesc_decode (attr : U8) (function : U32) :
    Gate.decode (fun i => (makeIdtDesc attr function).bytes.getD i 0) =
      { offset := function
        selector := 8
        type := attr.setWidth 5
        dpl := ((attr >>> 5).setWidth 2).toNat
        present := attr.getLsbD 7 } := by
  have offset : (Gate.decode fun i => (makeIdtDesc attr function).bytes.getD i 0).offset = function := by
    change (((function &&& 0xffff0000) >>> 16).setWidth 16 >>> 8 : U16).setWidth 8 ++
      (((function &&& 0xffff0000) >>> 16).setWidth 16 : U16).setWidth 8 ++
      (((function &&& 0x0000ffff).setWidth 16 : U16) >>> 8).setWidth 8 ++
      ((function &&& 0x0000ffff).setWidth 16 : U16).setWidth 8 = function
    rw [high_word, low_word]
    exact halves function
  have selector : (Gate.decode fun i => (makeIdtDesc attr function).bytes.getD i 0).selector = 8 := by
    change (((1 <<< 3 : U16) >>> 8).setWidth 8 ++ (1 <<< 3 : U16).setWidth 8 : BitVec (8 + 8)) = 8
    decide
  have parts : Gate.decode (fun i => (makeIdtDesc attr function).bytes.getD i 0) =
      { offset := (Gate.decode fun i => (makeIdtDesc attr function).bytes.getD i 0).offset
        selector := (Gate.decode fun i => (makeIdtDesc attr function).bytes.getD i 0).selector
        type := attr.setWidth 5
        dpl := ((attr >>> 5).setWidth 2).toNat
        present := attr.getLsbD 7 } := rfl
  rw [parts, offset, selector]

/-! What the initializations leave, and every event keeps. -/

/-- The controllers are as `pic_init` has set them up, and nothing is being served. -/
structure Ready (p : Pair) : Prop where
  phase : p.master.phase = .ready ∧ p.slave.phase = .ready
  base : p.master.base = 0x20 ∧ p.slave.base = 0x28
  cascade : p.master.cascade = 0b100
  manual : p.master.autoEoi = false ∧ p.slave.autoEoi = false
  masked : p.master.masked = 0xfc ∧ p.slave.masked = 0xff
  idle : p.master.Idle ∧ p.slave.Idle

structure Tables (linked : Linked) (w : Wiring) : Prop where
  idtr : w.idtLimit = 383 ∧ w.idtBase = linked.idt
  idt : w.idt = (List.range interruptNum).flatMap fun i => (makeIdtDesc 0b10001110 (linked.entry i)).bytes
  table : w.cInterruptEntryTable =
    ((List.replicate interruptNum linked.defaultInterruptHandler).set 0x20 linked.clockInterruptHandler).set 0x21
      linked.intrKeyboardHandler

structure Wired (linked : Linked) (w : Wiring) : Prop extends Tables linked w where
  ready : Ready w.pics

theorem picInit_ready (p : Pair) : ∃ q, p.outs Wiring.picInit = some q ∧ Ready q := by
  refine ⟨_, rfl, ?_⟩
  constructor
  case phase => exact ⟨rfl, rfl⟩
  case base => exact ⟨rfl, rfl⟩
  case cascade => rfl
  case manual => exact ⟨rfl, rfl⟩
  case masked => exact ⟨rfl, rfl⟩
  case idle => exact ⟨rfl, rfl⟩

theorem idtOperand_limit (idt : U32) : (Wiring.idtOperand idt).setWidth 16 = 383 := by
  apply BitVec.eq_of_getLsbD_eq
  intro i less
  unfold Wiring.idtOperand
  interval_cases i <;> simp

theorem idtOperand_base (idt : U32) : (Wiring.idtOperand idt >>> 16).setWidth 32 = idt := by
  apply BitVec.eq_of_getLsbD_eq
  intro i less
  unfold Wiring.idtOperand
  interval_cases i <;> simp

theorem setUp_wired (linked : Linked) (u : Wiring) : ∃ w, u.setUp linked = some w ∧ Wired linked w := by
  obtain ⟨pics, done, ready⟩ := picInit_ready u.pics
  have init : u.interruptInit linked = some { Wiring.idtInit linked u with
      pics := pics
      idtLimit := (Wiring.idtOperand linked.idt).setWidth 16
      idtBase := (Wiring.idtOperand linked.idt >>> 16).setWidth 32 } := by
    unfold Wiring.interruptInit
    rw [done]
    rfl
  unfold Wiring.setUp
  rw [init]
  refine ⟨_, rfl, ⟨?_, ?_, ?_⟩, ready⟩
  case refine_1 => exact ⟨idtOperand_limit linked.idt, idtOperand_base linked.idt⟩
  case refine_2 => rfl
  case refine_3 => rfl

theorem getElem?_flatMap {α : Type*} {f : α → List U8} (size : ∀ a, (f a).length = 8) (l : List α) (k : Nat) {i : Nat}
    (less : i < 8) : (l.flatMap f)[8 * k + i]? = (l[k]?).bind fun a => (f a)[i]? := by
  induction l generalizing k with
  | nil => rfl
  | cons a l ih =>
    rw [List.flatMap_cons]
    cases k with
    | zero =>
      rw [Nat.mul_zero, Nat.zero_add, List.getElem?_append_left (by rw [size]; exact less)]
      rfl
    | succ k =>
      rw [List.getElem?_append_right (by rw [size]; omega), size, show 8 * (k + 1) + i - 8 = 8 * k + i by omega, ih k]
      rfl

theorem Tables.gate (tables : Tables linked w) (less : n.toNat < interruptNum) :
    w.gate linked n = some ⟨linked.entry n.toNat, 8, 0b01110, 0, true⟩ := by
  unfold interruptNum at less
  obtain ⟨limit, base⟩ := tables.idtr
  have bytes (i : Nat) (inside : i < 8) : w.idt.getD (w.idtBase.toNat + 8 * n.toNat + i - linked.idt.toNat) 0 =
      (makeIdtDesc 0b10001110 (linked.entry n.toNat)).bytes.getD i 0 := by
    have nth : (List.range interruptNum)[n.toNat]? = some n.toNat := List.getElem?_range less
    rw [base, Nat.add_assoc, Nat.add_sub_cancel_left, tables.idt, List.getD_eq_getElem?_getD,
      getElem?_flatMap (fun _ => rfl) _ _ inside, nth, List.getD_eq_getElem?_getD]
    rfl
  unfold Wiring.gate
  rw [limit, if_pos (show 8 * n.toNat + 7 ≤ (383 : U16).toNat by change _ ≤ 383; omega), Gate.decode_congr bytes, makeIdtDesc_decode]
  rfl

theorem Tables.no_gate (tables : Tables linked w) (above : interruptNum ≤ n.toNat) : w.gate linked n = none := by
  unfold interruptNum at above
  unfold Wiring.gate
  rw [tables.idtr.1, if_neg (show ¬ 8 * n.toNat + 7 ≤ (383 : U16).toNat by change ¬ _ ≤ 383; omega)]

theorem Linked.vectorAt_entry (linked : Linked) {i : Nat} (less : i < interruptNum) :
    linked.vectorAt (linked.entry i) = some i := by
  apply find_range less
  · exact BEq.rfl
  · intro k earlier
    apply beq_eq_false_iff_ne.mpr
    intro same
    exact absurd (linked.distinct k (earlier.trans less) i less same) (Nat.ne_of_lt earlier)

theorem Tables.enter (tables : Tables linked w) (less : n.toNat < interruptNum) (errorCode : Option U32) :
    w.enter linked n errorCode = (w.pics.outs [(0xa0, 0x20), (0x20, 0x20)]).map fun pics =>
      { w with
        cpu := (w.cpu.enter w.esp0 (linked.entry n.toNat) n (vectorFlag n.toNat) errorCode).callHandler
          (w.cInterruptEntryTable.getD n.toNat 0) (linked.ret n.toNat)
        pics := pics } := by
  unfold Wiring.enter
  rw [tables.gate less]
  dsimp only
  rw [if_pos ⟨rfl, rfl, rfl⟩, linked.vectorAt_entry less]
  dsimp only
  rw [enter_rest.2.2.2, List.drop_left, BitVec.ofNat_toNat, BitVec.setWidth_eq]

/-- The line whose request the processor is told: the timer before the keyboard. -/
def due (p : Pair) : Option Nat :=
  if p.master.requested 0 then some 0 else if p.master.requested 1 then some 1 else none

def told (p : Pair) : U8 :=
  match due p with
  | some line => 0x20 + BitVec.ofNat 8 line
  | none => 0x27

theorem due_less {p : Pair} {line : Nat} (is : due p = some line) : line < 2 := by
  unfold due at is
  split at is
  · cases is
    decide
  · split at is
    · cases is
      decide
    · cases is

theorem Ready.next {p : Pair} (ready : Ready p) : p.master.next p.atMaster = due p := by
  have lines : List.range 8 = [0, 1, 2, 3, 4, 5, 6, 7] := rfl
  have first : p.atMaster 0 = p.master.requested 0 := rfl
  have second : p.atMaster 1 = p.master.requested 1 := rfl
  rw [Pic.next_idle ready.idle.1, ready.masked.1, lines, due, ← first, ← second]
  generalize p.atMaster = requested
  cases timer : requested 0 <;> cases keyboard : requested 1 <;> simp [List.find?, timer, keyboard]

/-- After both ends of interrupt nothing is being served, whatever went through. -/
theorem Ready.acknowledge {p : Pair} (ready : Ready p) : ∃ q, p.acknowledge = some (told p, q) ∧
    ∃ p', q.outs [(0xa0, 0x20), (0x20, 0x20)] = some p' ∧ Ready p' ∧ p'.slave = p.slave ∧
      p'.master.requested = match due p with
        | some line => Function.update p.master.requested line false
        | none => p.master.requested := by
  have ended {q : Pair} (slave : q.slave = p.slave) (phase : q.master.phase = .ready) :
      q.outs [(0xa0, 0x20), (0x20, 0x20)] = some { q with master := q.master.finish } := by
    have second : q.slave.command 0x20 = some q.slave := by
      unfold Pic.command
      rw [if_neg (by decide), if_pos ⟨slave ▸ ready.phase.2, by decide⟩, slave, Pic.finish_idle ready.idle.2]
    have first : q.master.command 0x20 = some q.master.finish := by
      unfold Pic.command
      rw [if_neg (by decide), if_pos ⟨phase, by decide⟩]
    change ((q.slave.command 0x20).map fun slave => { q with slave := slave }).bind _ = _
    rw [second]
    change (((q.master.command 0x20).map fun master => { q with master := master }).bind some) = _
    rw [first]
    rfl
  unfold told
  cases is : due p with
  | none =>
    refine ⟨p, ?_, p, ?_, ready, rfl, rfl⟩
    · unfold Pair.acknowledge
      rw [ready.next, is, ready.base.1]
      rfl
    · rw [ended rfl ready.phase.1, Pic.finish_idle ready.idle.1]
  | some line =>
    have less := due_less is
    have direct : p.master.cascade.getLsbD line = false := by
      rw [ready.cascade]
      interval_cases line <;> rfl
    refine ⟨{ p with master := p.master.serve line }, ?_, _, ended rfl ready.phase.1, ?_, rfl, ?_⟩
    · unfold Pair.acknowledge
      rw [ready.next, is]
      dsimp only
      rw [direct, if_neg Bool.false_ne_true, ready.base.1]
    · rw [Pic.finish_serve ready.idle.1 ready.manual.1 (by omega)]
      exact ⟨ready.phase, ready.base, ready.cascade, ready.manual, ready.masked, ready.idle⟩
    · rw [Pic.finish_serve ready.idle.1 ready.manual.1 (by omega)]

/-- The entry of `c_interrupt_entry_table`. -/
def Linked.handler (linked : Linked) (n : Nat) : U32 :=
  if n = 0x21 then linked.intrKeyboardHandler
  else if n = 0x20 then linked.clockInterruptHandler
  else linked.defaultInterruptHandler

theorem Tables.handler (tables : Tables linked w) (less : n.toNat < interruptNum) :
    w.cInterruptEntryTable.getD n.toNat 0 = linked.handler n.toNat := by
  unfold Linked.handler
  rw [tables.table, List.getD_eq_getElem?_getD]
  by_cases keyboard : n.toNat = 0x21
  · rw [keyboard]
    rfl
  · rw [if_neg keyboard, List.getElem?_set_ne (Ne.symm keyboard)]
    by_cases timer : n.toNat = 0x20
    · rw [timer]
      rfl
    · rw [if_neg timer, List.getElem?_set_ne (Ne.symm timer), List.getElem?_replicate_of_lt less]
      rfl

/-- The handler starts in the ring, with interrupts off and the number of the vector as its argument. -/
structure Calls (w : Wiring) (ring : Nat) (handler : U32) (n : U8) : Prop where
  eip : w.cpu.regs.eip = handler
  cs : w.cpu.regs.cs = 0x08 ||| BitVec.ofNat 16 ring
  off : w.cpu.regs.eflags.getLsbD 9 = false
  intrId : word w.cpu.mem (w.cpu.regs.esp + 4).toNat = n.setWidth 32

theorem Cpu.callHandler_argument (c : Cpu) (v handler ret : U32) :
    word ((c.push v).callHandler handler ret).mem (((c.push v).callHandler handler ret).regs.esp + 4).toNat = v := by
  change word (setWord (setWord c.mem (c.regs.esp - 4).toNat v) (c.regs.esp - 4 - 4).toNat ret)
    (c.regs.esp - 4 - 4 + 4).toNat = v
  have bound := c.regs.esp.isLt
  have apart : (c.regs.esp - 4 - 4).toNat + 4 ≤ (c.regs.esp - 4).toNat ∨
      (c.regs.esp - 4).toNat + 4 ≤ (c.regs.esp - 4 - 4).toNat := by
    simp only [BitVec.toNat_sub, BitVec.ofNat_eq_ofNat, BitVec.toNat_ofNat]
    omega
  rw [BitVec.sub_add_cancel, word_setWord_outside ret apart.symm, word_setWord]

theorem enter_off {entry esp0 : U32} {e : Bool} :
    (c.enter esp0 entry n e errorCode).regs.eflags.getLsbD 9 = false := by
  rw [enter_rest.2.2.1]
  unfold Cpu.gateFlags
  simp

theorem enter_iopl {entry esp0 : U32} {e : Bool} : (c.enter esp0 entry n e errorCode).regs.iopl = c.regs.iopl := by
  rw [Registers.iopl, enter_rest.2.2.1, Registers.iopl]
  have same : ((c.regs.eflags &&& ~~~Cpu.gateFlags) >>> 12).setWidth 2 = (c.regs.eflags >>> 12).setWidth 2 := by
    apply BitVec.eq_of_getLsbD_eq
    intro i less
    unfold Cpu.gateFlags
    interval_cases i <;> simp
  have numbers := congrArg BitVec.toNat same
  rw [BitVec.toNat_setWidth, BitVec.toNat_setWidth] at numbers
  exact numbers

/-- Outside the rings of IOPL `iretd` leaves IF alone. -/
theorem popFlags_off {old : Registers} {w : U32} (outside : old.iopl < old.ring) :
    (Cpu.popFlags old w).getLsbD 9 = old.eflags.getLsbD 9 := by
  unfold Cpu.popFlags Cpu.keptFlags
  rw [if_neg (by omega), if_neg (by omega)]
  simp

theorem calls_enter (w : Wiring) (esp0 entry handler ret : U32) (n : U8) (e : Bool) (errorCode : Option U32)
    (cpu : w.cpu = (c.enter esp0 entry n e errorCode).callHandler handler ret) : Calls w c.regs.ring handler n := by
  constructor
  case eip =>
    rw [cpu]
    rfl
  case cs =>
    rw [cpu]
    exact (@enter_rest c esp0 entry n errorCode e).1
  case off =>
    rw [cpu]
    exact @enter_off c n errorCode entry esp0 e
  case intrId =>
    obtain ⟨d, pushed⟩ : ∃ d : Cpu, c.enter esp0 entry n e errorCode = d.push (n.setWidth 32) := ⟨_, rfl⟩
    rw [cpu, pushed]
    exact Cpu.callHandler_argument d (n.setWidth 32) handler ret

theorem Wired.enter (wired : Wired linked w) (less : n.toNat < interruptNum) (errorCode : Option U32) :
    ∃ w', w.enter linked n errorCode = some w' ∧ Wired linked w' ∧ w'.pics = w.pics ∧
      Calls w' w.cpu.regs.ring (linked.handler n.toNat) n := by
  have ended : w.pics.outs [(0xa0, 0x20), (0x20, 0x20)] = some w.pics := by
    have quiet (p : Pic) (phase : p.phase = .ready) (idle : p.Idle) : p.command 0x20 = some p := by
      unfold Pic.command
      rw [if_neg (by decide), if_pos ⟨phase, by decide⟩, Pic.finish_idle idle]
    change ((w.pics.slave.command 0x20).map fun slave => { w.pics with slave := slave }).bind _ = _
    rw [quiet _ wired.ready.phase.2 wired.ready.idle.2]
    change ((w.pics.master.command 0x20).map fun master => { w.pics with master := master }).bind some = _
    rw [quiet _ wired.ready.phase.1 wired.ready.idle.1]
    rfl
  have entered := wired.toTables.enter less errorCode
  rw [ended, wired.toTables.handler less] at entered
  generalize cpu : (w.cpu.enter w.esp0 (linked.entry n.toNat) n (vectorFlag n.toNat) errorCode).callHandler
    (linked.handler n.toNat) (linked.ret n.toNat) = c at entered
  refine ⟨{ w with cpu := c, pics := w.pics }, entered, ⟨⟨wired.idtr, wired.idt, wired.table⟩, wired.ready⟩, rfl, ?_⟩
  exact calls_enter _ _ _ _ _ _ _ _ cpu.symm

theorem told_less (p : Pair) : (told p).toNat < interruptNum := by
  unfold told
  cases is : due p with
  | none => decide
  | some line =>
    have less := due_less is
    interval_cases line <;> decide

theorem Wired.accept (wired : Wired linked w) : ∃ w', w.accept linked = some w' ∧ Wired linked w' ∧
    Calls w' w.cpu.regs.ring (linked.handler (told w.pics).toNat) (told w.pics) ∧
    w'.pics.master.requested = match due w.pics with
      | some line => Function.update w.pics.master.requested line false
      | none => w.pics.master.requested := by
  obtain ⟨q, acknowledged, p, ended, ready, -, requested⟩ := wired.ready.acknowledge
  have tables : Tables linked { w with pics := q } := ⟨wired.idtr, wired.idt, wired.table⟩
  have entered := tables.enter (told_less w.pics) none
  dsimp only at entered
  rw [ended, wired.toTables.handler (told_less w.pics)] at entered
  generalize cpu : (w.cpu.enter w.esp0 (linked.entry (told w.pics).toNat) (told w.pics) (vectorFlag (told w.pics).toNat)
    none).callHandler (linked.handler (told w.pics).toNat) (linked.ret (told w.pics).toNat) = c at entered
  refine ⟨{ w with cpu := c, pics := p }, ?_, ⟨⟨wired.idtr, wired.idt, wired.table⟩, ready⟩, ?_, requested⟩
  · unfold Wiring.accept
    rw [acknowledged]
    exact entered
  · exact calls_enter _ _ _ _ _ _ _ _ cpu.symm

theorem Ready.raise {p : Pair} (ready : Ready p) (line : Nat) : Ready (p.raise line) := by
  unfold Pair.raise
  split <;> exact ⟨ready.phase, ready.base, ready.cascade, ready.manual, ready.masked, ready.idle⟩

theorem Ready.drop {p : Pair} (ready : Ready p) (line : Nat) : Ready (p.drop line) := by
  unfold Pair.drop
  split <;> exact ⟨ready.phase, ready.base, ready.cascade, ready.manual, ready.masked, ready.idle⟩

/-- A program of ring 3 gets the general protection fault, and kernel code gets the vector. -/
theorem Wired.int (wired : Wired linked w) (n : U8) :
    w.int linked n = w.enter linked n none ∧ n.toNat < interruptNum ∧ w.cpu.regs.ring = 0 ∨
      w.int linked n = w.enter linked 13 (some (8 * n.setWidth 32 + 2)) := by
  unfold Wiring.int
  rcases Nat.lt_or_ge n.toNat interruptNum with less | above
  · rw [wired.toTables.gate less]
    dsimp only
    split
    · rename_i opened
      exact .inl ⟨rfl, less, Nat.le_zero.mp opened⟩
    · exact .inr rfl
  · rw [wired.toTables.no_gate above]
    exact .inr rfl

/-- The event takes the request of the line away. -/
def Takes (w : Wiring) (line : Nat) : Wiring.Event → Prop
  | .drop other => other = line
  | .accept => due w.pics = some line
  | _ => False

theorem exception_less (exception : n.toNat ∈ exceptions) : n.toNat < interruptNum := by
  have all : ∀ k ∈ exceptions, k < interruptNum := by decide
  exact all _ exception

/-- What every event keeps: the wiring, and the requests that it does not take away. -/
theorem Wired.step {event : Wiring.Event} (wired : Wired linked w) (stepped : w.step linked event = some w') :
    Wired linked w' ∧ ∀ line < 2, w.pics.master.requested line = true → ¬ Takes w line event →
      w'.pics.master.requested line = true := by
  have through {k : U8} {code : Option U32} (less : k.toNat < interruptNum) (entered : w.enter linked k code = some w') :
      Wired linked w' ∧ w'.pics = w.pics := by
    obtain ⟨u, done, wired', pics, -⟩ := wired.enter less code
    cases done.symm.trans entered
    exact ⟨wired', pics⟩
  cases event with
  | raise line =>
    unfold Wiring.step at stepped
    dsimp only at stepped
    split at stepped
    · cases stepped
      refine ⟨⟨⟨wired.idtr, wired.idt, wired.table⟩, wired.ready.raise line⟩, fun other less pending _ => ?_⟩
      unfold Pair.raise
      split
      · dsimp only
        rw [Function.update_apply, pending, ite_self]
      · exact pending
    · cases stepped
  | drop line =>
    unfold Wiring.step at stepped
    dsimp only at stepped
    split at stepped
    · cases stepped
      refine ⟨⟨⟨wired.idtr, wired.idt, wired.table⟩, wired.ready.drop line⟩, fun other less pending kept => ?_⟩
      unfold Pair.drop
      split
      · dsimp only
        rw [Function.update_of_ne (Ne.symm kept), pending]
      · exact pending
    · cases stepped
  | run mem regs esp0 =>
    unfold Wiring.step at stepped
    dsimp only at stepped
    split at stepped
    · cases stepped
      exact ⟨⟨⟨wired.idtr, wired.idt, wired.table⟩, wired.ready⟩, fun _ _ pending _ => pending⟩
    · cases stepped
  | accept =>
    obtain ⟨u, done, wired', -, requested⟩ := wired.accept
    unfold Wiring.step at stepped
    dsimp only at stepped
    split at stepped
    · cases done.symm.trans stepped
      refine ⟨wired', fun other less pending kept => ?_⟩
      rw [requested]
      cases is : due w.pics with
      | none => exact pending
      | some line =>
        dsimp only
        have other_ : other ≠ line := by
          rintro rfl
          exact kept is
        rw [Function.update_of_ne other_, pending]
    · cases stepped
  | exception k code =>
    unfold Wiring.step at stepped
    dsimp only at stepped
    split at stepped
    · rename_i raised
      obtain ⟨wired', pics⟩ := through (exception_less raised.1) stepped
      exact ⟨wired', fun _ _ pending _ => pics ▸ pending⟩
    · cases stepped
  | int k =>
    rcases wired.int k with ⟨eq, less, -⟩ | eq
    · obtain ⟨wired', pics⟩ := through less (eq.symm.trans stepped)
      exact ⟨wired', fun _ _ pending _ => pics ▸ pending⟩
    · obtain ⟨wired', pics⟩ := through (by decide) (eq.symm.trans stepped)
      exact ⟨wired', fun _ _ pending _ => pics ▸ pending⟩

theorem interrupts_stepped {event : Wiring.Event} (stepped : (Wiring.interrupts linked).step w event = some (.ok w')) :
    w.step linked event = some w' := by
  obtain ⟨u, done, same⟩ := Option.map_eq_some_iff.mp stepped
  cases same
  exact done

theorem run_wired (reached : (Wiring.interrupts linked).Reachable w) : Wired linked w := by
  apply reached.invariant
  · rintro w ⟨u, done⟩
    obtain ⟨w', done', wired⟩ := setUp_wired linked u
    cases done.symm.trans done'
    exact wired
  · intro w event w' _ wired _ stepped
    exact (wired.step (interrupts_stepped stepped)).1

/-- The entries lie 64 bytes apart. -/
def sampleLinked : Linked where
  entry i := BitVec.ofNat 32 (0xc0002000 + 64 * i)
  ret i := BitVec.ofNat 32 (0xc0002030 + 64 * i)
  distinct i less j less' same := by
    unfold interruptNum at less less'
    have numbers := congrArg BitVec.toNat same
    rw [BitVec.toNat_ofNat, BitVec.toNat_ofNat, Nat.mod_eq_of_lt (by omega), Nat.mod_eq_of_lt (by omega)] at numbers
    omega
  defaultInterruptHandler := 0xc0004000
  clockInterruptHandler := 0xc0004100
  intrKeyboardHandler := 0xc0004200
  idt := 0xc0008000

/-- A user program in ring 3, with interrupts on. -/
def userProgram : Registers := ⟨0, 0, 0, 0, 0, 0, 0, 0xc0000000, 0x8048000, 0x202, 0x2b, 0x33, 0x33, 0x33, 0x33, 0⟩

/-- The key of a user program's machine has been pressed. -/
theorem sample_run : ∃ u w, (Wiring.interrupts sampleLinked).Reachable u ∧
    (Wiring.interrupts sampleLinked).step u (.raise 1) = some (.ok w) ∧
    (Wiring.interrupts sampleLinked).Reachable w ∧ w.cpu.regs = userProgram ∧ due w.pics = some 1 := by
  obtain ⟨u, done, wired⟩ := setUp_wired sampleLinked ⟨⟨fun _ => 0, userProgram, []⟩, 0, 0, 0, [], [],
    ⟨⟨.ready, false, false, 0, 0, false, 0, fun _ => false, fun _ => false⟩,
      ⟨.ready, false, false, 0, 0, false, 0, fun _ => false, fun _ => false⟩⟩⟩
  have quiet : u.pics.master.requested = fun _ => false := by
    cases done
    rfl
  have regs : u.cpu.regs = userProgram := by
    cases done
    rfl
  have start : (Wiring.interrupts sampleLinked).Reachable u := .start ⟨_, done⟩
  have raised : (Wiring.interrupts sampleLinked).step u (.raise 1) =
      some (.ok { u with pics := u.pics.raise 1 }) := rfl
  have pressed : (u.pics.raise 1).master.requested = Function.update (fun _ => false) 1 true := by
    rw [← quiet]
    rfl
  refine ⟨u, _, start, raised, start.next trivial raised, regs, ?_⟩
  unfold due
  dsimp only
  rw [pressed]
  rfl

/-- In every run, an interrupt that the processor accepts starts the handler that has been registered for the device
    which asks, the timer first; nothing is being served any more when it starts. Without a request the default
    handler is called, and returns. -/
theorem irq_routing (reached : (Wiring.interrupts linked).Reachable w) (on : w.cpu.regs.eflags.getLsbD 9 = true) :
    ∃ w', w.step linked .accept = some w' ∧ w'.pics.master.Idle ∧ w'.pics.slave.Idle ∧
      (due w.pics = some 0 → Calls w' w.cpu.regs.ring linked.clockInterruptHandler 0x20 ∧
        w'.pics.master.requested = Function.update w.pics.master.requested 0 false) ∧
      (due w.pics = some 1 → Calls w' w.cpu.regs.ring linked.intrKeyboardHandler 0x21 ∧
        w'.pics.master.requested = Function.update w.pics.master.requested 1 false) ∧
      (due w.pics = none → Calls w' w.cpu.regs.ring linked.defaultInterruptHandler 0x27 ∧ Wiring.defaultReturns 0x27 = true ∧
        w'.pics.master.requested = w.pics.master.requested) := by
  obtain ⟨w', done, wired, calls, requested⟩ := (run_wired reached).accept
  refine ⟨w', (if_pos on).trans done, wired.ready.idle.1, wired.ready.idle.2, fun is => ?_, fun is => ?_, fun is => ?_⟩
  all_goals
    unfold told at calls
    rw [is] at calls requested
  · exact ⟨calls, requested⟩
  · exact ⟨calls, requested⟩
  · exact ⟨calls, rfl, requested⟩

theorem irq_routing_key : ∃ w w', (Wiring.interrupts sampleLinked).Reachable w ∧ w.step sampleLinked .accept = some w' ∧
    Calls w' 3 0xc0004200 0x21 := by
  obtain ⟨-, w, -, -, reached, regs, is⟩ := sample_run
  obtain ⟨w', done, -, -, -, keyboard, -⟩ := irq_routing reached (by rw [regs]; rfl)
  have calls := (keyboard is).1
  rw [regs] at calls
  exact ⟨w, w', reached, done, calls⟩

/-- The event stops what runs. -/
def Interrupts : Wiring.Event → Prop
  | .accept | .exception _ _ | .int _ => True
  | _ => False

/-- The processor has gone through a gate to the handler. -/
def Interrupted (c d : Cpu) : Prop :=
  ∃ esp0 entry n e errorCode handler ret, d = (c.enter esp0 entry n e errorCode).callHandler handler ret

theorem enter_interrupted (done : w.enter linked n errorCode = some w') : Interrupted w.cpu w'.cpu := by
  unfold Wiring.enter at done
  split at done
  · cases done
  · split at done
    · split at done
      · cases done
      · obtain ⟨pics, -, rfl⟩ := Option.map_eq_some_iff.mp done
        exact ⟨_, _, _, _, _, _, _, rfl⟩
    · cases done

theorem step_interrupted {event : Wiring.Event} (stepped : w.step linked event = some w') (interrupts : Interrupts event) :
    Interrupted w.cpu w'.cpu := by
  cases event with
  | raise line => exact interrupts.elim
  | drop line => exact interrupts.elim
  | run mem regs esp0 => exact interrupts.elim
  | accept =>
    unfold Wiring.step Wiring.accept at stepped
    dsimp only at stepped
    split at stepped
    · split at stepped
      · cases stepped
      · rename_i k pics _
        exact @enter_interrupted _ { w with pics := pics } _ _ _ stepped
    · cases stepped
  | exception k code =>
    unfold Wiring.step at stepped
    dsimp only at stepped
    split at stepped
    · exact enter_interrupted stepped
    · cases stepped
  | int k =>
    unfold Wiring.step Wiring.int at stepped
    dsimp only at stepped
    split at stepped
    · exact enter_interrupted stepped
    · split at stepped <;> exact enter_interrupted stepped

theorem Interrupted.regs {d : Cpu} (entered : Interrupted c d) :
    d.regs.ring = c.regs.ring ∧ d.regs.iopl = c.regs.iopl ∧ d.regs.eflags.getLsbD 9 = false := by
  obtain ⟨esp0, entry, n, e, errorCode, handler, ret, rfl⟩ := entered
  have ring := @enter_ring c esp0 entry n errorCode e
  have iopl := @enter_iopl c n errorCode entry esp0 e
  have off := @enter_off c n errorCode entry esp0 e
  generalize c.enter esp0 entry n e errorCode = x at *
  exact ⟨ring, iopl, off⟩

/-- At most 19 words are pushed, on the stack that was there. -/
theorem Interrupted.stack {d : Cpu} (entered : Interrupted c d) (room : 76 ≤ c.regs.esp.toNat) :
    (∃ k ≤ 19, d.regs.esp = c.regs.esp - BitVec.ofNat 32 (4 * k)) ∧
      ∀ x, x < c.regs.esp.toNat - 76 ∨ c.regs.esp.toNat ≤ x → d.mem x = c.mem x := by
  obtain ⟨esp0, entry, n, e, errorCode, handler, ret, rfl⟩ := entered
  obtain ⟨dummy, saved⟩ := vectorEntry_pushes n e (c.accept esp0 entry errorCode)
  have entered := (accept_pushes c esp0 entry errorCode).trans saved
  change Pushed c (c.enter esp0 entry n e errorCode) _ at entered
  generalize c.enter esp0 entry n e errorCode = x at *
  have called : Pushed x (x.callHandler handler ret) [ret] := ⟨rfl, rfl⟩
  have all := entered.trans called
  generalize list : [c.regs.eflags, c.regs.cs.setWidth 32, c.regs.eip] ++ errorCode.toList ++
    ((if e then [] else [0]) ++ (c.accept esp0 entry errorCode).regs.entryWords n dummy) ++ [ret] = words at all
  have few : words.length ≤ 19 := by
    rw [← list]
    cases errorCode <;> cases e <;> exact Nat.le_of_ble_eq_true rfl
  obtain ⟨mem, esp⟩ := @Cpu.pushAll_eq c words (by omega)
  constructor
  · exact ⟨words.length, few, all.esp.trans esp⟩
  · intro x outside
    rw [all.mem, mem]
    exact Stack.push_outside (by omega) (by omega)

/-- Interrupts are off outside the rings of IOPL. -/
structure Deaf (ring : Nat) (r : Registers) : Prop where
  ring : ring ≤ r.ring
  outside : r.iopl < r.ring
  off : r.eflags.getLsbD 9 = false

theorem Deaf.step {ring : Nat} {event : Wiring.Event} (deaf : Deaf ring w.cpu.regs)
    (stepped : w.step linked event = some w') : Deaf ring w'.cpu.regs := by
  have entered (interrupts : Interrupts event) : Deaf ring w'.cpu.regs := by
    obtain ⟨ring', iopl, off⟩ := (step_interrupted stepped interrupts).regs
    exact ⟨ring' ▸ deaf.ring, ring' ▸ iopl ▸ deaf.outside, off⟩
  cases event with
  | raise line =>
    unfold Wiring.step at stepped
    dsimp only at stepped
    split at stepped
    · cases stepped
      exact deaf
    · cases stepped
  | drop line =>
    unfold Wiring.step at stepped
    dsimp only at stepped
    split at stepped
    · cases stepped
      exact deaf
    · cases stepped
  | run mem regs esp0 =>
    unfold Wiring.step at stepped
    dsimp only at stepped
    split at stepped
    · rename_i lawful
      cases stepped
      obtain ⟨outwards, iopl, flag⟩ := lawful
      have outside := deaf.outside
      have iopl' := iopl (by omega)
      constructor
      · exact deaf.ring.trans outwards
      · dsimp only
        omega
      · exact (flag outside).trans deaf.off
    · cases stepped
  | accept => exact entered trivial
  | exception k code => exact entered trivial
  | int k => exact entered trivial

theorem flag_agrees (exception : n.toNat ∈ exceptions) : pushesErrorCode n.toNat = vectorFlag n.toNat ↔ n ≠ 12 := by
  have all : ∀ k ∈ exceptions, pushesErrorCode k = vectorFlag k ↔ k ≠ 12 := by decide
  rw [all _ exception]
  exact not_congr ⟨fun same => BitVec.eq_of_toNat_eq same, fun same => same ▸ rfl⟩

theorem enter_returns {e : Bool} {entry esp0 : U32} {dpl : U16 → Nat} (agrees : errorCode.isSome = e)
    (room : 68 ≤ c.regs.esp.toNat) : (c.enter esp0 entry n e errorCode).intrExit dpl =
      { c.enter esp0 entry n e errorCode with
        regs := { c.regs with eflags := Cpu.popFlags (c.enter esp0 entry n e errorCode).regs c.regs.eflags } } := by
  obtain ⟨dummy, code, esp, words, -⟩ := @enter_frame c esp0 entry n errorCode e agrees room
  have bound := c.regs.esp.isLt
  have at_ : (c.enter esp0 entry n e errorCode).regs.esp.toNat = c.regs.esp.toNat - 68 := by
    rw [esp]
    exact BitVec.toNat_sub_of_le room
  apply intrExit_stays
  · rw [at_]
    exact ⟨n.setWidth 32, dummy, code, words.2⟩
  · exact enter_ring.symm
  · omega
  · rw [esp]
    exact (BitVec.sub_add_cancel _ _).symm
  · exact enter_rest.2.1.symm

/-- A vector whose second argument is 0, with an error code: `intr_exit` takes the words behind `ds` one too low. -/
theorem enter_torn {entry esp0 code : U32} {dpl : U16 → Nat} (room : 72 ≤ c.regs.esp.toNat) :
    ((c.enter esp0 entry n false (some code)).intrExit dpl).regs.eip = code ∧
      ((c.enter esp0 entry n false (some code)).intrExit dpl).regs.cs = c.regs.eip.setWidth 16 := by
  obtain ⟨dummy, entered⟩ := vectorEntry_pushes n false (c.accept esp0 entry (some code))
  rw [accept_entryWords] at entered
  obtain ⟨mem, esp⟩ := (accept_pushes c esp0 entry (some code)).trans entered
  generalize list : ([c.regs.eflags, c.regs.cs.setWidth 32, c.regs.eip] ++ (some code).toList ++
    ((if false then [] else [0]) ++ c.regs.entryWords n dummy) : List U32) = words at mem esp
  have length : 4 * words.length = 72 := by rw [← list]; rfl
  obtain ⟨pushed, moved⟩ := @Cpu.pushAll_eq c words (by rw [length]; exact room)
  have bound := c.regs.esp.isLt
  have place : (c.enter esp0 entry n false (some code)).regs.esp.toNat = c.regs.esp.toNat - 4 * words.length := by
    rw [Cpu.enter, esp, moved, length]
    exact BitVec.toNat_sub_of_le room
  have there := @Stack.push_words c.mem c.regs.esp.toNat words (by omega)
  rw [pushed] at mem
  rw [← mem, ← place, ← list] at there
  simp only [Bool.false_eq_true, ↓reduceIte, Registers.entryWords, Option.toList_some,
    List.reverse_cons, List.reverse_nil, List.nil_append, List.cons_append, Stack.WordsAt, Nat.add_assoc, Nat.reduceAdd]
    at there
  obtain ⟨-, -, -, -, -, -, -, -, -, -, -, -, -, -, atEip, atCs, -⟩ := there
  change word (c.enter esp0 entry n false (some code)).mem _ = code at atEip
  change word (c.enter esp0 entry n false (some code)).mem _ = c.regs.eip at atCs
  have fits : (c.enter esp0 entry n false (some code)).regs.esp.toNat + 60 < 2 ^ 32 := by omega
  clear mem esp pushed moved
  generalize c.enter esp0 entry n false (some code) = d at *
  have eip : d.popped.eip = code := (Cpu.load_add (k := 56) (by omega)).trans atEip
  have cs : d.load (d.regs.esp + 60) = c.regs.eip := (Cpu.load_add (k := 60) fits).trans atCs
  have selector : d.popped.cs = c.regs.eip.setWidth 16 := by rw [← cs]; rfl
  rw [intrExit_eq]
  split <;> exact ⟨eip, selector⟩

/-- The frames of the exceptions fit `intr_exit`, but for that of the stack fault: its vector pushes a zero although
    the processor has pushed an error code, so that a handler which returned would go on at the error code. Outside
    the rings of IOPL interrupts would stay off. -/
theorem exception_frames {esp0 entry : U32} {dpl : U16 → Nat} (exception : n.toNat ∈ exceptions)
    (agrees : errorCode.isSome = pushesErrorCode n.toNat) (room : 72 ≤ c.regs.esp.toNat) :
    (n ≠ 12 → ∃ eflags, ((c.enter esp0 entry n (vectorFlag n.toNat) errorCode).intrExit dpl).regs =
        { c.regs with eflags := eflags } ∧ (c.regs.ring = 0 → eflags = c.regs.eflags) ∧
        (c.regs.iopl < c.regs.ring → eflags.getLsbD 9 = false)) ∧
      (n = 12 → ∃ code, errorCode = some code ∧
        ((c.enter esp0 entry n (vectorFlag n.toNat) errorCode).intrExit dpl).regs.eip = code ∧
        ((c.enter esp0 entry n (vectorFlag n.toNat) errorCode).intrExit dpl).regs.cs = c.regs.eip.setWidth 16) := by
  constructor
  · intro other
    rw [enter_returns (agrees.trans ((flag_agrees exception).mpr other)) (by omega)]
    refine ⟨_, rfl, fun zero => popFlags_zero _ _ (enter_ring.trans zero), fun outside => ?_⟩
    rw [popFlags_off]
    · exact enter_off
    · rw [enter_ring, enter_iopl]
      exact outside
  · rintro rfl
    cases errorCode with
    | none => exact absurd agrees (by decide)
    | some code => exact ⟨code, rfl, enter_torn room⟩

theorem exception_frames_user : ∃ eflags,
    (((⟨fun _ => 0, userProgram, []⟩ : Cpu).enter 0xc0101000 0xc0002340 13 true (some 0)).intrExit
      fun selector => selector.toNat % 4).regs = { userProgram with eflags := eflags } ∧
    eflags.getLsbD 9 = false := by
  obtain ⟨eflags, back, -, off⟩ := (@exception_frames ⟨fun _ => 0, userProgram, []⟩ 13 (some 0) 0xc0101000 0xc0002340
    (fun selector => selector.toNat % 4) (by decide) rfl (by decide)).1 (by decide)
  exact ⟨eflags, back, off (by decide)⟩

end LiziOS.Interrupt
