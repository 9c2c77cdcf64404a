import LiziOS.Types
import LiziOS.Library.Descriptors
import LiziOS.Library.Stack

namespace LiziOS.Interrupt

open ByteMemory

/-! The entries of `interrupt_handler.asm` and its `intr_exit`, with what the processor itself pushes and
pops around them. Linear memory is flat, and the checks of a segment register load are left out. -/

@[ext] structure Registers where
  eax : U32
  ebx : U32
  ecx : U32
  edx : U32
  esi : U32
  edi : U32
  ebp : U32
  esp : U32
  eip : U32
  eflags : U32
  cs : U16
  ss : U16
  ds : U16
  es : U16
  fs : U16
  gs : U16

/-- The privilege level that the code segment selector gives. -/
def Registers.ring (r : Registers) : Nat := r.cs.toNat % 4

def Registers.iopl (r : Registers) : Nat := (r.eflags >>> 12).toNat % 4

/-- `gdt_code` of `loader.asm`. -/
def gdtCode : List U8 := [0xff, 0xff, 0, 0, 0, 0b1110 ||| 0b10010000, 0b11000000 ||| 0xf, 0]

/-- The segment of the selector in the gates of `make_idt_desc`. -/
def kernelCode : X86.Segment := X86.Segment.decode fun i => gdtCode.getD i 0

structure Cpu where
  mem : Memory
  regs : Registers
  /-- the bytes sent to ports, oldest first -/
  sent : List (U16 × U8)

namespace Cpu

def load (c : Cpu) (a : U32) : U32 := word c.mem a.toNat

def setEsp (c : Cpu) (esp : U32) : Cpu := { c with regs := { c.regs with esp := esp } }

def push (c : Cpu) (w : U32) : Cpu :=
  { c with mem := setWord c.mem (c.regs.esp - 4).toNat w }.setEsp (c.regs.esp - 4)

def pushAll (c : Cpu) (words : List U32) : Cpu := words.foldl push c

/-- A selector is pushed as four bytes. -/
def pushSegment (c : Cpu) (selector : U16) : Cpu := c.push (selector.setWidth 32)

def pushad (c : Cpu) : Cpu :=
  let esp := c.regs.esp
  let c := ((c.push c.regs.eax).push c.regs.ecx).push c.regs.edx
  let c := ((c.push c.regs.ebx).push esp).push c.regs.ebp
  (c.push c.regs.esi).push c.regs.edi

/-- `mov al,0x20` and its `out` to the two interrupt controllers. -/
def endOfInterrupt (c : Cpu) : Cpu :=
  { c with
    regs := { c.regs with eax := (c.regs.eax &&& 0xffffff00) ||| 0x20 }
    sent := c.sent ++ [(0xa0, 0x20), (0x20, 0x20)] }

/-- The flags that an interrupt gate clears: TF, IF, NT, RF and VM. -/
def gateFlags : U32 := 0x34300

/-- The processor goes to the entry of a vector through a gate of `make_idt_desc`. -/
def accept (c : Cpu) (esp0 entry : U32) (errorCode : Option U32) : Cpu :=
  let r := c.regs
  let inward := kernelCode.inward r.ring
  let c := if inward then
      ({ c with regs := { r with esp := esp0, ss := 0x10 } }.pushSegment r.ss).push r.esp
    else c
  let c := ((c.push r.eflags).pushSegment r.cs).push r.eip
  let c := match errorCode with
    | some code => c.push code
    | none => c
  { c with regs := { c.regs with
      cs := 0x08 ||| BitVec.ofNat 16 (if inward then kernelCode.dpl else r.ring)
      eip := entry
      eflags := r.eflags &&& ~~~gateFlags } }

/-- `VECTOR n, e` up to the call of the handler. -/
def vectorEntry (n : U8) (e : Bool) (c : Cpu) : Cpu :=
  let c := if e then c else c.push 0
  let c := ((c.pushSegment c.regs.ds).pushSegment c.regs.es).pushSegment c.regs.fs
  let c := (c.pushSegment c.regs.gs).pushad
  c.endOfInterrupt.push (n.setWidth 32)

/-- `call [c_interrupt_entry_table+4*n]`, with the address of the `jmp intr_exit` behind it. -/
def callHandler (c : Cpu) (handler ret : U32) : Cpu :=
  let c := c.push ret
  { c with regs := { c.regs with eip := handler } }

/-- The stack pointer that `pushad` has stored is skipped. -/
def popad (c : Cpu) : Cpu :=
  let c := { c with regs := { c.regs with edi := c.load c.regs.esp, esp := c.regs.esp + 4 } }
  let c := { c with regs := { c.regs with esi := c.load c.regs.esp, esp := c.regs.esp + 4 } }
  let c := { c with regs := { c.regs with ebp := c.load c.regs.esp, esp := c.regs.esp + 4 } }
  let c := c.setEsp (c.regs.esp + 4)
  let c := { c with regs := { c.regs with ebx := c.load c.regs.esp, esp := c.regs.esp + 4 } }
  let c := { c with regs := { c.regs with edx := c.load c.regs.esp, esp := c.regs.esp + 4 } }
  let c := { c with regs := { c.regs with ecx := c.load c.regs.esp, esp := c.regs.esp + 4 } }
  { c with regs := { c.regs with eax := c.load c.regs.esp, esp := c.regs.esp + 4 } }

/-- A data segment register on the way to a less privileged ring. -/
def outwards (dpl : U16 → Nat) (ring : Nat) (selector : U16) : U16 :=
  if dpl selector < ring then 0 else selector

/-- The flags that `iretd` leaves alone: IOPL and the flags of virtual interrupts outside ring 0, and IF outside
    the rings of IOPL. -/
def keptFlags (r : Registers) : U32 :=
  (if r.ring = 0 then 0 else 0x1a3000) ||| if r.ring ≤ r.iopl then 0 else 0x200

def popFlags (old : Registers) (w : U32) : U32 := (w &&& ~~~keptFlags old) ||| (old.eflags &&& keptFlags old)

def iretd (dpl : U16 → Nat) (c : Cpu) : Cpu :=
  let old := c.regs
  let c := { c with regs := { c.regs with eip := c.load c.regs.esp, esp := c.regs.esp + 4 } }
  let c := { c with regs := { c.regs with cs := (c.load c.regs.esp).setWidth 16, esp := c.regs.esp + 4 } }
  let c := { c with regs := { c.regs with eflags := popFlags old (c.load c.regs.esp), esp := c.regs.esp + 4 } }
  let ring := c.regs.ring
  if old.ring < ring then
    { c with regs := { c.regs with
        esp := c.load c.regs.esp
        ss := (c.load (c.regs.esp + 4)).setWidth 16
        ds := outwards dpl ring c.regs.ds
        es := outwards dpl ring c.regs.es
        fs := outwards dpl ring c.regs.fs
        gs := outwards dpl ring c.regs.gs } }
  else c

def intrExit (dpl : U16 → Nat) (c : Cpu) : Cpu :=
  let c := (c.setEsp (c.regs.esp + 4)).popad
  let c := { c with regs := { c.regs with gs := (c.load c.regs.esp).setWidth 16, esp := c.regs.esp + 4 } }
  let c := { c with regs := { c.regs with fs := (c.load c.regs.esp).setWidth 16, esp := c.regs.esp + 4 } }
  let c := { c with regs := { c.regs with es := (c.load c.regs.esp).setWidth 16, esp := c.regs.esp + 4 } }
  let c := { c with regs := { c.regs with ds := (c.load c.regs.esp).setWidth 16, esp := c.regs.esp + 4 } }
  (c.setEsp (c.regs.esp + 4)).iretd dpl

end Cpu

/-- `struct intr_stack`. -/
structure IntrStack where
  vecNo : U32
  edi : U32
  esi : U32
  ebp : U32
  espDummy : U32
  ebx : U32
  edx : U32
  ecx : U32
  eax : U32
  gs : U32
  fs : U32
  es : U32
  ds : U32
  errCode : U32
  eip : U32
  cs : U32
  eflags : U32
  esp : U32
  ss : U32

namespace IntrStack

/-- The fields behind `vec_no` up to the last one that is there when the ring does not change. -/
def inner (f : IntrStack) : List U32 :=
  [f.edi, f.esi, f.ebp, f.espDummy, f.ebx, f.edx, f.ecx, f.eax, f.gs, f.fs, f.es, f.ds, f.errCode, f.eip, f.cs,
    f.eflags]

/-- The fields behind `vec_no`, the last two only where the ring changes. -/
def above (f : IntrStack) (outer : Bool) : List U32 := f.inner ++ if outer then [f.esp, f.ss] else []

end IntrStack

namespace Registers

/-- The frame of interrupted code. -/
def intrStack (r : Registers) (vecNo espDummy errCode : U32) : IntrStack where
  vecNo := vecNo
  edi := r.edi
  esi := r.esi
  ebp := r.ebp
  espDummy := espDummy
  ebx := r.ebx
  edx := r.edx
  ecx := r.ecx
  eax := r.eax
  gs := r.gs.setWidth 32
  fs := r.fs.setWidth 32
  es := r.es.setWidth 32
  ds := r.ds.setWidth 32
  errCode := errCode
  eip := r.eip
  cs := r.cs.setWidth 32
  eflags := r.eflags
  esp := r.esp
  ss := r.ss.setWidth 32

/-- No data segment register selects a segment of a ring more privileged than that of the code. -/
def Unprivileged (dpl : U16 → Nat) (r : Registers) : Prop :=
  ∀ selector ∈ [r.ds, r.es, r.fs, r.gs], selector = 0 ∨ r.ring ≤ dpl selector

instance (dpl : U16 → Nat) (r : Registers) : Decidable (r.Unprivileged dpl) :=
  List.decidableBAll (fun selector => selector = 0 ∨ r.ring ≤ dpl selector) [r.ds, r.es, r.fs, r.gs]

end Registers

variable {c d : Cpu} {r : Registers} {esp0 entry handler ret : U32} {n : U8} {errorCode : Option U32}
  {dpl : U16 → Nat} {words : List U32} {f : IntrStack}

theorem toNat_sub_four {a : U32} (room : 4 ≤ a.toNat) : (a - 4).toNat = a.toNat - 4 :=
  BitVec.toNat_sub_of_le room

@[simp] theorem Cpu.push_mem (c : Cpu) (w : U32) :
    (c.push w).mem = setWord c.mem (c.regs.esp - 4).toNat w := rfl

@[simp] theorem Cpu.push_regs (c : Cpu) (w : U32) :
    (c.push w).regs = { c.regs with esp := c.regs.esp - 4 } := rfl

@[simp] theorem Cpu.push_sent (c : Cpu) (w : U32) : (c.push w).sent = c.sent := rfl

theorem Cpu.pushAll_eq (room : 4 * words.length ≤ c.regs.esp.toNat) :
    (c.pushAll words).mem = Stack.push c.mem c.regs.esp.toNat words ∧
      (c.pushAll words).regs.esp = c.regs.esp - BitVec.ofNat 32 (4 * words.length) := by
  induction words generalizing c with
  | nil => exact ⟨rfl, (BitVec.sub_zero c.regs.esp).symm⟩
  | cons w words ih =>
    rw [List.length_cons] at room
    have next : (c.regs.esp - 4).toNat = c.regs.esp.toNat - 4 := toNat_sub_four (by omega)
    obtain ⟨mem, esp⟩ := @ih (c.push w) (by change 4 * words.length ≤ (c.regs.esp - 4).toNat; omega)
    constructor
    · change ((c.push w).pushAll words).mem = _
      rw [mem]
      simp only [Cpu.push, Cpu.setEsp, Stack.push, next]
    · change ((c.push w).pushAll words).regs.esp = _
      rw [esp]
      change c.regs.esp - 4 - BitVec.ofNat 32 (4 * words.length) = _
      rw [BitVec.sub_sub, List.length_cons, Nat.mul_succ, Nat.add_comm, BitVec.ofNat_add]
      rfl

/-- The words have been pushed, the first one first; other registers may have changed as well. -/
structure Pushed (c d : Cpu) (words : List U32) : Prop where
  mem : d.mem = (c.pushAll words).mem
  esp : d.regs.esp = (c.pushAll words).regs.esp

theorem Pushed.trans {b : Cpu} {more : List U32} (first : Pushed b c words) (second : Pushed c d more) :
    Pushed b d (words ++ more) := by
  have same (words : List U32) (c c' : Cpu) (mem : c.mem = c'.mem) (esp : c.regs.esp = c'.regs.esp) :
      (c.pushAll words).mem = (c'.pushAll words).mem ∧
        (c.pushAll words).regs.esp = (c'.pushAll words).regs.esp := by
    induction words generalizing c c' with
    | nil => exact ⟨mem, esp⟩
    | cons w words ih =>
      apply ih (c.push w) (c'.push w)
      · simp only [Cpu.push, Cpu.setEsp, mem, esp]
      · simp only [Cpu.push, Cpu.setEsp, esp]
  have joined : b.pushAll (words ++ more) = (b.pushAll words).pushAll more := List.foldl_append
  obtain ⟨mem, esp⟩ := same more c (b.pushAll words) first.mem first.esp
  constructor
  · rw [joined, second.mem, mem]
  · rw [joined, second.esp, esp]

theorem kernelCode_inward (ring : Nat) : kernelCode.inward ring = false :=
  show (!kernelCode.conforming && _) = false from rfl

/-- The segment conforms: no interrupt changes the stack. -/
theorem accept_pushes (c : Cpu) (esp0 entry : U32) (errorCode : Option U32) :
    Pushed c (c.accept esp0 entry errorCode)
      ([c.regs.eflags, c.regs.cs.setWidth 32, c.regs.eip] ++ errorCode.toList) := by
  simp only [Cpu.accept, kernelCode_inward, Bool.false_eq_true, ↓reduceIte]
  cases errorCode <;> exact ⟨rfl, rfl⟩

/-- The words that the entry of a vector pushes. -/
def Registers.entryWords (r : Registers) (n : U8) (dummy : U32) : List U32 :=
  [r.ds.setWidth 32, r.es.setWidth 32, r.fs.setWidth 32, r.gs.setWidth 32, r.eax, r.ecx, r.edx, r.ebx, dummy,
    r.ebp, r.esi, r.edi, n.setWidth 32]

theorem vectorEntry_pushes (n : U8) (e : Bool) (c : Cpu) : ∃ dummy,
    Pushed c (c.vectorEntry n e) ((if e then [] else [0]) ++ c.regs.entryWords n dummy) := by
  cases e with
  | false =>
    apply Exists.intro (c.regs.esp - 4 - 4 - 4 - 4 - 4)
    constructor <;> simp only [Cpu.vectorEntry, Cpu.pushad, Cpu.pushSegment, Cpu.endOfInterrupt, Cpu.pushAll,
      Registers.entryWords, List.cons_append, List.nil_append, List.foldl_cons, List.foldl_nil, Cpu.push_mem,
      Cpu.push_regs, Bool.false_eq_true, ↓reduceIte]
  | true =>
    apply Exists.intro (c.regs.esp - 4 - 4 - 4 - 4)
    constructor <;> simp only [Cpu.vectorEntry, Cpu.pushad, Cpu.pushSegment, Cpu.endOfInterrupt, Cpu.pushAll,
      Registers.entryWords, List.nil_append, List.foldl_cons, List.foldl_nil, Cpu.push_mem, Cpu.push_regs,
      ↓reduceIte]

/-- An interrupt up to the call of its handler. -/
def Cpu.enter (c : Cpu) (esp0 entry : U32) (n : U8) (e : Bool) (errorCode : Option U32) : Cpu :=
  (c.accept esp0 entry errorCode).vectorEntry n e

theorem accept_entryWords (n : U8) (dummy : U32) :
    (c.accept esp0 entry errorCode).regs.entryWords n dummy = c.regs.entryWords n dummy := by
  simp only [Cpu.accept, kernelCode_inward, Bool.false_eq_true, ↓reduceIte]
  cases errorCode <;> rfl

theorem enter_pushes (agrees : errorCode.isSome = e) : ∃ dummy code,
    Pushed c (c.enter esp0 entry n e errorCode)
      (((c.regs.intrStack (n.setWidth 32) dummy code).above false).reverse ++ [n.setWidth 32]) := by
  obtain ⟨dummy, entered⟩ := vectorEntry_pushes n e (c.accept esp0 entry errorCode)
  have all := (accept_pushes c esp0 entry errorCode).trans entered
  rw [accept_entryWords] at all
  apply Exists.intro dummy
  subst agrees
  cases errorCode with
  | none =>
    apply Exists.intro 0
    exact all
  | some code =>
    apply Exists.intro code
    exact all

theorem vectorEntry_rest (n : U8) (e : Bool) (c : Cpu) : (c.vectorEntry n e).regs.cs = c.regs.cs ∧
    (c.vectorEntry n e).regs.ss = c.regs.ss ∧ (c.vectorEntry n e).regs.eflags = c.regs.eflags ∧
    (c.vectorEntry n e).sent = c.sent ++ [(0xa0, 0x20), (0x20, 0x20)] := by
  cases e <;> simp only [Cpu.vectorEntry, Cpu.pushad, Cpu.pushSegment, Cpu.endOfInterrupt, Cpu.push_regs,
    Cpu.push_sent, Bool.false_eq_true, ↓reduceIte, and_self]

theorem accept_rest : (c.accept esp0 entry errorCode).regs.cs = 0x08 ||| BitVec.ofNat 16 c.regs.ring ∧
    (c.accept esp0 entry errorCode).regs.ss = c.regs.ss ∧
    (c.accept esp0 entry errorCode).regs.eflags = c.regs.eflags &&& ~~~Cpu.gateFlags ∧
    (c.accept esp0 entry errorCode).sent = c.sent := by
  cases errorCode <;> simp only [Cpu.accept, kernelCode_inward, Cpu.pushSegment, Cpu.push_regs, Cpu.push_sent,
    Bool.false_eq_true, ↓reduceIte, and_self]

/-- What the handler finds, besides the stack: it runs in the ring of what has been interrupted. -/
theorem enter_rest : (c.enter esp0 entry n e errorCode).regs.cs = 0x08 ||| BitVec.ofNat 16 c.regs.ring ∧
    (c.enter esp0 entry n e errorCode).regs.ss = c.regs.ss ∧
    (c.enter esp0 entry n e errorCode).regs.eflags = c.regs.eflags &&& ~~~Cpu.gateFlags ∧
    (c.enter esp0 entry n e errorCode).sent = c.sent ++ [(0xa0, 0x20), (0x20, 0x20)] := by
  obtain ⟨cs, ss, eflags, sent⟩ := vectorEntry_rest n e (c.accept esp0 entry errorCode)
  obtain ⟨cs', ss', eflags', sent'⟩ := @accept_rest c esp0 entry errorCode
  rw [Cpu.enter, cs, ss, eflags, sent, sent']
  exact ⟨cs', ss', eflags', rfl⟩

theorem enter_ring : (c.enter esp0 entry n e errorCode).regs.ring = c.regs.ring := by
  have low : c.regs.ring < 4 := Nat.mod_lt _ (by decide)
  unfold Registers.ring at low ⊢
  rw [enter_rest.1, Registers.ring]
  interval_cases c.regs.cs.toNat % 4 <;> rfl

theorem above_length (f : IntrStack) (outer : Bool) :
    4 * (f.above outer).length + 4 = if outer then 76 else 68 := by
  cases outer <;> rfl

/-- The code that an interrupt stops finds its registers in the fields of `struct intr_stack`, on its own stack. -/
theorem enter_frame (agrees : errorCode.isSome = e) (room : 68 ≤ c.regs.esp.toNat) :
    ∃ dummy code, (c.enter esp0 entry n e errorCode).regs.esp = c.regs.esp - 68 ∧
      Stack.WordsAt (c.enter esp0 entry n e errorCode).mem (c.regs.esp.toNat - 68)
        (n.setWidth 32 :: (c.regs.intrStack (n.setWidth 32) dummy code).above false) ∧
      ∀ x, x < c.regs.esp.toNat - 68 ∨ c.regs.esp.toNat ≤ x →
        (c.enter esp0 entry n e errorCode).mem x = c.mem x := by
  obtain ⟨dummy, code, mem, esp⟩ := @enter_pushes c esp0 entry n errorCode e agrees
  have all : 4 * (((c.regs.intrStack (n.setWidth 32) dummy code).above false).reverse ++
      [(n.setWidth 32 : U32)]).length = 68 := rfl
  obtain ⟨pushed, moved⟩ := Cpu.pushAll_eq (c := c) (by rw [all]; exact room)
  rw [pushed] at mem
  rw [moved, all] at esp
  rw [← all] at room
  refine ⟨dummy, code, esp, ?_, ?_⟩
  · have words := @Stack.push_words c.mem _ _ room
    rw [← mem, all, List.reverse_append, List.reverse_reverse] at words
    exact words
  · intro x outside
    rw [← all] at outside
    rw [mem]
    exact Stack.push_outside room outside

/-! `intr_exit`. -/

theorem Cpu.load_add {k : Nat} (room : c.regs.esp.toNat + k < 2 ^ 32) :
    c.load (c.regs.esp + BitVec.ofNat 32 k) = word c.mem (c.regs.esp.toNat + k) := by
  unfold Cpu.load
  rw [BitVec.toNat_add, BitVec.toNat_ofNat, Nat.mod_eq_of_lt (show k < 2 ^ 32 by omega), Nat.mod_eq_of_lt room]

theorem setWidth_selector (selector : U16) : ((selector.setWidth 32 : U32).setWidth 16 : U16) = selector := by
  rw [BitVec.setWidth_setWidth_of_le _ (by omega), BitVec.setWidth_eq]

/-- What `intr_exit` has loaded before `iretd` looks at the ring. -/
def Cpu.popped (c : Cpu) : Registers where
  edi := c.load (c.regs.esp + 4)
  esi := c.load (c.regs.esp + 8)
  ebp := c.load (c.regs.esp + 12)
  ebx := c.load (c.regs.esp + 20)
  edx := c.load (c.regs.esp + 24)
  ecx := c.load (c.regs.esp + 28)
  eax := c.load (c.regs.esp + 32)
  gs := (c.load (c.regs.esp + 36)).setWidth 16
  fs := (c.load (c.regs.esp + 40)).setWidth 16
  es := (c.load (c.regs.esp + 44)).setWidth 16
  ds := (c.load (c.regs.esp + 48)).setWidth 16
  eip := c.load (c.regs.esp + 56)
  cs := (c.load (c.regs.esp + 60)).setWidth 16
  eflags := Cpu.popFlags c.regs (c.load (c.regs.esp + 64))
  esp := c.regs.esp + 68
  ss := c.regs.ss

theorem intrExit_eq (dpl : U16 → Nat) : c.intrExit dpl =
    if c.regs.ring < c.popped.ring then
      { c with regs := { c.popped with
          esp := c.load (c.regs.esp + 68)
          ss := (c.load (c.regs.esp + 72)).setWidth 16
          ds := Cpu.outwards dpl c.popped.ring c.popped.ds
          es := Cpu.outwards dpl c.popped.ring c.popped.es
          fs := Cpu.outwards dpl c.popped.ring c.popped.fs
          gs := Cpu.outwards dpl c.popped.ring c.popped.gs } }
    else { c with regs := c.popped } := by
  simp only [Cpu.intrExit, Cpu.popad, Cpu.iretd, Cpu.setEsp, Cpu.load, Cpu.popped, BitVec.add_assoc,
    BitVec.reduceAdd, BitVec.ofNat_eq_ofNat, Registers.ring]
  rfl

/-- The frame that `intr_exit` takes from the stack at the address. -/
def Framed (m : Memory) (a : Nat) (r : Registers) (outer : Bool) : Prop :=
  ∃ vecNo dummy code, Stack.WordsAt m (a + 4) ((r.intrStack vecNo dummy code).above outer)

theorem Framed.congr {m m' : Memory} {a : Nat} {outer : Bool} (framed : Framed m a r outer)
    (same : ∀ x, a + 4 ≤ x → x < a + (if outer then 76 else 68) → m' x = m x) : Framed m' a r outer := by
  obtain ⟨vecNo, dummy, code, there⟩ := framed
  have length := above_length (r.intrStack vecNo dummy code) outer
  exact ⟨vecNo, dummy, code, there.congr fun x low high => same x low (by omega)⟩

theorem popped_eq {outer : Bool} (framed : Framed c.mem c.regs.esp.toNat r outer)
    (room : c.regs.esp.toNat + 68 ≤ 2 ^ 32) :
    c.popped = { r with esp := c.regs.esp + 68, ss := c.regs.ss, eflags := Cpu.popFlags c.regs r.eflags } := by
  obtain ⟨vecNo, dummy, code, there⟩ := framed
  have inner := (Stack.wordsAt_append.1 there).1
  have at_ (k : Nat) (low : k < 68) : c.load (c.regs.esp + BitVec.ofNat 32 k) = word c.mem (c.regs.esp.toNat + k) :=
    Cpu.load_add (by omega)
  simp only [IntrStack.inner, Registers.intrStack, Stack.WordsAt, Nat.add_assoc, Nat.reduceAdd] at inner
  obtain ⟨edi, esi, ebp, -, ebx, edx, ecx, eax, gs, fs, es, ds, -, eip, cs, eflags, -⟩ := inner
  unfold Cpu.popped
  simp only [BitVec.ofNat_eq_ofNat, at_, Nat.reduceLT, edi, esi, ebp, ebx, edx, ecx, eax, gs, fs, es, ds, eip, cs,
    eflags, setWidth_selector]

theorem popFlags_zero (old : Registers) (w : U32) (ring : old.ring = 0) : Cpu.popFlags old w = w := by
  have none : Cpu.keptFlags old = 0 := by
    rw [Cpu.keptFlags, ring, if_pos rfl, if_pos (Nat.zero_le _)]
    rfl
  rw [Cpu.popFlags, none, show ~~~(0 : U32) = BitVec.allOnes 32 from rfl, BitVec.and_allOnes]
  exact (congrArg (w ||| ·) BitVec.and_zero).trans BitVec.or_zero

/-- The interrupted code goes on in its ring, with its registers but for the flags that `iretd` leaves alone. -/
theorem intrExit_stays (framed : Framed c.mem c.regs.esp.toNat r false) (ring : r.ring = c.regs.ring)
    (room : c.regs.esp.toNat + 68 ≤ 2 ^ 32) (esp : r.esp = c.regs.esp + 68) (ss : r.ss = c.regs.ss) :
    c.intrExit dpl = { c with regs := { r with eflags := Cpu.popFlags c.regs r.eflags } } := by
  have popped := popped_eq framed room
  have selected : c.popped.ring = r.ring := by rw [popped]; rfl
  rw [intrExit_eq, selected, ring, if_neg (Nat.lt_irrefl _), popped, ← esp, ← ss]

theorem intrExit_restores (framed : Framed c.mem c.regs.esp.toNat r false) (zero : c.regs.ring = 0)
    (ring : r.ring = 0) (room : c.regs.esp.toNat + 68 ≤ 2 ^ 32) (esp : r.esp = c.regs.esp + 68)
    (ss : r.ss = c.regs.ss) : c.intrExit dpl = { c with regs := r } := by
  rw [intrExit_stays framed (ring.trans zero.symm) room esp ss, popFlags_zero _ _ zero]

/-- Kernel code goes to a program of an outer ring. -/
theorem intrExit_leaves (framed : Framed c.mem c.regs.esp.toNat r true) (zero : c.regs.ring = 0)
    (outer : 0 < r.ring) (room : c.regs.esp.toNat + 76 ≤ 2 ^ 32) (unprivileged : r.Unprivileged dpl) :
    c.intrExit dpl = { c with regs := r } := by
  have popped := popped_eq framed (by omega)
  have selected : c.popped.ring = r.ring := by rw [popped]; rfl
  have stays (selector : U16) (one : selector ∈ [r.ds, r.es, r.fs, r.gs]) :
      Cpu.outwards dpl r.ring selector = selector := by
    rcases unprivileged selector one with rfl | low
    · exact ite_self 0
    · exact if_neg (Nat.not_lt.2 low)
  obtain ⟨vecNo, dummy, code, there⟩ := framed
  have above := (Stack.wordsAt_append.1 there).2
  have esp : c.load (c.regs.esp + 68) = r.esp := (Cpu.load_add (k := 68) (by omega)).trans above.1
  have ss : c.load (c.regs.esp + 72) = r.ss.setWidth 32 := (Cpu.load_add (k := 72) (by omega)).trans above.2.1
  rw [intrExit_eq, selected, zero, if_pos outer, popped, popFlags_zero _ _ zero, esp, ss, setWidth_selector,
    stays r.ds (by simp), stays r.es (by simp), stays r.fs (by simp), stays r.gs (by simp)]

end LiziOS.Interrupt
