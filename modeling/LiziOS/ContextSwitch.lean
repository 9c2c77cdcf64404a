import LiziOS.Types
import LiziOS.Library.ByteMemory

namespace LiziOS.Switch

open ByteMemory

/-! `switch_to` and the stacks it switches between, in the linear memory of the kernel. -/

/-- The registers that matter here, and memory. -/
structure Cpu where
  mem : Memory
  eax : U32
  ebx : U32
  esp : U32
  ebp : U32
  esi : U32
  edi : U32
  eip : U32

namespace Cpu

def load (c : Cpu) (a : U32) : U32 := word c.mem a.toNat

def store (c : Cpu) (a w : U32) : Cpu := { c with mem := setWord c.mem a.toNat w }

def push (c : Cpu) (w : U32) : Cpu := { c.store (c.esp - 4) w with esp := c.esp - 4 }

/-- `switch_to` from its first `mov` on. -/
def exchange (c : Cpu) : Cpu :=
  let c := { c with eax := c.load (c.esp + 20) }
  let c := c.store c.eax c.esp
  let c := { c with eax := c.load (c.esp + 24) }
  let c := { c with esp := c.load c.eax }
  let c := { c with ebp := c.load c.esp, esp := c.esp + 4 }
  let c := { c with ebx := c.load c.esp, esp := c.esp + 4 }
  let c := { c with edi := c.load c.esp, esp := c.esp + 4 }
  let c := { c with esi := c.load c.esp, esp := c.esp + 4 }
  { c with eip := c.load c.esp, esp := c.esp + 4 }

/-- `switch_to`, instruction by instruction. -/
def switchTo (c : Cpu) : Cpu :=
  let c := c.push c.esi
  let c := c.push c.edi
  let c := c.push c.ebx
  let c := c.push c.ebp
  c.exchange

@[simp] theorem push_ebx (c : Cpu) (w : U32) : (c.push w).ebx = c.ebx := rfl

@[simp] theorem push_ebp (c : Cpu) (w : U32) : (c.push w).ebp = c.ebp := rfl

@[simp] theorem push_esi (c : Cpu) (w : U32) : (c.push w).esi = c.esi := rfl

@[simp] theorem push_edi (c : Cpu) (w : U32) : (c.push w).edi = c.edi := rfl

/-- `call switch_to`, with the address of the next instruction. -/
def callSwitchTo (c : Cpu) (ret : U32) : Cpu := (c.push ret).switchTo

end Cpu

/-! `init_thread` and `thread_create`. -/

/-- `sizeof(struct task_struct)`, and the offsets of its fields. -/
def taskStruct : Nat := 64

def fill (m : Memory) (a n : Nat) : Memory := fun x => if a ≤ x ∧ x < a + n then 0 else m x

def strcpy (m : Memory) (a : Nat) (src : List U8) : Memory := fun x =>
  if h : a ≤ x ∧ x - a < src.length then src[x - a] else if x = a + src.length then 0 else m x

def initThread (m : Memory) (mainThread pthread : U32) (name : List U8) (prio : U32) : Memory :=
  let m := fill m pthread.toNat taskStruct
  let m := strcpy m (pthread + 8).toNat name
  let m := setWord m (pthread + 4).toNat (if pthread = mainThread then 0 else 1)
  let m := setWord m pthread.toNat (pthread + 4096)
  let m := Function.update m (pthread + 24).toNat (prio.setWidth 8)
  let m := Function.update m (pthread + 25).toNat (prio.setWidth 8)
  let m := setWord m (pthread + 44).toNat 0
  setWord m (pthread + 60).toNat 0x19870916

/-- The two sizes are counted in words, since `self_kstack` is a pointer to `u32`. -/
def threadCreate (m : Memory) (kernelThread pthread function funcArg : U32) : Memory :=
  let m := setWord m pthread.toNat (word m pthread.toNat - 4 * 76)
  let m := setWord m pthread.toNat (word m pthread.toNat - 4 * 32)
  let kthreadStack := word m pthread.toNat
  let m := setWord m (kthreadStack + 12).toNat 0
  let m := setWord m (kthreadStack + 8).toNat 0
  let m := setWord m (kthreadStack + 4).toNat 0
  let m := setWord m kthreadStack.toNat 0
  let m := setWord m (kthreadStack + 16).toNat kernelThread
  let m := setWord m (kthreadStack + 24).toNat function
  setWord m (kthreadStack + 28).toNat funcArg

structure Pages (T : Type*) where
  base : T → U32
  aligned : ∀ t, (base t).toNat % 4096 = 0
  distinct : Function.Injective base
  kernelThread : U32
  mainThread : U32

@[ext] structure Context where
  eip : U32
  ebp : U32
  ebx : U32
  esi : U32
  edi : U32
  esp : U32

def Cpu.context (c : Cpu) : Context := ⟨c.eip, c.ebp, c.ebx, c.esi, c.edi, c.esp⟩

/-- A thread that does not run: created and never switched to, or switched out. -/
inductive Saved where
  | fresh (function funcArg : U32)
  | out (context : Context)

/-- The processor, the thread that runs and a record of what the others are to go on with. -/
structure State (T : Type*) where
  cpu : Cpu
  current : T
  saved : T → Option Saved

variable {T : Type*} [DecidableEq T] (pages : Pages T)

/-- The bytes that a running thread leaves alone: the stack of another thread and where its PCB says that
    it is. -/
def Pages.Guarded (current : T) (x : Nat) : Prop := ∃ t ≠ current, (pages.base t).toNat ≤ x ∧
  x < (pages.base t).toNat + 4096 ∧ (x < (pages.base t).toNat + 4 ∨ (pages.base t).toNat + taskStruct ≤ x)

/-- The running thread is about to call `switch_to`: the arguments lie on its stack, where there is room
    for the call. -/
structure Call (s : State T) (next : T) : Prop where
  there : next = s.current ∨ s.saved next ≠ none
  low : (pages.base s.current).toNat + taskStruct + 20 ≤ s.cpu.esp.toNat
  high : s.cpu.esp.toNat + 8 ≤ (pages.base s.current).toNat + 4096
  cur : s.cpu.load s.cpu.esp = pages.base s.current
  arg : s.cpu.load (s.cpu.esp + 4) = pages.base next

def State.switch (s : State T) (next : T) (ret : U32) : State T where
  cpu := s.cpu.callSwitchTo ret
  current := next
  saved := Function.update s.saved s.current (some (.out { s.cpu.context with eip := ret }))

theorem State.switch_saved (s : State T) (next : T) (ret : U32) : (s.switch next ret).saved =
    Function.update s.saved s.current (some (.out { s.cpu.context with eip := ret })) := rfl

def State.create (s : State T) (t : T) (name : List U8) (prio function funcArg : U32) : State T where
  cpu := { s.cpu with
    mem := threadCreate (initThread s.cpu.mem pages.mainThread (pages.base t) name prio)
      pages.kernelThread (pages.base t) function funcArg }
  current := s.current
  saved := Function.update s.saved t (some (.fresh function funcArg))

/-- The running thread computes, sets up a thread or calls `switch_to`. -/
inductive Step (s : State T) : State T → Prop
  | run (cpu : Cpu) (kept : ∀ x, pages.Guarded s.current x → cpu.mem x = s.cpu.mem x) :
      Step s { s with cpu := cpu }
  | create (t : T) (name : List U8) (prio function funcArg : U32) (other : t ≠ s.current)
      (fresh : s.saved t = none) (fits : name.length < 16) :
      Step s (s.create pages t name prio function funcArg)
  | switch (next : T) (ret : U32) (call : Call pages s next) : Step s (s.switch next ret)

/-- One thread runs, none is set up. -/
inductive Run : State T → Prop
  | start (cpu : Cpu) (current : T) : Run ⟨cpu, current, fun _ => none⟩
  | step {s s' : State T} (run : Run s) (step : Step pages s s') : Run s'

/-! The stack of a thread that has been switched out. -/

/-- The five words that `switch_to` pops, from `k` on. -/
structure Slots (m : Memory) (k : Nat) (context : Context) : Prop where
  ebp : word m k = context.ebp
  ebx : word m (k + 4) = context.ebx
  edi : word m (k + 8) = context.edi
  esi : word m (k + 12) = context.esi
  eip : word m (k + 16) = context.eip

def Waits (m : Memory) (base kernelThread : U32) : Saved → Prop
  | .out context => word m base.toNat = context.esp - 20 ∧
    base.toNat + taskStruct + 20 ≤ context.esp.toNat ∧ context.esp.toNat + 8 ≤ base.toNat + 4096 ∧
    Slots m (context.esp.toNat - 20) context
  | .fresh function funcArg => word m base.toNat = base + 3664 ∧
    Slots m (base.toNat + 3664) ⟨kernelThread, 0, 0, 0, 0, base + 3684⟩ ∧
    word m (base.toNat + 3688) = function ∧ word m (base.toNat + 3692) = funcArg

variable {m m' : Memory} {base k : U32} {c : Cpu} {ret : U32} {saved : Saved} {pages : Pages T}

omit [DecidableEq T] in
theorem Pages.room (pages : Pages T) (t : T) : (pages.base t).toNat + 4096 ≤ 2 ^ 32 := by
  have aligned := pages.aligned t
  have bound := (pages.base t).isLt
  omega

theorem toNat_add {a o : U32} (room : a.toNat + o.toNat < 2 ^ 32) : (a + o).toNat = a.toNat + o.toNat := by
  rw [BitVec.toNat_add, Nat.mod_eq_of_lt room]

theorem toNat_sub {a o : U32} (room : o.toNat ≤ a.toNat) : (a - o).toNat = a.toNat - o.toNat :=
  BitVec.toNat_sub_of_le room

theorem Slots.congr {k : Nat} {context : Context} (slots : Slots m k context)
    (same : ∀ x, k ≤ x → x < k + 20 → m' x = m x) : Slots m' k context where
  ebp := (word_congr fun x low high => same x (by omega) (by omega)).trans slots.ebp
  ebx := (word_congr fun x low high => same x (by omega) (by omega)).trans slots.ebx
  edi := (word_congr fun x low high => same x (by omega) (by omega)).trans slots.edi
  esi := (word_congr fun x low high => same x (by omega) (by omega)).trans slots.esi
  eip := (word_congr fun x low high => same x (by omega) (by omega)).trans slots.eip

theorem Waits.congr {kernelThread : U32} (waits : Waits m base kernelThread saved)
    (same : ∀ x, base.toNat ≤ x → x < base.toNat + 4096 →
      x < base.toNat + 4 ∨ base.toNat + taskStruct ≤ x → m' x = m x) : Waits m' base kernelThread saved := by
  have field : word m' base.toNat = word m base.toNat :=
    word_congr fun x low high => same x (by omega) (by omega) (by omega)
  cases saved with
  | out context =>
    obtain ⟨stack, low, high, slots⟩ := waits
    refine ⟨field.trans stack, low, high, slots.congr fun x above below => ?_⟩
    exact same x (by omega) (by omega) (by omega)
  | fresh function funcArg =>
    obtain ⟨stack, slots, first, second⟩ := waits
    unfold taskStruct at same
    refine ⟨field.trans stack, slots.congr fun x above below => ?_, ?_, ?_⟩
    · exact same x (by omega) (by omega) (by omega)
    · exact (word_congr fun x above below => same x (by omega) (by omega) (by omega)).trans first
    · exact (word_congr fun x above below => same x (by omega) (by omega) (by omega)).trans second

namespace Cpu

/-- The stack once `switch_to` has pushed its registers. -/
def pushed (c : Cpu) (ret : U32) : Memory :=
  let e := c.esp.toNat
  setWord (setWord (setWord (setWord (setWord c.mem (e - 4) ret) (e - 8) c.esi) (e - 12) c.edi)
    (e - 16) c.ebx) (e - 20) c.ebp

/-- Memory once `switch_to` has stored the stack pointer in the PCB. -/
def parked (c : Cpu) (ret base : U32) : Memory := setWord (c.pushed ret) base.toNat (c.esp - 20)

theorem pushed_outside (room : 20 ≤ c.esp.toNat) {x : Nat}
    (outside : x < c.esp.toNat - 20 ∨ c.esp.toNat ≤ x) : c.pushed ret x = c.mem x := by
  unfold pushed
  rw [setWord_outside _ (by omega), setWord_outside _ (by omega), setWord_outside _ (by omega),
    setWord_outside _ (by omega), setWord_outside _ (by omega)]

theorem pushed_slots (room : 20 ≤ c.esp.toNat) :
    Slots (c.pushed ret) (c.esp.toNat - 20) { c.context with eip := ret } := by
  unfold pushed
  dsimp only
  constructor
  · exact word_setWord _ _ _
  · rw [show c.esp.toNat - 20 + 4 = c.esp.toNat - 16 by omega, word_setWord_outside _ (by omega)]
    exact word_setWord _ _ _
  · rw [show c.esp.toNat - 20 + 8 = c.esp.toNat - 12 by omega, word_setWord_outside _ (by omega),
      word_setWord_outside _ (by omega)]
    exact word_setWord _ _ _
  · rw [show c.esp.toNat - 20 + 12 = c.esp.toNat - 8 by omega, word_setWord_outside _ (by omega),
      word_setWord_outside _ (by omega), word_setWord_outside _ (by omega)]
    exact word_setWord _ _ _
  · rw [show c.esp.toNat - 20 + 16 = c.esp.toNat - 4 by omega, word_setWord_outside _ (by omega),
      word_setWord_outside _ (by omega), word_setWord_outside _ (by omega),
      word_setWord_outside _ (by omega)]
    exact word_setWord _ _ _

theorem push_registers (c : Cpu) (ret : U32) (room : 20 ≤ c.esp.toNat) :
    ((((c.push ret).push c.esi).push c.edi).push c.ebx).push c.ebp =
      { c with mem := c.pushed ret, esp := c.esp - 20 } := by
  have sub (n : U32) (small : n.toNat ≤ 20) : (c.esp - n).toNat = c.esp.toNat - n.toNat :=
    toNat_sub (le_trans small room)
  have s8 : c.esp - 4 - 4 = c.esp - 8 := BitVec.sub_sub _ _ _
  have s12 : c.esp - 8 - 4 = c.esp - 12 := BitVec.sub_sub _ _ _
  have s16 : c.esp - 12 - 4 = c.esp - 16 := BitVec.sub_sub _ _ _
  have s20 : c.esp - 16 - 4 = c.esp - 20 := BitVec.sub_sub _ _ _
  have e4 := sub 4 (by decide)
  have e8 := sub 8 (by decide)
  have e12 := sub 12 (by decide)
  have e16 := sub 16 (by decide)
  have e20 := sub 20 (by decide)
  simp only [push, store, pushed, s8, s12, s16, s20, e4, e8, e12, e16, e20]
  rfl

theorem callSwitchTo_pushes (c : Cpu) (ret : U32) : c.callSwitchTo ret =
    (((((c.push ret).push c.esi).push c.edi).push c.ebx).push c.ebp).exchange := by
  unfold callSwitchTo switchTo
  dsimp only [push_ebx, push_ebp, push_esi, push_edi]

theorem exchange_eq {e a b : U32} {n m : Memory} (mem : c.mem = n) (esp : c.esp = e)
    (cur : word n (e + 20).toNat = a) (stored : setWord n a.toNat e = m)
    (next : word m (e + 24).toNat = b) (stack : word m b.toNat = k) :
    c.exchange = { mem := m, eax := b, ebx := word m (k + 4).toNat, esp := k + 4 + 4 + 4 + 4 + 4
                   ebp := word m k.toNat, esi := word m (k + 4 + 4 + 4).toNat
                   edi := word m (k + 4 + 4).toNat, eip := word m (k + 4 + 4 + 4 + 4).toNat } := by
  subst mem esp
  simp only [exchange, load, store, cur, stored, next, stack]

/-- `switch_to` stores the stack pointer of the one thread and pops the registers of the other. -/
theorem callSwitchTo_eq {base next : U32} (cur : c.load c.esp = base) (arg : c.load (c.esp + 4) = next)
    (low : base.toNat + taskStruct + 20 ≤ c.esp.toNat) (high : c.esp.toNat + 8 ≤ base.toNat + 4096)
    (room : base.toNat + 4096 ≤ 2 ^ 32) (stack : word (c.parked ret base) next.toNat = k)
    (fits : k.toNat + 20 ≤ 2 ^ 32) :
    (c.callSwitchTo ret).mem = c.parked ret base ∧ (c.callSwitchTo ret).esp = k + 20 ∧
      Slots (c.parked ret base) k.toNat (c.callSwitchTo ret).context := by
  unfold taskStruct at low
  have pushes := push_registers c ret (by omega)
  have e4 : (c.esp + 4).toNat = c.esp.toNat + 4 :=
      toNat_add (by rw [show (4 : U32).toNat = 4 from rfl]; omega)
  have e20 : c.esp - 20 + 20 = c.esp := BitVec.sub_add_cancel _ _
  have e24 : c.esp - 20 + 24 = c.esp + 4 := by
    rw [show (24 : U32) = 20 + 4 from rfl, ← BitVec.add_assoc, e20]
  have first : word (c.pushed ret) c.esp.toNat = base := by
    rw [← cur]
    exact word_congr fun x above below => pushed_outside (by omega) (by omega)
  have second : word (c.parked ret base) (c.esp - 20 + 24).toNat = next := by
    rw [← arg, load, e24, e4, parked, word_setWord_outside _ (by omega)]
    exact word_congr fun x above below => pushed_outside (by omega) (by omega)
  have add (n : U32) (small : n.toNat < 20) : (k + n).toNat = k.toNat + n.toNat := toNat_add (by omega)
  have k8 : k + 4 + 4 = k + 8 := BitVec.add_assoc _ _ _
  have k12 : k + 8 + 4 = k + 12 := BitVec.add_assoc _ _ _
  have k16 : k + 12 + 4 = k + 16 := BitVec.add_assoc _ _ _
  have k20 : k + 16 + 4 = k + 20 := BitVec.add_assoc _ _ _
  have switched : c.callSwitchTo ret =
      { mem := c.parked ret base, eax := next, ebx := word (c.parked ret base) (k.toNat + 4)
        esp := k + 20, ebp := word (c.parked ret base) k.toNat
        esi := word (c.parked ret base) (k.toNat + 12)
        edi := word (c.parked ret base) (k.toNat + 8)
        eip := word (c.parked ret base) (k.toNat + 16) } := by
    have stored : setWord (c.pushed ret) base.toNat (c.esp - 20) = c.parked ret base := rfl
    have first' : word (c.pushed ret) (c.esp - 20 + 20).toNat = base := by
      rw [e20]
      exact first
    have popped := exchange_eq (c := { c with mem := c.pushed ret, esp := c.esp - 20 }) (e := c.esp - 20)
      (n := c.pushed ret) (a := base) (b := next) (m := c.parked ret base)
          (k := k) rfl rfl first' stored second stack
    rw [k8, k12, k16, k20, add 4 (by decide), add 8 (by decide), add 12 (by decide),
        add 16 (by decide)] at popped
    rw [callSwitchTo_pushes, pushes, popped]
    rfl
  rw [switched]
  exact ⟨rfl, rfl, ⟨rfl, rfl, rfl, rfl, rfl⟩⟩

end Cpu

/-! What `init_thread` and `thread_create` leave in the page. -/

theorem fill_outside {a n x : Nat} (outside : x < a ∨ a + n ≤ x) : fill m a n x = m x := by
  rw [fill, if_neg (by omega)]

theorem strcpy_outside {a x : Nat} {src : List U8} (outside : x < a ∨ a + src.length < x) :
    strcpy m a src x = m x := by
  rw [strcpy, dif_neg (by omega), if_neg (by omega)]

theorem word_update_outside {a x : Nat} {byte : U8} (outside : x < a ∨ a + 4 ≤ x) :
    word (Function.update m x byte) a = word m a :=
  word_congr fun y low high => Function.update_of_ne (by omega) _ _

theorem initThread_spec (m : Memory) (mainThread : U32) {name : List U8} (prio : U32)
    (room : base.toNat + 4096 ≤ 2 ^ 32) (fits : name.length < 16) :
    word (initThread m mainThread base name prio) base.toNat = base + 4096 ∧
    ∀ x, x < base.toNat ∨ base.toNat + taskStruct ≤ x → initThread m mainThread base name prio x = m x := by
  have add (n : U32) (small : n.toNat < 64) : (base + n).toNat = base.toNat + n.toNat := toNat_add (by omega)
  have e4 : (base + 4).toNat = base.toNat + 4 := add 4 (by decide)
  have e8 : (base + 8).toNat = base.toNat + 8 := add 8 (by decide)
  have e24 : (base + 24).toNat = base.toNat + 24 := add 24 (by decide)
  have e25 : (base + 25).toNat = base.toNat + 25 := add 25 (by decide)
  have e44 : (base + 44).toNat = base.toNat + 44 := add 44 (by decide)
  have e60 : (base + 60).toNat = base.toNat + 60 := add 60 (by decide)
  unfold initThread taskStruct
  simp only [e4, e8, e24, e25, e44, e60]
  constructor
  · rw [word_setWord_outside _ (by omega), word_setWord_outside _ (by omega),
      word_update_outside (by omega), word_update_outside (by omega)]
    exact word_setWord _ _ _
  · intro x outside
    rw [setWord_outside _ (by omega), setWord_outside _ (by omega), Function.update_of_ne (by omega),
      Function.update_of_ne (by omega), setWord_outside _ (by omega), setWord_outside _ (by omega),
      strcpy_outside (by omega), fill_outside (by omega)]

theorem threadCreate_spec (kernelThread function funcArg : U32) (room : base.toNat + 4096 ≤ 2 ^ 32)
    (stack : word m base.toNat = base + 4096) :
    Waits (threadCreate m kernelThread base function funcArg) base kernelThread (.fresh function funcArg) ∧
    ∀ x, x < base.toNat ∨ base.toNat + 4096 ≤ x →
        threadCreate m kernelThread base function funcArg x = m x := by
  have top : base + 4096 - 4 * 76 - 4 * 32 = base + 3664 := by
    rw [BitVec.sub_sub, BitVec.sub_eq_iff_eq_add, BitVec.add_assoc]
    rfl
  have e0 : (base + 3664).toNat = base.toNat + 3664 := toNat_add (by
    rw [show (3664 : U32).toNat = 3664 from rfl]; omega)
  have add (n : U32) (small : n.toNat < 64) : (base + 3664 + n).toNat = base.toNat + 3664 + n.toNat := by
    rw [toNat_add (by omega), e0]
  have e4 : (base + 3664 + 4).toNat = base.toNat + 3668 := add 4 (by decide)
  have e8 : (base + 3664 + 8).toNat = base.toNat + 3672 := add 8 (by decide)
  have e12 : (base + 3664 + 12).toNat = base.toNat + 3676 := add 12 (by decide)
  have e16 : (base + 3664 + 16).toNat = base.toNat + 3680 := add 16 (by decide)
  have e24 : (base + 3664 + 24).toNat = base.toNat + 3688 := add 24 (by decide)
  have e28 : (base + 3664 + 28).toNat = base.toNat + 3692 := add 28 (by decide)
  unfold threadCreate
  simp only [word_setWord, stack, top, e0, e4, e8, e12, e16, e24, e28]
  refine ⟨⟨?_, ⟨?_, ?_, ?_, ?_, ?_⟩, ?_, ?_⟩, ?_⟩
  case refine_9 =>
    intro x outside
    rw [setWord_outside _ (by omega), setWord_outside _ (by omega), setWord_outside _ (by omega),
      setWord_outside _ (by omega), setWord_outside _ (by omega), setWord_outside _ (by omega),
      setWord_outside _ (by omega), setWord_outside _ (by omega), setWord_outside _ (by omega)]
  all_goals
    simp (disch := omega) only [Nat.add_assoc, Nat.reduceAdd, word_setWord, word_setWord_outside]

/-- Every thread that does not run and is set up waits on its own stack. -/
def Kept (pages : Pages T) (s : State T) : Prop :=
  ∀ t saved, t ≠ s.current → s.saved t = some saved → Waits s.cpu.mem (pages.base t) pages.kernelThread saved

omit [DecidableEq T] in
theorem Pages.apart (pages : Pages T) {t u : T} (other : t ≠ u) :
    (pages.base t).toNat + 4096 ≤ (pages.base u).toNat ∨
        (pages.base u).toNat + 4096 ≤ (pages.base t).toNat := by
  have different : (pages.base t).toNat ≠ (pages.base u).toNat := fun same =>
    other (pages.distinct (BitVec.eq_of_toNat_eq same))
  have aligned := pages.aligned t
  have aligned' := pages.aligned u
  omega

/-- The thread that calls `switch_to` waits from then on. -/
theorem parked_waits {kernelThread : U32} (low : base.toNat + taskStruct + 20 ≤ c.esp.toNat)
    (high : c.esp.toNat + 8 ≤ base.toNat + 4096) :
    Waits (c.parked ret base) base kernelThread (.out { c.context with eip := ret }) := by
  unfold taskStruct at low
  refine ⟨word_setWord _ _ _, low, high, ?_⟩
  refine (Cpu.pushed_slots (by omega)).congr fun x above below => ?_
  change c.esp.toNat - 20 ≤ x at above
  exact setWord_outside _ (by omega)

/-- Outside its own page `switch_to` writes nothing. -/
theorem parked_outside (low : base.toNat + taskStruct + 20 ≤ c.esp.toNat)
    (high : c.esp.toNat + 8 ≤ base.toNat + 4096) {x : Nat}
    (outside : x < base.toNat ∨ base.toNat + 4096 ≤ x) : c.parked ret base x = c.mem x := by
  unfold taskStruct at low
  rw [Cpu.parked, setWord_outside _ (by omega), Cpu.pushed_outside (by omega) (by omega)]

theorem Waits.room {kernelThread : U32} (waits : Waits m base kernelThread saved)
    (room : base.toNat + 4096 ≤ 2 ^ 32) : (word m base.toNat).toNat + 20 ≤ 2 ^ 32 := by
  cases saved with
  | out context =>
    obtain ⟨stack, low, high, -⟩ := waits
    unfold taskStruct at low
    rw [stack, toNat_sub (by rw [show (20 : U32).toNat = 20 from rfl]; omega), show (20 : U32).toNat =
        20 from rfl]
    omega
  | fresh function funcArg =>
    obtain ⟨stack, -⟩ := waits
    have e : (3664 : U32).toNat = 3664 := rfl
    rw [stack, toNat_add (by omega), e]
    omega

/-- The thread that is switched to waits on its own stack, also when it is the one that calls. -/
theorem call_waits {s : State T} {next : T} (kept : Kept pages s) (call : Call pages s next) (ret : U32) :
    ∃ saved, (s.switch next ret).saved next = some saved ∧
      Waits (s.cpu.parked ret (pages.base s.current)) (pages.base next) pages.kernelThread saved := by
  by_cases same : next = s.current
  · refine ⟨.out { s.cpu.context with eip := ret }, ?_, ?_⟩
    · rw [State.switch_saved, same, Function.update_self]
    · rw [same]
      exact parked_waits call.low call.high
  · obtain ⟨saved, is⟩ := Option.ne_none_iff_exists'.mp (call.there.resolve_left same)
    refine ⟨saved, ?_, ?_⟩
    · rw [State.switch_saved, Function.update_of_ne same, is]
    · have apart := pages.apart same
      refine (kept next saved same is).congr fun x low high _ => ?_
      exact parked_outside call.low call.high (by omega)

theorem call_switches {s : State T} {next : T} (kept : Kept pages s) (call : Call pages s next) (ret : U32) :
    (s.switch next ret).cpu.mem = s.cpu.parked ret (pages.base s.current) ∧
    (s.switch next ret).cpu.esp =
      word (s.cpu.parked ret (pages.base s.current)) (pages.base next).toNat + 20 ∧
    Slots (s.cpu.parked ret (pages.base s.current))
      (word (s.cpu.parked ret (pages.base s.current)) (pages.base next).toNat).toNat
      (s.switch next ret).cpu.context := by
  obtain ⟨saved, -, waits⟩ := call_waits kept call ret
  exact Cpu.callSwitchTo_eq call.cur call.arg call.low call.high (pages.room _) rfl
      (waits.room (pages.room _))

theorem step_kept {s s' : State T} (kept : Kept pages s) (step : Step pages s s') : Kept pages s' := by
  cases step with
  | run cpu same =>
    intro t saved other is
    refine (kept t saved other is).congr fun x low high guarded => ?_
    exact same x ⟨t, other, low, high, guarded⟩
  | create t name prio function funcArg other fresh fits =>
    obtain ⟨stack, outside⟩ := initThread_spec s.cpu.mem pages.mainThread prio (pages.room t) fits
    obtain ⟨waits, outside'⟩ := threadCreate_spec pages.kernelThread function funcArg (pages.room t) stack
    intro u saved notCurrent is
    change Function.update s.saved t _ u = some saved at is
    by_cases same : u = t
    · subst u
      rw [Function.update_self, Option.some.injEq] at is
      exact is ▸ waits
    · rw [Function.update_of_ne same] at is
      have apart := pages.apart same
      refine (kept u saved notCurrent is).congr fun x low high _ => ?_
      exact (outside' x (by omega)).trans (outside x (by unfold taskStruct; omega))
  | switch next ret call =>
    intro u saved other is
    rw [(call_switches kept call ret).1]
    by_cases same : u = s.current
    · subst u
      rw [State.switch_saved, Function.update_self, Option.some.injEq] at is
      exact is ▸ parked_waits call.low call.high
    · rw [State.switch_saved, Function.update_of_ne same] at is
      have apart := pages.apart same
      refine (kept u saved same is).congr fun x low high _ => ?_
      exact parked_outside call.low call.high (by omega)

theorem run_kept {s : State T} (run : Run pages s) : Kept pages s := by
  induction run with
  | start cpu current => exact fun t saved _ is => nomatch is
  | step _ step ih => exact step_kept ih step

/-- What a thread finds when it is switched to: where it called `switch_to` from and its registers, or
    `kernel_thread` with the two arguments above the slot of the return address, all of it in its page
    and above its PCB. -/
def Resumed (c : Cpu) (base kernelThread : U32) : Saved → Prop
  | .out context => c.context = context
  | .fresh function funcArg => c.eip = kernelThread ∧ c.load (c.esp + 4) = function ∧
    c.load (c.esp + 8) = funcArg ∧ base.toNat + taskStruct + 20 ≤ c.esp.toNat ∧
    c.esp.toNat + 12 ≤ base.toNat + 4096

/-- The main thread, and another one with the first page of the kernel heap. -/
def twoPages : Pages Bool where
  base t := if t then 0xc0100000 else 0xc009e000
  aligned := by decide
  distinct := by
    intro t u same
    revert t u
    decide
  kernelThread := 0xc0003000
  mainThread := 0xc009e000

def aboutToSwitch : Cpu where
  mem := setWord (setWord (fun _ => 0xcc) 0xc009ef00 0xc009e000) 0xc009ef04 0xc0100000
  eax := 0
  ebx := 1
  esp := 0xc009ef00
  ebp := 2
  esi := 3
  edi := 4
  eip := 0xc0001000

end LiziOS.Switch
