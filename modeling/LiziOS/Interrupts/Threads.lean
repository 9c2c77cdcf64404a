import LiziOS.ContextSwitch
import LiziOS.Memory
import LiziOS.Interrupts.Frame

namespace LiziOS.Interrupt

open ByteMemory
open Switch (taskStruct)

/-! Interrupts of kernel code that switches threads: handlers nest, and a handler may call `schedule`. -/

/-- An interrupt that has not returned: where its frame lies, and what it has interrupted. -/
structure Frame where
  esp : U32
  regs : Registers

/-- The threads, and the privilege levels of the descriptors. The last page shows the page directory, so that no
    PCB lies there. -/
structure Threads (T : Type*) extends Switch.Pages T where
  dpl : U16 → Nat
  room : ∀ t, (base t).toNat + 4096 < 2 ^ 32

/-- The processor, and a record for each thread. -/
structure State (T : Type*) where
  cpu : Cpu
  current : T
  saved : T → Option Switch.Saved
  /-- the innermost one first -/
  frames : T → List Frame

/-- What `switch_to` sees of the processor. -/
def Cpu.switching (c : Cpu) : Switch.Cpu where
  mem := c.mem
  eax := c.regs.eax
  ebx := c.regs.ebx
  esp := c.regs.esp
  ebp := c.regs.ebp
  esi := c.regs.esi
  edi := c.regs.edi
  eip := c.regs.eip

/-- What `switch_to` leaves, with the registers that it does not touch. -/
def Cpu.switched (c : Cpu) (d : Switch.Cpu) : Cpu :=
  { c with
    mem := d.mem
    regs := { c.regs with
      eax := d.eax
      ebx := d.ebx
      esp := d.esp
      ebp := d.ebp
      esi := d.esi
      edi := d.edi
      eip := d.eip } }

def State.switching {T : Type*} (s : State T) : Switch.State T := ⟨s.cpu.switching, s.current, s.saved⟩

variable {T : Type*} (threads : Threads T)

/-- The top of the page that holds the PCB and the stack of the thread. -/
def Threads.top (t : T) : Nat := (threads.base t).toNat + 4096

/-- The bytes of the frames of the running thread, but for the word that the handler gets as its argument. -/
def State.Live (s : State T) (x : Nat) : Prop :=
  ∃ f ∈ s.frames s.current, f.esp.toNat + 4 ≤ x ∧ x < f.esp.toNat + 68

/-- Where the stack pointer is: above the PCB, in the page, below every frame. -/
structure OnStack (t : T) (frames : List Frame) (esp : U32) : Prop where
  low : (threads.base t).toNat + taskStruct ≤ esp.toNat
  high : esp.toNat < threads.top t
  below : ∀ f ∈ frames, esp.toNat ≤ f.esp.toNat

/-- The registers of kernel code. -/
structure Kernel (t : T) (frames : List Frame) (regs : Registers) : Prop where
  ring : regs.ring = 0
  ss : regs.ss = 0x10
  onStack : OnStack threads t frames regs.esp

/-- A frame that `intr_exit` can return from. -/
structure There (m : Memory) (t : T) (f : Frame) : Prop where
  framed : Framed m f.esp.toNat f.regs false
  inside : f.esp.toNat + 68 < threads.top t
  ring : f.regs.ring = 0
  ss : f.regs.ss = 0x10
  esp : f.regs.esp = f.esp + 68

/-- The frames lie above each other, from the address on. -/
def Stacked (m : Memory) (t : T) : Nat → List Frame → Prop
  | _, [] => True
  | low, f :: rest => low ≤ f.esp.toNat ∧ There threads m t f ∧ Stacked m t (f.esp.toNat + 68) rest

/-- What every run keeps. -/
structure Inv (s : State T) : Prop where
  kernel : Kernel threads s.current (s.frames s.current) s.cpu.regs
  stacked : ∀ t, Stacked threads s.cpu.mem t ((threads.base t).toNat + taskStruct) (s.frames t)
  out : ∀ t context, t ≠ s.current → s.saved t = some (.out context) →
    ∀ f ∈ s.frames t, context.esp.toNat ≤ f.esp.toNat
  idle : ∀ t, t ≠ s.current → (∀ context, s.saved t ≠ some (.out context)) → s.frames t = []

variable {threads} {s s' : State T} {t : T} {m m' : Memory} {a : Nat} {f : Frame} {frames : List Frame}

theorem Stacked.low (stacked : Stacked threads m t a frames) (one : f ∈ frames) : a ≤ f.esp.toNat := by
  induction frames generalizing a with
  | nil => nomatch one
  | cons first rest ih =>
    obtain ⟨above, -, others⟩ := stacked
    rcases List.mem_cons.mp one with rfl | later
    · exact above
    · exact (Nat.le_add_right_of_le above).trans (ih others later)

theorem Stacked.there (stacked : Stacked threads m t a frames) (one : f ∈ frames) : There threads m t f := by
  induction frames generalizing a with
  | nil => nomatch one
  | cons first rest ih =>
    rcases List.mem_cons.mp one with rfl | later
    · exact stacked.2.1
    · exact ih stacked.2.2 later

theorem There.congr (there : There threads m t f)
    (same : ∀ x, f.esp.toNat + 4 ≤ x → x < f.esp.toNat + 68 → m' x = m x) : There threads m' t f :=
  ⟨there.framed.congr same, there.inside, there.ring, there.ss, there.esp⟩

/-- The bytes of the frames decide. -/
theorem Stacked.congr (stacked : Stacked threads m t a frames)
    (same : ∀ f ∈ frames, ∀ x, f.esp.toNat + 4 ≤ x → x < f.esp.toNat + 68 → m' x = m x) :
    Stacked threads m' t a frames := by
  induction frames generalizing a with
  | nil => exact True.intro
  | cons first rest ih =>
    obtain ⟨above, there, others⟩ := stacked
    have head := same first List.mem_cons_self
    exact ⟨above, there.congr head, ih others fun f later => same f (List.mem_cons_of_mem _ later)⟩

/-- Only the first frame says how high they start. -/
theorem Stacked.raise {b : Nat} (stacked : Stacked threads m t a frames) (above : ∀ f ∈ frames, b ≤ f.esp.toNat) :
    Stacked threads m t b frames := by
  cases frames with
  | nil => exact True.intro
  | cons first rest => exact ⟨above first List.mem_cons_self, stacked.2⟩

/-- What other threads keep in their pages a step leaves alone when it writes in the page of the running one. -/
theorem Inv.stacked_elsewhere (inv : Inv threads s) (other : t ≠ s.current)
    (same : ∀ x, x < (threads.base s.current).toNat ∨ threads.top s.current ≤ x → m' x = s.cpu.mem x) :
    Stacked threads m' t ((threads.base t).toNat + taskStruct) (s.frames t) := by
  apply (inv.stacked t).congr
  intro f one x above below
  have low := (inv.stacked t).low one
  have high := ((inv.stacked t).there one).inside
  have apart := threads.apart other
  unfold Threads.top at same high
  exact same x (by omega)

theorem Inv.restores (inv : Inv threads s) {rest : List Frame} (innermost : s.frames s.current = f :: rest)
    (esp : s.cpu.regs.esp = f.esp) : s.cpu.intrExit threads.dpl = { s.cpu with regs := f.regs } := by
  have there := (inv.stacked s.current).there (innermost ▸ List.mem_cons_self)
  have inside := there.inside
  have bound := threads.room s.current
  apply intrExit_restores
  · rw [esp]
    exact there.framed
  · exact inv.kernel.ring
  · exact there.ring
  · unfold Threads.top at inside
    rw [esp]
    omega
  · rw [esp]
    exact there.esp
  · exact there.ss.trans inv.kernel.ss.symm

theorem Inv.started {cpu : Cpu} {current : T} (kernel : Kernel threads current [] cpu.regs) :
    Inv threads ⟨cpu, current, fun _ => none, fun _ => []⟩ where
  kernel := kernel
  stacked _ := True.intro
  out _ _ _ is := nomatch is
  idle _ _ _ := rfl

variable [DecidableEq T] (threads)

/-- `VECTOR n, e` at the address `entry`, the handler in its slot and the address behind the call. -/
structure Vector where
  n : U8
  e : Bool
  entry : U32
  handler : U32
  ret : U32

/-- The `esp0` is that of the task state segment. -/
def State.interrupt (s : State T) (v : Vector) (esp0 : U32) (errorCode : Option U32) : State T :=
  let c := s.cpu.enter esp0 v.entry v.n v.e errorCode
  { s with
    cpu := c.callHandler v.handler v.ret
    frames := Function.update s.frames s.current (⟨c.regs.esp, s.cpu.regs⟩ :: s.frames s.current) }

def State.exit (s : State T) (rest : List Frame) : State T :=
  { s with cpu := s.cpu.intrExit threads.dpl, frames := Function.update s.frames s.current rest }

/-- The last call of `schedule`. -/
def State.switch (s : State T) (next : T) (ret : U32) : State T :=
  { s with
    cpu := s.cpu.switched (s.cpu.switching.callSwitchTo ret)
    current := next
    saved := Function.update s.saved s.current (some (.out { s.cpu.switching.context with eip := ret })) }

/-- `init_thread` and `thread_create`. -/
def State.create (s : State T) (t : T) (name : List U8) (prio function funcArg : U32) : State T :=
  { s with
    cpu := { s.cpu with
      mem := Switch.threadCreate (Switch.initThread s.cpu.mem threads.mainThread (threads.base t) name prio)
        threads.kernelThread (threads.base t) function funcArg }
    saved := Function.update s.saved t (some (.fresh function funcArg)) }

/-- What memory shows below the kernel once the page directory has changed is part of `run`. A process takes part
    until it leaves for ring 3. -/
inductive Step (s : State T) : State T → Prop
  | run (cpu : Cpu) (kernel : Kernel threads s.current (s.frames s.current) cpu.regs)
      (kept : ∀ x, threads.Guarded s.current x ∨ s.Live x → cpu.mem x = s.cpu.mem x) : Step s { s with cpu := cpu }
  | create (t : T) (name : List U8) (prio function funcArg : U32) (other : t ≠ s.current)
      (fresh : s.saved t = none) (fits : name.length < 16) : Step s (s.create threads t name prio function funcArg)
  | switch (next : T) (ret : U32) (call : Switch.Call threads.toPages s.switching next) : Step s (s.switch next ret)
  | interrupt (v : Vector) (esp0 : U32) (errorCode : Option U32) (agrees : errorCode.isSome = v.e)
      (room : (threads.base s.current).toNat + taskStruct + 72 ≤ s.cpu.regs.esp.toNat) :
      Step s (s.interrupt v esp0 errorCode)
  | exit (f : Frame) (rest : List Frame) (innermost : s.frames s.current = f :: rest)
      (esp : s.cpu.regs.esp = f.esp) : Step s (s.exit threads rest)

theorem State.create_saved (s : State T) (t : T) (name : List U8) (prio function funcArg : U32) :
    (s.create threads t name prio function funcArg).saved =
      Function.update s.saved t (some (.fresh function funcArg)) := rfl

theorem State.switch_saved (s : State T) (next : T) (ret : U32) : (s.switch next ret).saved =
    Function.update s.saved s.current (some (.out { s.cpu.switching.context with eip := ret })) := rfl

/-- The main thread runs on its stack, none is set up. -/
inductive Run : State T → Prop
  | start (cpu : Cpu) (current : T) (kernel : Kernel threads current [] cpu.regs) :
      Run ⟨cpu, current, fun _ => none, fun _ => []⟩
  | step {s s' : State T} (run : Run s) (step : Step threads s s') : Run s'

variable {threads}

/-- The state in which the handler starts. -/
structure Entered (threads : Threads T) (s : State T) (d : Cpu) (f : Frame) : Prop where
  kernel : Kernel threads s.current (f :: s.frames s.current) d.regs
  there : There threads d.mem s.current f
  rest : ∀ f' ∈ s.frames s.current, f.esp.toNat + 68 ≤ f'.esp.toNat
  outside : ∀ x, x < d.regs.esp.toNat ∨ f.esp.toNat + 68 ≤ x → d.mem x = s.cpu.mem x

theorem Inv.entered (inv : Inv threads s) {v : Vector} {esp0 : U32} {errorCode : Option U32}
    (agrees : errorCode.isSome = v.e)
    (room : (threads.base s.current).toNat + taskStruct + 72 ≤ s.cpu.regs.esp.toNat) :
    Entered threads s (s.interrupt v esp0 errorCode).cpu
      ⟨(s.cpu.enter esp0 v.entry v.n v.e errorCode).regs.esp, s.cpu.regs⟩ := by
  obtain ⟨ring, ss, onStack⟩ := inv.kernel
  obtain ⟨dummy, code, esp, words, same⟩ := @enter_frame s.cpu esp0 v.entry v.n errorCode v.e agrees (by omega)
  have ring' := @enter_ring s.cpu esp0 v.entry v.n errorCode v.e
  have ss' := (@enter_rest s.cpu esp0 v.entry v.n errorCode v.e).2.1
  change Entered threads s ((s.cpu.enter esp0 v.entry v.n v.e errorCode).callHandler v.handler v.ret) _
  generalize s.cpu.enter esp0 v.entry v.n v.e errorCode = d at *
  have high := onStack.high
  have place : d.regs.esp.toNat = s.cpu.regs.esp.toNat - 68 := by
    rw [esp, Switch.toNat_sub (by rw [show (68 : U32).toNat = 68 from rfl]; omega)]
    rfl
  have slot : (d.callHandler v.handler v.ret).regs.esp.toNat = d.regs.esp.toNat - 4 := toNat_sub_four (by omega)
  have mem (x : Nat) (outside : x < d.regs.esp.toNat - 4 ∨ d.regs.esp.toNat ≤ x) :
      (d.callHandler v.handler v.ret).mem x = d.mem x := by
    apply setWord_outside
    rw [toNat_sub_four (by omega)]
    omega
  constructor
  case kernel =>
    refine ⟨ring'.trans ring, ss'.trans ss, ?_, ?_, ?_⟩
    · omega
    · omega
    · intro f one
      rcases List.mem_cons.mp one with rfl | earlier
      · dsimp only
        omega
      · have above := onStack.below f earlier
        omega
  case there =>
    have framed : Framed d.mem d.regs.esp.toNat s.cpu.regs false := by
      rw [place]
      exact ⟨_, dummy, code, words.2⟩
    constructor
    case framed =>
      apply framed.congr
      intro x above _
      exact mem x (.inr (by omega))
    case inside =>
      dsimp only
      omega
    case ring => exact ring
    case ss => exact ss
    case esp =>
      rw [esp]
      exact (BitVec.sub_add_cancel _ _).symm
  case rest =>
    intro f one
    have above := onStack.below f one
    dsimp only
    omega
  case outside =>
    intro x outside
    dsimp only at outside
    rw [mem x (by omega)]
    exact same x (by omega)

theorem Inv.ran (inv : Inv threads s) {cpu : Cpu} (kernel : Kernel threads s.current (s.frames s.current) cpu.regs)
    (kept : ∀ x, threads.Guarded s.current x ∨ s.Live x → cpu.mem x = s.cpu.mem x) :
    Inv threads { s with cpu := cpu } where
  kernel := kernel
  stacked t := by
    apply (inv.stacked t).congr
    intro f one x above below
    apply kept
    by_cases same : t = s.current
    · exact .inr ⟨f, same ▸ one, above, below⟩
    · have low := (inv.stacked t).low one
      have high := ((inv.stacked t).there one).inside
      unfold Threads.top at high
      exact .inl ⟨t, same, by omega, by omega, by omega⟩
  out := inv.out
  idle := inv.idle

theorem Inv.created (inv : Inv threads s) {name : List U8} {prio function funcArg : U32} (other : t ≠ s.current)
    (fresh : s.saved t = none) (fits : name.length < 16) :
    Inv threads (s.create threads t name prio function funcArg) where
  kernel := inv.kernel
  stacked u := by
    obtain ⟨stack, outside⟩ := Switch.initThread_spec s.cpu.mem threads.mainThread prio (threads.toPages.room t) fits
    obtain ⟨-, outside'⟩ := Switch.threadCreate_spec threads.kernelThread function funcArg (threads.toPages.room t) stack
    apply (inv.stacked u).congr
    intro f one x above below
    by_cases same : u = t
    · have none : s.frames u = [] := by
        rw [same]
        exact inv.idle t other fun context is => by
          rw [fresh] at is
          contradiction
      rw [none] at one
      contradiction
    · have low := (inv.stacked u).low one
      have high := ((inv.stacked u).there one).inside
      have apart := threads.apart same
      unfold Threads.top at high
      unfold taskStruct at low
      exact (outside' x (by omega)).trans (outside x (by unfold taskStruct; omega))
  out u context different is := by
    by_cases same : u = t
    · subst u
      rw [State.create_saved, Function.update_self] at is
      cases is
    · rw [State.create_saved, Function.update_of_ne same] at is
      exact inv.out u context different is
  idle u different is := by
    by_cases same : u = t
    · subst u
      apply inv.idle t different
      intro context isOut
      rw [fresh] at isOut
      contradiction
    · apply inv.idle u different
      intro context isOut
      apply is context
      rw [State.create_saved, Function.update_of_ne same]
      exact isOut

theorem Entered.computes {d : Cpu} (entered : Entered threads s d f)
    (run : Switch.Run threads.toPages s.switching) : Switch.Run threads.toPages
      { s with cpu := d, frames := Function.update s.frames s.current (f :: s.frames s.current) }.switching := by
  refine run.step (.run d.switching ?_)
  rintro x ⟨t, other, low, high, -⟩
  have apart : (threads.base t).toNat + 4096 ≤ (threads.base s.current).toNat ∨
    (threads.base s.current).toNat + 4096 ≤ (threads.base t).toNat := threads.apart other
  have base := entered.kernel.onStack.low
  have top := entered.there.inside
  unfold Threads.top at top
  exact entered.outside x (by omega)

theorem Entered.inv {d : Cpu} (entered : Entered threads s d f) (inv : Inv threads s) :
    Inv threads { s with cpu := d, frames := Function.update s.frames s.current (f :: s.frames s.current) } := by
  have high := entered.there.inside
  have low := entered.kernel.onStack.below f List.mem_cons_self
  have base := entered.kernel.onStack.low
  constructor
  case kernel =>
    dsimp only
    rw [Function.update_self]
    exact entered.kernel
  case stacked =>
    intro t
    dsimp only
    by_cases current : t = s.current
    · subst t
      rw [Function.update_self]
      have kept : Stacked threads d.mem s.current ((threads.base s.current).toNat + taskStruct)
          (s.frames s.current) := by
        apply (inv.stacked s.current).congr
        intro f one x above _
        have rest := entered.rest f one
        exact entered.outside x (.inr (by omega))
      exact ⟨base.trans low, entered.there, kept.raise entered.rest⟩
    · rw [Function.update_of_ne current]
      apply inv.stacked_elsewhere current
      intro x outside
      apply entered.outside
      omega
  case out =>
    intro t context different is
    dsimp only
    rw [Function.update_of_ne different]
    exact inv.out t context different is
  case idle =>
    intro t different is
    dsimp only
    rw [Function.update_of_ne different]
    exact inv.idle t different is

theorem Inv.exited (inv : Inv threads s) {rest : List Frame} (innermost : s.frames s.current = f :: rest)
    (esp : s.cpu.regs.esp = f.esp) : Inv threads (s.exit threads rest) := by
  have stacked := inv.stacked s.current
  rw [innermost] at stacked
  obtain ⟨low, there, others⟩ := stacked
  rw [State.exit, inv.restores innermost esp]
  constructor
  case kernel =>
    have high := there.inside
    have bound := threads.room s.current
    have place : f.regs.esp.toNat = f.esp.toNat + 68 := by
      rw [there.esp]
      unfold Threads.top at high
      exact Switch.toNat_add (by rw [show (68 : U32).toNat = 68 from rfl]; omega)
    refine ⟨there.ring, there.ss, ?_, ?_, ?_⟩
    · dsimp only
      omega
    · dsimp only
      omega
    · intro g one
      dsimp only at one ⊢
      rw [Function.update_self] at one
      have above := others.low one
      omega
  case stacked =>
    intro t
    dsimp only
    by_cases current : t = s.current
    · subst t
      rw [Function.update_self]
      exact others.raise fun g one => (low.trans (Nat.le_add_right _ _)).trans (others.low one)
    · rw [Function.update_of_ne current]
      exact inv.stacked t
  case out =>
    intro t context different is
    dsimp only
    rw [Function.update_of_ne different]
    exact inv.out t context different is
  case idle =>
    intro t different is
    dsimp only
    rw [Function.update_of_ne different]
    exact inv.idle t different is

theorem Inv.switches (inv : Inv threads s) {next : T} (run : Switch.Run threads.toPages s.switching)
    (call : Switch.Call threads.toPages s.switching next) (ret : U32) : Inv threads (s.switch next ret) := by
  have kept := Switch.run_kept run
  have mem : (s.switch next ret).cpu.mem = s.cpu.switching.parked ret (threads.base s.current) :=
    (Switch.call_switches kept call ret).1
  have outside (x : Nat) (other : x < (threads.base s.current).toNat ∨ threads.top s.current ≤ x) :
      s.cpu.switching.parked ret (threads.base s.current) x = s.cpu.mem x :=
    Switch.parked_outside call.low call.high other
  have onStack := inv.kernel.onStack
  have low : (threads.base s.current).toNat + taskStruct + 20 ≤ s.cpu.regs.esp.toNat := call.low
  obtain ⟨saved, is, waits⟩ := Switch.call_waits kept call ret
  have resumed : (s.switch next ret).cpu.regs.esp =
      word (s.cpu.switching.parked ret (threads.base s.current)) (threads.base next).toNat + 20 :=
    (Switch.call_switches kept call ret).2.1
  -- where the thread that is switched to goes on, and that its frames lie above
  have resumes : (threads.base next).toNat + taskStruct ≤ (s.switch next ret).cpu.regs.esp.toNat ∧
      (s.switch next ret).cpu.regs.esp.toNat < threads.top next ∧
      ∀ f ∈ s.frames next, (s.switch next ret).cpu.regs.esp.toNat ≤ f.esp.toNat := by
    have record : (s.switching.switch next ret).saved = (s.switch next ret).saved := rfl
    rw [record, State.switch_saved] at is
    unfold Threads.top
    cases saved with
    | out context =>
      obtain ⟨stack, above, under, -⟩ := waits
      rw [resumed, show word (s.cpu.switching.parked ret (threads.base s.current)) (threads.base next).toNat =
        context.esp - 20 from stack, BitVec.sub_add_cancel]
      refine ⟨by omega, by omega, ?_⟩
      by_cases same : next = s.current
      · subst same
        rw [Function.update_self] at is
        cases is
        exact onStack.below
      · rw [Function.update_of_ne same] at is
        exact inv.out next context same is
    | fresh function funcArg =>
      have room := Switch.Pages.room threads.toPages next
      have at_ : (s.switch next ret).cpu.regs.esp.toNat = (threads.base next).toNat + 3684 := by
        rw [resumed, show word (s.cpu.switching.parked ret (threads.base s.current)) (threads.base next).toNat =
          threads.base next + 3664 from waits.1, BitVec.add_assoc]
        exact Switch.toNat_add (show (threads.base next).toNat + 3684 < 2 ^ 32 by omega)
      have other : next ≠ s.current := by
        rintro rfl
        rw [Function.update_self] at is
        cases is
      rw [Function.update_of_ne other] at is
      have none : s.frames next = [] := by
        apply inv.idle next other
        intro context isOut
        cases is.symm.trans isOut
      rw [none, at_]
      exact ⟨show (threads.base next).toNat + 64 ≤ _ by omega, by omega, fun f one => nomatch one⟩
  constructor
  case kernel => exact ⟨inv.kernel.ring, inv.kernel.ss, resumes.1, resumes.2.1, resumes.2.2⟩
  case stacked =>
    intro t
    rw [mem]
    by_cases current : t = s.current
    · subst t
      apply (inv.stacked s.current).congr
      intro f member x above _
      have under := onStack.below f member
      have kernel : s.cpu.switching.esp.toNat ≤ x := show s.cpu.regs.esp.toNat ≤ x by omega
      rw [Switch.Cpu.parked, setWord_outside _ (by omega)]
      exact Switch.Cpu.pushed_outside (show 20 ≤ s.cpu.regs.esp.toNat by omega) (.inr kernel)
    · exact inv.stacked_elsewhere current outside
  case out =>
    intro t context _ is f member
    by_cases current : t = s.current
    · subst t
      rw [State.switch_saved, Function.update_self] at is
      cases is
      exact onStack.below f member
    · rw [State.switch_saved, Function.update_of_ne current] at is
      exact inv.out t context current is f member
  case idle =>
    intro t _ is
    by_cases current : t = s.current
    · subst t
      rw [State.switch_saved, Function.update_self] at is
      exact absurd rfl (is _)
    · rw [State.switch_saved, Function.update_of_ne current] at is
      exact inv.idle t current is

/-- What an interrupt, its handler and `intr_exit` do is, to `switch_to`, the running thread's own work. -/
theorem step_inv (inv : Inv threads s) (run : Switch.Run threads.toPages s.switching) (step : Step threads s s') :
    Inv threads s' ∧ Switch.Run threads.toPages s'.switching := by
  cases step with
  | run cpu kernel kept =>
    apply And.intro (inv.ran kernel kept)
    exact run.step (.run cpu.switching fun x guarded => kept x (.inl guarded))
  | create t name prio function funcArg other fresh fits =>
    exact ⟨inv.created other fresh fits, run.step (.create t name prio function funcArg other fresh fits)⟩
  | switch next ret call => exact ⟨inv.switches run call ret, run.step (.switch next ret call)⟩
  | interrupt v esp0 errorCode agrees room =>
    have entered := @Inv.entered _ _ _ _ inv v esp0 errorCode agrees room
    exact ⟨entered.inv inv, entered.computes run⟩
  | exit f rest innermost esp =>
    apply And.intro (inv.exited innermost esp)
    refine run.step (.run (s.exit threads rest).cpu.switching fun x _ => ?_)
    have mem := congrArg Cpu.mem (inv.restores innermost esp)
    exact congrFun mem x

theorem run_inv (run : Run threads s) : Inv threads s ∧ Switch.Run threads.toPages s.switching := by
  induction run with
  | start cpu current kernel => exact ⟨.started kernel, .start _ _⟩
  | step _ step ih => exact step_inv ih.1 ih.2 step

/-- Whatever was interrupted goes on with its registers, however the handlers nested and switched. -/
theorem exit_restores {rest : List Frame} (run : Run threads s) (innermost : s.frames s.current = f :: rest)
    (esp : s.cpu.regs.esp = f.esp) : (s.exit threads rest).cpu = { s.cpu with regs := f.regs } :=
  (run_inv run).1.restores innermost esp

def twoThreads : Threads Bool where
  toPages := Switch.twoPages
  dpl selector := selector.toNat % 4
  room := by decide

/-- The arguments of a `switch_to` lie on both stacks. -/
def interruptedKernel : Cpu where
  mem := setWord (setWord (setWord (setWord (fun _ => 0xcc) 0xc009ef00 0xc009e000) 0xc009ef04 0xc0100000)
    0xc0100e00 0xc0100000) 0xc0100e04 0xc009e000
  regs := ⟨1, 2, 3, 4, 5, 6, 7, 0xc009ef80, 0xc0001000, 0x202, 8, 0x10, 0x10, 0x10, 0x10, 0x18⟩
  sent := []

def clock : Vector := ⟨0x20, false, 0xc0002000, 0xc0005000, 0xc0002020⟩

/-- The kernel has been interrupted; the stack pointer goes to the address. -/
def State.moved (s : State Bool) (esp : U32) : State Bool := { s with cpu := s.cpu.setEsp esp }

def firstSwitch : State Bool :=
  (((⟨interruptedKernel, false, fun _ => none, fun _ => []⟩ : State Bool).create twoThreads true [0x61] 31
    0xc0004000 7).interrupt clock 0 none).moved 0xc009ef00

def secondSwitch : State Bool := (firstSwitch.switch true 0xc0003005).moved 0xc0100e00

def handlerReturned : State Bool := (secondSwitch.switch false 0xc0003005).moved 0xc009ef3c

theorem moved_run {s : State Bool} {esp : U32} (run : Run twoThreads s)
    (onStack : OnStack twoThreads s.current (s.frames s.current) esp) : Run twoThreads (s.moved esp) := by
  have kernel := (run_inv run).1.kernel
  exact run.step (.run (s.cpu.setEsp esp) ⟨kernel.ring, kernel.ss, onStack⟩ fun _ _ => rfl)

theorem firstSwitch_run : Run twoThreads firstSwitch := by
  have started : Run twoThreads ⟨interruptedKernel, false, fun _ => none, fun _ => []⟩ :=
    .start _ _ ⟨rfl, rfl, by decide, by decide, by decide⟩
  have created := started.step (.create true [0x61] 31 0xc0004000 7 (by decide) rfl (by decide))
  have interrupted := created.step (.interrupt clock 0 none rfl (by decide +kernel))
  exact moved_run interrupted ⟨by decide +kernel, by decide +kernel, by decide +kernel⟩

theorem firstSwitch_call : Switch.Call twoThreads.toPages firstSwitch.switching true :=
  ⟨.inr (by decide +kernel), by decide +kernel, by decide +kernel, by decide +kernel, by decide +kernel⟩

theorem handlerReturned_run : Run twoThreads handlerReturned := by
  have switched := firstSwitch_run.step (.switch true 0xc0003005 firstSwitch_call)
  have second : Run twoThreads secondSwitch :=
    moved_run switched ⟨by decide +kernel, by decide +kernel, by decide +kernel⟩
  have call : Switch.Call twoThreads.toPages secondSwitch.switching false :=
    ⟨.inr (by decide +kernel), by decide +kernel, by decide +kernel, by decide +kernel, by decide +kernel⟩
  have back := second.step (.switch false 0xc0003005 call)
  exact moved_run back ⟨by decide +kernel, by decide +kernel, by decide +kernel⟩

theorem exit_restores_interruptedKernel :
    (handlerReturned.exit twoThreads []).cpu = { handlerReturned.cpu with regs := interruptedKernel.regs } := by
  have esp : (firstSwitch.frames false).map Frame.esp = [0xc009ef3c] := by decide +kernel
  have innermost : handlerReturned.frames handlerReturned.current = [⟨0xc009ef3c, interruptedKernel.regs⟩] :=
    congrArg (fun esp => [Frame.mk esp interruptedKernel.regs]) (List.cons.inj esp).1
  exact exit_restores handlerReturned_run innermost (by decide +kernel)

/-- `running_thread`. -/
def runningThread (esp : U32) : U32 := esp &&& 0xfffff000

theorem runningThread_eq {base esp : U32} (aligned : base.toNat % 4096 = 0) (low : base.toNat ≤ esp.toNat)
    (high : esp.toNat < base.toNat + 4096) : runningThread esp = base := by
  apply BitVec.eq_of_toNat_eq
  rw [runningThread, Memory.page_mask]
  omega

end LiziOS.Interrupt
