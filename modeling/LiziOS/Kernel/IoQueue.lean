import LiziOS.Library.Ring
import LiziOS.Library.Transition
import LiziOS.Kernel.Sync
import LiziOS.Kernel.Thread

namespace LiziOS

/-- `struct ioqueue`. -/
structure IoQueue (T : Type*) where
  lock : Lock T
  producer : Option T
  consumer : Option T
  buf : Nat → U8
  head : U32
  tail : U32

def ioqInit {T : Type*} (memory : Nat → U8) : IoQueue T := ⟨lockInit, none, none, memory, 0, 0⟩

def nextPos (pos : U32) : U32 := (pos + 1) % 64

/-- The calls that may have to wait: a consumer's and a producer's. -/
inductive IoCall where
  | getchar
  | putchar (byte : U8)
  deriving DecidableEq

/-- Where a thread stands: outside the two calls, asleep or just dispatched inside their
    `lock_acquire`, or inside their `ioq_wait`. -/
inductive IoPc where
  | idle
  | atLock (call : IoCall)
  | atWait (call : IoCall)
  deriving DecidableEq

variable {T : Type*}

def ioqFull (ioq : IoQueue T) : Bool := nextPos ioq.head = ioq.tail

def ioqEmpty (ioq : IoQueue T) : Bool := ioq.head = ioq.tail

/-- The condition of the `while` loop of the call. -/
def IoCall.waits (call : IoCall) (ioq : IoQueue T) : Bool :=
  match call with
  | .getchar => ioqEmpty ioq
  | .putchar _ => ioqFull ioq

/-- The slot that the call hands to `ioq_wait`. -/
def IoCall.waiter (call : IoCall) (ioq : IoQueue T) : Option T :=
  match call with
  | .getchar => ioq.consumer
  | .putchar _ => ioq.producer

def IoCall.setWaiter (call : IoCall) (ioq : IoQueue T) (waiter : Option T) : IoQueue T :=
  match call with
  | .getchar => { ioq with consumer := waiter }
  | .putchar _ => { ioq with producer := waiter }

/-- `ioq_wait` up to its `thread_block`: the slot now names the running thread. -/
def ioqWait (waiter : Option T) (running : T) : Except Fault (Option T) :=
  match waiter with
  | none => .ok (some running)
  | some _ => .error (.panic .ioqWait)

/-- `wakeup`: the slot is cleared and the thread it named is unblocked. -/
def wakeup [DecidableEq T] (waiter : Option T) (k : Threads T) :
    Except Fault (Option T × Threads T) :=
  match waiter with
  | none => .error (.panic .wakeup)
  | some t => (threadUnblock t k).map (none, ·)

/-- The threads around one queue. `stored` and `returned` record the bytes that `ioq_putchar` has
    put into the buffer and that the completed calls of `ioq_getchar` have returned. -/
structure IoState (T : Type*) where
  threads : Threads T
  ioq : IoQueue T
  pc : T → IoPc
  stored : List U8
  returned : List U8

/-- Everything between two blocking points runs with interrupts off and is one step. -/
inductive IoAct where
  | getchar
  | putchar (byte : U8)
  /-- the keyboard handler has read the character `byte` -/
  | keyboard (byte : U8)
  | clock
  /-- a thread dispatched inside `thread_block` goes on -/
  | resume

namespace IoState

variable [DecidableEq T]

def goto (s : IoState T) (pc : IoPc) : IoState T :=
  { s with pc := Function.update s.pc s.threads.current pc }

/-- `thread_block(TASK_BLOCKED)`, called at the place `pc`. -/
def block (s : IoState T) (wanted : Option T) (pc : IoPc) : Except Fault (IoState T) :=
  (threadBlock wanted .blocked s.threads).map fun threads =>
    { s with threads := threads, pc := Function.update s.pc s.threads.current pc }

/-- A turn of the loop from the point where `lock_acquire` has returned or has to sleep. -/
def afterAcquire (s : IoState T) (wanted : Option T) (call : IoCall) (result : Lock T × Bool) :
    Except Fault (IoState T) :=
  let (lock, passed) := result
  let ioq : IoQueue T := { s.ioq with lock := lock }
  if passed then do
    let waiter ← ioqWait (call.waiter ioq) s.threads.current
    { s with ioq := call.setWaiter ioq waiter }.block wanted (.atWait call)
  else { s with ioq := ioq }.block wanted (.atLock call)

/-- `ioq_getchar` after its loop. -/
def takeChar (s : IoState T) : Except Fault (IoState T) :=
  let byte := s.ioq.buf s.ioq.tail.toNat
  let ioq : IoQueue T := { s.ioq with tail := nextPos s.ioq.tail }
  let s : IoState T := { s with ioq := ioq, returned := s.returned ++ [byte] }.goto .idle
  if ioq.producer ≠ none then do
    let (producer, threads) ← wakeup ioq.producer s.threads
    .ok { s with threads := threads, ioq := { ioq with producer := producer } }
  else .ok s

/-- `ioq_putchar` after its loop. -/
def putChar (s : IoState T) (byte : U8) : Except Fault (IoState T) :=
  let ioq : IoQueue T := { s.ioq with
    buf := Function.update s.ioq.buf s.ioq.head.toNat byte
    head := nextPos s.ioq.head }
  let s : IoState T := { s with ioq := ioq, stored := s.stored ++ [byte] }.goto .idle
  if ioq.consumer ≠ none then do
    let (consumer, threads) ← wakeup ioq.consumer s.threads
    .ok { s with threads := threads, ioq := { ioq with consumer := consumer } }
  else .ok s

/-- The loop of `ioq_getchar` and `ioq_putchar`, from its condition to the next blocking point or
    to the end of the call. -/
def loop (s : IoState T) (wanted : Option T) (call : IoCall) : Except Fault (IoState T) :=
  if call.waits s.ioq then do
    let result ← lockAcquire s.ioq.lock s.threads.current
    s.afterAcquire wanted call result
  else match call with
    | .getchar => s.takeChar
    | .putchar byte => s.putChar byte

def ioqGetchar (s : IoState T) (wanted : Option T) : Except Fault (IoState T) :=
  s.loop wanted .getchar

def ioqPutchar (s : IoState T) (wanted : Option T) (byte : U8) : Except Fault (IoState T) :=
  s.loop wanted (.putchar byte)

/-- The `lock_release` at the end of a turn of the loop. -/
def release (s : IoState T) : Except Fault (IoState T) := do
  let (lock, woken) ← lockRelease s.ioq.lock s.threads.current
  let s := { s with ioq := { s.ioq with lock := lock } }.goto .idle
  match woken with
  | none => .ok s
  | some t => (threadUnblock t s.threads).map fun threads => { s with threads := threads }

def resume (s : IoState T) (wanted : Option T) : Option (Except Fault (IoState T)) :=
  match s.pc s.threads.current with
  | .idle => none
  | .atLock call => some do
    let result ← lockDowm s.ioq.lock s.threads.current
    s.afterAcquire wanted call result
  | .atWait call => some do
    let s ← s.release
    s.loop wanted call

def step (s : IoState T) : IoAct × Option T → Option (Except Fault (IoState T))
  | (.getchar, wanted) =>
    if s.pc s.threads.current = .idle then some (s.ioqGetchar wanted) else none
  | (.putchar byte, wanted) =>
    if s.pc s.threads.current = .idle then some (s.ioqPutchar wanted byte) else none
  | (.keyboard byte, wanted) =>
    if s.pc s.threads.current = .idle then
      some (if ioqFull s.ioq then .ok s else s.ioqPutchar wanted byte)
    else none
  | (.clock, wanted) =>
    if s.pc s.threads.current = .idle then
      some ((clockInterruptHandler wanted s.threads).map fun threads =>
        { s with threads := threads })
    else none
  | (.resume, wanted) => s.resume wanted

/-- After `ioq_init`: one thread runs and the others are ready. -/
structure Start (s : IoState T) : Prop where
  running : ∀ t, (s.threads.task t).status = .running ↔ t = s.threads.current
  ready : ∀ t, t ∈ s.threads.readyList ↔ (s.threads.task t).status = .ready
  readyNodup : s.threads.readyList.Nodup
  queue : ∃ memory, s.ioq = ioqInit memory
  idle : ∀ t, s.pc t = .idle
  fresh : s.stored = [] ∧ s.returned = []

def system (T : Type*) [DecidableEq T] : Transition.System (IoState T) (IoAct × Option T) Fault where
  start := Start
  step := step

/-- The bytes in the buffer, from `tail` to `head`. -/
def contents (s : IoState T) : List U8 :=
  Ring.contents 64 s.ioq.buf s.ioq.tail.toNat s.ioq.head.toNat

end IoState

end LiziOS
