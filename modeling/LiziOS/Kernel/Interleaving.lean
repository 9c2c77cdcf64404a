import LiziOS.Library.Transition
import LiziOS.Kernel.Sync
import LiziOS.Kernel.Thread

namespace LiziOS

/-- Where a thread stands: the next statement it executes with interrupts on, or the point inside
    `thread_block` at which it was switched away. -/
inductive Pc (T L : Type*) where
  /-- no PCB yet; a PCB that is in no list yet; the code of the thread's own function -/
  | unborn | embryo | run
  /-- `lock_acquire` -/
  | acquireTest (l : L) | acquireDowm (l : L) | dowmBlocked (l : L)
  | acquireHolder (l : L) | acquireAssert (l : L) | acquireRepeat (l : L) | acquireNest (l : L)
  /-- `lock_release` -/
  | releaseAssert (l : L) | releaseTest (l : L) | releaseNest (l : L) | releaseOnce (l : L)
  | releaseHolder (l : L) | releaseRepeat (l : L) | releaseUp (l : L)
  /-- `thread_block` called by the thread's own function -/
  | blocked
  /-- `thread_start`, once the PCB of `pthread` is initialised -/
  | startFind (pthread : T) | startAppend (pthread : T)
  | startFindAll (pthread : T) | startAppendAll (pthread : T)
  deriving DecidableEq

/-- `list_append` has put the thread on the ready list once. -/
def Pc.Started {T L : Type*} : Pc T L → Prop
  | .unborn | .embryo => False
  | _ => True

/-- Threads and locks under preemption. `acquires` and `releases` count the completed calls. -/
structure Kernel (T L : Type*) where
  threads : Threads T
  lock : L → Lock T
  pc : T → Pc T L
  acquires : T → L → Nat
  releases : T → L → Nat

inductive Act (T L : Type*) where
  /-- the next statement of the current thread -/
  | statement (wanted : Option T)
  | clock (wanted : Option T)
  /-- calls made by the current thread's own code, and a step of that code itself -/
  | lockAcquire (l : L)
  | lockRelease (l : L)
  | threadBlock (status : TaskStatus) (wanted : Option T)
  | threadUnblock (pthread : T)
  | threadStart (pthread : T) (prio : U32)
  | processExecute (pthread : T) (pgdir : U32)
  | work

namespace Kernel

variable {T L : Type*} [DecidableEq T] [DecidableEq L]

def goto (s : Kernel T L) (pc : Pc T L) : Kernel T L :=
  { s with pc := Function.update s.pc s.threads.current pc }

def setLock (s : Kernel T L) (l : L) (plock : Lock T) : Kernel T L :=
  { s with lock := Function.update s.lock l plock }

def setThreads (s : Kernel T L) (threads : Threads T) : Kernel T L :=
  { s with threads := threads }

/-- The current thread returns from `lock_acquire`. -/
def acquired (s : Kernel T L) (l : L) : Kernel T L :=
  let t := s.threads.current
  { s.goto .run with
    acquires := fun u m => if u = t ∧ m = l then s.acquires u m + 1 else s.acquires u m }

/-- The current thread returns from `lock_release`. -/
def released (s : Kernel T L) (l : L) : Kernel T L :=
  let t := s.threads.current
  { s.goto .run with
    releases := fun u m => if u = t ∧ m = l then s.releases u m + 1 else s.releases u m }

/-- The interrupts-off body of `sema_dowm`, from its start or from the switch inside it. -/
def dowm (s : Kernel T L) (l : L) (wanted : Option T) : Except Fault (Kernel T L) :=
  let plock := s.lock l
  match semaDowm plock.semaphore s.threads.current with
  | .error fault => .error fault
  | .ok (sema, true) => .ok ((s.setLock l { plock with semaphore := sema }).goto (.acquireHolder l))
  | .ok (sema, false) =>
    (threadBlock wanted .blocked s.threads).map fun threads =>
      ((s.setLock l { plock with semaphore := sema }).goto (.dowmBlocked l)).setThreads threads

/-- The interrupts-off body of `sema_up`. -/
def up (s : Kernel T L) (l : L) : Except Fault (Kernel T L) :=
  let plock := s.lock l
  match semaUp plock.semaphore with
  | .error fault => .error fault
  | .ok (sema, none) => .ok (s.setLock l { plock with semaphore := sema })
  | .ok (sema, some woken) =>
    (threadUnblock woken s.threads).map fun threads =>
      (s.setLock l { plock with semaphore := sema }).setThreads threads

def statement (s : Kernel T L) (wanted : Option T) : Option (Except Fault (Kernel T L)) :=
  let t := s.threads.current
  match s.pc t with
  | .run | .unborn | .embryo => none
  | .acquireTest l =>
    some (.ok (s.goto (if (s.lock l).holder ≠ some t then .acquireDowm l else .acquireNest l)))
  | .acquireDowm l | .dowmBlocked l => some (s.dowm l wanted)
  | .acquireHolder l =>
    some (.ok ((s.setLock l { s.lock l with holder := some t }).goto (.acquireAssert l)))
  | .acquireAssert l =>
    some (if (s.lock l).holderRepeatNr = 0 then .ok (s.goto (.acquireRepeat l))
      else .error (.panic .lockAcquire))
  | .acquireRepeat l => some (.ok ((s.setLock l { s.lock l with holderRepeatNr := 1 }).acquired l))
  | .acquireNest l =>
    some (.ok ((s.setLock l
      { s.lock l with holderRepeatNr := (s.lock l).holderRepeatNr + 1 }).acquired l))
  | .releaseAssert l =>
    some (if (s.lock l).holder = some t then .ok (s.goto (.releaseTest l))
      else .error (.panic .lockRelease))
  | .releaseTest l =>
    some (.ok (s.goto (if (s.lock l).holderRepeatNr > 1 then .releaseNest l else .releaseOnce l)))
  | .releaseNest l =>
    some (.ok ((s.setLock l
      { s.lock l with holderRepeatNr := (s.lock l).holderRepeatNr - 1 }).released l))
  | .releaseOnce l =>
    some (if (s.lock l).holderRepeatNr = 1 then .ok (s.goto (.releaseHolder l))
      else .error (.panic .lockRelease))
  | .releaseHolder l =>
    some (.ok ((s.setLock l { s.lock l with holder := none }).goto (.releaseRepeat l)))
  | .releaseRepeat l =>
    some (.ok ((s.setLock l { s.lock l with holderRepeatNr := 0 }).goto (.releaseUp l)))
  | .releaseUp l => some ((s.up l).map (·.released l))
  -- `thread_block` ends with `intr_set_status(old_status)`
  | .blocked => some (.ok (s.goto .run))
  | .startFind c =>
    some (if elemFind s.threads.readyList c then .error (.panic .threadStart)
      else .ok (s.goto (.startAppend c)))
  | .startAppend c =>
    -- from here on the new thread can be dispatched
    let s := s.setThreads { s.threads with readyList := listAppend s.threads.readyList c }
    some (.ok ({ s with pc := Function.update s.pc c .run }.goto (.startFindAll c)))
  | .startFindAll c =>
    some (if elemFind s.threads.allList c then .error (.panic .threadStart)
      else .ok (s.goto (.startAppendAll c)))
  | .startAppendAll c =>
    some (.ok ((s.setThreads { s.threads with allList := listAppend s.threads.allList c }).goto .run))

/-- The clock interrupt is taken between two statements with interrupts on; a thread that was just
    dispatched inside `thread_block` still has them off. -/
def interruptible : Pc T L → Bool
  | .dowmBlocked _ | .blocked | .unborn | .embryo => false
  | _ => true

/-- The part of `thread_start` before the lists. `malloc_kernel_pages` is not part of the step: it
    yields a PCB not in use, and its use of the pool lock is a run of lock operations. -/
def startThread (s : Kernel T L) (c : T) (prio : U32) : Kernel T L :=
  let s := s.setThreads (s.threads.setTask c (initThread s.threads c prio))
  { s with pc := Function.update s.pc c .embryo }.goto (.startFind c)

/-- `process_execute` after its allocations; the lists are changed with interrupts off. -/
def executeProcess (s : Kernel T L) (c : T) (pgdir : U32) : Except Fault (Kernel T L) :=
  let threads := s.threads.setTask c { initThread s.threads c 31 with pgdir := pgdir }
  if elemFind threads.readyList c then .error (.panic .processExecute)
  else if elemFind threads.allList c then .error (.panic .processExecute)
  else
    let s := s.setThreads { threads with
      readyList := listAppend threads.readyList c
      allList := listAppend threads.allList c }
    .ok { s with pc := Function.update s.pc c .run }

def step (s : Kernel T L) (a : Act T L) : Option (Except Fault (Kernel T L)) :=
  let t := s.threads.current
  match a with
  | .statement wanted => s.statement wanted
  | .clock wanted =>
    if interruptible (s.pc t) then
      some ((clockInterruptHandler wanted s.threads).map s.setThreads)
    else none
  | .lockAcquire l => if s.pc t = .run then some (.ok (s.goto (.acquireTest l))) else none
  | .lockRelease l => if s.pc t = .run then some (.ok (s.goto (.releaseAssert l))) else none
  | .threadBlock status wanted =>
    if s.pc t = .run then
      some ((threadBlock wanted status s.threads).map ((s.goto .blocked).setThreads ·))
    else none
  | .threadUnblock pthread =>
    -- also called by interrupt handlers, on the stack of whatever thread they interrupted
    if interruptible (s.pc t) then some ((threadUnblock pthread s.threads).map s.setThreads)
    else none
  | .threadStart pthread prio =>
    if s.pc t = .run ∧ s.pc pthread = .unborn then some (.ok (s.startThread pthread prio)) else none
  | .processExecute pthread pgdir =>
    if s.pc t = .run ∧ s.pc pthread = .unborn then some (s.executeProcess pthread pgdir) else none
  | .work => if s.pc t = .run then some (.ok s) else none

/-- After `thread_init` and `lock_init`: the main thread alone, every lock free. What the memory of
    later PCBs holds is arbitrary. -/
def boot (mainThread : T) (memory : T → TaskStruct) : Kernel T L where
  threads :=
    let k : Threads T := ⟨mainThread, memory, mainThread, [], [mainThread]⟩
    k.setTask mainThread (initThread k mainThread 31)
  lock := fun _ => lockInit
  pc := fun t => if t = mainThread then .run else .unborn
  acquires := fun _ _ => 0
  releases := fun _ _ => 0

/-- `thread_unblock` is called as `wakeup` and `sema_up` call it: on a thread that is asleep and
    stands in no wait list. -/
def ProperUnblock (s : Kernel T L) : Act T L → Prop
  | .threadUnblock pthread => (s.pc pthread).Started ∧ (s.threads.task pthread).status.asleep ∧
      ∀ l, pthread ∉ (s.lock l).semaphore.waiters
  | _ => True

/-- Every caller of `thread_block` passes a status of a sleeping thread. -/
def ProperBlock : Act T L → Prop
  | .threadBlock status _ => status.asleep = true
  | _ => True

/-- The action makes the current thread call `thread_block`. -/
def Blocks (s : Kernel T L) : Act T L → Prop
  | .threadBlock _ _ => True
  | .statement _ => ∃ l, (s.pc s.threads.current = .acquireDowm l ∨
      s.pc s.threads.current = .dowmBlocked l) ∧ (s.lock l).semaphore.value = 0
  | _ => False

/-- The calls the kernel makes: the main thread ends in an idle loop and never sleeps. -/
structure Legal (s : Kernel T L) (a : Act T L) : Prop where
  unblock : s.ProperUnblock a
  block : ProperBlock a
  main : s.threads.current = s.threads.mainThread → ¬ s.Blocks a

def system (T L : Type*) [DecidableEq T] [DecidableEq L] :
    Transition.System (Kernel T L) (Act T L) Fault where
  start s := ∃ mainThread memory, s = boot mainThread memory
  step := step

end Kernel

end LiziOS
