import LiziOS.Kernel.Interleaving

namespace LiziOS

variable {T L : Type*}

/-- The thread that a `thread_start` is creating, before and after it is put on the ready list. -/
def Pc.preparing : Pc T L → Option T
  | .startFind c | .startAppend c => some c
  | _ => none

def Pc.announcing : Pc T L → Option T
  | .startFindAll c | .startAppendAll c => some c
  | _ => none

/-- Not in the middle of `thread_start` and not asleep in `sema_dowm`. -/
structure Pc.Plain (pc : Pc T L) : Prop where
  started : pc.Started
  preparing : pc.preparing = none
  announcing : pc.announcing = none
  notParked : ∀ l, pc ≠ .dowmBlocked l

namespace Kernel

variable [DecidableEq T] [DecidableEq L] {s after : Kernel T L} {a : Act T L}

def status (s : Kernel T L) (t : T) : TaskStatus := (s.threads.task t).status

def waiters (s : Kernel T L) (l : L) : List T := (s.lock l).semaphore.waiters

/-- The current thread goes on at `pc`, nothing else moves. -/
structure Moved (s after : Kernel T L) (pc : Pc T L) : Prop where
  preparing : (s.pc s.threads.current).preparing = none
  announcing : (s.pc s.threads.current).announcing = none
  pc : after.pc = Function.update s.pc s.threads.current pc

/-- The current thread goes to sleep with the given status and another ready thread runs. -/
structure FellAsleep (s after : Kernel T L) (status : TaskStatus) : Prop where
  asleep : status.asleep = true
  perm : s.threads.readyList.Perm (after.threads.current :: after.threads.readyList)
  status : ∀ t, after.status t = if t = after.threads.current then .running
    else if t = s.threads.current then status else s.status t
  same : SameProcesses s.threads after.threads

/-- A sleeping thread is put on the ready list. -/
structure Woken (s after : Kernel T L) (woken : T) : Prop where
  asleep : (s.status woken).asleep = true
  absent : woken ∉ s.threads.readyList
  current : after.threads.current = s.threads.current
  ready : after.threads.readyList = listPush s.threads.readyList woken
  status : ∀ t, after.status t = if t = woken then .ready else s.status t
  same : SameProcesses s.threads after.threads

/-- What a step does to statuses, lists and the creation of threads. -/
inductive Effect (s : Kernel T L) (a : Act T L) (after : Kernel T L) : Prop where
  | quiet (pc : Pc T L) (plain : pc.Plain) (moved : Moved s after pc)
      (threads : after.threads = s.threads) (waiters : after.waiters = s.waiters)
  | tick (ready : after.threads.readyList = s.threads.readyList)
      (current : after.threads.current = s.threads.current) (status : after.status = s.status)
      (same : SameProcesses s.threads after.threads)
      (waiters : after.waiters = s.waiters) (pc : after.pc = s.pc)
  | preempt (switched : Switched s.threads after.threads) (waiters : after.waiters = s.waiters)
      (pc : after.pc = s.pc)
  | park (l : L) (blocks : s.Blocks a) (absent : s.threads.current ∉ s.waiters l)
      (slept : FellAsleep s after .blocked)
      (moved : Moved s after (.dowmBlocked l))
      (waiters : after.waiters =
        Function.update s.waiters l (listAppend (s.waiters l) s.threads.current))
  | wake (l : L) (woken : T) (queue : s.waiters l = woken :: after.waiters l)
      (others : ∀ m, m ≠ l → after.waiters m = s.waiters m) (roused : Woken s after woken)
      (moved : Moved s after .run)
  | sleep (status : TaskStatus) (blocks : s.Blocks a) 
      (slept : FellAsleep s after status) (moved : Moved s after .blocked)
      (waiters : after.waiters = s.waiters)
  | unblock (woken : T) (act : a = .threadUnblock woken) (roused : Woken s after woken)
      (waiters : after.waiters = s.waiters) (pc : after.pc = s.pc)
  | create (c : T) (prio : U32) (fresh : s.pc c = .unborn) (was : s.pc s.threads.current = .run)
      (threads : after.threads = ⟨s.threads.current,
        Function.update s.threads.task c (initThread s.threads c prio), s.threads.mainThread,
        s.threads.readyList, s.threads.allList⟩)
      (waiters : after.waiters = s.waiters)
      (pc : after.pc = Function.update (Function.update s.pc c .embryo) s.threads.current
        (.startFind c))
  | found (c : T) (was : s.pc s.threads.current = .startFind c)
      (absent : c ∉ s.threads.readyList) (threads : after.threads = s.threads)
      (waiters : after.waiters = s.waiters)
      (pc : after.pc = Function.update s.pc s.threads.current (.startAppend c))
  | enqueue (c : T) (was : s.pc s.threads.current = .startAppend c)
      (threads : after.threads = ⟨s.threads.current, s.threads.task, s.threads.mainThread,
        listAppend s.threads.readyList c, s.threads.allList⟩)
      (waiters : after.waiters = s.waiters)
      (pc : after.pc = Function.update (Function.update s.pc c .run) s.threads.current
        (.startFindAll c))
  | foundAll (c : T) (was : s.pc s.threads.current = .startFindAll c)
      (absent : c ∉ s.threads.allList)
      (threads : after.threads = s.threads) (waiters : after.waiters = s.waiters)
      (pc : after.pc = Function.update s.pc s.threads.current (.startAppendAll c))
  | announce (c : T) (was : s.pc s.threads.current = .startAppendAll c)
      (threads : after.threads = ⟨s.threads.current, s.threads.task, s.threads.mainThread,
        s.threads.readyList, listAppend s.threads.allList c⟩)
      (waiters : after.waiters = s.waiters)
      (pc : after.pc = Function.update s.pc s.threads.current .run)
  | execute (c : T) (pgdir : U32) (fresh : s.pc c = .unborn)
      (was : s.pc s.threads.current = .run)
      (absent : c ∉ s.threads.readyList) (new : c ∉ s.threads.allList)
      (threads : after.threads = ⟨s.threads.current, Function.update s.threads.task c
          { initThread s.threads c 31 with pgdir := pgdir }, s.threads.mainThread,
        listAppend s.threads.readyList c, listAppend s.threads.allList c⟩)
      (waiters : after.waiters = s.waiters)
      (pc : after.pc = Function.update s.pc c .run)

omit [DecidableEq T] in
theorem waiters_setLock (s : Kernel T L) (l : L) (plock : Lock T) :
    (s.setLock l plock).waiters = Function.update s.waiters l plock.semaphore.waiters := by
  funext m
  by_cases same : m = l
  · subst m; simp [waiters, setLock]
  · simp [waiters, setLock, same]

omit [DecidableEq T] in
theorem waiters_setLock_same {s : Kernel T L} {l : L} {plock : Lock T}
    (same : plock.semaphore.waiters = s.waiters l) : (s.setLock l plock).waiters = s.waiters := by
  rw [waiters_setLock, same, Function.update_eq_self]

omit [DecidableEq L] in
theorem FellAsleep.of_threadBlock {wanted : Option T} {status : TaskStatus}
    (blocked : threadBlock wanted status s.threads = .ok after.threads) :
    FellAsleep s after status := by
  obtain ⟨asleep, perm, statuses, same⟩ := threadBlock_cases blocked
  exact ⟨asleep, perm, statuses, same⟩

omit [DecidableEq L] in
theorem Woken.of_threadUnblock {woken : T}
    (unblocked : threadUnblock woken s.threads = .ok after.threads) : Woken s after woken := by
  obtain ⟨asleep, absent, threads⟩ := threadUnblock_cases unblocked
  have same := SameProcesses.setTask s.threads woken
    { s.threads.task woken with status := .ready } rfl rfl
  refine ⟨asleep, absent, by rw [threads]; rfl, by rw [threads], ?_, ?_⟩
  · intro t
    by_cases eq : t = woken <;> simp [Kernel.status, threads, eq]
  · rw [threads]
    exact ⟨same.pgdir, same.stackMagic, rfl, rfl⟩

theorem dowm_effect {l : L} {wanted : Option T}
    (at_ : s.pc s.threads.current = .acquireDowm l ∨ s.pc s.threads.current = .dowmBlocked l)
    (act : a = .statement wanted) (stepped : s.dowm l wanted = .ok after) : Effect s a after := by
  have preparing : (s.pc s.threads.current).preparing = none := by
    rcases at_ with h | h <;> rw [h] <;> rfl
  have announcing : (s.pc s.threads.current).announcing = none := by
    rcases at_ with h | h <;> rw [h] <;> rfl
  unfold dowm at stepped
  dsimp only at stepped
  split at stepped
  · contradiction
  · rename_i sema taken
    cases stepped
    rcases semaDowm_cases taken with ⟨_, _, no, _⟩ | ⟨_, _, sema_eq⟩
    · contradiction
    · refine .quiet (.acquireHolder l) ⟨trivial, rfl, rfl, by simp⟩ ⟨preparing, announcing, rfl⟩ rfl ?_
      exact waiters_setLock_same (by rw [sema_eq]; rfl)
  · rename_i sema taken
    rcases semaDowm_cases taken with ⟨empty, absent, _, sema_eq⟩ | ⟨_, no, _⟩
    · cases blocked : threadBlock wanted .blocked s.threads with
      | error fault => simp [blocked, Except.map] at stepped
      | ok threads =>
        simp only [blocked, Except.map, Except.ok.injEq] at stepped
        subst after
        refine .park l (by rw [act]; exact ⟨l, at_, empty⟩) absent (.of_threadBlock blocked)
            ⟨preparing, announcing, rfl⟩ ?_
        exact (waiters_setLock s l _).trans (by rw [sema_eq]; rfl)
    · contradiction

theorem up_effect {l : L} (at_ : s.pc s.threads.current = .releaseUp l) {middle : Kernel T L}
    (stepped : s.up l = .ok middle) : Effect s a (middle.released l) := by
  unfold up at stepped
  dsimp only at stepped
  split at stepped
  · contradiction
  · rename_i sema raised
    cases stepped
    obtain ⟨_, _, popped⟩ := semaUp_cases raised
    refine .quiet .run ⟨trivial, rfl, rfl, by simp⟩ ⟨by rw [at_]; rfl, by rw [at_]; rfl, rfl⟩ rfl ?_
    refine waiters_setLock_same ?_
    rcases popWaiter_cases (s.lock l).semaphore.waiters with ⟨empty, answer⟩ | ⟨b, r, _, answer⟩
    · rw [answer] at popped
      exact (Prod.mk.inj popped).2.trans empty.symm
    · rw [answer] at popped
      cases popped
  · rename_i sema woken raised
    obtain ⟨_, _, popped⟩ := semaUp_cases raised
    cases unblocked : threadUnblock woken s.threads with
    | error fault => simp [unblocked, Except.map] at stepped
    | ok threads =>
      simp only [unblocked, Except.map, Except.ok.injEq] at stepped
      subst middle
      rcases popWaiter_cases (s.lock l).semaphore.waiters with ⟨_, answer⟩ | ⟨b, r, queue, answer⟩
      · rw [answer] at popped
        cases popped
      · rw [answer] at popped
        obtain ⟨rfl, rfl⟩ : woken = b ∧ sema.waiters = r := by simpa using popped
        have waiters (m : L) := congrFun (waiters_setLock s l { s.lock l with semaphore := sema }) m
        have roused : Woken s (((s.setLock l
          { s.lock l with semaphore := sema }).setThreads threads).released l) woken :=
          .of_threadUnblock unblocked
        refine .wake l woken ?_ ?_ roused ⟨by rw [at_]; rfl, by rw [at_]; rfl, ?_⟩
        · have now := waiters l
          rw [Function.update_self] at now
          exact queue.trans (congrArg (woken :: ·) now.symm)
        · intro m other
          have now := waiters m
          rw [Function.update_of_ne other] at now
          exact now
        · exact congrArg (Function.update s.pc · .run) roused.current

theorem statement_effect {wanted : Option T} (stepped : s.statement wanted = some (.ok after)) :
    Effect s (.statement wanted) after := by
  have quiet (pc : Pc T L) (plain : pc.Plain) (preparing : (s.pc s.threads.current).preparing = none)
      (announcing : (s.pc s.threads.current).announcing = none) (threads : after.threads = s.threads)
      (waiters : after.waiters = s.waiters)
      (moved : after.pc = Function.update s.pc s.threads.current pc) :
      Effect s (.statement wanted) after :=
    .quiet pc plain ⟨preparing, announcing, moved⟩ threads waiters
  have plain {pc : Pc T L} (started : pc.Started) (preparing : pc.preparing = none)
      (announcing : pc.announcing = none) (notParked : ∀ l, pc ≠ .dowmBlocked l) : pc.Plain :=
    ⟨started, preparing, announcing, notParked⟩
  cases here : s.pc s.threads.current with
  | run | unborn | embryo => simp [statement, here] at stepped
  | acquireTest l =>
    simp only [statement, here, Option.some.injEq, Except.ok.injEq] at stepped
    subst after
    refine quiet _ ?_ (by rw [here]; rfl) (by rw [here]; rfl) rfl rfl rfl
    split <;> exact plain trivial rfl rfl (by simp)
  | acquireDowm l =>
    simp only [statement, here, Option.some.injEq] at stepped
    exact dowm_effect (.inl here) rfl stepped
  | dowmBlocked l =>
    simp only [statement, here, Option.some.injEq] at stepped
    exact dowm_effect (.inr here) rfl stepped
  | releaseUp l =>
    simp only [statement, here, Option.some.injEq] at stepped
    cases raised : s.up l with
    | error fault => simp [raised, Except.map] at stepped
    | ok middle =>
      simp only [raised, Except.map, Except.ok.injEq] at stepped
      subst after
      exact up_effect here raised
  | acquireHolder l | acquireRepeat l | acquireNest l | releaseNest l | releaseHolder l
  | releaseRepeat l =>
    simp only [statement, here, Option.some.injEq, Except.ok.injEq] at stepped
    subst after
    refine quiet _ ?_ (by rw [here]; rfl) (by rw [here]; rfl) rfl (waiters_setLock_same rfl) rfl
    exact plain trivial rfl rfl (by simp)
  | acquireAssert l | releaseAssert l | releaseOnce l =>
    simp only [statement, here, Option.some.injEq] at stepped
    split at stepped
    · cases stepped
      refine quiet _ ?_ (by rw [here]; rfl) (by rw [here]; rfl) rfl rfl rfl
      exact plain trivial rfl rfl (by simp)
    · contradiction
  | releaseTest l =>
    simp only [statement, here, Option.some.injEq, Except.ok.injEq] at stepped
    subst after
    refine quiet _ ?_ (by rw [here]; rfl) (by rw [here]; rfl) rfl rfl rfl
    split <;> exact plain trivial rfl rfl (by simp)
  | blocked =>
    simp only [statement, here, Option.some.injEq, Except.ok.injEq] at stepped
    subst after
    exact quiet .run (plain trivial rfl rfl (by simp)) (by rw [here]; rfl) (by rw [here]; rfl) rfl
      rfl rfl
  | startFind c =>
    simp only [statement, here, Option.some.injEq] at stepped
    split at stepped
    · contradiction
    · rename_i absent
      cases stepped
      exact .found c here (by simpa using absent) rfl rfl rfl
  | startAppend c =>
    simp only [statement, here, Option.some.injEq, Except.ok.injEq] at stepped
    subst after
    exact .enqueue c here rfl rfl rfl
  | startFindAll c =>
    simp only [statement, here, Option.some.injEq] at stepped
    split at stepped
    · contradiction
    · rename_i absent
      cases stepped
      exact .foundAll c here (by simpa using absent) rfl rfl rfl
  | startAppendAll c =>
    simp only [statement, here, Option.some.injEq, Except.ok.injEq] at stepped
    subst after
    exact .announce c here rfl rfl rfl

theorem step_effect (stepped : s.step a = some (.ok after)) : Effect s a after := by
  cases a with
  | statement wanted => exact statement_effect stepped
  | clock wanted =>
    simp only [step] at stepped
    split at stepped
    · simp only [Option.some.injEq] at stepped
      cases ticked : clockInterruptHandler wanted s.threads with
      | error fault => simp [ticked, Except.map] at stepped
      | ok threads =>
        simp only [ticked, Except.map, Except.ok.injEq] at stepped
        subst after
        unfold clockInterruptHandler at ticked
        dsimp only at ticked
        split at ticked
        · split at ticked
          · exact .preempt (schedule_cases ticked) rfl rfl
          · cases ticked
            refine .tick rfl rfl ?_ (.setTask _ _ _ rfl rfl) rfl rfl
            funext t
            by_cases same : t = s.threads.current <;> simp [Kernel.status, setThreads, same]
        · contradiction
    · contradiction
  | lockAcquire l | lockRelease l =>
    simp only [step] at stepped
    split at stepped
    · rename_i here
      cases stepped
      refine .quiet _ ?_ ⟨by rw [here]; rfl, by rw [here]; rfl, rfl⟩ rfl rfl
      exact ⟨trivial, rfl, rfl, by simp⟩
    · contradiction
  | threadBlock status wanted =>
    simp only [step] at stepped
    split at stepped
    · rename_i here
      simp only [Option.some.injEq] at stepped
      cases blocked : threadBlock wanted status s.threads with
      | error fault => simp [blocked, Except.map] at stepped
      | ok threads =>
        simp only [blocked, Except.map, Except.ok.injEq] at stepped
        subst after
        exact .sleep status trivial (.of_threadBlock blocked) ⟨by rw [here]; rfl, by rw [here]; rfl, rfl⟩ rfl
    · contradiction
  | threadUnblock pthread =>
    simp only [step] at stepped
    split at stepped
    · rename_i here
      simp only [Option.some.injEq] at stepped
      cases woken : threadUnblock pthread s.threads with
      | error fault => simp [woken, Except.map] at stepped
      | ok threads =>
        simp only [woken, Except.map, Except.ok.injEq] at stepped
        subst after
        exact .unblock pthread rfl (.of_threadUnblock woken) rfl rfl
    · contradiction
  | threadStart c prio =>
    simp only [step] at stepped
    split at stepped
    · rename_i here
      cases stepped
      exact .create c prio here.2 here.1 rfl rfl rfl
    · contradiction
  | processExecute c pgdir =>
    simp only [step] at stepped
    split at stepped
    · rename_i here
      simp only [Option.some.injEq, executeProcess] at stepped
      split at stepped
      · contradiction
      · rename_i absent
        split at stepped
        · contradiction
        · rename_i new
          cases stepped
          exact .execute c pgdir here.2 here.1 (by simpa using absent) (by simpa using new) rfl rfl rfl
    · contradiction
  | work =>
    simp only [step] at stepped
    split at stepped
    · rename_i here
      cases stepped
      exact .tick rfl rfl rfl ⟨fun _ => rfl, fun _ => rfl, rfl, rfl⟩ rfl rfl
    · contradiction

/-- Where the threads are: the status of a thread, the list its tag is in and the code it stands
    in agree. -/
structure Scheduled (s : Kernel T L) : Prop where
  currentStarted : (s.pc s.threads.current).Started
  currentRunning : s.status s.threads.current = .running
  onlyRunning : ∀ t, (s.pc t).Started → s.status t = .running → t = s.threads.current
  readyNodup : s.threads.readyList.Nodup
  ready : ∀ t, t ∈ s.threads.readyList ↔ (s.pc t).Started ∧ s.status t = .ready
  waitersNodup : ∀ l, (s.waiters l).Nodup
  waiting : ∀ t l, t ∈ s.waiters l → s.pc t = .dowmBlocked l ∧ s.status t = .blocked
  parked : ∀ t l, s.pc t = .dowmBlocked l → (s.status t).asleep = true → t ∈ s.waiters l

/-- Where the threads under construction are. -/
structure Created (s : Kernel T L) : Prop where
  main : (s.pc s.threads.mainThread).Started
  embryo : ∀ c, s.pc c = .embryo → s.status c = .ready
  preparing : ∀ t c, (s.pc t).preparing = some c → s.pc c = .embryo
  announcing : ∀ t c, (s.pc t).announcing = some c →
    (s.pc c).Started ∧ ∀ u, (s.pc u).announcing = some c → u = t
  preparingOnce : ∀ t u c, (s.pc t).preparing = some c → (s.pc u).preparing = some c → t = u
  unlisted : ∀ t c, s.pc t = .startFindAll c ∨ s.pc t = .startAppendAll c → c ∉ s.threads.allList
  listed : ∀ c ∈ s.threads.allList, (s.pc c).Started
  magic : ∀ t, s.pc t ≠ .unborn → (s.threads.task t).stackMagic = 0x19870916

omit [DecidableEq L] in
/-- The current thread goes from one place to another and nothing else changes. -/
theorem scheduled_moved {pc : Pc T L} (scheduled : Scheduled s) (started : pc.Started)
    (notParked : ∀ l, pc ≠ .dowmBlocked l)
    (pcs : after.pc = Function.update s.pc s.threads.current pc)
    (ready : after.threads.readyList = s.threads.readyList)
    (current : after.threads.current = s.threads.current) (status : after.status = s.status)
    (waiters : after.waiters = s.waiters) : Scheduled after := by
  have here : after.pc s.threads.current = pc := by rw [pcs, Function.update_self]
  have there (t : T) (other : t ≠ s.threads.current) : after.pc t = s.pc t := by
    rw [pcs, Function.update_of_ne other]
  have same (t : T) : (after.pc t).Started ↔ (s.pc t).Started := by
    by_cases moved : t = s.threads.current
    · subst t
      rw [here]
      exact iff_of_true started scheduled.currentStarted
    · rw [there t moved]
  constructor
  · rw [current, here]
    exact started
  · rw [current, status]
    exact scheduled.currentRunning
  · intro t isStarted running
    rw [current]
    rw [status] at running
    exact scheduled.onlyRunning t ((same t).mp isStarted) running
  · rw [ready]
    exact scheduled.readyNodup
  · intro t
    rw [ready, same, status]
    exact scheduled.ready t
  · rw [waiters]
    exact scheduled.waitersNodup
  · intro t l waits
    rw [waiters] at waits
    obtain ⟨parked, blocked⟩ := scheduled.waiting t l waits
    have other : t ≠ s.threads.current := by
      rintro rfl
      rw [scheduled.currentRunning] at blocked
      contradiction
    rw [there t other, status]
    exact ⟨parked, blocked⟩
  · intro t l parked asleep
    have other : t ≠ s.threads.current := by
      rintro rfl
      exact notParked l (here.symm.trans parked)
    rw [there t other] at parked
    rw [status] at asleep
    rw [waiters]
    exact scheduled.parked t l parked asleep

omit [DecidableEq L] in
theorem scheduled_preempt (scheduled : Scheduled s) (switched : Switched s.threads after.threads)
    (waiters : after.waiters = s.waiters) (pcs : after.pc = s.pc) : Scheduled after := by
  obtain ⟨listed, status, same⟩ := switched
  rcases listed with ⟨-, absent, perm⟩ | ⟨notRunning, -⟩
  · have queued : (listAppend s.threads.readyList s.threads.current).Nodup := by
      simpa [listAppend, List.nodup_append] using ⟨scheduled.readyNodup, fun t member eq =>
        absent (eq ▸ member)⟩
    obtain ⟨rest, taken, restNodup⟩ := taken_off perm queued
    simp only [listAppend, List.mem_append, List.mem_singleton] at rest taken
    have statuses (t : T) : after.status t = if t = after.threads.current then .running
        else if t = s.threads.current then .ready else s.status t := by
      have now := status t
      simp only [show (s.threads.task s.threads.current).status = .running from
        scheduled.currentRunning, and_true] at now
      exact now
    have nextStarted : (s.pc after.threads.current).Started :=
      taken.elim (fun ready => ((scheduled.ready _).mp ready).1)
        (fun eq => eq ▸ scheduled.currentStarted)
    constructor
    · rw [pcs]
      exact nextStarted
    · rw [statuses, if_pos rfl]
    · intro t started running
      by_contra other
      rw [pcs] at started
      rw [statuses, if_neg other] at running
      split at running
      · contradiction
      · rename_i notCurrent
        exact notCurrent (scheduled.onlyRunning t started running)
    · exact restNodup
    · intro t
      rw [rest, pcs, statuses, scheduled.ready]
      have started := scheduled.currentStarted
      by_cases next : t = after.threads.current
      · simp [next]
      · by_cases cur : t = s.threads.current
        · simp [cur, started]
        · simp [next, cur]
    · rw [waiters]
      exact scheduled.waitersNodup
    · intro t l waits
      rw [waiters] at waits
      obtain ⟨parked, blocked⟩ := scheduled.waiting t l waits
      have notCurrent : t ≠ s.threads.current := by
        rintro rfl
        rw [scheduled.currentRunning] at blocked
        contradiction
      have notNext : t ≠ after.threads.current := by
        rintro rfl
        rcases taken with ready | eq
        · rw [((scheduled.ready _).mp ready).2] at blocked
          contradiction
        · exact notCurrent eq
      rw [pcs, statuses, if_neg notNext, if_neg notCurrent]
      exact ⟨parked, blocked⟩
    · intro t l parked asleep
      rw [pcs] at parked
      rw [waiters]
      rw [statuses] at asleep
      split at asleep
      · contradiction
      · split at asleep
        · contradiction
        · exact scheduled.parked t l parked asleep
  · exact absurd scheduled.currentRunning notRunning

omit [DecidableEq L] in
/-- What going to sleep does to the ready list and to the statuses of the others. -/
theorem scheduled_asleep {pc : Pc T L} {status : TaskStatus} (scheduled : Scheduled s)
    (slept : FellAsleep s after status) (started : pc.Started)
    (pcs : after.pc = Function.update s.pc s.threads.current pc)
    (waitersNodup : ∀ l, (after.waiters l).Nodup)
    (queued : ∀ t l, t ∈ after.waiters l ↔
      t ∈ s.waiters l ∨ (t = s.threads.current ∧ pc = .dowmBlocked l))
    (blocked : ∀ l, pc = .dowmBlocked l → status = .blocked) : Scheduled after := by
  obtain ⟨isAsleep, perm, statuses, same⟩ := slept
  obtain ⟨rest, taken, restNodup⟩ := taken_off perm scheduled.readyNodup
  obtain ⟨nextStarted, nextReady⟩ := (scheduled.ready _).mp taken
  have changed : after.threads.current ≠ s.threads.current := by
    intro eq
    rw [eq, scheduled.currentRunning] at nextReady
    contradiction
  have here : after.pc s.threads.current = pc := by rw [pcs, Function.update_self]
  have there (t : T) (other : t ≠ s.threads.current) : after.pc t = s.pc t := by
    rw [pcs, Function.update_of_ne other]
  have startedIff (t : T) : (after.pc t).Started ↔ (s.pc t).Started := by
    by_cases moved : t = s.threads.current
    · subst t
      rw [here]
      exact iff_of_true started scheduled.currentStarted
    · rw [there t moved]
  have notRunning : status ≠ .running := by rintro rfl; simp [TaskStatus.asleep] at isAsleep
  have notReady : status ≠ .ready := by rintro rfl; simp [TaskStatus.asleep] at isAsleep
  constructor
  · rw [there _ changed]
    exact nextStarted
  · rw [statuses, if_pos rfl]
  · intro t isStarted running
    by_contra other
    rw [statuses, if_neg other] at running
    split at running
    · exact notRunning running
    · rename_i notCurrent
      exact notCurrent (scheduled.onlyRunning t ((startedIff t).mp isStarted) running)
  · exact restNodup
  · intro t
    rw [rest, startedIff, statuses, scheduled.ready]
    by_cases next : t = after.threads.current
    · simp [next]
    · by_cases cur : t = s.threads.current
      · have running : s.status s.threads.current = .running := scheduled.currentRunning
        simp [cur, running, changed.symm, notReady]
      · simp [next, cur]
  · exact waitersNodup
  · intro t l waits
    rcases (queued t l).mp waits with before | ⟨rfl, parks⟩
    · obtain ⟨parked, wasBlocked⟩ := scheduled.waiting t l before
      have notCurrent : t ≠ s.threads.current := by
        rintro rfl
        rw [scheduled.currentRunning] at wasBlocked
        contradiction
      have notNext : t ≠ after.threads.current := by
        rintro rfl
        rw [nextReady] at wasBlocked
        contradiction
      rw [there t notCurrent, statuses, if_neg notNext, if_neg notCurrent]
      exact ⟨parked, wasBlocked⟩
    · rw [here, statuses, if_neg changed.symm, if_pos rfl]
      exact ⟨parks, blocked l parks⟩
  · intro t l parked asleep
    by_cases moved : t = s.threads.current
    · subst t
      rw [here] at parked
      exact (queued _ l).mpr (.inr ⟨rfl, parked⟩)
    · rw [there t moved] at parked
      rw [statuses, if_neg moved] at asleep
      split at asleep
      · contradiction
      · exact (queued t l).mpr (.inl (scheduled.parked t l parked asleep))

omit [DecidableEq L] in
/-- A thread that sleeps outside the queues that are left wakes up. -/
theorem scheduled_woken {woken : T} (scheduled : Scheduled s) (roused : Woken s after woken)
    (isStarted : (s.pc woken).Started)
    (pcs : ∀ t, t ≠ s.threads.current → after.pc t = s.pc t)
    (started : (after.pc s.threads.current).Started)
    (notParked : ∀ l, after.pc s.threads.current = .dowmBlocked l →
      s.pc s.threads.current = .dowmBlocked l)
    (waitersNodup : ∀ l, (after.waiters l).Nodup)
    (queued : ∀ t l, t ∈ after.waiters l ↔ t ∈ s.waiters l ∧ t ≠ woken) : Scheduled after := by
  obtain ⟨asleep, absent, current, ready, statuses, same⟩ := roused
  have notCurrent : woken ≠ s.threads.current := by
    rintro rfl
    rw [scheduled.currentRunning] at asleep
    contradiction
  have startedIff (t : T) : (after.pc t).Started ↔ (s.pc t).Started := by
    by_cases moved : t = s.threads.current
    · subst t
      exact iff_of_true started scheduled.currentStarted
    · rw [pcs t moved]
  constructor
  · rw [current]
    exact started
  · rw [current, statuses, if_neg notCurrent.symm]
    exact scheduled.currentRunning
  · intro t started running
    rw [statuses] at running
    split at running
    · contradiction
    · rw [current]
      exact scheduled.onlyRunning t ((startedIff t).mp started) running
  · rw [ready]
    exact List.nodup_cons.mpr ⟨absent, scheduled.readyNodup⟩
  · intro t
    rw [ready, listPush, List.mem_cons, startedIff, statuses, scheduled.ready]
    by_cases same : t = woken
    · simp [same, isStarted]
    · simp [same]
  · exact waitersNodup
  · intro t l waits
    obtain ⟨before, other⟩ := (queued t l).mp waits
    obtain ⟨parked, blocked⟩ := scheduled.waiting t l before
    have notCurrent : t ≠ s.threads.current := by
      rintro rfl
      rw [scheduled.currentRunning] at blocked
      contradiction
    rw [pcs t notCurrent, statuses, if_neg other]
    exact ⟨parked, blocked⟩
  · intro t l parked stillAsleep
    rw [statuses] at stillAsleep
    split at stillAsleep
    · contradiction
    · rename_i other
      refine (queued t l).mpr ⟨scheduled.parked t l ?_ stillAsleep, other⟩
      by_cases moved : t = s.threads.current
      · subst t
        exact notParked l parked
      · rw [← pcs t moved]
        exact parked

omit [DecidableEq T] [DecidableEq L] in
/-- A thread under construction or not yet made is in no list. -/
theorem Scheduled.unlisted (scheduled : Scheduled s) {c : T} (young : ¬ (s.pc c).Started) :
    c ∉ s.threads.readyList ∧ (∀ l, c ∉ s.waiters l) ∧ c ≠ s.threads.current := by
  refine ⟨fun ready => young ((scheduled.ready c).mp ready).1, fun l waits => young ?_, ?_⟩
  · rw [(scheduled.waiting c l waits).1]
    exact True.intro
  · rintro rfl
    exact young scheduled.currentStarted

omit [DecidableEq L] in
/-- A new thread enters the ready list. -/
theorem scheduled_born {c : T} (scheduled : Scheduled s) (young : ¬ (s.pc c).Started)
    (current : after.threads.current = s.threads.current)
    (ready : after.threads.readyList = listAppend s.threads.readyList c)
    (status : ∀ t, after.status t = if t = c then .ready else s.status t)
    (waiters : after.waiters = s.waiters) (born : after.pc c = .run)
    (started : (after.pc s.threads.current).Started)
    (notParked : ∀ l, after.pc s.threads.current ≠ .dowmBlocked l)
    (pcs : ∀ t, t ≠ s.threads.current → t ≠ c → after.pc t = s.pc t) : Scheduled after := by
  obtain ⟨notReady, notWaiting, notCurrent⟩ := scheduled.unlisted young
  have startedIff (t : T) (other : t ≠ c) : (after.pc t).Started ↔ (s.pc t).Started := by
    by_cases moved : t = s.threads.current
    · subst t
      exact iff_of_true started scheduled.currentStarted
    · rw [pcs t moved other]
  constructor
  · rw [current]
    exact started
  · rw [current, status, if_neg notCurrent.symm]
    exact scheduled.currentRunning
  · intro t isStarted running
    rw [status] at running
    split at running
    · contradiction
    · rename_i other
      rw [current]
      exact scheduled.onlyRunning t ((startedIff t other).mp isStarted) running
  · rw [ready]
    simpa [listAppend, List.nodup_append] using ⟨scheduled.readyNodup, fun t member eq =>
      notReady (eq ▸ member)⟩
  · intro t
    rw [ready, listAppend, List.mem_append, List.mem_singleton, status, scheduled.ready]
    by_cases same : t = c
    · simp [same, born, Pc.Started]
    · simp [same, startedIff t same]
  · rw [waiters]
    exact scheduled.waitersNodup
  · intro t l waits
    rw [waiters] at waits
    obtain ⟨parked, blocked⟩ := scheduled.waiting t l waits
    have other : t ≠ c := by
      rintro rfl
      exact notWaiting l waits
    have notCur : t ≠ s.threads.current := by
      rintro rfl
      rw [scheduled.currentRunning] at blocked
      contradiction
    rw [pcs t notCur other, status, if_neg other]
    exact ⟨parked, blocked⟩
  · intro t l parked asleep
    rw [status] at asleep
    split at asleep
    · contradiction
    · rename_i other
      have notCur : t ≠ s.threads.current := by
        rintro rfl
        exact notParked l parked
      rw [pcs t notCur other] at parked
      rw [waiters]
      exact scheduled.parked t l parked asleep

omit [DecidableEq L] in
/-- A PCB is initialised that no list names yet. -/
theorem scheduled_created {c : T} (scheduled : Scheduled s) (young : ¬ (s.pc c).Started)
    (current : after.threads.current = s.threads.current)
    (ready : after.threads.readyList = s.threads.readyList)
    (status : ∀ t, t ≠ c → after.status t = s.status t)
    (waiters : after.waiters = s.waiters) (embryo : after.pc c = .embryo)
    (started : (after.pc s.threads.current).Started)
    (notParked : ∀ l, after.pc s.threads.current ≠ .dowmBlocked l)
    (pcs : ∀ t, t ≠ s.threads.current → t ≠ c → after.pc t = s.pc t) : Scheduled after := by
  obtain ⟨notReady, notWaiting, notCurrent⟩ := scheduled.unlisted young
  have startedIff (t : T) (other : t ≠ c) : (after.pc t).Started ↔ (s.pc t).Started := by
    by_cases moved : t = s.threads.current
    · subst t
      exact iff_of_true started scheduled.currentStarted
    · rw [pcs t moved other]
  have stillYoung : ¬ (after.pc c).Started := by
    rw [embryo]
    exact id
  constructor
  · rw [current]
    exact started
  · rw [current, status _ notCurrent.symm]
    exact scheduled.currentRunning
  · intro t isStarted running
    have other : t ≠ c := fun eq => stillYoung (eq ▸ isStarted)
    rw [status t other] at running
    rw [current]
    exact scheduled.onlyRunning t ((startedIff t other).mp isStarted) running
  · rw [ready]
    exact scheduled.readyNodup
  · intro t
    rw [ready]
    by_cases same : t = c
    · subst t
      simp [notReady, stillYoung]
    · rw [startedIff t same, status t same]
      exact scheduled.ready t
  · rw [waiters]
    exact scheduled.waitersNodup
  · intro t l waits
    rw [waiters] at waits
    obtain ⟨parked, blocked⟩ := scheduled.waiting t l waits
    have other : t ≠ c := by
      rintro rfl
      exact notWaiting l waits
    have notCur : t ≠ s.threads.current := by
      rintro rfl
      rw [scheduled.currentRunning] at blocked
      contradiction
    rw [pcs t notCur other, status t other]
    exact ⟨parked, blocked⟩
  · intro t l parked asleep
    have other : t ≠ c := by
      rintro rfl
      rw [embryo] at parked
      contradiction
    have notCur : t ≠ s.threads.current := by
      rintro rfl
      exact notParked l parked
    rw [pcs t notCur other] at parked
    rw [status t other] at asleep
    rw [waiters]
    exact scheduled.parked t l parked asleep

theorem scheduled_preserved (scheduled : Scheduled s) (created : Created s)
    (proper : s.ProperUnblock a) (effect : Effect s a after) : Scheduled after := by
  cases effect with
  | quiet pc plain moved threads waiters =>
    have status : after.status = s.status := by funext t; simp [Kernel.status, threads]
    exact scheduled_moved scheduled plain.started plain.notParked moved.pc (by rw [threads])
      (by rw [threads]) status waiters
  | tick readyEq current status same waiters pcs =>
    obtain ⟨started, running, only, nodup, ready, waitersNodup, waiting, parked⟩ := scheduled
    constructor <;> simp only [readyEq, current, waiters, pcs, status] <;> assumption
  | preempt switched waiters pcs => exact scheduled_preempt scheduled switched waiters pcs
  | park l blocks absent slept moved waiters =>
    refine scheduled_asleep scheduled slept (by exact True.intro) moved.pc ?_ ?_ (fun _ _ => rfl)
    · intro m
      rw [waiters]
      by_cases same : m = l
      · subst m
        rw [Function.update_self]
        simpa [listAppend, List.nodup_append] using ⟨scheduled.waitersNodup l, fun t member eq =>
          absent (eq ▸ member)⟩
      · rw [Function.update_of_ne same]
        exact scheduled.waitersNodup m
    · intro t m
      rw [waiters]
      by_cases same : m = l
      · subst m
        simp [listAppend]
      · simp [same, Ne.symm same]
  | sleep status blocks slept moved waiters =>
    refine scheduled_asleep scheduled slept (by exact True.intro) moved.pc ?_ ?_ (fun _ parks => ?_)
    · rw [waiters]
      exact scheduled.waitersNodup
    · intro t m
      rw [waiters]
      simp
    · contradiction
  | wake l woken queue others roused moved =>
    have queueNodup := scheduled.waitersNodup l
    rw [queue] at queueNodup
    obtain ⟨gone, restNodup⟩ := List.nodup_cons.mp queueNodup
    have parked := (scheduled.waiting woken l (by rw [queue]; exact List.mem_cons_self)).1
    refine scheduled_woken scheduled roused (by rw [parked]; exact True.intro) ?_ ?_ ?_ ?_ ?_
    · intro t other
      rw [moved.pc, Function.update_of_ne other]
    · rw [moved.pc, Function.update_self]
      exact True.intro
    · intro m parks
      rw [moved.pc, Function.update_self] at parks
      contradiction
    · intro m
      by_cases same : m = l
      · exact same ▸ restNodup
      · rw [others m same]
        exact scheduled.waitersNodup m
    · intro t m
      by_cases same : m = l
      · subst m
        rw [queue, List.mem_cons]
        constructor
        · intro stays
          exact ⟨.inr stays, fun eq => gone (eq ▸ stays)⟩
        · rintro ⟨rfl | stays, other⟩
          · exact absurd rfl other
          · exact stays
      · rw [others m same]
        refine ⟨fun waits => ⟨waits, ?_⟩, fun waits => waits.1⟩
        rintro rfl
        have here := (scheduled.waiting t m waits).1
        rw [parked] at here
        injection here with eq
        exact same eq.symm
  | unblock woken act roused waiters pcs =>
    subst act
    obtain ⟨isStarted, -, outside⟩ := proper
    refine scheduled_woken scheduled roused isStarted (fun t _ => by rw [pcs]) ?_ ?_ ?_ ?_
    · rw [pcs]
      exact scheduled.currentStarted
    · intro l parks
      rwa [pcs] at parks
    · rw [waiters]
      exact scheduled.waitersNodup
    · intro t l
      rw [waiters]
      refine ⟨fun waits => ⟨waits, ?_⟩, fun waits => waits.1⟩
      rintro rfl
      exact outside l waits
  | create c prio fresh was threads waiters pcs =>
    have young : ¬ (s.pc c).Started := by
      rw [fresh]
      exact id
    have notCurrent := (scheduled.unlisted young).2.2
    have here : after.pc s.threads.current = .startFind c := by rw [pcs, Function.update_self]
    refine scheduled_created scheduled young (by rw [threads]) (by rw [threads]) ?_ waiters ?_ ?_ ?_ ?_
    · intro t other
      simp [Kernel.status, threads, other]
    · rw [pcs, Function.update_of_ne notCurrent, Function.update_self]
    · rw [here]
      exact True.intro
    · intro l
      rw [here]
      simp
    · intro t notCur other
      rw [pcs, Function.update_of_ne notCur, Function.update_of_ne other]
  | found c was absent threads waiters pcs | foundAll c was absent threads waiters pcs =>
    have status : after.status = s.status := by funext t; simp [Kernel.status, threads]
    exact scheduled_moved scheduled (by exact True.intro) (by simp) pcs (by rw [threads])
      (by rw [threads]) status waiters
  | announce c was threads waiters pcs =>
    have status : after.status = s.status := by funext t; simp [Kernel.status, threads]
    exact scheduled_moved scheduled (by exact True.intro) (by simp) pcs (by rw [threads])
      (by rw [threads]) status waiters
  | enqueue c was threads waiters pcs =>
    have embryo := created.preparing s.threads.current c (by rw [was]; rfl)
    have young : ¬ (s.pc c).Started := by
      rw [embryo]
      exact id
    have notCurrent := (scheduled.unlisted young).2.2
    have here : after.pc s.threads.current = .startFindAll c := by rw [pcs, Function.update_self]
    refine scheduled_born scheduled young (by rw [threads]) (by rw [threads]) ?_ waiters ?_ ?_ ?_ ?_
    · intro t
      have same : after.status t = s.status t := by simp [Kernel.status, threads]
      rw [same]
      split
      · rename_i eq
        rw [eq, created.embryo c embryo]
      · rfl
    · rw [pcs, Function.update_of_ne notCurrent, Function.update_self]
    · rw [here]
      exact True.intro
    · intro l
      rw [here]
      simp
    · intro t notCur other
      rw [pcs, Function.update_of_ne notCur, Function.update_of_ne other]
  | execute c pgdir fresh was absent new threads waiters pcs =>
    have young : ¬ (s.pc c).Started := by
      rw [fresh]
      exact id
    have notMain : c ≠ s.threads.mainThread := fun eq => young (eq ▸ created.main)
    have notCurrent := (scheduled.unlisted young).2.2
    have here : after.pc s.threads.current = .run := by
      rw [pcs, Function.update_of_ne notCurrent.symm, was]
    refine scheduled_born scheduled young (by rw [threads]) (by rw [threads]) ?_ waiters ?_ ?_ ?_ ?_
    · intro t
      by_cases same : t = c
      · subst t
        simp [Kernel.status, threads, initThread, notMain]
      · simp [Kernel.status, threads, same]
    · rw [pcs, Function.update_self]
    · rw [here]
      exact True.intro
    · intro l
      rw [here]
      simp
    · intro t _ other
      rw [pcs, Function.update_of_ne other]

omit [DecidableEq L] in
/-- The current thread moves from one plain place to another. -/
theorem created_moved {pc : Pc T L} (created : Created s) (moved : Moved s after pc)
    (plain : pc.Started) (preparing : pc.preparing = none) (announcing : pc.announcing = none)
    (was : (s.pc s.threads.current).Started)
    (status : ∀ c, s.pc c = .embryo → after.status c = s.status c)
    (same : SameProcesses s.threads after.threads) : Created after := by
  obtain ⟨main, embryo, prepared, announced, once, unlisted, listed, magic⟩ := created
  obtain ⟨notPreparing, notAnnouncing, pcs⟩ := moved
  obtain ⟨-, stackMagic, all, mainThread⟩ := same
  have now (t : T) := congrFun pcs t
  constructor <;> grind [Pc.Started, Pc.announcing, Pc.preparing]

omit [DecidableEq T] [DecidableEq L] in
theorem created_still (created : Created s) (pcs : after.pc = s.pc)
    (status : ∀ c, s.pc c = .embryo → after.status c = s.status c)
    (same : SameProcesses s.threads after.threads) : Created after := by
  obtain ⟨main, embryo, prepared, announced, once, unlisted, listed, magic⟩ := created
  obtain ⟨-, stackMagic, all, mainThread⟩ := same
  constructor <;> simp only [pcs, all, mainThread, stackMagic] <;> grind

omit [DecidableEq L] in
theorem created_create {c : T} {prio : U32} (created : Created s) (fresh : s.pc c = .unborn)
    (was : s.pc s.threads.current = .run)
    (threads : after.threads = ⟨s.threads.current,
      Function.update s.threads.task c (initThread s.threads c prio), s.threads.mainThread,
      s.threads.readyList, s.threads.allList⟩)
    (pcs : after.pc = Function.update (Function.update s.pc c .embryo) s.threads.current
      (.startFind c)) : Created after := by
  obtain ⟨main, embryo, prepared, announced, once, unlisted, listed, magic⟩ := created
  have now (t : T) := congrFun pcs t
  have task (t : T) := congrFun (congrArg Threads.task threads) t
  have notMain : c ≠ s.threads.mainThread := by
    rintro rfl
    rw [fresh] at main
    exact main
  have all : after.threads.allList = s.threads.allList := by rw [threads]
  have mainThread : after.threads.mainThread = s.threads.mainThread := by rw [threads]
  constructor <;> grind [Pc.Started, Pc.announcing, Pc.preparing, initThread, Kernel.status]

omit [DecidableEq L] in
theorem created_found {c : T} (created : Created s) (was : s.pc s.threads.current = .startFind c)
    (threads : after.threads = s.threads)
    (pcs : after.pc = Function.update s.pc s.threads.current (.startAppend c)) :
    Created after := by
  obtain ⟨main, embryo, prepared, announced, once, unlisted, listed, magic⟩ := created
  have now (t : T) := congrFun pcs t
  have status (t : T) : after.status t = s.status t := by simp [Kernel.status, threads]
  constructor <;> grind [Pc.Started, Pc.announcing, Pc.preparing]

omit [DecidableEq L] in
theorem created_enqueue {c : T} (created : Created s)
    (was : s.pc s.threads.current = .startAppend c)
    (threads : after.threads = ⟨s.threads.current, s.threads.task, s.threads.mainThread,
      listAppend s.threads.readyList c, s.threads.allList⟩)
    (pcs : after.pc = Function.update (Function.update s.pc c .run) s.threads.current
      (.startFindAll c)) : Created after := by
  obtain ⟨main, embryo, prepared, announced, once, unlisted, listed, magic⟩ := created
  have now (t : T) := congrFun pcs t
  have status (t : T) : after.status t = s.status t := by simp [Kernel.status, threads]
  have task (t : T) : after.threads.task t = s.threads.task t := by rw [threads]
  constructor <;> grind [Pc.Started, Pc.announcing, Pc.preparing]

omit [DecidableEq L] in
theorem created_foundAll {c : T} (created : Created s)
    (was : s.pc s.threads.current = .startFindAll c) (absent : c ∉ s.threads.allList)
    (threads : after.threads = s.threads)
    (pcs : after.pc = Function.update s.pc s.threads.current (.startAppendAll c)) :
    Created after := by
  obtain ⟨main, embryo, prepared, announced, once, unlisted, listed, magic⟩ := created
  have now (t : T) := congrFun pcs t
  have new (d : T) (same : d = c) : d ∉ s.threads.allList := same ▸ absent
  have status (t : T) : after.status t = s.status t := by simp [Kernel.status, threads]
  constructor <;> grind [Pc.Started, Pc.announcing, Pc.preparing]

omit [DecidableEq L] in
theorem created_announce {c : T} (created : Created s)
    (was : s.pc s.threads.current = .startAppendAll c)
    (threads : after.threads = ⟨s.threads.current, s.threads.task, s.threads.mainThread,
      s.threads.readyList, listAppend s.threads.allList c⟩)
    (pcs : after.pc = Function.update s.pc s.threads.current .run) : Created after := by
  obtain ⟨main, embryo, prepared, announced, once, unlisted, listed, magic⟩ := created
  have now (t : T) := congrFun pcs t
  have status (t : T) : after.status t = s.status t := by simp [Kernel.status, threads]
  have task (t : T) : after.threads.task t = s.threads.task t := by rw [threads]
  constructor <;> grind [Pc.Started, Pc.announcing, Pc.preparing, listAppend]

omit [DecidableEq L] in
theorem created_execute {c : T} {pgdir : U32} (created : Created s) (fresh : s.pc c = .unborn)
    (threads : after.threads = ⟨s.threads.current, Function.update s.threads.task c
        { initThread s.threads c 31 with pgdir := pgdir }, s.threads.mainThread,
      listAppend s.threads.readyList c, listAppend s.threads.allList c⟩)
    (pcs : after.pc = Function.update s.pc c .run) : Created after := by
  obtain ⟨main, embryo, prepared, announced, once, unlisted, listed, magic⟩ := created
  have now (t : T) := congrFun pcs t
  have task (t : T) := congrFun (congrArg Threads.task threads) t
  have all : after.threads.allList = listAppend s.threads.allList c := by rw [threads]
  have mainThread : after.threads.mainThread = s.threads.mainThread := by rw [threads]
  constructor <;>
    grind [Pc.Started, Pc.announcing, Pc.preparing, initThread, Kernel.status, listAppend]

theorem created_preserved (scheduled : Scheduled s) (created : Created s)
    (proper : s.ProperUnblock a) (effect : Effect s a after) : Created after := by
  have started := scheduled.currentStarted
  have refl : SameProcesses s.threads s.threads := ⟨fun _ => rfl, fun _ => rfl, rfl, rfl⟩
  -- an embryo is neither the current thread nor in any list
  have notCurrent : ∀ c, s.pc c = .embryo → c ≠ s.threads.current := by
    rintro c isEmbryo rfl
    rw [isEmbryo] at started
    exact started
  have notReady : ∀ c, s.pc c = .embryo → c ∉ s.threads.readyList := by
    intro c isEmbryo member
    have := ((scheduled.ready c).mp member).1
    rw [isEmbryo] at this
    exact this
  have slept {status : TaskStatus} (slept : FellAsleep s after status) :
      ∀ c, s.pc c = .embryo → after.status c = s.status c := by
    intro c isEmbryo
    have dispatched := slept.perm.mem_iff.mpr (List.mem_cons_self (a := after.threads.current))
    have other : c ≠ after.threads.current := by
      rintro rfl
      exact notReady _ isEmbryo dispatched
    rw [slept.status c, if_neg other, if_neg (notCurrent c isEmbryo)]
  cases effect with
  | quiet pc plain moved threads waiters =>
    refine created_moved created moved plain.started plain.preparing plain.announcing started ?_ ?_
    · intro c _; simp [Kernel.status, threads]
    · rw [threads]; exact refl
  | tick readyEq current status same waiters pcs =>
    exact created_still created pcs (fun c _ => congrFun status c) same
  | preempt switched waiters pcs =>
    refine created_still created pcs ?_ switched.same
    intro c isEmbryo
    have other : c ≠ after.threads.current := by
      rintro rfl
      rcases switched.listed with ⟨_, _, perm⟩ | ⟨_, perm⟩
      · have := perm.mem_iff.mpr (List.mem_cons_self (a := after.threads.current))
        simp only [listAppend, List.mem_append, List.mem_singleton] at this
        exact this.elim (notReady _ isEmbryo) (notCurrent _ isEmbryo)
      · exact notReady _ isEmbryo (perm.mem_iff.mpr List.mem_cons_self)
    have := switched.status c
    rwa [if_neg other, if_neg (fun h => notCurrent c isEmbryo h.1)] at this
  | park l blocks absent asleep moved waiters =>
    exact created_moved created moved trivial rfl rfl started (slept asleep) asleep.same
  | wake l woken queue others roused moved =>
    refine created_moved created moved trivial rfl rfl started ?_ roused.same
    intro c isEmbryo
    have other : c ≠ woken := by
      rintro rfl
      have := (scheduled.waiting c l (by rw [queue]; simp)).1
      rw [isEmbryo] at this
      contradiction
    rw [roused.status c, if_neg other]
  | sleep status blocks asleep moved waiters =>
    exact created_moved created moved trivial rfl rfl started (slept asleep) asleep.same
  | unblock woken act roused waiters pcs =>
    subst act
    refine created_still created pcs ?_ roused.same
    intro c isEmbryo
    have other : c ≠ woken := by
      rintro rfl
      have := proper.1
      rw [isEmbryo] at this
      exact this
    rw [roused.status c, if_neg other]
  | create c prio fresh was threads waiters pcs =>
    exact created_create created fresh was threads pcs
  | found c was absent threads waiters pcs => exact created_found created was threads pcs
  | enqueue c was threads waiters pcs => exact created_enqueue created was threads pcs
  | foundAll c was absent threads waiters pcs =>
    exact created_foundAll created was absent threads pcs
  | announce c was threads waiters pcs => exact created_announce created was threads pcs
  | execute c pgdir fresh was absent new threads waiters pcs =>
    exact created_execute created fresh threads pcs

end Kernel

end LiziOS
