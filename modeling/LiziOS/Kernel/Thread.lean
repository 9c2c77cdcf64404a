import LiziOS.Kernel.List
import Mathlib.Logic.Function.Basic

namespace LiziOS

/-- The fields of `struct task_struct` that scheduling reads and writes. -/
structure TaskStruct where
  status : TaskStatus
  priority : U8
  ticks : U8
  pgdir : U32
  stackMagic : U32
  deriving DecidableEq

/-- The globals of `thread.c`, and the thread whose stack the processor is on. -/
structure Threads (T : Type*) where
  current : T
  task : T → TaskStruct
  mainThread : T
  readyList : List T
  allList : List T

variable {T : Type*} [DecidableEq T]

def initThread (k : Threads T) (pthread : T) (prio : U32) : TaskStruct where
  status := if pthread = k.mainThread then .running else .ready
  priority := prio.setWidth 8
  ticks := prio.setWidth 8
  pgdir := 0
  stackMagic := 0x19870916

def Threads.setTask (k : Threads T) (t : T) (task : TaskStruct) : Threads T :=
  { k with task := Function.update k.task t task }

/-- The first half of `schedule`: a running thread goes to the end of the ready list. -/
def deschedule (k : Threads T) : Except Fault (Threads T) :=
  let cur := k.task k.current
  if cur.status = .running then
    if elemFind k.readyList k.current then .error (.panic .schedule)
    else .ok { k.setTask k.current { cur with ticks := cur.priority, status := .ready } with
      readyList := listAppend k.readyList k.current }
  else .ok k

/-- The second half of `schedule`: the thread taken from the ready list runs. Here `switch_to` is
    the change of `current`; `process_activate` is modelled with the address spaces. -/
def dispatch (wanted : Option T) (k : Threads T) : Except Fault (Threads T) :=
  match listTake wanted k.readyList with
  | none => .error (.panic .schedule)
  | some (next, rest) =>
    .ok { k.setTask next { k.task next with status := .running } with
      readyList := rest, current := next }

/-- `schedule`. The kernel dispatches the first ready thread, which is `wanted = none`; a theorem
    about every order of scheduling lets `wanted` name another one. -/
def schedule (wanted : Option T) (k : Threads T) : Except Fault (Threads T) :=
  match deschedule k with
  | .error fault => .error fault
  | .ok k => dispatch wanted k

/-- The test in the `ASSERT`s of `thread_block` and `thread_unblock`. -/
def TaskStatus.asleep (status : TaskStatus) : Bool :=
  status = .blocked ∨ status = .waiting ∨ status = .hanging

/-- `thread_block` up to the switch to another thread. -/
def threadBlock (wanted : Option T) (status : TaskStatus) (k : Threads T) :
    Except Fault (Threads T) :=
  if status.asleep then
    schedule wanted (k.setTask k.current { k.task k.current with status := status })
  else .error (.panic .threadBlock)

def threadUnblock (pthread : T) (k : Threads T) : Except Fault (Threads T) :=
  if (k.task pthread).status.asleep then
    if elemFind k.readyList pthread then .error (.panic .threadUnblock)
    else .ok { k.setTask pthread { k.task pthread with status := .ready } with
      readyList := listPush k.readyList pthread }
  else .error (.panic .threadUnblock)

def clockInterruptHandler (wanted : Option T) (k : Threads T) : Except Fault (Threads T) :=
  let cur := k.task k.current
  if cur.stackMagic = 0x19870916 then
    if cur.ticks = 0 then schedule wanted k
    else .ok (k.setTask k.current { cur with ticks := cur.ticks - 1 })
  else .error (.panic .clockInterruptHandler)

variable {k after : Threads T} {wanted : Option T}

@[simp] theorem Threads.setTask_current (k : Threads T) (t : T) (task : TaskStruct) :
    (k.setTask t task).current = k.current := rfl

@[simp] theorem Threads.setTask_readyList (k : Threads T) (t : T) (task : TaskStruct) :
    (k.setTask t task).readyList = k.readyList := rfl

@[simp] theorem Threads.setTask_allList (k : Threads T) (t : T) (task : TaskStruct) :
    (k.setTask t task).allList = k.allList := rfl

@[simp] theorem Threads.setTask_mainThread (k : Threads T) (t : T) (task : TaskStruct) :
    (k.setTask t task).mainThread = k.mainThread := rfl

@[simp] theorem Threads.setTask_task (k : Threads T) (t : T) (task : TaskStruct) :
    (k.setTask t task).task = Function.update k.task t task := rfl

/-- Scheduling leaves alone what `process_activate` and the magic number checks read. -/
structure SameProcesses (k after : Threads T) : Prop where
  pgdir : ∀ t, (after.task t).pgdir = (k.task t).pgdir
  stackMagic : ∀ t, (after.task t).stackMagic = (k.task t).stackMagic
  allList : after.allList = k.allList
  mainThread : after.mainThread = k.mainThread

theorem SameProcesses.setTask (k : Threads T) (t : T) (task : TaskStruct)
    (pgdir : task.pgdir = (k.task t).pgdir) (magic : task.stackMagic = (k.task t).stackMagic) :
    SameProcesses k (k.setTask t task) := by
  constructor
  · intro u
    by_cases same : u = t
    · subst u; simpa using pgdir
    · simp [same]
  · intro u
    by_cases same : u = t
    · subst u; simpa using magic
    · simp [same]
  · rfl
  · rfl

/-- Everything a completed `schedule` does to statuses and to the ready list. -/
structure Switched (k after : Threads T) : Prop where
  listed : ((k.task k.current).status = .running ∧ k.current ∉ k.readyList ∧
      (listAppend k.readyList k.current).Perm (after.current :: after.readyList)) ∨
    ((k.task k.current).status ≠ .running ∧
      k.readyList.Perm (after.current :: after.readyList))
  status : ∀ t, (after.task t).status =
    if t = after.current then .running
    else if t = k.current ∧ (k.task k.current).status = .running then .ready
    else (k.task t).status
  same : SameProcesses k after

theorem dispatch_cases (dispatched : dispatch wanted k = .ok after) :
    k.readyList.Perm (after.current :: after.readyList) ∧
    (∀ t, (after.task t).status =
      if t = after.current then .running else (k.task t).status) ∧ SameProcesses k after := by
  unfold dispatch at dispatched
  split at dispatched
  · contradiction
  · rename_i next rest taken
    cases dispatched
    refine ⟨listTake_perm taken, ?_, ?_⟩
    · intro t
      by_cases same : t = next <;> simp [same]
    · have kept := SameProcesses.setTask k next { k.task next with status := .running } rfl rfl
      exact ⟨kept.pgdir, kept.stackMagic, rfl, rfl⟩

theorem schedule_cases (scheduled : schedule wanted k = .ok after) : Switched k after := by
  unfold schedule deschedule at scheduled
  by_cases running : (k.task k.current).status = .running
  · simp only [running, ↓reduceIte] at scheduled
    by_cases listed : k.current ∈ k.readyList
    · simp [listed] at scheduled
    · simp only [elemFind_iff, listed, ↓reduceIte] at scheduled
      obtain ⟨perm, status, same⟩ := dispatch_cases scheduled
      refine ⟨.inl ⟨running, listed, perm⟩, ?_, ?_⟩
      · intro t
        rw [status t]
        by_cases current : t = k.current <;> simp [current, running]
      · have kept := SameProcesses.setTask k k.current
          { k.task k.current with ticks := (k.task k.current).priority, status := .ready } rfl rfl
        exact ⟨fun t => (same.pgdir t).trans (kept.pgdir t),
          fun t => (same.stackMagic t).trans (kept.stackMagic t), same.allList, same.mainThread⟩
  · simp only [running, ↓reduceIte] at scheduled
    obtain ⟨perm, status, same⟩ := dispatch_cases scheduled
    exact ⟨.inr ⟨running, perm⟩, by simpa [running] using status, same⟩

/-- A thread other than the switched out one is there to be dispatched: `schedule` returns. -/
theorem schedule_total (wanted : Option T)
    (absent : (k.task k.current).status = .running → k.current ∉ k.readyList)
    (other : (k.task k.current).status ≠ .running → k.readyList ≠ []) :
    ∃ after, schedule wanted k = .ok after := by
  have ready : ∃ middle, deschedule k = .ok middle ∧ middle.readyList ≠ [] := by
    unfold deschedule
    by_cases running : (k.task k.current).status = .running
    · simp only [running, ↓reduceIte, elemFind_iff, absent running]
      exact ⟨_, rfl, by simp [listAppend]⟩
    · simp only [running, ↓reduceIte]
      exact ⟨_, rfl, other running⟩
  obtain ⟨middle, descheduled, nonempty⟩ := ready
  simp only [schedule, descheduled, dispatch]
  split
  · rename_i nothing
    exact absurd (listTake_none.mp nothing) nonempty
  · exact ⟨_, rfl⟩

theorem threadBlock_cases {status : TaskStatus}
    (blocked : threadBlock wanted status k = .ok after) :
    status.asleep = true ∧ k.readyList.Perm (after.current :: after.readyList) ∧
    (∀ t, (after.task t).status = if t = after.current then .running
      else if t = k.current then status else (k.task t).status) ∧ SameProcesses k after := by
  unfold threadBlock at blocked
  split at blocked
  · rename_i asleep
    have switched := schedule_cases blocked
    have notRunning : status ≠ .running := by rintro rfl; simp [TaskStatus.asleep] at asleep
    refine ⟨asleep, ?_, ?_, ?_⟩
    · rcases switched.listed with ⟨running, _⟩ | ⟨_, perm⟩
      · simp at running
        contradiction
      · exact perm
    · intro t
      rw [switched.status t]
      by_cases current : t = k.current <;> simp [current, notRunning]
    · have kept := SameProcesses.setTask k k.current { k.task k.current with status := status }
        rfl rfl
      have same := switched.same
      exact ⟨fun t => (same.pgdir t).trans (kept.pgdir t),
        fun t => (same.stackMagic t).trans (kept.stackMagic t), same.allList, same.mainThread⟩
  · contradiction

theorem threadUnblock_cases {pthread : T} (woken : threadUnblock pthread k = .ok after) :
    (k.task pthread).status.asleep = true ∧ pthread ∉ k.readyList ∧
    after = { k.setTask pthread { k.task pthread with status := .ready } with
      readyList := listPush k.readyList pthread } := by
  unfold threadUnblock at woken
  split at woken
  · rename_i asleep
    split at woken
    · contradiction
    · rename_i absent
      cases woken
      exact ⟨asleep, by simpa using absent, rfl⟩
  · contradiction

theorem schedule_error {fault : Fault} (failed : schedule wanted k = .error fault) :
    fault = .panic .schedule := by
  unfold schedule deschedule dispatch at failed
  grind

theorem threadBlock_error {status : TaskStatus} {fault : Fault}
    (failed : threadBlock wanted status k = .error fault) :
    fault = .panic .schedule ∨ fault = .panic .threadBlock := by
  unfold threadBlock at failed
  split at failed
  · exact .inl (schedule_error failed)
  · cases failed
    exact .inr rfl

theorem threadUnblock_error {pthread : T} {fault : Fault}
    (failed : threadUnblock pthread k = .error fault) : fault = .panic .threadUnblock := by
  unfold threadUnblock at failed
  split at failed
  · split at failed
    · cases failed
      rfl
    · contradiction
  · cases failed
    rfl

theorem clockInterruptHandler_error {fault : Fault}
    (failed : clockInterruptHandler wanted k = .error fault) :
    fault = .panic .schedule ∨ fault = .panic .clockInterruptHandler := by
  unfold clockInterruptHandler at failed
  dsimp only at failed
  split at failed
  · split at failed
    · exact .inl (schedule_error failed)
    · contradiction
  · cases failed
    exact .inr rfl

theorem threadUnblock_total {pthread : T} (asleep : (k.task pthread).status.asleep = true)
    (absent : pthread ∉ k.readyList) : ∃ after, threadUnblock pthread k = .ok after := by
  simp only [threadUnblock, asleep, ↓reduceIte, elemFind_iff, absent]
  exact ⟨_, rfl⟩

def Threads.status (k : Threads T) (t : T) : TaskStatus := (k.task t).status

/-- One thread runs and the ready list holds exactly the ready ones. -/
structure Coherent (k : Threads T) : Prop where
  running : ∀ t, k.status t = .running ↔ t = k.current
  ready : ∀ t, t ∈ k.readyList ↔ k.status t = .ready
  nodup : k.readyList.Nodup

omit [DecidableEq T] in
/-- The thread taken off a list, and what stays there. -/
theorem taken_off {queue rest : List T} {next : T} (perm : queue.Perm (next :: rest))
    (nodup : queue.Nodup) :
    (∀ t, t ∈ rest ↔ t ∈ queue ∧ t ≠ next) ∧ next ∈ queue ∧ rest.Nodup := by
  have unique := perm.nodup_iff.mp nodup
  obtain ⟨fresh, restNodup⟩ := List.nodup_cons.mp unique
  refine ⟨fun t => ?_, perm.mem_iff.mpr List.mem_cons_self, restNodup⟩
  rw [perm.mem_iff, List.mem_cons]
  constructor
  · intro stays
    exact ⟨.inr stays, fun eq => fresh (eq ▸ stays)⟩
  · rintro ⟨rfl | stays, other⟩
    · exact absurd rfl other
    · exact stays

theorem coherent_block (coherent : Coherent k)
    (blocked : threadBlock wanted .blocked k = .ok after) :
    Coherent after ∧ ∀ t, after.status t = .blocked ↔ t = k.current ∨ k.status t = .blocked := by
  obtain ⟨-, perm, statuses, -⟩ := threadBlock_cases blocked
  have status (t : T) : after.status t = if t = after.current then .running
      else if t = k.current then .blocked else k.status t := statuses t
  obtain ⟨rest, taken, restNodup⟩ := taken_off perm coherent.nodup
  have nextReady := (coherent.ready _).mp taken
  have running := (coherent.running k.current).mpr rfl
  have changed : after.current ≠ k.current := by
    intro eq
    rw [eq, running] at nextReady
    contradiction
  refine ⟨⟨?_, ?_, restNodup⟩, ?_⟩
  · intro t
    rw [status]
    by_cases next : t = after.current
    · simp [next]
    · by_cases cur : t = k.current
      · simp [cur, changed.symm]
      · simp [next, cur, coherent.running]
  · intro t
    rw [rest, coherent.ready, status]
    by_cases next : t = after.current
    · simp [next]
    · by_cases cur : t = k.current
      · simp [cur, changed.symm, running]
      · simp [next, cur]
  · intro t
    rw [status]
    by_cases next : t = after.current
    · simp [next, changed, nextReady]
    · by_cases cur : t = k.current
      · simp [cur, changed.symm]
      · simp [next, cur]

theorem coherent_unblock {pthread : T} (coherent : Coherent k)
    (blocked : k.status pthread = .blocked) : ∃ after, threadUnblock pthread k = .ok after ∧
      Coherent after ∧ after.current = k.current ∧
      ∀ t, after.status t = .blocked ↔ k.status t = .blocked ∧ t ≠ pthread := by
  have absent : pthread ∉ k.readyList := by
    rw [coherent.ready, blocked]
    simp
  have asleep : (k.task pthread).status.asleep = true := by
    change (k.status pthread).asleep = true
    rw [blocked]
    rfl
  obtain ⟨after, woken⟩ := threadUnblock_total asleep absent
  obtain ⟨-, -, same⟩ := threadUnblock_cases woken
  have status (t : T) : after.status t = if t = pthread then .ready else k.status t := by
    by_cases eq : t = pthread <;> simp [Threads.status, same, eq]
  have current : after.current = k.current := by rw [same]; rfl
  have ready : after.readyList = pthread :: k.readyList := by rw [same]; rfl
  refine ⟨after, woken, ⟨?_, ?_, ?_⟩, current, ?_⟩
  · intro t
    rw [status, current]
    by_cases eq : t = pthread
    · have notCurrent : pthread ≠ k.current := by
        rintro rfl
        rw [(coherent.running _).mpr rfl] at blocked
        contradiction
      simp [eq, notCurrent]
    · simp [eq, coherent.running]
  · intro t
    rw [ready, List.mem_cons, coherent.ready, status]
    by_cases eq : t = pthread <;> simp [eq]
  · rw [ready]
    exact List.nodup_cons.mpr ⟨absent, coherent.nodup⟩
  · intro t
    rw [status]
    by_cases eq : t = pthread <;> simp [eq]

theorem coherent_schedule (coherent : Coherent k) (scheduled : schedule wanted k = .ok after) :
    Coherent after ∧ ∀ t, after.status t = .blocked ↔ k.status t = .blocked := by
  obtain ⟨listed, statuses, -⟩ := schedule_cases scheduled
  have running := (coherent.running k.current).mpr rfl
  have status (t : T) : after.status t = if t = after.current then .running
      else if t = k.current then .ready else k.status t := by
    have now := statuses t
    simp only [show (k.task k.current).status = .running from running, and_true] at now
    exact now
  rcases listed with ⟨-, absent, perm⟩ | ⟨stopped, -⟩
  · have queued : (listAppend k.readyList k.current).Nodup := by
      simpa [listAppend, List.nodup_append] using
        ⟨coherent.nodup, fun t member eq => absent (eq ▸ member)⟩
    obtain ⟨rest, taken, restNodup⟩ := taken_off perm queued
    simp only [listAppend, List.mem_append, List.mem_singleton, coherent.ready] at rest taken
    refine ⟨⟨?_, ?_, restNodup⟩, ?_⟩
    · intro t
      rw [status]
      by_cases next : t = after.current
      · simp [next]
      · by_cases cur : t = k.current
        · subst t
          simp [next]
        · simp [next, cur, coherent.running]
    · intro t
      rw [rest, status]
      by_cases next : t = after.current
      · simp [next]
      · by_cases cur : t = k.current
        · subst t
          simp [next]
        · simp [next, cur]
    · intro t
      rw [status]
      by_cases next : t = after.current
      · subst t
        rcases taken with ready | eq
        · simp [ready]
        · simp [eq, running]
      · by_cases cur : t = k.current
        · subst t
          simp [next, running]
        · simp [next, cur]
  · exact absurd running stopped

theorem coherent_clock (coherent : Coherent k)
    (ticked : clockInterruptHandler wanted k = .ok after) :
    Coherent after ∧ ∀ t, after.status t = .blocked ↔ k.status t = .blocked := by
  unfold clockInterruptHandler at ticked
  dsimp only at ticked
  split at ticked
  · split at ticked
    · exact coherent_schedule coherent ticked
    · cases ticked
      have status (t : T) : (k.setTask k.current { k.task k.current with
          ticks := (k.task k.current).ticks - 1 }).status t = k.status t := by
        by_cases cur : t = k.current <;> simp [Threads.status, cur]
      refine ⟨⟨?_, ?_, coherent.nodup⟩, ?_⟩
      · intro t
        rw [status]
        exact coherent.running t
      · intro t
        rw [status]
        exact coherent.ready t
      · intro t
        rw [status]
  · contradiction

end LiziOS
