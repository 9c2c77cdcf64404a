import LiziOS.Kernel.Failure

namespace LiziOS.Kernel

variable {T L : Type*} [DecidableEq T] [DecidableEq L] {s after : Kernel T L} {a : Act T L}

omit [DecidableEq L] in
theorem boot_status (mainThread : T) (memory : T → TaskStruct) :
    (boot mainThread memory : Kernel T L).status mainThread = .running := by
  simp [Kernel.status, boot, initThread]

omit [DecidableEq L] in
theorem boot_scheduled (mainThread : T) (memory : T → TaskStruct) :
    Scheduled (boot mainThread memory : Kernel T L) := by
  have running := boot_status (L := L) mainThread memory
  have waiters (l : L) : (boot mainThread memory : Kernel T L).waiters l = [] := rfl
  have pc (t : T) : (boot mainThread memory : Kernel T L).pc t =
    if t = mainThread then .run else .unborn := rfl
  have current : (boot mainThread memory : Kernel T L).threads.current = mainThread := rfl
  have ready : (boot mainThread memory : Kernel T L).threads.readyList = [] := rfl
  constructor <;> grind [Pc.Started]

omit [DecidableEq L] in
theorem boot_created (mainThread : T) (memory : T → TaskStruct) :
    Created (boot mainThread memory : Kernel T L) := by
  have pc (t : T) : (boot mainThread memory : Kernel T L).pc t =
    if t = mainThread then .run else .unborn := rfl
  have main : (boot mainThread memory : Kernel T L).threads.mainThread = mainThread := rfl
  have all : (boot mainThread memory : Kernel T L).threads.allList = [mainThread] := rfl
  have task : ((boot mainThread memory : Kernel T L).threads.task mainThread).stackMagic =
    0x19870916 := by simp [boot, initThread]
  constructor <;> grind [Pc.Started, Pc.preparing, Pc.announcing]

/-- `thread_unblock` is called properly in every run considered. -/
theorem reachable_scheduled {allowed : Kernel T L → Act T L → Prop}
    (proper : ∀ s a, allowed s a → s.ProperUnblock a)
    (reached : (system T L).ReachableBy allowed s) : Scheduled s ∧ Created s := by
  have initial (s : Kernel T L) : (system T L).start s → Scheduled s ∧ Created s := by
    rintro ⟨mainThread, memory, rfl⟩
    exact ⟨boot_scheduled mainThread memory, boot_created mainThread memory⟩
  refine reached.invariant initial ?_
  · rintro s a after - ⟨scheduled, created⟩ permitted stepped
    have effect := step_effect stepped
    exact ⟨scheduled_preserved scheduled created (proper s a permitted) effect,
      created_preserved scheduled created (proper s a permitted) effect⟩

/-- The main thread is running or ready. -/
def MainAwake (s : Kernel T L) : Prop :=
  s.status s.threads.mainThread = .running ∨ s.status s.threads.mainThread = .ready

omit [DecidableEq L] in
theorem awake_slept {status : TaskStatus} (awake : MainAwake s) (slept : FellAsleep s after status)
    (other : s.threads.current ≠ s.threads.mainThread) : MainAwake after := by
  unfold MainAwake
  rw [slept.same.mainThread, slept.status s.threads.mainThread, if_neg other.symm]
  split
  · exact .inl rfl
  · exact awake

omit [DecidableEq L] in
theorem awake_woken {woken : T} (awake : MainAwake s) (roused : Woken s after woken) :
    MainAwake after := by
  unfold MainAwake
  rw [roused.same.mainThread, roused.status s.threads.mainThread]
  split
  · exact .inr rfl
  · exact awake

theorem main_awake_preserved (created : Created s) (awake : MainAwake s)
    (idle : s.threads.current = s.threads.mainThread → ¬ s.Blocks a)
    (effect : Effect s a after) : MainAwake after := by
  have main := created.main
  cases effect with
  | quiet pc plain moved threads waiters => simpa [MainAwake, Kernel.status, threads] using awake
  | tick readyEq current status same waiters pcs =>
    rw [MainAwake, status, same.mainThread]
    exact awake
  | preempt switched waiters pcs =>
    unfold MainAwake
    rw [switched.same.mainThread]
    have now := switched.status s.threads.mainThread
    change after.status s.threads.mainThread = _ at now
    rw [now]
    split
    · exact .inl rfl
    · split
      · exact .inr rfl
      · exact awake
  | park l blocks absent slept moved waiters => exact awake_slept awake slept (idle · blocks)
  | wake l woken queue others roused moved => exact awake_woken awake roused
  | sleep status blocks slept moved waiters => exact awake_slept awake slept (idle · blocks)
  | unblock woken act roused waiters pcs => exact awake_woken awake roused
  | create c prio fresh was threads waiters pcs =>
    have other : s.threads.mainThread ≠ c := by
      rintro rfl
      rw [fresh] at main
      exact main
    simpa [MainAwake, Kernel.status, threads, other] using awake
  | found c was absent threads waiters pcs => simpa [MainAwake, Kernel.status, threads] using awake
  | enqueue c was threads waiters pcs => simpa [MainAwake, Kernel.status, threads] using awake
  | foundAll c was absent threads waiters pcs =>
    simpa [MainAwake, Kernel.status, threads] using awake
  | announce c was threads waiters pcs => simpa [MainAwake, Kernel.status, threads] using awake
  | execute c pgdir fresh was absent new threads waiters pcs =>
    have other : s.threads.mainThread ≠ c := by
      rintro rfl
      rw [fresh] at main
      exact main
    simpa [MainAwake, Kernel.status, threads, other] using awake

/-- The checks of the scheduler itself. -/
def schedulerSites : List Site :=
  [.schedule, .threadBlock, .threadUnblock, .threadStart, .processExecute, .clockInterruptHandler]

omit [DecidableEq L] in
theorem threadBlock_succeeds {status : TaskStatus} (wanted : Option T) (scheduled : Scheduled s)
    (created : Created s) (awake : MainAwake s) (asleep : status.asleep = true)
    (other : s.threads.current ≠ s.threads.mainThread) :
    ∃ threads, threadBlock wanted status s.threads = .ok threads := by
  have notRunning : status ≠ .running := by rintro rfl; simp [TaskStatus.asleep] at asleep
  have mainReady : s.threads.mainThread ∈ s.threads.readyList := by
    rw [scheduled.ready]
    refine ⟨created.main, awake.resolve_left ?_⟩
    intro running
    exact other (scheduled.onlyRunning _ created.main running).symm
  unfold threadBlock
  rw [if_pos asleep]
  apply schedule_total
  · simp [notRunning]
  · intro _
    exact List.ne_nil_of_mem mainReady

omit [DecidableEq L] in
theorem clock_succeeds (wanted : Option T) (scheduled : Scheduled s) (created : Created s) :
    ∃ threads, clockInterruptHandler wanted s.threads = .ok threads := by
  have started := scheduled.currentStarted
  have magic := created.magic s.threads.current (by
    intro unborn
    rw [unborn] at started
    exact started)
  have absent : s.threads.current ∉ s.threads.readyList := by
    rw [scheduled.ready, scheduled.currentRunning]
    simp
  unfold clockInterruptHandler
  dsimp only
  rw [if_pos magic]
  split
  · exact schedule_total wanted (fun _ => absent) (fun other => absurd scheduled.currentRunning other)
  · exact ⟨_, rfl⟩

theorem reachable_awake (reached : (system T L).ReachableBy Legal s) : MainAwake s := by
  have initial (s : Kernel T L) : (system T L).start s → MainAwake s := by
    rintro ⟨mainThread, memory, rfl⟩
    exact .inl (boot_status mainThread memory)
  refine reached.invariant initial ?_
  intro s a after reached awake legal stepped
  obtain ⟨-, created⟩ := reachable_scheduled (fun _ _ legal => legal.unblock) reached
  exact main_awake_preserved created awake legal.main (step_effect stepped)

/-- No check of the scheduler fails in a step the kernel can make. -/
theorem scheduler_checks_pass (scheduled : Scheduled s) (created : Created s) (awake : MainAwake s)
    (legal : Legal s a) {site : Site} (listed : site ∈ schedulerSites) :
    s.step a ≠ some (.error (.panic site)) := by
  intro failed
  have sleeps (wanted : Option T) {status : TaskStatus} (blocks : s.Blocks a)
      (asleep : status.asleep = true) :
      ∃ threads, threadBlock wanted status s.threads = .ok threads :=
    threadBlock_succeeds wanted scheduled created awake asleep (fun main => legal.main main blocks)
  have wakes {woken : T} (asleep : (s.status woken).asleep = true) :
      ∃ threads, threadUnblock woken s.threads = .ok threads := by
    refine threadUnblock_total asleep fun queued => ?_
    rw [((scheduled.ready woken).mp queued).2] at asleep
    contradiction
  cases step_failure failed with
  | dowm l here refused => cases semaDowm_error refused; simp [schedulerSites] at listed
  | up l here refused => cases semaUp_error refused; simp [schedulerSites] at listed
  | acquire l here held panicked => cases panicked; simp [schedulerSites] at listed
  | release l here stranger panicked => cases panicked; simp [schedulerSites] at listed
  | releaseOnce l here many panicked => cases panicked; simp [schedulerSites] at listed
  | block wanted status blocks given refused =>
    have asleep : status.asleep = true := by
      rcases given with rfl | act
      · rfl
      · have proper := legal.block
        rw [act] at proper
        exact proper
    obtain ⟨threads, blocked⟩ := sleeps wanted blocks asleep
    simp [blocked] at refused
  | wake l woken queued refused =>
    obtain ⟨threads, unblocked⟩ := wakes (by rw [(scheduled.waiting woken l queued).2]; rfl)
    simp [unblocked] at refused
  | unblock woken act refused =>
    have proper := legal.unblock
    rw [act] at proper
    obtain ⟨threads, unblocked⟩ := wakes proper.2.1
    simp [unblocked] at refused
  | clock wanted refused =>
    obtain ⟨threads, ticked⟩ := clock_succeeds wanted scheduled created
    simp [ticked] at refused
  | startReady c here queued panicked =>
    have embryo := created.preparing s.threads.current c (by rw [here]; rfl)
    have started := ((scheduled.ready c).mp queued).1
    rw [embryo] at started
    exact started
  | startAll c here queued panicked =>
    exact created.unlisted s.threads.current c (.inl here) queued
  | execute c fresh queued panicked =>
    have started : (s.pc c).Started :=
      queued.elim (fun ready => ((scheduled.ready c).mp ready).1) (created.listed c)
    rw [fresh] at started
    exact started

/-- Throughout every run of the kernel one thread is running, the ready list holds every other
    started thread that does not sleep, and no check of the scheduler fails. -/
theorem scheduler_invariant (reached : (system T L).ReachableBy Legal s) :
    (s.pc s.threads.current).Started ∧
    (∀ t, s.pc t ≠ .unborn → (s.status t = .running ↔ t = s.threads.current)) ∧
    s.threads.readyList.Nodup ∧
    (∀ t, t ∈ s.threads.readyList ↔ (s.pc t).Started ∧ s.status t = .ready) ∧
    (∀ l, (s.waiters l).Nodup) ∧
    (∀ t l, t ∈ s.waiters l → s.status t = .blocked) ∧
    (∀ t, s.status t = .blocked →
      t ∉ s.threads.readyList ∧ ∀ l m, t ∈ s.waiters l → t ∈ s.waiters m → l = m) ∧
    ∀ a, Legal s a → ∀ site ∈ schedulerSites, s.step a ≠ some (.error (.panic site)) := by
  obtain ⟨scheduled, created⟩ := reachable_scheduled (fun _ _ legal => legal.unblock) reached
  have awake := reachable_awake reached
  refine ⟨scheduled.currentStarted, ?_, scheduled.readyNodup, scheduled.ready,
    scheduled.waitersNodup, fun t l waits => (scheduled.waiting t l waits).2, ?_, ?_⟩
  · intro t exists_
    constructor
    · intro running
      have started : (s.pc t).Started := by
        cases pc : s.pc t with
        | unborn => exact absurd pc exists_
        | embryo =>
          rw [created.embryo t pc] at running
          contradiction
        | _ => exact True.intro
      exact scheduled.onlyRunning t started running
    · rintro rfl
      exact scheduled.currentRunning
  · intro t blocked
    constructor
    · intro queued
      rw [((scheduled.ready t).mp queued).2] at blocked
      contradiction
    · intro l m inL inM
      have same := (scheduled.waiting t l inL).1.symm.trans (scheduled.waiting t m inM).1
      injection same
  · intro a legal site listed
    exact scheduler_checks_pass scheduled created awake legal listed

/-- The main thread has started a second one. -/
theorem scheduler_invariant_started : ∃ s : Kernel Nat Unit,
    (system Nat Unit).ReachableBy Legal s ∧ s.threads.readyList = [1] ∧
    ∀ t, t ∈ s.threads.readyList ↔ (s.pc t).Started ∧ s.status t = .ready := by
  let memory : Nat → TaskStruct := fun _ => ⟨.died, 0, 0, 0, 0⟩
  have start : Legal (boot 0 memory : Kernel Nat Unit) (.threadStart 1 31) :=
    ⟨trivial, trivial, fun _ => id⟩
  have running {s : Kernel Nat Unit} (t : Nat) (here : s.pc s.threads.current = .startFind t ∨
      s.pc s.threads.current = .startAppend t) : Legal s (.statement none) :=
    ⟨trivial, trivial, by rintro - ⟨l, there, -⟩; grind⟩
  have booted : (system Nat Unit).ReachableBy Legal (boot 0 memory) := .start ⟨0, memory, rfl⟩
  have called := booted.next start rfl
  have found := called.next (running 1 (.inl rfl)) rfl
  have appended := found.next (running 1 (.inr rfl)) rfl
  exact ⟨_, appended, rfl, (scheduler_invariant appended).2.2.2.1⟩

end LiziOS.Kernel
