import LiziOS.Kernel.SchedulerInvariant

namespace LiziOS.Kernel

variable {T L : Type*} [DecidableEq T] [DecidableEq L] {s after : Kernel T L} {a : Act T L} {l : L} {t : T}

/-- Taken from `waiters` by `sema_up`, and not back in the loop of `sema_dowm` to test `value`. -/
def Retesting (s : Kernel T L) (l : L) (t : T) : Prop := s.pc t = .dowmBlocked l ∧ t ∉ s.waiters l

/-- What `sema_dowm` leaves: the permit is gone. -/
theorem dowm_semaphore {wanted : Option T} (stepped : s.dowm l wanted = .ok after) :
    (after.lock l).semaphore.value = 0 ∧ (∀ t ∈ s.waiters l, t ∈ after.waiters l) ∧
    ∀ m, m ≠ l → (after.lock m).semaphore = (s.lock m).semaphore := by
  unfold dowm at stepped
  dsimp only at stepped
  split at stepped
  · contradiction
  · rename_i sema taken
    cases stepped
    refine ⟨?_, ?_, fun m other => by simp [goto, setLock, other]⟩
    all_goals rcases semaDowm_cases taken with ⟨_, _, no, _⟩ | ⟨_, _, sema_eq⟩
    · contradiction
    · simp [goto, setLock, sema_eq]
    · contradiction
    · simp [waiters, goto, setLock, sema_eq]
  · rename_i sema taken
    cases blocked : threadBlock wanted .blocked s.threads with
    | error fault => simp [blocked, Except.map] at stepped
    | ok threads =>
      simp only [blocked, Except.map, Except.ok.injEq] at stepped
      subst after
      refine ⟨?_, ?_, fun m other => by simp [goto, setLock, setThreads, other]⟩
      all_goals rcases semaDowm_cases taken with ⟨empty, _, _, sema_eq⟩ | ⟨_, no, _⟩
      · simp [goto, setLock, setThreads, sema_eq, empty]
      · contradiction
      · intro t waits
        simp [waiters, goto, setLock, setThreads, sema_eq, listAppend,
            show t ∈ (s.lock l).semaphore.waiters from waits]
      · contradiction

theorem up_semaphore (stepped : s.up l = .ok after) :
    (after.lock l).semaphore.waiters = (popWaiter (s.waiters l)).2 ∧
    ∀ m, m ≠ l → (after.lock m).semaphore = (s.lock m).semaphore := by
  have queue {sema : Semaphore T} {woken : Option T} (raised : semaUp (s.lock l).semaphore =
      .ok (sema, woken)) :
      sema.waiters = (popWaiter (s.waiters l)).2 := congrArg Prod.snd (semaUp_cases raised).2.2
  unfold up at stepped
  dsimp only at stepped
  split at stepped
  · contradiction
  · rename_i sema raised
    cases stepped
    exact ⟨by simp [setLock, queue raised], fun m other => by simp [setLock, other]⟩
  · rename_i sema woken raised
    cases unblocked : threadUnblock woken s.threads with
    | error fault => simp [unblocked, Except.map] at stepped
    | ok threads =>
      simp only [unblocked, Except.map, Except.ok.injEq] at stepped
      subst after
      exact ⟨by simp [setLock, setThreads, queue raised], fun m other => by simp [setLock, setThreads, other]⟩

/-- What a step does to a semaphore. -/
inductive Touched (s : Kernel T L) (l : L) (after : Kernel T L) : Prop where
  | same (same : (after.lock l).semaphore = (s.lock l).semaphore)
      (elsewhere : s.pc s.threads.current ≠ .dowmBlocked l)
  | dowm (taken : (after.lock l).semaphore.value = 0) (kept : ∀ t ∈ s.waiters l, t ∈ after.waiters l)
  | up (here : s.pc s.threads.current = .releaseUp l)
      (waiters : after.waiters l = (popWaiter (s.waiters l)).2)

theorem statement_touched {wanted : Option T} (stepped : s.statement wanted = some (.ok after)) :
    Touched s l after := by
  cases here : s.pc s.threads.current with
  | run | unborn | embryo => simp [statement, here] at stepped
  | acquireDowm m =>
    simp only [statement, here, Option.some.injEq] at stepped
    obtain ⟨taken, kept, others⟩ := dowm_semaphore stepped
    by_cases same : l = m
    · rw [← same] at taken kept
      exact .dowm taken kept
    · exact .same (others l same) (by simp [here])
  | dowmBlocked m =>
    simp only [statement, here, Option.some.injEq] at stepped
    obtain ⟨taken, kept, others⟩ := dowm_semaphore stepped
    by_cases same : l = m
    · rw [← same] at taken kept
      exact .dowm taken kept
    · exact .same (others l same) (by simp [here, Ne.symm same])
  | releaseUp m =>
    simp only [statement, here, Option.some.injEq] at stepped
    cases raised : s.up m with
    | error fault => simp [raised, Except.map] at stepped
    | ok middle =>
      simp only [raised, Except.map, Except.ok.injEq] at stepped
      subst after
      obtain ⟨waiters, others⟩ := up_semaphore raised
      by_cases same : l = m
      · rw [← same] at waiters
        exact .up (same ▸ here) waiters
      · exact .same (others l same) (by simp [here])
  | acquireHolder m | acquireRepeat m | acquireNest m | releaseNest m | releaseHolder m | releaseRepeat m =>
    simp only [statement, here, Option.some.injEq, Except.ok.injEq] at stepped
    subst after
    refine .same ?_ (by simp [here])
    by_cases same : l = m
    · simp [goto, setLock, acquired, released, same]
    · simp [goto, setLock, acquired, released, same]
  | acquireTest m | releaseTest m | blocked | startAppend c | startAppendAll c =>
    simp only [statement, here, Option.some.injEq, Except.ok.injEq] at stepped
    subst after
    exact .same rfl (by simp [here])
  | acquireAssert m | releaseAssert m | releaseOnce m =>
    simp only [statement, here, Option.some.injEq] at stepped
    split at stepped
    · cases stepped
      exact .same rfl (by simp [here])
    · contradiction
  | startFind c | startFindAll c =>
    simp only [statement, here, Option.some.injEq] at stepped
    split at stepped
    · contradiction
    · cases stepped
      exact .same rfl (by simp [here])

theorem step_touched (stepped : s.step a = some (.ok after)) : Touched s l after := by
  cases a with
  | statement wanted => exact statement_touched stepped
  | clock wanted =>
    simp only [step] at stepped
    split at stepped
    · rename_i allowed
      cases ticked : clockInterruptHandler wanted s.threads with
      | error fault => simp [ticked, Except.map] at stepped
      | ok threads =>
        simp only [ticked, Except.map, Option.some.injEq, Except.ok.injEq] at stepped
        subst after
        refine .same rfl ?_
        intro here
        rw [here] at allowed
        contradiction
    · contradiction
  | threadUnblock pthread =>
    simp only [step] at stepped
    split at stepped
    · rename_i allowed
      cases woken : threadUnblock pthread s.threads with
      | error fault => simp [woken, Except.map] at stepped
      | ok threads =>
        simp only [woken, Except.map, Option.some.injEq, Except.ok.injEq] at stepped
        subst after
        refine .same rfl ?_
        intro here
        rw [here] at allowed
        contradiction
    · contradiction
  | lockAcquire m | lockRelease m | work =>
    simp only [step] at stepped
    split at stepped
    · rename_i here
      cases stepped
      exact .same rfl (by simp [here])
    · contradiction
  | threadBlock status wanted =>
    simp only [step] at stepped
    split at stepped
    · rename_i here
      cases blocked : threadBlock wanted status s.threads with
      | error fault => simp [blocked, Except.map] at stepped
      | ok threads =>
        simp only [blocked, Except.map, Option.some.injEq, Except.ok.injEq] at stepped
        subst after
        exact .same rfl (by simp [here])
    · contradiction
  | threadStart c prio =>
    simp only [step] at stepped
    split at stepped
    · rename_i here
      cases stepped
      exact .same rfl (by simp [here.1])
    · contradiction
  | processExecute c pgdir =>
    simp only [step] at stepped
    split at stepped
    · rename_i here
      simp only [Option.some.injEq, executeProcess] at stepped
      split at stepped
      · contradiction
      · split at stepped
        · contradiction
        · cases stepped
          exact .same rfl (by simp [here.1])
    · contradiction

/-- A thread asleep in `sema_dowm` stays there while others move. -/
theorem parked_stays (created : Created s) (effect : Effect s a after) (other : t ≠ s.threads.current)
    (parked : s.pc t = .dowmBlocked l) : after.pc t = .dowmBlocked l := by
  have still {pc : Pc T L} (moved : after.pc = Function.update s.pc s.threads.current pc) :
      after.pc t = .dowmBlocked l := by
    rw [moved, Function.update_of_ne other, parked]
  have fresh {c : T} (young : s.pc c = .unborn ∨ s.pc c = .embryo) : t ≠ c := by
    rintro rfl
    rw [parked] at young
    rcases young with young | young <;> contradiction
  cases effect with
  | quiet pc plain moved => exact still moved.pc
  | tick ready current status same waiters pc => rw [pc, parked]
  | preempt switched waiters pc => rw [pc, parked]
  | park m blocks absent slept moved => exact still moved.pc
  | wake m woken queue others roused moved => exact still moved.pc
  | sleep status blocks slept moved => exact still moved.pc
  | unblock woken act roused waiters pc => rw [pc, parked]
  | create c prio young was threads waiters pc =>
    rw [pc, Function.update_of_ne other, Function.update_of_ne (fresh (.inl young)), parked]
  | found c was absent threads waiters pc => exact still pc
  | enqueue c was threads waiters pc =>
    have young := created.preparing s.threads.current c (by rw [was]; rfl)
    rw [pc, Function.update_of_ne other, Function.update_of_ne (fresh (.inr young)), parked]
  | foundAll c was absent threads waiters pc => exact still pc
  | announce c was threads waiters pc => exact still pc
  | execute c pgdir young was absent new threads waiters pc =>
    rw [pc, Function.update_of_ne (fresh (.inl young)), parked]

/-- A free lock with waiters has a thread on its way to it. -/
def Attended (s : Kernel T L) (l : L) : Prop :=
  (s.lock l).semaphore.value = 1 → s.waiters l ≠ [] → ∃ t, s.Retesting l t

theorem attended_preserved (scheduled : Scheduled s) (created : Created s) (attended : Attended s l)
    (stepped : s.step a = some (.ok after)) : Attended after l := by
  have effect := step_effect stepped
  intro free waiting
  cases step_touched (l := l) stepped with
  | same same elsewhere =>
    have queue : after.waiters l = s.waiters l := congrArg Semaphore.waiters same
    rw [same] at free
    rw [queue] at waiting
    obtain ⟨t, parked, absent⟩ := attended free waiting
    have other : t ≠ s.threads.current := by
      rintro rfl
      exact elsewhere parked
    exact ⟨t, parked_stays created effect other parked, queue ▸ absent⟩
  | dowm taken kept =>
    rw [taken] at free
    contradiction
  | up here queue =>
    rcases popWaiter_cases (s.waiters l) with ⟨_, answer⟩ | ⟨woken, rest, before, answer⟩
    · rw [queue, answer] at waiting
      exact absurd rfl waiting
    · have parked := (scheduled.waiting woken l (by rw [before]; exact List.mem_cons_self)).1
      have other : woken ≠ s.threads.current := by
        rintro rfl
        rw [here] at parked
        contradiction
      have nodup := scheduled.waitersNodup l
      rw [before] at nodup
      refine ⟨woken, parked_stays created effect other parked, ?_⟩
      rw [queue, answer]
      exact (List.nodup_cons.mp nodup).1

/-- No started thread has died. -/
def Alive (s : Kernel T L) : Prop := ∀ t, (s.pc t).Started → s.status t ≠ .died

omit [DecidableEq L] in
theorem alive_slept {status : TaskStatus} {pc : Pc T L} (alive : Alive s) (slept : FellAsleep s after status)
    (moved : after.pc = Function.update s.pc s.threads.current pc) : Alive after := by
  intro t started
  rw [slept.status t]
  by_cases next : t = after.threads.current
  · simp [next]
  · rw [if_neg next]
    by_cases current : t = s.threads.current
    · rw [if_pos current]
      rintro rfl
      cases slept.asleep
    · rw [if_neg current]
      rw [moved, Function.update_of_ne current] at started
      exact alive t started

theorem alive_preserved (scheduled : Scheduled s) (created : Created s) (alive : Alive s)
    (effect : Effect s a after) : Alive after := by
  have woke {woken : T} (roused : Woken s after woken)
      (started : ∀ t, (after.pc t).Started → (s.pc t).Started) : Alive after := by
    intro t now
    rw [roused.status t]
    by_cases same : t = woken
    · simp [same]
    · rw [if_neg same]
      exact alive t (started t now)
  have moved {pc : Pc T L} (moved : after.pc = Function.update s.pc s.threads.current pc) (t : T)
      (now : (after.pc t).Started) : (s.pc t).Started := by
    by_cases same : t = s.threads.current
    · rw [same]
      exact scheduled.currentStarted
    · rwa [moved, Function.update_of_ne same] at now
  have still (threads : after.status = s.status) (started : ∀ t, (after.pc t).Started → (s.pc t).Started) :
      Alive after := by
    intro t now
    rw [threads]
    exact alive t (started t now)
  cases effect with
  | quiet pc plain went threads =>
    exact still (funext fun t => by rw [Kernel.status, threads, Kernel.status]) (moved went.pc)
  | tick ready current status same waiters pc => exact still status fun t now => pc ▸ now
  | preempt switched waiters pc =>
    intro t now
    have status : after.status t = _ := switched.status t
    rw [status]
    split
    · simp
    · split
      · simp
      · exact alive t (pc ▸ now)
  | park l blocks absent slept went => exact alive_slept alive slept went.pc
  | wake l woken queue others roused went => exact woke roused (moved went.pc)
  | sleep status blocks slept went => exact alive_slept alive slept went.pc
  | unblock woken act roused waiters pc => exact woke roused fun t now => pc ▸ now
  | create c prio fresh was threads waiters pc =>
    intro t now
    rw [Kernel.status, threads]
    dsimp only
    by_cases same : t = c
    · rw [same] at now
      rw [pc] at now
      by_cases current : c = s.threads.current
      · rw [← current, fresh] at was
        contradiction
      · rw [Function.update_of_ne current, Function.update_self] at now
        exact now.elim
    · rw [Function.update_of_ne same]
      refine alive t ?_
      rw [pc] at now
      by_cases current : t = s.threads.current
      · rw [current]
        exact scheduled.currentStarted
      · rwa [Function.update_of_ne current, Function.update_of_ne same] at now
  | found c was absent threads waiters pc =>
    exact still (funext fun t => by rw [Kernel.status, threads, Kernel.status]) (moved pc)
  | enqueue c was threads waiters pc =>
    have young := created.preparing s.threads.current c (by rw [was]; rfl)
    intro t now
    rw [Kernel.status, threads]
    by_cases same : t = c
    · rw [same]
      have ready : (s.threads.task c).status = .ready := created.embryo c young
      rw [ready]
      simp
    · refine alive t ?_
      rw [pc] at now
      by_cases current : t = s.threads.current
      · rw [current]
        exact scheduled.currentStarted
      · rwa [Function.update_of_ne current, Function.update_of_ne same] at now
  | foundAll c was absent threads waiters pc =>
    exact still (funext fun t => by rw [Kernel.status, threads, Kernel.status]) (moved pc)
  | announce c was threads waiters pc =>
    exact still (funext fun t => by rw [Kernel.status, threads]; rfl) (moved pc)
  | execute c pgdir fresh was absent new threads waiters pc =>
    intro t now
    rw [Kernel.status, threads]
    dsimp only
    by_cases same : t = c
    · have other : c ≠ s.threads.mainThread := by
        rintro rfl
        have main := created.main
        rw [fresh] at main
        exact main
      rw [same, Function.update_self]
      simp [initThread, other]
    · rw [Function.update_of_ne same]
      rw [pc, Function.update_of_ne same] at now
      exact alive t now

/-- The runs in which `thread_unblock` takes no thread from a lock's queue. -/
theorem reachable_attended (reached : (system T L).ReachableBy ProperUnblock s) (l : L) :
    Attended s l ∧ Alive s := by
  have initial (s : Kernel T L) : (system T L).start s → Attended s l ∧ Alive s := by
    rintro ⟨mainThread, memory, rfl⟩
    refine ⟨fun _ waiting => absurd rfl waiting, ?_⟩
    intro t started
    by_cases main : t = mainThread
    · rw [main, boot_status]
      simp
    · simp [boot, main, Pc.Started] at started
  refine reached.invariant initial ?_
  rintro s a after reached ⟨attended, alive⟩ proper stepped
  obtain ⟨scheduled, created⟩ := reachable_scheduled (fun _ _ proper => proper) reached
  exact ⟨attended_preserved scheduled created attended stepped,
    alive_preserved scheduled created alive (step_effect stepped)⟩

/-- A free lock is never left with sleeping waiters only: while its semaphore is 1 and threads wait,
    a thread that `sema_up` took from the queue is ready or running and about to test the value again.
    All that wait are blocked in `sema_dowm`, and only `sema_up` takes one from the queue. -/
theorem waiters_attended (reached : (system T L).ReachableBy ProperUnblock s) (l : L) :
    ((s.lock l).semaphore.value = 1 → s.waiters l ≠ [] →
      ∃ t, s.Retesting l t ∧ (s.status t = .ready ∨ s.status t = .running)) ∧
    (∀ t ∈ s.waiters l, s.pc t = .dowmBlocked l ∧ s.status t = .blocked) ∧
    ∀ a after, s.step a = some (.ok after) → ∀ t ∈ s.waiters l, t ∉ after.waiters l →
      s.pc s.threads.current = .releaseUp l := by
  obtain ⟨scheduled, created⟩ := reachable_scheduled (fun _ _ proper => proper) reached
  obtain ⟨attended, alive⟩ := reachable_attended reached l
  refine ⟨?_, fun t => scheduled.waiting t l, ?_⟩
  · intro free waiting
    obtain ⟨t, retesting⟩ := attended free waiting
    refine ⟨t, retesting, ?_⟩
    have awake : (s.status t).asleep ≠ true := fun asleep =>
      retesting.2 (scheduled.parked t l retesting.1 asleep)
    have living := alive t (by rw [retesting.1]; exact True.intro)
    cases status : s.status t <;> simp_all [TaskStatus.asleep]
  · intro a after stepped t waits gone
    cases step_touched (l := l) stepped with
    | same same elsewhere => exact absurd (show t ∈ (after.lock l).semaphore.waiters from same ▸ waits) gone
    | dowm taken kept => exact absurd (kept t waits) gone
    | up here queue => exact here

/-- The main thread takes the lock, two others queue for it, and the main thread releases it. -/
def contention : List (Act Nat Unit) :=
  [.threadStart 1 31, .statement none, .statement none, .statement none, .statement none,
    .threadStart 2 31, .statement none, .statement none, .statement none, .statement none,
    .lockAcquire (), .statement none, .statement none, .statement none, .statement none, .statement none] ++
  List.replicate 32 (.clock none) ++
  [.lockAcquire (), .statement none, .statement none, .lockAcquire (), .statement none, .statement none,
    .lockRelease (), .statement none, .statement none, .statement none, .statement none, .statement none,
    .statement none]

theorem waiters_attended_contention : ∃ s : Kernel Nat Unit, (system Nat Unit).ReachableBy ProperUnblock s ∧
    s.waiters () = [2] ∧ ∃ t, s.Retesting () t := by
  have booted : (system Nat Unit).ReachableBy ProperUnblock (boot 0 fun _ => ⟨.died, 0, 0, 0, 0⟩) :=
    .start ⟨0, _, rfl⟩
  have run : ((system Nat Unit).execute (boot 0 fun _ => ⟨.died, 0, 0, 0, 0⟩) contention).map
      (fun s => ((s.lock ()).semaphore.value, s.waiters ())) = some (1, [2]) := by decide +kernel
  obtain ⟨s, executed, seen⟩ := Option.map_eq_some_iff.mp run
  obtain ⟨free, waiting⟩ := Prod.mk.inj seen
  have reached := booted.execute (by
    intro a member s
    simp only [contention, List.mem_append, List.mem_cons, List.mem_replicate, List.not_mem_nil] at member
    cases a <;> simp_all [ProperUnblock]) executed
  obtain ⟨t, retesting, _⟩ := (waiters_attended reached ()).1 free (by rw [waiting]; simp)
  exact ⟨s, reached, waiting, t, retesting⟩

end LiziOS.Kernel
