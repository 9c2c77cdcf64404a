import LiziOS.Kernel.SchedulerInvariant
import LiziOS.Kernel.LockProtocol

namespace LiziOS

variable {T L : Type*} [DecidableEq T] [DecidableEq L]

omit [DecidableEq T] in
/-- The place of a thread, as far as the lock `l` is concerned. -/
def Pc.stage (l : L) : Pc T L → Stage
  | .acquireTest m => if m = l then .acquireTest else .elsewhere
  | .acquireDowm m => if m = l then .acquireDowm else .elsewhere
  | .dowmBlocked m => if m = l then .dowmBlocked else .elsewhere
  | .acquireHolder m => if m = l then .acquireHolder else .elsewhere
  | .acquireAssert m => if m = l then .acquireAssert else .elsewhere
  | .acquireRepeat m => if m = l then .acquireRepeat else .elsewhere
  | .acquireNest m => if m = l then .acquireNest else .elsewhere
  | .releaseAssert m => if m = l then .releaseAssert else .elsewhere
  | .releaseTest m => if m = l then .releaseTest else .elsewhere
  | .releaseNest m => if m = l then .releaseNest else .elsewhere
  | .releaseOnce m => if m = l then .releaseOnce else .elsewhere
  | .releaseHolder m => if m = l then .releaseHolder else .elsewhere
  | .releaseRepeat m => if m = l then .releaseRepeat else .elsewhere
  | .releaseUp m => if m = l then .releaseUp else .elsewhere
  | _ => .elsewhere

namespace Kernel

variable {s after : Kernel T L} {a : Act T L}

def view (s : Kernel T L) (l : L) : LockView T where
  value := (s.lock l).semaphore.value
  holder := (s.lock l).holder
  holderRepeatNr := (s.lock l).holderRepeatNr
  stage := fun t => (s.pc t).stage l
  acquires := fun t => s.acquires t l
  releases := fun t => s.releases t l

/-- Only its holder releases a lock, and it is acquired less than `2 ^ 32` times in a row. -/
structure Disciplined (s : Kernel T L) (a : Act T L) : Prop where
  unblock : s.ProperUnblock a
  owned : ∀ l, a = .lockRelease l → (s.lock l).holder = some s.threads.current
  nesting : ∀ l, a = .lockAcquire l → (s.view l).depth s.threads.current + 1 < 2 ^ 32

/-- The view after the current thread has gone to another place. -/
theorem view_moved {l : L} {p : Pc T L}
    (moved : after.pc = Function.update s.pc s.threads.current p) :
    after.view l = { (s.view l).goto s.threads.current (p.stage l) with
      value := (after.lock l).semaphore.value
      holder := (after.lock l).holder
      holderRepeatNr := (after.lock l).holderRepeatNr
      acquires := fun t => after.acquires t l
      releases := fun t => after.releases t l } := by
  ext1 <;> try rfl
  funext t
  simp only [view, LockView.goto, moved]
  by_cases same : t = s.threads.current <;> simp [same]

/-- The current thread has gone to a place outside the code for the lock `l` from another one. -/
theorem view_elsewhere {l : L} {p : Pc T L}
    (moved : after.pc = Function.update s.pc s.threads.current p)
    (here : (s.pc s.threads.current).stage l = .elsewhere) (there : p.stage l = .elsewhere)
    (lock : after.lock l = s.lock l) (acquires : ∀ t, after.acquires t l = s.acquires t l)
    (releases : ∀ t, after.releases t l = s.releases t l) : after.view l = s.view l := by
  rw [view_moved moved, there, lock]
  ext1 <;> try rfl
  · funext t
    simp only [LockView.goto]
    by_cases same : t = s.threads.current
    · simp [same, view, here]
    · simp [same]
  · funext t
    exact acquires t
  · funext t
    exact releases t

theorem dowm_move {l m : L} {wanted : Option T}
    (at_ : s.pc s.threads.current = .acquireDowm m ∨ s.pc s.threads.current = .dowmBlocked m)
    (stepped : s.dowm m wanted = .ok after) :
    (s.view l).Move s.threads.current (after.view l) := by
  unfold dowm at stepped
  dsimp only at stepped
  split at stepped
  · contradiction
  · rename_i sema taken
    cases stepped
    by_cases same : m = l
    · subst m
      rcases semaDowm_cases taken with ⟨_, _, no, _⟩ | ⟨free, _, sema_eq⟩
      · contradiction
      · have here : (s.view l).stage s.threads.current = .acquireDowm ∨
            (s.view l).stage s.threads.current = .dowmBlocked := by
          rcases at_ with h | h <;> simp [view, h, Pc.stage]
        refine .dowm here free ((view_moved (p := .acquireHolder l) rfl).trans ?_)
        ext1 <;> simp [view, setLock, goto, Pc.stage, LockView.goto, sema_eq]
    · refine .stay (view_elsewhere rfl ?_ ?_ ?_ (fun _ => rfl) (fun _ => rfl))
      · rcases at_ with h | h <;> simp [h, Pc.stage, same]
      · simp [Pc.stage, same]
      · simp [goto, setLock, Ne.symm same]
  · rename_i sema taken
    cases blocked : threadBlock wanted .blocked s.threads with
    | error fault => simp [blocked, Except.map] at stepped
    | ok threads =>
      simp only [blocked, Except.map, Except.ok.injEq] at stepped
      subst after
      by_cases same : m = l
      · subst m
        rcases semaDowm_cases taken with ⟨empty, _, _, sema_eq⟩ | ⟨_, no, _⟩
        · have here : (s.view l).stage s.threads.current = .acquireDowm ∨
              (s.view l).stage s.threads.current = .dowmBlocked := by
            rcases at_ with h | h <;> simp [view, h, Pc.stage]
          refine .park here empty ((view_moved (p := .dowmBlocked l) rfl).trans ?_)
          ext1 <;> simp [view, setLock, setThreads, goto, Pc.stage, LockView.goto, sema_eq]
        · contradiction
      · refine .stay (view_elsewhere (p := .dowmBlocked m) rfl ?_ ?_ ?_ (fun _ => rfl)
          (fun _ => rfl))
        · rcases at_ with h | h <;> simp [h, Pc.stage, same]
        · simp [Pc.stage, same]
        · simp [goto, setLock, setThreads, Ne.symm same]

theorem up_move {l m : L} {middle : Kernel T L} (at_ : s.pc s.threads.current = .releaseUp m)
    (stepped : s.up m = .ok middle) :
    (s.view l).Move s.threads.current ((middle.released m).view l) := by
  have raised : ∃ sema threads, sema.value = 1 ∧ threads.current = s.threads.current ∧
      middle = (s.setLock m { s.lock m with semaphore := sema }).setThreads threads := by
    unfold up at stepped
    dsimp only at stepped
    split at stepped
    · contradiction
    · rename_i sema raised
      cases stepped
      exact ⟨sema, s.threads, (semaUp_cases raised).2.1, rfl, rfl⟩
    · rename_i sema woken raised
      cases unblocked : threadUnblock woken s.threads with
      | error fault => simp [unblocked, Except.map] at stepped
      | ok threads =>
        simp only [unblocked, Except.map, Except.ok.injEq] at stepped
        obtain ⟨-, -, same⟩ := threadUnblock_cases unblocked
        exact ⟨sema, threads, (semaUp_cases raised).2.1, by rw [same]; rfl, stepped.symm⟩
  obtain ⟨sema, threads, value, current, rfl⟩ := raised
  have moved : (((s.setLock m { s.lock m with semaphore := sema }).setThreads threads).released
      m).pc = Function.update s.pc s.threads.current .run :=
    congrArg (Function.update s.pc · .run) current
  by_cases same : m = l
  · subst m
    refine .up (by simp [view, at_, Pc.stage]) ((view_moved moved).trans ?_)
    ext1 <;> simp [view, setLock, setThreads, released, goto, Pc.stage, LockView.goto, value, current]
  · refine .stay (view_elsewhere moved ?_ rfl ?_ (fun _ => rfl) ?_)
    · simp [at_, Pc.stage, same]
    · simp [released, goto, setLock, setThreads, Ne.symm same]
    · simp [released, goto, setLock, setThreads, Ne.symm same]

theorem statement_move {l : L} {wanted : Option T} (stepped : s.statement wanted = some (.ok after))
    (embryo : ∀ c, (s.pc s.threads.current).preparing = some c → s.pc c = .embryo) :
    (s.view l).Move s.threads.current (after.view l) := by
  cases here : s.pc s.threads.current with
  | run | unborn | embryo => simp [statement, here] at stepped
  | acquireDowm m =>
    simp only [statement, here, Option.some.injEq] at stepped
    exact dowm_move (.inl here) stepped
  | dowmBlocked m =>
    simp only [statement, here, Option.some.injEq] at stepped
    exact dowm_move (.inr here) stepped
  | releaseUp m =>
    simp only [statement, here, Option.some.injEq] at stepped
    cases raised : s.up m with
    | error fault => simp [raised, Except.map] at stepped
    | ok middle =>
      simp only [raised, Except.map, Except.ok.injEq] at stepped
      subst after
      exact up_move here raised
  | acquireTest m =>
    simp only [statement, here, Option.some.injEq, Except.ok.injEq] at stepped
    subst after
    by_cases same : m = l
    · subst m
      refine .test (by simp [view, here, Pc.stage]) ((view_moved rfl).trans ?_)
      rw [apply_ite (Pc.stage l)]
      simp only [Pc.stage, ↓reduceIte]
      rfl
    · refine .stay (view_elsewhere rfl ?_ ?_ rfl (fun _ => rfl) (fun _ => rfl))
      · simp [here, Pc.stage, same]
      · split <;> simp [Pc.stage, same]
  | releaseTest m =>
    simp only [statement, here, Option.some.injEq, Except.ok.injEq] at stepped
    subst after
    by_cases same : m = l
    · subst m
      refine .count (by simp [view, here, Pc.stage]) ((view_moved rfl).trans ?_)
      rw [apply_ite (Pc.stage l)]
      simp only [Pc.stage, ↓reduceIte]
      rfl
    · refine .stay (view_elsewhere rfl ?_ ?_ rfl (fun _ => rfl) (fun _ => rfl))
      · simp [here, Pc.stage, same]
      · split <;> simp [Pc.stage, same]
  | acquireHolder m =>
    simp only [statement, here, Option.some.injEq, Except.ok.injEq] at stepped
    subst after
    by_cases same : m = l
    · subst m
      refine .hold (by simp [view, here, Pc.stage]) ((view_moved rfl).trans ?_)
      ext1 <;> simp [view, setLock, goto, Pc.stage, LockView.goto]
    · refine .stay (view_elsewhere rfl ?_ ?_ ?_ (fun _ => rfl) (fun _ => rfl)) <;>
        simp [here, Pc.stage, goto, setLock, same, Ne.symm same]
  | releaseHolder m =>
    simp only [statement, here, Option.some.injEq, Except.ok.injEq] at stepped
    subst after
    by_cases same : m = l
    · subst m
      refine .unhold (by simp [view, here, Pc.stage]) ((view_moved rfl).trans ?_)
      ext1 <;> simp [view, setLock, goto, Pc.stage, LockView.goto]
    · refine .stay (view_elsewhere rfl ?_ ?_ ?_ (fun _ => rfl) (fun _ => rfl)) <;>
        simp [here, Pc.stage, goto, setLock, same, Ne.symm same]
  | releaseRepeat m =>
    simp only [statement, here, Option.some.injEq, Except.ok.injEq] at stepped
    subst after
    by_cases same : m = l
    · subst m
      refine .clear (by simp [view, here, Pc.stage]) ((view_moved rfl).trans ?_)
      ext1 <;> simp [view, setLock, goto, Pc.stage, LockView.goto]
    · refine .stay (view_elsewhere rfl ?_ ?_ ?_ (fun _ => rfl) (fun _ => rfl)) <;>
        simp [here, Pc.stage, goto, setLock, same, Ne.symm same]
  | acquireRepeat m =>
    simp only [statement, here, Option.some.injEq, Except.ok.injEq] at stepped
    subst after
    by_cases same : m = l
    · subst m
      refine .enter (by simp [view, here, Pc.stage]) ((view_moved rfl).trans ?_)
      ext1 <;> simp [view, setLock, acquired, goto, Pc.stage, LockView.goto]
    · refine .stay (view_elsewhere rfl ?_ ?_ ?_ ?_ ?_) <;>
        simp [here, Pc.stage, acquired, goto, setLock, same, Ne.symm same]
  | acquireNest m =>
    simp only [statement, here, Option.some.injEq, Except.ok.injEq] at stepped
    subst after
    by_cases same : m = l
    · subst m
      refine .nest (by simp [view, here, Pc.stage]) ((view_moved rfl).trans ?_)
      ext1 <;> simp [view, setLock, acquired, goto, Pc.stage, LockView.goto]
    · refine .stay (view_elsewhere rfl ?_ ?_ ?_ ?_ ?_) <;>
        simp [here, Pc.stage, acquired, goto, setLock, same, Ne.symm same]
  | releaseNest m =>
    simp only [statement, here, Option.some.injEq, Except.ok.injEq] at stepped
    subst after
    by_cases same : m = l
    · subst m
      refine .unnest (by simp [view, here, Pc.stage]) ((view_moved rfl).trans ?_)
      ext1 <;> simp [view, setLock, released, goto, Pc.stage, LockView.goto]
    · refine .stay (view_elsewhere rfl ?_ ?_ ?_ ?_ ?_) <;>
        simp [here, Pc.stage, released, goto, setLock, same, Ne.symm same]
  | acquireAssert m =>
    simp only [statement, here, Option.some.injEq] at stepped
    split at stepped
    · cases stepped
      by_cases same : m = l
      · subst m
        refine .check (by simp [view, here, Pc.stage]) ((view_moved rfl).trans ?_)
        ext1 <;> simp [view, goto, Pc.stage, LockView.goto]
      · refine .stay (view_elsewhere rfl ?_ ?_ ?_ (fun _ => rfl) (fun _ => rfl)) <;>
          simp [here, Pc.stage, goto, same]
    · contradiction
  | releaseAssert m =>
    simp only [statement, here, Option.some.injEq] at stepped
    split at stepped
    · cases stepped
      by_cases same : m = l
      · subst m
        refine .owned (by simp [view, here, Pc.stage]) ((view_moved rfl).trans ?_)
        ext1 <;> simp [view, goto, Pc.stage, LockView.goto]
      · refine .stay (view_elsewhere rfl ?_ ?_ ?_ (fun _ => rfl) (fun _ => rfl)) <;>
          simp [here, Pc.stage, goto, same]
    · contradiction
  | releaseOnce m =>
    simp only [statement, here, Option.some.injEq] at stepped
    split at stepped
    · cases stepped
      by_cases same : m = l
      · subst m
        refine .once (by simp [view, here, Pc.stage]) ((view_moved rfl).trans ?_)
        ext1 <;> simp [view, goto, Pc.stage, LockView.goto]
      · refine .stay (view_elsewhere rfl ?_ ?_ ?_ (fun _ => rfl) (fun _ => rfl)) <;>
          simp [here, Pc.stage, goto, same]
    · contradiction
  | blocked | startAppendAll c =>
    simp only [statement, here, Option.some.injEq, Except.ok.injEq] at stepped
    subst after
    refine .stay (view_elsewhere (p := .run) rfl ?_ rfl rfl (fun _ => rfl) (fun _ => rfl))
    simp [here, Pc.stage]
  | startFind c =>
    simp only [statement, here, Option.some.injEq] at stepped
    split at stepped
    · contradiction
    · cases stepped
      refine .stay (view_elsewhere (p := .startAppend c) rfl ?_ rfl rfl (fun _ => rfl)
        (fun _ => rfl))
      simp [here, Pc.stage]
  | startFindAll c =>
    simp only [statement, here, Option.some.injEq] at stepped
    split at stepped
    · contradiction
    · cases stepped
      refine .stay (view_elsewhere (p := .startAppendAll c) rfl ?_ rfl rfl (fun _ => rfl)
        (fun _ => rfl))
      simp [here, Pc.stage]
  | startAppend c =>
    simp only [statement, here, Option.some.injEq, Except.ok.injEq] at stepped
    subst after
    refine .stay ?_
    have young := embryo c (by rw [here]; rfl)
    ext1 <;> try rfl
    funext t
    simp only [view, goto, setThreads, Function.update_apply]
    grind [Pc.stage]

/-- Every step of the kernel is a statement of the lock's code or leaves the lock alone. -/
theorem step_move {l : L} (created : Created s) (disciplined : Disciplined s a)
    (stepped : s.step a = some (.ok after)) :
    (s.view l).Move s.threads.current (after.view l) := by
  cases a with
  | statement wanted =>
    exact statement_move stepped (created.preparing s.threads.current)
  | clock wanted =>
    simp only [step] at stepped
    split at stepped
    · cases ticked : clockInterruptHandler wanted s.threads with
      | error fault => simp [ticked, Except.map] at stepped
      | ok threads =>
        simp only [ticked, Except.map, Option.some.injEq, Except.ok.injEq] at stepped
        subst after
        exact .stay rfl
    · contradiction
  | lockAcquire m =>
    simp only [step] at stepped
    split at stepped
    · rename_i here
      cases stepped
      by_cases same : m = l
      · subst m
        refine .callAcquire (by simp [view, here, Pc.stage]) (disciplined.nesting l rfl)
          ((view_moved rfl).trans ?_)
        ext1 <;> simp [view, goto, Pc.stage, LockView.goto]
      · refine .stay (view_elsewhere rfl ?_ ?_ rfl (fun _ => rfl) (fun _ => rfl)) <;>
          simp [here, Pc.stage, same]
    · contradiction
  | lockRelease m =>
    simp only [step] at stepped
    split at stepped
    · rename_i here
      cases stepped
      by_cases same : m = l
      · subst m
        refine .callRelease (by simp [view, here, Pc.stage]) (disciplined.owned l rfl)
          ((view_moved rfl).trans ?_)
        ext1 <;> simp [view, goto, Pc.stage, LockView.goto]
      · refine .stay (view_elsewhere rfl ?_ ?_ rfl (fun _ => rfl) (fun _ => rfl)) <;>
          simp [here, Pc.stage, same]
    · contradiction
  | threadBlock status wanted =>
    simp only [step] at stepped
    split at stepped
    · rename_i here
      cases blocked : threadBlock wanted status s.threads with
      | error fault => simp [blocked, Except.map] at stepped
      | ok threads =>
        simp only [blocked, Except.map, Option.some.injEq, Except.ok.injEq] at stepped
        subst after
        refine .stay (view_elsewhere (p := .blocked) rfl ?_ rfl rfl (fun _ => rfl) (fun _ => rfl))
        simp [here, Pc.stage]
    · contradiction
  | threadUnblock pthread =>
    simp only [step] at stepped
    split at stepped
    · cases woken : threadUnblock pthread s.threads with
      | error fault => simp [woken, Except.map] at stepped
      | ok threads =>
        simp only [woken, Except.map, Option.some.injEq, Except.ok.injEq] at stepped
        subst after
        exact .stay rfl
    · contradiction
  | threadStart c prio =>
    simp only [step] at stepped
    split at stepped
    · rename_i here
      cases stepped
      refine .stay ?_
      ext1 <;> try rfl
      funext t
      simp only [view, startThread, goto, setThreads, Threads.setTask_current, Function.update_apply]
      grind [Pc.stage]
    · contradiction
  | processExecute c pgdir =>
    simp only [step] at stepped
    split at stepped
    · rename_i here
      simp only [Option.some.injEq, executeProcess] at stepped
      split at stepped
      · contradiction
      · split at stepped
        · contradiction
        · cases stepped
          refine .stay ?_
          ext1 <;> try rfl
          funext t
          simp only [view, setThreads, Function.update_apply]
          grind [Pc.stage]
    · contradiction
  | work =>
    simp only [step] at stepped
    split at stepped
    · cases stepped
      exact .stay rfl
    · contradiction

theorem boot_guarded (mainThread : T) (memory : T → TaskStruct) (l : L) :
    ((boot mainThread memory : Kernel T L).view l).Guarded := by
  refine .free ⟨rfl, rfl, rfl, fun t => ⟨rfl, .inl ?_⟩⟩
  simp only [view, boot]
  split <;> rfl

theorem reachable_guarded (reached : (system T L).ReachableBy Disciplined s) (l : L) :
    (s.view l).Guarded := by
  have initial (s : Kernel T L) : (system T L).start s → (s.view l).Guarded := by
    rintro ⟨mainThread, memory, rfl⟩
    exact boot_guarded mainThread memory l
  refine reached.invariant initial ?_
  intro s a after reached guarded disciplined stepped
  obtain ⟨-, created⟩ := reachable_scheduled (fun _ _ disciplined => disciplined.unblock) reached
  exact LockView.guarded_preserved guarded (step_move created disciplined stepped)

/-- The checks of `sync.c`. -/
def lockSites : List Site := [.semaDowm, .semaUp, .lockAcquire, .lockRelease]

theorem lock_checks_pass (scheduled : Scheduled s) (guarded : ∀ l, (s.view l).Guarded)
    {site : Site} (listed : site ∈ lockSites) : s.step a ≠ some (.error (.panic site)) := by
  intro failed
  have owns {l : L} (stage : (s.view l).stage s.threads.current ≠ .elsewhere ∧
      (s.view l).stage s.threads.current ≠ .acquireTest ∧
      (s.view l).stage s.threads.current ≠ .acquireDowm ∧
      (s.view l).stage s.threads.current ≠ .dowmBlocked) : (s.view l).Owns s.threads.current := by
    have notOutside : ¬ (s.view l).Outside s.threads.current := by
      intro outside
      have := outside.stage
      grind
    cases guarded l with
    | free free => exact absurd (free.outside _) notOutside
    | owned owner owns outside =>
      by_cases same : s.threads.current = owner
      · exact same ▸ owns
      · exact absurd (outside _ same) notOutside
  cases step_failure failed with
  | dowm l here refused =>
    have absent : s.threads.current ∉ (s.lock l).semaphore.waiters := by
      intro waits
      have blocked := (scheduled.waiting _ l waits).2
      rw [scheduled.currentRunning] at blocked
      contradiction
    obtain ⟨result, passed⟩ := semaDowm_total (guarded l).binary absent
    simp [passed] at refused
  | up l here refused =>
    have owner := owns (l := l) (by simp [view, here, Pc.stage])
    obtain ⟨result, passed⟩ := semaUp_total owner.taken
    simp [passed] at refused
  | acquire l here held panicked =>
    have owner := (owns (l := l) (by simp [view, here, Pc.stage])).atStage
    simp only [view, here, Pc.stage, ↓reduceIte] at owner
    exact held owner.2.1
  | release l here stranger panicked =>
    have owner := (owns (l := l) (by simp [view, here, Pc.stage])).atStage
    simp only [view, here, Pc.stage, ↓reduceIte] at owner
    exact stranger owner.1
  | releaseOnce l here many panicked =>
    have owner := (owns (l := l) (by simp [view, here, Pc.stage])).atStage
    simp only [view, here, Pc.stage, ↓reduceIte] at owner
    exact many owner.2.1
  | block wanted status blocks given refused =>
    rcases threadBlock_error refused with h | h <;> cases h <;> simp [lockSites] at listed
  | wake l woken queued refused | unblock woken act refused =>
    cases threadUnblock_error refused; simp [lockSites] at listed
  | clock wanted refused =>
    rcases clockInterruptHandler_error refused with h | h <;> cases h <;> simp [lockSites] at listed
  | startReady c here queued panicked | startAll c here queued panicked
  | execute c fresh queued panicked => cases panicked; simp [lockSites] at listed

/-- Under any interleaving at most one thread is inside a lock, its semaphore stays binary, the
    lock is freed by the `lock_release` that undoes the outermost `lock_acquire` and by no other
    step, and no check of `sync.c` fails. -/
theorem lock_safety (reached : (system T L).ReachableBy Disciplined s) (l : L) :
    (∀ t u, s.releases t l < s.acquires t l → s.releases u l < s.acquires u l → t = u) ∧
    ((s.lock l).semaphore.value = 0 ∨ (s.lock l).semaphore.value = 1) ∧
    ((s.lock l).semaphore.value = 1 → ∀ t, s.acquires t l = s.releases t l) ∧
    (∀ a after, Disciplined s a → s.step a = some (.ok after) →
      ((s.lock l).semaphore.value = 0 ∧ (after.lock l).semaphore.value = 1 ↔
        s.releases s.threads.current l < s.acquires s.threads.current l ∧
        after.releases s.threads.current l = after.acquires s.threads.current l)) ∧
    ∀ a, ∀ site ∈ lockSites, s.step a ≠ some (.error (.panic site)) := by
  obtain ⟨scheduled, created⟩ :=
    reachable_scheduled (fun _ _ disciplined => disciplined.unblock) reached
  have guarded := reachable_guarded reached l
  refine ⟨fun t u => guarded.exclusive, guarded.binary, ?_, ?_, ?_⟩
  · intro free t
    cases guarded with
    | free free => exact (free.outside t).balanced
    | owned owner owns outside =>
      have taken : (s.lock l).semaphore.value = 0 := owns.taken
      simp [taken] at free
  · intro a after disciplined stepped
    exact guarded.freed_iff (step_move created disciplined stepped)
  · intro a site listed
    exact lock_checks_pass scheduled (reachable_guarded reached) listed

/-- The main thread holds the lock, so no other thread does. -/
theorem lock_safety_held : ∃ s : Kernel Nat Unit, (system Nat Unit).ReachableBy Disciplined s ∧
    s.acquires 0 () = 1 ∧ ∀ t, s.releases t () < s.acquires t () → t = 0 := by
  have booted : (system Nat Unit).ReachableBy Disciplined (boot 0 fun _ => ⟨.died, 0, 0, 0, 0⟩) :=
    .start ⟨0, _, rfl⟩
  have call : Disciplined (boot 0 (fun _ => ⟨.died, 0, 0, 0, 0⟩) : Kernel Nat Unit)
      (.lockAcquire ()) :=
    ⟨trivial, by rintro _ ⟨⟩, fun _ _ => by simp [LockView.depth, view, boot]⟩
  have called := booted.next call rfl
  obtain ⟨s, executed, acquires, releases⟩ : ∃ s, (system Nat Unit).execute
      ((boot 0 fun _ => ⟨.died, 0, 0, 0, 0⟩).goto (.acquireTest ()))
      (List.replicate 5 (.statement none)) = some s ∧ s.acquires 0 () = 1 ∧
      s.releases 0 () = 0 := ⟨_, rfl, rfl, rfl⟩
  have reached := called.execute (fun a listed s => by
    rw [List.eq_of_mem_replicate listed]
    exact ⟨trivial, by rintro _ ⟨⟩, by rintro _ ⟨⟩⟩) executed
  refine ⟨s, reached, acquires, fun t inside => ?_⟩
  exact (lock_safety reached ()).1 t 0 inside (by omega)

end Kernel

end LiziOS
