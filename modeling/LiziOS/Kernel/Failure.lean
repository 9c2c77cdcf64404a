import LiziOS.Kernel.Scheduling

namespace LiziOS.Kernel

variable {T L : Type*} [DecidableEq T] [DecidableEq L] {s : Kernel T L} {a : Act T L}
  {fault : Fault}

/-- Every way in which a step ends at a failed check. -/
inductive Failure (s : Kernel T L) (a : Act T L) (fault : Fault) : Prop where
  | dowm (l : L) (here : s.pc s.threads.current = .acquireDowm l ∨
        s.pc s.threads.current = .dowmBlocked l)
      (failed : semaDowm (s.lock l).semaphore s.threads.current = .error fault)
  | up (l : L) (here : s.pc s.threads.current = .releaseUp l)
      (failed : semaUp (s.lock l).semaphore = .error fault)
  | acquire (l : L) (here : s.pc s.threads.current = .acquireAssert l)
      (held : (s.lock l).holderRepeatNr ≠ 0) (panicked : fault = .panic .lockAcquire)
  | release (l : L) (here : s.pc s.threads.current = .releaseAssert l)
      (stranger : (s.lock l).holder ≠ some s.threads.current)
      (panicked : fault = .panic .lockRelease)
  | releaseOnce (l : L) (here : s.pc s.threads.current = .releaseOnce l)
      (many : (s.lock l).holderRepeatNr ≠ 1) (panicked : fault = .panic .lockRelease)
  | block (wanted : Option T) (status : TaskStatus) (blocks : s.Blocks a)
      (given : status = .blocked ∨ a = .threadBlock status wanted)
      (failed : threadBlock wanted status s.threads = .error fault)
  | wake (l : L) (woken : T) (queued : woken ∈ s.waiters l)
      (failed : threadUnblock woken s.threads = .error fault)
  | unblock (woken : T) (act : a = .threadUnblock woken)
      (failed : threadUnblock woken s.threads = .error fault)
  | clock (wanted : Option T) (failed : clockInterruptHandler wanted s.threads = .error fault)
  | startReady (c : T) (here : s.pc s.threads.current = .startFind c)
      (listed : c ∈ s.threads.readyList) (panicked : fault = .panic .threadStart)
  | startAll (c : T) (here : s.pc s.threads.current = .startFindAll c)
      (listed : c ∈ s.threads.allList) (panicked : fault = .panic .threadStart)
  | execute (c : T) (fresh : s.pc c = .unborn)
      (listed : c ∈ s.threads.readyList ∨ c ∈ s.threads.allList)
      (panicked : fault = .panic .processExecute)

theorem dowm_failure {l : L} {wanted : Option T}
    (here : s.pc s.threads.current = .acquireDowm l ∨ s.pc s.threads.current = .dowmBlocked l)
    (failed : s.dowm l wanted = .error fault) : Failure s (.statement wanted) fault := by
  unfold dowm at failed
  dsimp only at failed
  split at failed
  · rename_i inner taken
    cases failed
    exact .dowm l here taken
  · contradiction
  · rename_i sema taken
    rcases semaDowm_cases taken with ⟨empty, _⟩ | ⟨_, no, _⟩
    · cases blocked : threadBlock wanted .blocked s.threads with
      | error inner =>
        simp only [blocked, Except.map, Except.error.injEq] at failed
        subst inner
        exact .block wanted .blocked ⟨l, here, empty⟩ (.inl rfl) blocked
      | ok threads => simp [blocked, Except.map] at failed
    · contradiction

theorem up_failure {l : L} (here : s.pc s.threads.current = .releaseUp l)
    (failed : s.up l = .error fault) : Failure s a fault := by
  unfold up at failed
  dsimp only at failed
  split at failed
  · rename_i inner raised
    cases failed
    exact .up l here raised
  · contradiction
  · rename_i sema woken raised
    obtain ⟨_, _, popped⟩ := semaUp_cases raised
    cases unblocked : threadUnblock woken s.threads with
    | error inner =>
      simp only [unblocked, Except.map, Except.error.injEq] at failed
      subst inner
      refine .wake l woken ?_ unblocked
      rcases popWaiter_cases (s.lock l).semaphore.waiters with ⟨_, answer⟩ | ⟨b, r, queue, answer⟩
      · rw [answer] at popped
        cases popped
      · rw [answer] at popped
        obtain ⟨rfl, rfl⟩ : woken = b ∧ sema.waiters = r := by simpa using popped
        rw [waiters, queue]
        exact List.mem_cons_self
    | ok threads => simp [unblocked, Except.map] at failed

theorem statement_failure {wanted : Option T} (failed : s.statement wanted = some (.error fault)) :
    Failure s (.statement wanted) fault := by
  cases here : s.pc s.threads.current with
  | run | unborn | embryo => simp [statement, here] at failed
  | acquireTest l | acquireHolder l | acquireRepeat l | acquireNest l | releaseTest l
  | releaseNest l | releaseHolder l | releaseRepeat l => simp [statement, here] at failed
  | blocked | startAppend c | startAppendAll c => simp [statement, here] at failed
  | acquireDowm l =>
    simp only [statement, here, Option.some.injEq] at failed
    exact dowm_failure (.inl here) failed
  | dowmBlocked l =>
    simp only [statement, here, Option.some.injEq] at failed
    exact dowm_failure (.inr here) failed
  | acquireAssert l =>
    simp only [statement, here, Option.some.injEq] at failed
    split at failed
    · contradiction
    · rename_i held
      cases failed
      exact .acquire l here held rfl
  | releaseAssert l =>
    simp only [statement, here, Option.some.injEq] at failed
    split at failed
    · contradiction
    · rename_i stranger
      cases failed
      exact .release l here stranger rfl
  | releaseOnce l =>
    simp only [statement, here, Option.some.injEq] at failed
    split at failed
    · contradiction
    · rename_i many
      cases failed
      exact .releaseOnce l here many rfl
  | releaseUp l =>
    simp only [statement, here, Option.some.injEq] at failed
    cases raised : s.up l with
    | error inner =>
      simp only [raised, Except.map, Except.error.injEq] at failed
      subst inner
      exact up_failure here raised
    | ok middle => simp [raised, Except.map] at failed
  | startFind c =>
    simp only [statement, here, Option.some.injEq] at failed
    split at failed
    · rename_i listed
      cases failed
      exact .startReady c here (elemFind_iff.mp listed) rfl
    · contradiction
  | startFindAll c =>
    simp only [statement, here, Option.some.injEq] at failed
    split at failed
    · rename_i listed
      cases failed
      exact .startAll c here (elemFind_iff.mp listed) rfl
    · contradiction

theorem step_failure (failed : s.step a = some (.error fault)) : Failure s a fault := by
  cases a with
  | statement wanted => exact statement_failure failed
  | clock wanted =>
    simp only [step] at failed
    split at failed
    · simp only [Option.some.injEq] at failed
      exact .clock wanted (map_failed failed)
    · contradiction
  | threadBlock status wanted =>
    simp only [step] at failed
    split at failed
    · simp only [Option.some.injEq] at failed
      exact .block wanted status trivial (.inr rfl) (map_failed failed)
    · contradiction
  | threadUnblock woken =>
    simp only [step] at failed
    split at failed
    · simp only [Option.some.injEq] at failed
      exact .unblock woken rfl (map_failed failed)
    · contradiction
  | processExecute c pgdir =>
    simp only [step] at failed
    split at failed
    · rename_i here
      simp only [Option.some.injEq, executeProcess] at failed
      split at failed
      · rename_i listed
        cases failed
        exact .execute c here.2 (.inl (by simpa using listed)) rfl
      · split at failed
        · rename_i listed
          cases failed
          exact .execute c here.2 (.inr (by simpa using listed)) rfl
        · contradiction
    · contradiction
  | lockAcquire l | lockRelease l | threadStart c prio | work =>
    simp only [step] at failed
    split at failed <;> simp at failed

end LiziOS.Kernel
