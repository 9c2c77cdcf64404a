import LiziOS.Kernel.LockSafety

namespace LiziOS

/-! The calls of `console.c`, which print between acquiring and releasing one lock. -/

/-- From the call of `lock_acquire` to its return, where the thread does not have the lock yet. -/
def Stage.acquiring : Stage → Bool
  | .acquireTest | .acquireDowm | .dowmBlocked | .acquireHolder | .acquireAssert | .acquireRepeat => true
  | _ => false

/-- From the call of `lock_release` to its return, where the lock has been acquired once. -/
def Stage.releasing : Stage → Bool
  | .releaseAssert | .releaseTest | .releaseOnce | .releaseHolder | .releaseRepeat | .releaseUp => true
  | _ => false

namespace LockView

variable {T : Type*} [DecidableEq T] {v after : LockView T} {t u : T}

/-- The thread has called `lock_acquire` and not yet `lock_release`. -/
inductive During (v : LockView T) (t : T) : Prop where
  | acquiring (stage : (v.stage t).acquiring = true) (counted : v.acquires t = v.releases t)
  | inside (stage : v.stage t = .elsewhere) (counted : v.acquires t = v.releases t + 1)

/-- The thread has called `lock_release` as often as `lock_acquire`. -/
inductive Beside (v : LockView T) (t : T) : Prop where
  | outside (stage : v.stage t = .elsewhere) (counted : v.acquires t = v.releases t)
  | releasing (stage : (v.stage t).releasing = true) (counted : v.acquires t = v.releases t + 1)

omit [DecidableEq T] in
theorem During.counted (during : v.During t) (stage : v.stage t = .elsewhere) :
    v.acquires t = v.releases t + 1 := by
  cases during with
  | acquiring acquiring counted =>
    rw [stage] at acquiring
    contradiction
  | inside stage counted => exact counted

omit [DecidableEq T] in
theorem Beside.counted (beside : v.Beside t) (stage : v.stage t = .elsewhere) : v.acquires t = v.releases t := by
  cases beside with
  | outside stage counted => exact counted
  | releasing releasing counted =>
    rw [stage] at releasing
    contradiction

theorem Move.other (move : v.Move t after) (other : u ≠ t) :
    after.stage u = v.stage u ∧ after.acquires u = v.acquires u ∧ after.releases u = v.releases u := by
  cases move <;> subst after <;> simp [goto, other]

theorem During.other (during : v.During u) (move : v.Move t after) (other : u ≠ t) : after.During u := by
  obtain ⟨stage, acquires, releases⟩ := move.other other
  cases during with
  | acquiring here counted => exact .acquiring (by rw [stage, here]) (by rw [acquires, releases, counted])
  | inside here counted => exact .inside (by rw [stage, here]) (by rw [acquires, releases, counted])

theorem Beside.other (beside : v.Beside u) (move : v.Move t after) (other : u ≠ t) : after.Beside u := by
  obtain ⟨stage, acquires, releases⟩ := move.other other
  cases beside with
  | outside here counted => exact .outside (by rw [stage, here]) (by rw [acquires, releases, counted])
  | releasing here counted => exact .releasing (by rw [stage, here]) (by rw [acquires, releases, counted])

omit [DecidableEq T] in
/-- A thread that has not acquired the lock is not taken to be its holder by `lock_acquire`. -/
theorem Guarded.not_held (guarded : v.Guarded) (here : v.stage t = .acquireTest)
    (counted : v.acquires t = v.releases t) : v.holder ≠ some t := by
  cases guarded with
  | free free => simp [free.holder]
  | owned owner owns outside =>
    by_cases same : t = owner
    · subst owner
      have state := owns.atStage
      rw [here] at state
      obtain ⟨-, positive, -, more⟩ := state
      omega
    · exact owns.not_held same

theorem During.step (during : v.During t) (guarded : v.Guarded) (move : v.Move t after)
    (inner : v.stage t = .elsewhere → after.stage t = .elsewhere) : after.During t := by
  cases during with
  | acquiring stage counted =>
    have on {stage : Stage} (same : after = { v.goto t stage with value := after.value, holder := after.holder })
        (next : stage.acquiring = true) : after.During t := by
      rw [same]
      exact .acquiring (by simpa [goto] using next) counted
    cases move with
    | stay same => exact same ▸ .acquiring stage counted
    | test here same =>
      rw [if_pos (guarded.not_held here counted)] at same
      exact on (by rw [same]) rfl
    | park here taken same => exact on (by rw [same]) rfl
    | dowm here free same => exact on (by rw [same]) rfl
    | hold here same => exact on (by rw [same]) rfl
    | check here same => exact on (by rw [same]) rfl
    | enter here same =>
      subst after
      exact .inside (by simp [goto]) (by simp [goto, counted])
    | callAcquire here | callRelease here | nest here | owned here | count here | unnest here | once here | unhold here
    | clear here | up here => simp [here, Stage.acquiring] at stage
  | inside stage counted =>
    have same := inner stage
    cases move with
    | stay same => exact same ▸ .inside stage counted
    | callAcquire here nesting moved | callRelease here holds moved =>
      rw [moved] at same
      simp [goto] at same
    | park here | dowm here => simp [stage] at here
    | test here | hold here | check here | enter here | nest here | owned here | count here | unnest here | once here
    | unhold here | clear here | up here => simp [stage] at here

theorem Beside.step (beside : v.Beside t) (guarded : v.Guarded) (move : v.Move t after)
    (inner : v.stage t = .elsewhere → after.stage t = .elsewhere) : after.Beside t := by
  cases beside with
  | outside stage counted =>
    have same := inner stage
    cases move with
    | stay same => exact same ▸ .outside stage counted
    | callAcquire here nesting moved | callRelease here holds moved =>
      rw [moved] at same
      simp [goto] at same
    | park here | dowm here => simp [stage] at here
    | test here | hold here | check here | enter here | nest here | owned here | count here | unnest here | once here
    | unhold here | clear here | up here => simp [stage] at here
  | releasing stage counted =>
    have on {stage : Stage} (same : after = { v.goto t stage with
          holder := after.holder, holderRepeatNr := after.holderRepeatNr })
        (next : stage.releasing = true) : after.Beside t := by
      rw [same]
      exact .releasing (by simpa [goto] using next) counted
    have owns := (guarded.inside (t := t) (by omega)).1.atStage
    cases move with
    | stay same => exact same ▸ .releasing stage counted
    | owned here same => exact on (by rw [same]) rfl
    | count here same =>
      rw [here] at owns
      have once : ¬ v.holderRepeatNr > 1 := by
        obtain ⟨-, -, more⟩ := owns
        bv_omega
      rw [if_neg once] at same
      exact on (by rw [same]) rfl
    | once here same => exact on (by rw [same]) rfl
    | unhold here same => exact on (by rw [same]) rfl
    | clear here same => exact on (by rw [same]) rfl
    | up here same =>
      subst after
      exact .outside (by simp [goto]) (by simp [goto, counted])
    | park here | dowm here => rcases here with here | here <;> simp [here, Stage.releasing] at stage
    | callAcquire here | callRelease here | test here | hold here | check here | enter here | nest here
    | unnest here => simp [here, Stage.releasing] at stage

end LockView

namespace Kernel

variable {T L : Type*} [DecidableEq T] [DecidableEq L] {s after : Kernel T L} {l : L} {a : Act T L}

omit [DecidableEq L] in
theorem up_current [DecidableEq L] {m : L} (raised : s.up m = .ok after) :
    after.threads.current = s.threads.current := by
  unfold up at raised
  dsimp only at raised
  split at raised
  · contradiction
  · cases raised
    rfl
  · obtain ⟨threads, unblocked, rfl⟩ := map_completed raised
    obtain ⟨-, -, rfl⟩ := threadUnblock_cases unblocked
    rfl

/-- A thread comes to the code for a lock by calling it. -/
theorem statement_elsewhere {wanted : Option T} (stepped : s.statement wanted = some (.ok after))
    (here : (s.pc s.threads.current).stage l = .elsewhere) :
    (after.pc s.threads.current).stage l = .elsewhere := by
  cases at_ : s.pc s.threads.current with
  | run | unborn | embryo => simp [statement, at_] at stepped
  | acquireTest m | releaseTest m =>
    have apart : m ≠ l := by simpa [at_, Pc.stage] using here
    simp only [statement, at_, Option.some.injEq, Except.ok.injEq] at stepped
    subst after
    simp only [goto, Function.update_self]
    split <;> simp [Pc.stage, apart]
  | acquireHolder m | acquireRepeat m | acquireNest m | releaseNest m | releaseHolder m | releaseRepeat m =>
    have apart : m ≠ l := by simpa [at_, Pc.stage] using here
    simp only [statement, at_, Option.some.injEq, Except.ok.injEq] at stepped
    subst after
    simp [goto, setLock, acquired, released, Pc.stage, apart]
  | blocked | startAppend c | startAppendAll c =>
    simp only [statement, at_, Option.some.injEq, Except.ok.injEq] at stepped
    subst after
    simp [goto, setThreads, Pc.stage]
  | acquireAssert m | releaseAssert m | releaseOnce m =>
    have apart : m ≠ l := by simpa [at_, Pc.stage] using here
    simp only [statement, at_, Option.some.injEq] at stepped
    split at stepped
    · cases stepped
      simp [goto, Pc.stage, apart]
    · contradiction
  | startFind c | startFindAll c =>
    simp only [statement, at_, Option.some.injEq] at stepped
    split at stepped
    · contradiction
    · cases stepped
      simp [goto, Pc.stage]
  | acquireDowm m | dowmBlocked m =>
    have apart : m ≠ l := by simpa [at_, Pc.stage] using here
    simp only [statement, at_, Option.some.injEq, dowm] at stepped
    split at stepped
    · contradiction
    · cases stepped
      simp [goto, setLock, Pc.stage, apart]
    · obtain ⟨threads, -, rfl⟩ := map_completed stepped
      simp [goto, setLock, setThreads, Pc.stage, apart]
  | releaseUp m =>
    simp only [statement, at_, Option.some.injEq] at stepped
    obtain ⟨middle, raised, rfl⟩ := map_completed stepped
    have current := up_current raised
    simp [released, goto, current, Pc.stage]

/-- Another step than a call of `lock_acquire` or `lock_release` does not either. -/
theorem step_elsewhere (stepped : s.step a = some (.ok after)) (notAcquire : a ≠ .lockAcquire l)
    (notRelease : a ≠ .lockRelease l) (here : (s.pc s.threads.current).stage l = .elsewhere) :
    (after.pc s.threads.current).stage l = .elsewhere := by
  cases a with
  | statement wanted => exact statement_elsewhere stepped here
  | clock wanted | threadUnblock pthread =>
    simp only [step] at stepped
    split at stepped
    · obtain ⟨threads, -, rfl⟩ := map_completed (Option.some.inj stepped)
      exact here
    · contradiction
  | lockAcquire m | lockRelease m =>
    have apart : m ≠ l := by
      rintro rfl
      contradiction
    simp only [step] at stepped
    split at stepped
    · cases stepped
      simp [goto, Pc.stage, apart]
    · contradiction
  | threadBlock status wanted =>
    simp only [step] at stepped
    split at stepped
    · obtain ⟨threads, -, rfl⟩ := map_completed (Option.some.inj stepped)
      simp [goto, setThreads, Pc.stage]
    · contradiction
  | threadStart c prio =>
    simp only [step] at stepped
    split at stepped
    · cases stepped
      simp [startThread, goto, setThreads, Pc.stage]
    · contradiction
  | processExecute c pgdir =>
    simp only [step] at stepped
    split at stepped
    · simp only [Option.some.injEq, executeProcess] at stepped
      split at stepped
      · contradiction
      · split at stepped
        · contradiction
        · cases stepped
          simp only [setThreads, Function.update_apply]
          split
          · rfl
          · exact here
    · contradiction
  | work =>
    simp only [step] at stepped
    split at stepped
    · cases stepped
      exact here
    · contradiction

omit [DecidableEq T] in
theorem elsewhere_of_run {t : T} (running : s.pc t = .run) : (s.view l).stage t = .elsewhere := by
  simp [view, running, Pc.stage]

theorem lockAcquire_cases (stepped : s.step (.lockAcquire l) = some (.ok after)) :
    s.pc s.threads.current = .run ∧ after = s.goto (.acquireTest l) := by
  simp only [step] at stepped
  split at stepped
  · rename_i here
    cases stepped
    exact ⟨here, rfl⟩
  · contradiction

theorem lockRelease_cases (stepped : s.step (.lockRelease l) = some (.ok after)) :
    s.pc s.threads.current = .run ∧ after = s.goto (.releaseAssert l) := by
  simp only [step] at stepped
  split at stepped
  · rename_i here
    cases stepped
    exact ⟨here, rfl⟩
  · contradiction

end Kernel

variable {T L : Type*}

/-- A call of `console_print_str`, `console_print_char` or `console_print_num`: what `printf` makes of its argument,
    and how many characters of it are on the screen. -/
structure PrintCall where
  text : List U8
  shown : Nat

/-- The threads, and what they print through the console. -/
structure Console (T L : Type*) where
  kernel : Kernel T L
  /-- the call that a thread is in, up to its `console_release` -/
  call : T → Option PrintCall
  screen : List U8
  /-- the texts of the calls that have come to their `console_release`, in order -/
  printed : List (List U8)

inductive ConsoleAct (T L : Type*) where
  | kernel (a : Act T L)
  /-- a thread calls one of the three functions, which calls `console_acquire` -/
  | print (text : List U8)
  /-- the next character of its `printf` -/
  | character
  /-- its `console_release` -/
  | release

/-- What happens while a thread is in a call: its next statement, and interrupts. -/
def Act.goesOn : Act T L → Bool
  | .statement _ | .clock _ | .threadUnblock _ => true
  | _ => false

def Act.calls [DecidableEq L] (l : L) : Act T L → Bool
  | .lockAcquire m | .lockRelease m => decide (m = l)
  | _ => false

namespace Console

variable [DecidableEq T] [DecidableEq L] {s t : Console T L} {consoleLock : L}

def run (s : Console T L) (a : Act T L) : Option (Except Fault (Console T L)) :=
  (s.kernel.step a).map fun done => done.map fun kernel => { s with kernel := kernel }

def setCall (s : Console T L) (call : Option PrintCall) : Console T L :=
  { s with call := Function.update s.call s.kernel.threads.current call }

/-- No other code knows the lock of the console. -/
def step (consoleLock : L) (s : Console T L) : ConsoleAct T L → Option (Except Fault (Console T L))
  | .kernel a =>
    if a.goesOn || (s.call s.kernel.threads.current).isNone && !a.calls consoleLock then s.run a else none
  | .print text =>
    match s.call s.kernel.threads.current with
    | none => (s.setCall (some ⟨text, 0⟩)).run (.lockAcquire consoleLock)
    | some _ => none
  | .character =>
    match s.kernel.pc s.kernel.threads.current, s.call s.kernel.threads.current with
    | .run, some ⟨text, shown⟩ =>
      text[shown]?.map fun c => .ok { s.setCall (some ⟨text, shown + 1⟩) with screen := s.screen ++ [c] }
    | _, _ => none
  | .release =>
    match s.call s.kernel.threads.current with
    | some ⟨text, shown⟩ =>
      if shown = text.length then
        ({ s.setCall none with printed := s.printed ++ [text] } : Console T L).run (.lockRelease consoleLock)
      else none
    | none => none

/-- After `console_init`. -/
structure Start (s : Console T L) : Prop where
  kernel : (Kernel.system T L).start s.kernel
  call : ∀ t, s.call t = none
  empty : s.screen = [] ∧ s.printed = []

def Permitted (s : Console T L) : ConsoleAct T L → Prop
  | .kernel a => s.kernel.Disciplined a
  | _ => True

def system (consoleLock : L) : Transition.System (Console T L) (ConsoleAct T L) Fault where
  start := Start
  step := step consoleLock

/-- The screen holds the texts of the calls that have ended, and of one more what its caller, who has the lock, has
    printed of it. -/
structure Serial (consoleLock : L) (s : Console T L) : Prop where
  during : ∀ t c, s.call t = some c → (s.kernel.view consoleLock).During t
  beside : ∀ t, s.call t = none → (s.kernel.view consoleLock).Beside t
  shown : ∀ t c, s.call t = some c → c.shown ≠ 0 → (s.kernel.view consoleLock).stage t = .elsewhere
  screen : ∃ part, s.screen = s.printed.flatten ++ part ∧
    (part = [] ∨ ∃ t c, s.call t = some c ∧ part = c.text.take c.shown) ∧
    ∀ t c, s.call t = some c → c.shown ≠ 0 → part = c.text.take c.shown

theorem run_completed {a : Act T L} (stepped : s.run a = some (.ok t)) :
    ∃ kernel, s.kernel.step a = some (.ok kernel) ∧ t = { s with kernel := kernel } := by
  obtain ⟨done, moved, result⟩ := Option.map_eq_some_iff.mp stepped
  obtain ⟨kernel, rfl, rfl⟩ := map_completed result
  exact ⟨kernel, moved, rfl⟩

theorem run_failed {a : Act T L} {fault : Fault} (failed : s.run a = some (.error fault)) :
    s.kernel.step a = some (.error fault) := by
  obtain ⟨done, moved, result⟩ := Option.map_eq_some_iff.mp failed
  rw [moved, map_failed result]

/-- Nobody else has printed anything of a call while the current thread is in its `printf`. -/
theorem Serial.alone (serial : Serial consoleLock s) (guarded : (s.kernel.view consoleLock).Guarded) {u : T}
    {c : PrintCall} (mine : s.call u = some c) (here : (s.kernel.view consoleLock).stage u = .elsewhere) :
    (∀ w d, w ≠ u → s.call w = some d → d.shown = 0) ∧
      s.screen = s.printed.flatten ++ c.text.take c.shown := by
  have alone (w : T) (d : PrintCall) (other : w ≠ u) (theirs : s.call w = some d) : d.shown = 0 := by
    by_contra some
    have first := (serial.during w d theirs).counted (serial.shown w d theirs some)
    have second := (serial.during u c mine).counted here
    exact other (guarded.exclusive (by omega) (by omega))
  obtain ⟨part, screen, origin, same⟩ := serial.screen
  refine ⟨alone, ?_⟩
  rw [screen]
  by_cases some : c.shown = 0
  · rw [some, List.take_zero]
    rcases origin with rfl | ⟨w, d, theirs, rfl⟩
    · rfl
    · have none : d.shown = 0 := by
        by_cases other : w = u
        · subst other
          rw [mine] at theirs
          cases theirs
          exact some
        · exact alone w d other theirs
      rw [none, List.take_zero]
  · rw [same u c mine some]

/-- A step of the kernel that leaves the calls as they are. -/
theorem Serial.kernel (serial : Serial consoleLock s) {kernel : Kernel T L}
    (guarded : (s.kernel.view consoleLock).Guarded)
    (move : (s.kernel.view consoleLock).Move s.kernel.threads.current (kernel.view consoleLock))
    (inner : (s.kernel.view consoleLock).stage s.kernel.threads.current = .elsewhere →
      (kernel.view consoleLock).stage s.kernel.threads.current = .elsewhere) :
    Serial consoleLock { s with kernel := kernel } := by
  constructor
  · intro u c mine
    by_cases same : u = s.kernel.threads.current
    · subst same
      exact (serial.during _ c mine).step guarded move inner
    · exact (serial.during u c mine).other move same
  · intro u none
    by_cases same : u = s.kernel.threads.current
    · subst same
      exact (serial.beside _ none).step guarded move inner
    · exact (serial.beside u none).other move same
  · intro u c mine some
    by_cases same : u = s.kernel.threads.current
    · subst same
      exact inner (serial.shown _ c mine some)
    · rw [(move.other same).1]
      exact serial.shown u c mine some
  · exact serial.screen

/-- The current thread, in its `printf`, has acquired the lock. -/
theorem Serial.holder (serial : Serial consoleLock s) (guarded : (s.kernel.view consoleLock).Guarded) {u : T}
    {c : PrintCall} (mine : s.call u = some c) (here : (s.kernel.view consoleLock).stage u = .elsewhere) :
    (s.kernel.lock consoleLock).holder = some u := by
  have counted := (serial.during u c mine).counted here
  have owns := (guarded.inside (t := u) (by omega)).1.atStage
  rw [here] at owns
  exact owns.1

omit [DecidableEq L] in
theorem setCall_self (s : Console T L) (call : Option PrintCall) :
    (s.setCall call).call s.kernel.threads.current = call := Function.update_self _ _ _

omit [DecidableEq L] in
theorem setCall_other {u : T} (other : u ≠ s.kernel.threads.current) (call : Option PrintCall) :
    (s.setCall call).call u = s.call u := Function.update_of_ne other _ _

omit [DecidableEq L] in
/-- The call is the current thread's new one, or another thread's. -/
theorem setCall_cases {u : T} {call found : Option PrintCall} (calls : (s.setCall call).call u = found) :
    (u = s.kernel.threads.current ∧ call = found) ∨ (u ≠ s.kernel.threads.current ∧ s.call u = found) := by
  by_cases same : u = s.kernel.threads.current
  · subst same
    exact .inl ⟨rfl, (setCall_self s call).symm.trans calls⟩
  · exact .inr ⟨same, (setCall_other same call).symm.trans calls⟩

theorem Serial.character (serial : Serial consoleLock s) (guarded : (s.kernel.view consoleLock).Guarded)
    {text : List U8} {shown : Nat} {c : U8} (mine : s.call s.kernel.threads.current = some ⟨text, shown⟩)
    (here : (s.kernel.view consoleLock).stage s.kernel.threads.current = .elsewhere) (next : text[shown]? = some c) :
    Serial consoleLock { s.setCall (some ⟨text, shown + 1⟩) with screen := s.screen ++ [c] } := by
  obtain ⟨alone, screen⟩ := serial.alone guarded mine here
  have more : text.take shown ++ [c] = text.take (shown + 1) := by
    rw [List.take_add_one, next]
    rfl
  constructor
  · intro u d calls
    rcases setCall_cases calls with ⟨rfl, -⟩ | ⟨-, theirs⟩
    · exact serial.during _ _ mine
    · exact serial.during u d theirs
  · intro u calls
    rcases setCall_cases calls with ⟨-, no⟩ | ⟨-, none⟩
    · contradiction
    · exact serial.beside u none
  · intro u d calls some
    rcases setCall_cases calls with ⟨rfl, -⟩ | ⟨-, theirs⟩
    · exact here
    · exact serial.shown u d theirs some
  · refine ⟨text.take (shown + 1), ?_, .inr ⟨_, _, setCall_self s _, rfl⟩, ?_⟩
    · change s.screen ++ [c] = _
      rw [screen, List.append_assoc, more]
      rfl
    · intro u d calls some
      rcases setCall_cases calls with ⟨rfl, same⟩ | ⟨other, theirs⟩
      · cases same
        rfl
      · exact absurd (alone u d other theirs) some

theorem Serial.print (serial : Serial consoleLock s) {kernel : Kernel T L} (text : List U8)
    (mine : s.call s.kernel.threads.current = none)
    (stepped : s.kernel.step (.lockAcquire consoleLock) = some (.ok kernel))
    (move : (s.kernel.view consoleLock).Move s.kernel.threads.current (kernel.view consoleLock)) :
    Serial consoleLock { s.setCall (some ⟨text, 0⟩) with kernel := kernel } := by
  obtain ⟨running, rfl⟩ := Kernel.lockAcquire_cases stepped
  have here : (s.kernel.view consoleLock).stage s.kernel.threads.current = .elsewhere :=
    Kernel.elsewhere_of_run running
  have counted := (serial.beside _ mine).counted here
  constructor
  · intro u d calls
    rcases setCall_cases calls with ⟨rfl, -⟩ | ⟨other, theirs⟩
    · exact .acquiring (by simp [Kernel.view, Kernel.goto, Pc.stage, Stage.acquiring]) counted
    · exact (serial.during u d theirs).other move other
  · intro u calls
    rcases setCall_cases calls with ⟨-, no⟩ | ⟨other, none⟩
    · contradiction
    · exact (serial.beside u none).other move other
  · intro u d calls some
    rcases setCall_cases calls with ⟨-, same⟩ | ⟨other, theirs⟩
    · cases same
      contradiction
    · rw [(move.other other).1]
      exact serial.shown u d theirs some
  · obtain ⟨part, screen, origin, shown⟩ := serial.screen
    refine ⟨part, screen, origin.imp_right ?_, ?_⟩
    · rintro ⟨u, d, theirs, rfl⟩
      have other : u ≠ s.kernel.threads.current := by
        rintro rfl
        rw [mine] at theirs
        contradiction
      exact ⟨u, d, (setCall_other other _).trans theirs, rfl⟩
    · intro u d calls some
      rcases setCall_cases calls with ⟨-, same⟩ | ⟨-, theirs⟩
      · cases same
        contradiction
      · exact shown u d theirs some

theorem Serial.release (serial : Serial consoleLock s) (guarded : (s.kernel.view consoleLock).Guarded)
    {kernel : Kernel T L} {text : List U8}
    (mine : s.call s.kernel.threads.current = some ⟨text, text.length⟩)
    (stepped : s.kernel.step (.lockRelease consoleLock) = some (.ok kernel))
    (move : (s.kernel.view consoleLock).Move s.kernel.threads.current (kernel.view consoleLock)) :
    Serial consoleLock { s.setCall none with kernel := kernel, printed := s.printed ++ [text] } := by
  obtain ⟨running, rfl⟩ := Kernel.lockRelease_cases stepped
  have here : (s.kernel.view consoleLock).stage s.kernel.threads.current = .elsewhere :=
    Kernel.elsewhere_of_run running
  obtain ⟨alone, screen⟩ := serial.alone guarded mine here
  have counted := (serial.during _ _ mine).counted here
  constructor
  · intro u d calls
    rcases setCall_cases calls with ⟨-, no⟩ | ⟨other, theirs⟩
    · contradiction
    · exact (serial.during u d theirs).other move other
  · intro u calls
    rcases setCall_cases calls with ⟨rfl, -⟩ | ⟨other, none⟩
    · exact .releasing (by simp [Kernel.view, Kernel.goto, Pc.stage, Stage.releasing]) counted
    · exact (serial.beside u none).other move other
  · intro u d calls some
    rcases setCall_cases calls with ⟨-, no⟩ | ⟨other, theirs⟩
    · contradiction
    · exact absurd (alone u d other theirs) some
  · refine ⟨[], ?_, .inl rfl, ?_⟩
    · change s.screen = (s.printed ++ [text]).flatten ++ []
      rw [screen, List.take_length, List.flatten_append, List.flatten_singleton, List.append_nil]
    · intro u d calls some
      rcases setCall_cases calls with ⟨-, no⟩ | ⟨other, theirs⟩
      · contradiction
      · exact absurd (alone u d other theirs) some

open Kernel (Disciplined)

omit [DecidableEq T] in
/-- A step that is not the console's does not call for its lock. -/
theorem not_calls {a : Act T L} {none : Bool} (allowed : (a.goesOn || none && !a.calls consoleLock) = true) :
    a ≠ .lockAcquire consoleLock ∧ a ≠ .lockRelease consoleLock := by
  constructor
  · rintro rfl
    simp [Act.goesOn, Act.calls] at allowed
  · rintro rfl
    simp [Act.goesOn, Act.calls] at allowed

theorem step_serial (reached : (Kernel.system T L).ReachableBy Disciplined s.kernel) (serial : Serial consoleLock s)
    {act : ConsoleAct T L} (permitted : Permitted s act) (stepped : step consoleLock s act = some (.ok t)) :
    (Kernel.system T L).ReachableBy Disciplined t.kernel ∧ Serial consoleLock t := by
  have guarded := Kernel.reachable_guarded reached consoleLock
  obtain ⟨-, created⟩ := Kernel.reachable_scheduled (fun _ _ disciplined => disciplined.unblock) reached
  cases act with
  | kernel a =>
    simp only [step] at stepped
    split at stepped
    · rename_i allowed
      obtain ⟨kernel, moved, rfl⟩ := run_completed stepped
      obtain ⟨notAcquire, notRelease⟩ := not_calls allowed
      exact ⟨reached.next permitted moved, serial.kernel guarded (Kernel.step_move created permitted moved)
        (Kernel.step_elsewhere moved notAcquire notRelease)⟩
    · contradiction
  | print text =>
    simp only [step] at stepped
    split at stepped
    · rename_i mine
      obtain ⟨kernel, moved, rfl⟩ := run_completed stepped
      have here : (s.kernel.view consoleLock).stage s.kernel.threads.current = .elsewhere :=
        Kernel.elsewhere_of_run (Kernel.lockAcquire_cases moved).1
      -- the caller does not have the lock yet
      have counted := (serial.beside _ mine).counted here
      have disciplined : s.kernel.Disciplined (.lockAcquire consoleLock) := by
        refine ⟨True.intro, by rintro _ ⟨⟩, ?_⟩
        rintro _ ⟨⟩
        rw [LockView.depth, counted]
        simp
      exact ⟨reached.next disciplined moved,
        serial.print text mine moved (Kernel.step_move created disciplined moved)⟩
    · contradiction
  | character =>
    simp only [step] at stepped
    split at stepped
    · rename_i text shown running mine
      obtain ⟨c, next, done⟩ := Option.map_eq_some_iff.mp stepped
      cases done
      exact ⟨reached, serial.character guarded mine (Kernel.elsewhere_of_run running) next⟩
    · contradiction
  | release =>
    simp only [step] at stepped
    split at stepped
    · rename_i text shown mine
      split at stepped
      · rename_i all
        subst all
        obtain ⟨kernel, moved, rfl⟩ := run_completed stepped
        have here : (s.kernel.view consoleLock).stage s.kernel.threads.current = .elsewhere :=
          Kernel.elsewhere_of_run (Kernel.lockRelease_cases moved).1
        have holder := serial.holder guarded mine here
        have disciplined : s.kernel.Disciplined (.lockRelease consoleLock) := by
          refine ⟨True.intro, ?_, by rintro _ ⟨⟩⟩
          rintro _ ⟨⟩
          exact holder
        exact ⟨reached.next disciplined moved,
          serial.release guarded mine moved (Kernel.step_move created disciplined moved)⟩
      · contradiction
    · contradiction

theorem reachable_serial (reached : (system consoleLock).ReachableBy Permitted s) :
    (Kernel.system T L).ReachableBy Disciplined s.kernel ∧ Serial consoleLock s := by
  induction reached with
  | @start s begun =>
    obtain ⟨⟨mainThread, memory, boot⟩, call, screen, printed⟩ := begun
    refine ⟨.start ⟨mainThread, memory, boot⟩, ?_, ?_, ?_, [], ?_, .inl rfl, ?_⟩
    · intro t c mine
      rw [call t] at mine
      contradiction
    · intro t _
      rw [boot]
      refine .outside ?_ rfl
      simp only [Kernel.view, Kernel.boot]
      split <;> rfl
    · intro t c mine
      rw [call t] at mine
      contradiction
    · rw [screen, printed]
      rfl
    · intro t c mine
      rw [call t] at mine
      contradiction
  | next earlier permitted stepped ih => exact step_serial ih.1 ih.2 permitted stepped

/-- The main thread alone. -/
def quiet : Console Nat Unit := ⟨Kernel.boot 0 fun _ => ⟨.died, 0, 0, 0, 0⟩, fun _ => none, [], []⟩

end Console

end LiziOS
