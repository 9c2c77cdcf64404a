import LiziOS.Kernel.List

namespace LiziOS

/-- `struct semaphore`. -/
structure Semaphore (T : Type*) where
  value : U8
  waiters : List T
  deriving DecidableEq

/-- `struct lock`; a `NULL` holder is `none`. -/
structure Lock (T : Type*) where
  holder : Option T
  semaphore : Semaphore T
  holderRepeatNr : U32
  deriving DecidableEq

variable {T : Type*}

def semaInit (value : U8) : Semaphore T := ⟨value, []⟩

/-- One turn of the loop of `sema_dowm`. The answer `false` means that the caller now stands in
    `waiters` and goes on with `thread_block`; it makes another turn when it runs again. -/
def semaDowm [DecidableEq T] (psema : Semaphore T) (running : T) : Except Fault (Semaphore T × Bool) :=
  if psema.value = 0 then
    if elemFind psema.waiters running then .error (.panic .semaDowm)
    else .ok ({ psema with waiters := listAppend psema.waiters running }, false)
  else if psema.value - 1 = 0 then .ok ({ psema with value := psema.value - 1 }, true)
  else .error (.panic .semaDowm)

/-- The waiter that `sema_up` takes from the queue, and the queue without it. -/
def popWaiter (waiters : List T) : Option T × List T :=
  if listEmpty waiters then (none, waiters)
  else match listPop waiters with
    | some (blocked, rest) => (some blocked, rest)
    | none => (none, waiters)

/-- `sema_up`, with the thread it hands to `thread_unblock`. -/
def semaUp (psema : Semaphore T) : Except Fault (Semaphore T × Option T) :=
  if psema.value ≠ 0 then .error (.panic .semaUp)
  else if psema.value + 1 ≠ 1 then .error (.panic .semaUp)
  else .ok (⟨psema.value + 1, (popWaiter psema.waiters).2⟩, (popWaiter psema.waiters).1)

def lockInit : Lock T := ⟨none, semaInit 1, 0⟩

/-- What `lock_acquire` does once `sema_dowm` has returned. -/
def lockTaken (plock : Lock T) (running : T) : Except Fault (Lock T) :=
  if plock.holderRepeatNr = 0 then .ok { plock with holder := some running, holderRepeatNr := 1 }
  else .error (.panic .lockAcquire)

/-- `lock_acquire` from its `sema_dowm` on, also when that goes on after a switch. -/
def lockDowm [DecidableEq T] (plock : Lock T) (running : T) : Except Fault (Lock T × Bool) :=
  match semaDowm plock.semaphore running with
  | .error fault => .error fault
  | .ok (sema, false) => .ok ({ plock with semaphore := sema }, false)
  | .ok (sema, true) => (lockTaken { plock with semaphore := sema } running).map (·, true)

/-- `lock_acquire` up to its return (`true`) or up to the `thread_block` inside it (`false`). -/
def lockAcquire [DecidableEq T] (plock : Lock T) (running : T) : Except Fault (Lock T × Bool) :=
  if plock.holder ≠ some running then lockDowm plock running
  else .ok ({ plock with holderRepeatNr := plock.holderRepeatNr + 1 }, true)

/-- `lock_release`, with the thread that the `sema_up` inside it wakes. -/
def lockRelease [DecidableEq T] (plock : Lock T) (running : T) : Except Fault (Lock T × Option T) :=
  if plock.holder ≠ some running then .error (.panic .lockRelease)
  else if plock.holderRepeatNr > 1 then
    .ok ({ plock with holderRepeatNr := plock.holderRepeatNr - 1 }, none)
  else if plock.holderRepeatNr ≠ 1 then .error (.panic .lockRelease)
  else match semaUp plock.semaphore with
    | .error fault => .error fault
    | .ok (sema, woken) => .ok (⟨none, sema, 0⟩, woken)

theorem semaDowm_cases [DecidableEq T] {psema after : Semaphore T} {running : T} {passed : Bool}
    (taken : semaDowm psema running = .ok (after, passed)) :
    (psema.value = 0 ∧ running ∉ psema.waiters ∧ passed = false ∧
      after = { psema with waiters := listAppend psema.waiters running }) ∨
    (psema.value = 1 ∧ passed = true ∧ after = { psema with value := 0 }) := by
  unfold semaDowm at taken
  split at taken
  · rename_i empty
    split at taken
    · contradiction
    · rename_i absent
      simp only [Except.ok.injEq, Prod.mk.injEq] at taken
      left
      exact ⟨empty, by simpa using absent, taken.2.symm, taken.1.symm⟩
  · split at taken
    · rename_i one
      simp only [Except.ok.injEq, Prod.mk.injEq] at taken
      right
      exact ⟨by bv_omega, taken.2.symm, by rw [← taken.1, one]⟩
    · contradiction

theorem popWaiter_cases (waiters : List T) :
    (waiters = [] ∧ popWaiter waiters = (none, [])) ∨
    ∃ blocked rest, waiters = blocked :: rest ∧ popWaiter waiters = (some blocked, rest) := by
  cases waiters with
  | nil => exact .inl ⟨rfl, rfl⟩
  | cons blocked rest => exact .inr ⟨blocked, rest, rfl, rfl⟩

theorem semaUp_cases {psema after : Semaphore T} {woken : Option T}
    (raised : semaUp psema = .ok (after, woken)) :
    psema.value = 0 ∧ after.value = 1 ∧ (woken, after.waiters) = popWaiter psema.waiters := by
  unfold semaUp at raised
  split at raised
  · contradiction
  · rename_i empty
    rw [not_not] at empty
    rw [empty, if_neg (by decide)] at raised
    simp only [Except.ok.injEq, Prod.mk.injEq] at raised
    obtain ⟨rfl, rfl⟩ := raised
    exact ⟨empty, rfl, rfl⟩

theorem semaDowm_error [DecidableEq T] {psema : Semaphore T} {running : T} {fault : Fault}
    (failed : semaDowm psema running = .error fault) : fault = .panic .semaDowm := by
  unfold semaDowm at failed
  grind

theorem semaUp_error {psema : Semaphore T} {fault : Fault} (failed : semaUp psema = .error fault) :
    fault = .panic .semaUp := by
  unfold semaUp at failed
  grind

/-- A semaphore whose value is 0 or 1 and whose queue does not name the caller lets it through or
    queues it. -/
theorem semaDowm_total [DecidableEq T] {psema : Semaphore T} {running : T}
    (binary : psema.value = 0 ∨ psema.value = 1) (absent : running ∉ psema.waiters) :
    ∃ result, semaDowm psema running = .ok result := by
  unfold semaDowm
  rcases binary with zero | one
  · rw [if_pos zero, if_neg (by simpa using absent)]
    exact ⟨_, rfl⟩
  · rw [if_neg (by rw [one]; decide), if_pos (by rw [one]; decide)]
    exact ⟨_, rfl⟩

theorem semaUp_total {psema : Semaphore T} (empty : psema.value = 0) :
    ∃ result, semaUp psema = .ok result := by
  unfold semaUp
  rw [empty, if_neg (by decide), if_neg (by decide)]
  exact ⟨_, rfl⟩

/-- The lock outside `lock_acquire` and `lock_release`, when nobody has it or `t` has it once. -/
def Lock.Free (plock : Lock T) : Prop :=
  plock.holder = none ∧ plock.semaphore.value = 1 ∧ plock.holderRepeatNr = 0

def Lock.HeldBy (plock : Lock T) (t : T) : Prop :=
  plock.holder = some t ∧ plock.semaphore.value = 0 ∧ plock.holderRepeatNr = 1

theorem lockDowm_free [DecidableEq T] {plock : Lock T} (free : plock.Free) (t : T) :
    lockDowm plock t = .ok (⟨some t, ⟨0, plock.semaphore.waiters⟩, 1⟩, true) := by
  obtain ⟨holder, value, repeatNr⟩ := free
  have passed : semaDowm plock.semaphore t = .ok (⟨0, plock.semaphore.waiters⟩, true) := by
    unfold semaDowm
    rw [value, if_neg (by decide), if_pos (by decide)]
    rfl
  simp [lockDowm, passed, lockTaken, repeatNr, Except.map]

theorem lockDowm_held [DecidableEq T] {plock : Lock T} {t u : T} (held : plock.HeldBy u)
    (absent : t ∉ plock.semaphore.waiters) :
    lockDowm plock t = .ok ({ plock with semaphore := { plock.semaphore with
      waiters := listAppend plock.semaphore.waiters t } }, false) := by
  have queued : semaDowm plock.semaphore t = .ok ({ plock.semaphore with
      waiters := listAppend plock.semaphore.waiters t }, false) := by
    unfold semaDowm
    rw [if_pos held.2.1, if_neg (by simpa using absent)]
  simp [lockDowm, queued]

theorem lockRelease_held [DecidableEq T] {plock : Lock T} {t : T} (held : plock.HeldBy t) :
    lockRelease plock t = .ok (⟨none, ⟨1, (popWaiter plock.semaphore.waiters).2⟩, 0⟩,
      (popWaiter plock.semaphore.waiters).1) := by
  obtain ⟨holder, value, repeatNr⟩ := held
  have raised : semaUp plock.semaphore = .ok (⟨1, (popWaiter plock.semaphore.waiters).2⟩,
      (popWaiter plock.semaphore.waiters).1) := by
    unfold semaUp
    rw [value, if_neg (by decide), if_neg (by decide)]
    rfl
  unfold lockRelease
  rw [if_neg (by simp [holder]), repeatNr, if_neg (by decide), if_neg (by decide), raised]

end LiziOS
