import Mathlib.Tactic.TypeStar

universe u

namespace LiziOS

abbrev U8 := BitVec 8
abbrev U16 := BitVec 16
abbrev U32 := BitVec 32

/-- `enum task_status`. -/
inductive TaskStatus where
  | running | ready | blocked | waiting | hanging | died
  deriving DecidableEq, Repr

/-- The functions that contain an `ASSERT` or a `PANIC`. -/
inductive Site where
  | bitmapRequestBits | vaddrGetPages | bindVaddrPaddrPage | mallocPages | getAPage
  | semaDowm | semaUp | lockAcquire | lockRelease
  | schedule | threadInit | threadStart | threadBlock | threadUnblock | clockInterruptHandler
  | processActivate | processExecute
  | ioqFull | ioqEmpty | ioqWait | wakeup | ioqGetchar | ioqPutchar
  deriving DecidableEq, Repr

/-- Why a call does not return: `panic_spin` was entered, an access met a page that is not
    present (the default handler never returns), or the caller went to sleep on a lock. -/
inductive Fault where
  | panic (site : Site)
  | pageFault
  | asleep
  deriving DecidableEq, Repr

/-- `ASSERT(condition)` in the function `site`. -/
def assert (condition : Bool) (site : Site) : Except Fault Unit :=
  if condition then .ok () else .error (.panic site)

@[simp] theorem assert_ok {condition : Bool} {site : Site} :
    assert condition site = .ok () ↔ condition = true := by
  cases condition <;> simp [assert]

theorem map_failed {α β : Type*} {call : Except Fault α} {f : α → β} {fault : Fault}
    (failed : call.map f = .error fault) : call = .error fault := by
  cases call with
  | error inner => simpa [Except.map] using failed
  | ok result => simp [Except.map] at failed

theorem bind_completed {α β : Type u} {call : Except Fault α} {f : α → Except Fault β} {b : β}
    (completed : call >>= f = .ok b) : ∃ a, call = .ok a ∧ f a = .ok b := by
  cases call with
  | error fault => cases completed
  | ok a => exact ⟨a, rfl, completed⟩

theorem map_completed {α β : Type*} {call : Except Fault α} {f : α → β} {b : β}
    (completed : call.map f = .ok b) : ∃ a, call = .ok a ∧ f a = b := by
  cases call with
  | error fault => cases completed
  | ok a => exact ⟨a, rfl, Except.ok.inj completed⟩

end LiziOS
