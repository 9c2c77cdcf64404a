import LiziOS.Types
import Mathlib.Algebra.Group.Nat.Defs
import Mathlib.Logic.Function.Basic

namespace LiziOS

/-- Where a thread stands with respect to one lock. -/
inductive Stage where
  | elsewhere
  | acquireTest | acquireDowm | dowmBlocked | acquireHolder | acquireAssert | acquireRepeat
  | acquireNest
  | releaseAssert | releaseTest | releaseNest | releaseOnce | releaseHolder | releaseRepeat
  | releaseUp
  deriving DecidableEq

/-- One lock seen by itself: its fields, where every thread stands and its completed calls. -/
@[ext] structure LockView (T : Type*) where
  value : U8
  holder : Option T
  holderRepeatNr : U32
  stage : T → Stage
  acquires : T → Nat
  releases : T → Nat

namespace LockView

variable {T : Type*} [DecidableEq T] {v after : LockView T} {t u : T}

def goto (v : LockView T) (t : T) (stage : Stage) : LockView T :=
  { v with stage := Function.update v.stage t stage }

/-- The calls of `lock_acquire` that the thread has not undone. -/
def depth (v : LockView T) (t : T) : Nat := v.acquires t - v.releases t

/-- The statements of `lock_acquire` and `lock_release` executed by the thread `t`. -/
inductive Move (v : LockView T) (t : T) (after : LockView T) : Prop where
  | stay (same : after = v)
  | callAcquire (here : v.stage t = .elsewhere) (nesting : v.depth t + 1 < 2 ^ 32)
      (same : after = v.goto t .acquireTest)
  | callRelease (here : v.stage t = .elsewhere) (holds : v.holder = some t)
      (same : after = v.goto t .releaseAssert)
  | test (here : v.stage t = .acquireTest)
      (same : after = v.goto t (if v.holder ≠ some t then .acquireDowm else .acquireNest))
  | park (here : v.stage t = .acquireDowm ∨ v.stage t = .dowmBlocked) (taken : v.value = 0)
      (same : after = v.goto t .dowmBlocked)
  | dowm (here : v.stage t = .acquireDowm ∨ v.stage t = .dowmBlocked) (free : v.value = 1)
      (same : after = { v.goto t .acquireHolder with value := 0 })
  | hold (here : v.stage t = .acquireHolder)
      (same : after = { v.goto t .acquireAssert with holder := some t })
  | check (here : v.stage t = .acquireAssert) (same : after = v.goto t .acquireRepeat)
  | enter (here : v.stage t = .acquireRepeat)
      (same : after = { v.goto t .elsewhere with
        holderRepeatNr := 1, acquires := fun u => if u = t then v.acquires u + 1 else v.acquires u })
  | nest (here : v.stage t = .acquireNest)
      (same : after = { v.goto t .elsewhere with
        holderRepeatNr := v.holderRepeatNr + 1
        acquires := fun u => if u = t then v.acquires u + 1 else v.acquires u })
  | owned (here : v.stage t = .releaseAssert) (same : after = v.goto t .releaseTest)
  | count (here : v.stage t = .releaseTest)
      (same : after = v.goto t (if v.holderRepeatNr > 1 then .releaseNest else .releaseOnce))
  | unnest (here : v.stage t = .releaseNest)
      (same : after = { v.goto t .elsewhere with
        holderRepeatNr := v.holderRepeatNr - 1
        releases := fun u => if u = t then v.releases u + 1 else v.releases u })
  | once (here : v.stage t = .releaseOnce) (same : after = v.goto t .releaseHolder)
  | unhold (here : v.stage t = .releaseHolder)
      (same : after = { v.goto t .releaseRepeat with holder := none })
  | clear (here : v.stage t = .releaseRepeat)
      (same : after = { v.goto t .releaseUp with holderRepeatNr := 0 })
  | up (here : v.stage t = .releaseUp)
      (same : after = { v.goto t .elsewhere with
        value := 1, releases := fun u => if u = t then v.releases u + 1 else v.releases u })

/-- What the fields of the lock and the counts of its owner `t` are while `t` stands at a stage. -/
def AtStage (v : LockView T) (t : T) : Stage → Prop
  | .acquireHolder => v.holder = none ∧ v.holderRepeatNr = 0 ∧ v.acquires t = v.releases t
  | .acquireAssert | .acquireRepeat =>
    v.holder = some t ∧ v.holderRepeatNr = 0 ∧ v.acquires t = v.releases t
  | .acquireTest | .acquireNest => v.holder = some t ∧ 1 ≤ v.holderRepeatNr.toNat ∧
    v.holderRepeatNr.toNat + 1 < 2 ^ 32 ∧ v.acquires t = v.releases t + v.holderRepeatNr.toNat
  | .elsewhere | .releaseAssert | .releaseTest => v.holder = some t ∧
    1 ≤ v.holderRepeatNr.toNat ∧ v.acquires t = v.releases t + v.holderRepeatNr.toNat
  | .releaseNest => v.holder = some t ∧ 1 < v.holderRepeatNr.toNat ∧
    v.acquires t = v.releases t + v.holderRepeatNr.toNat
  | .releaseOnce | .releaseHolder =>
    v.holder = some t ∧ v.holderRepeatNr = 1 ∧ v.acquires t = v.releases t + 1
  | .releaseRepeat => v.holder = none ∧ v.holderRepeatNr = 1 ∧ v.acquires t = v.releases t + 1
  | .releaseUp => v.holder = none ∧ v.holderRepeatNr = 0 ∧ v.acquires t = v.releases t + 1
  | .acquireDowm | .dowmBlocked => False

/-- What holds of the thread that has passed `sema_dowm` and has not yet made its `sema_up`. -/
structure Owns (v : LockView T) (t : T) : Prop where
  taken : v.value = 0
  atStage : v.AtStage t (v.stage t)

/-- What holds of every other thread. -/
structure Outside (v : LockView T) (t : T) : Prop where
  balanced : v.acquires t = v.releases t
  stage : v.stage t = .elsewhere ∨ v.stage t = .acquireTest ∨ v.stage t = .acquireDowm ∨
    v.stage t = .dowmBlocked

structure Free (v : LockView T) : Prop where
  value : v.value = 1
  holder : v.holder = none
  holderRepeatNr : v.holderRepeatNr = 0
  outside : ∀ t, v.Outside t

/-- The lock is free, or one thread owns it. -/
inductive Guarded (v : LockView T) : Prop where
  | free (free : v.Free)
  | owned (t : T) (owns : v.Owns t) (outside : ∀ u, u ≠ t → v.Outside u)

theorem Outside.moved (outside : v.Outside u) (other : u ≠ t) (move : v.Move t after) :
    after.Outside u := by
  obtain ⟨balanced, stage⟩ := outside
  cases move <;> subst after <;> constructor <;> simpa [goto, other]

theorem guarded_free (free : v.Free) (move : v.Move t after) : after.Guarded := by
  obtain ⟨value, holder, repeatNr, outside⟩ := free
  have others (u : T) (other : u ≠ t) : after.Outside u := (outside u).moved other move
  have own := outside t
  obtain ⟨balanced, stage⟩ := own
  have free (core : after.value = 1 ∧ after.holder = none ∧ after.holderRepeatNr = 0)
      (outside : after.Outside t) : after.Guarded := by
    refine .free ⟨core.1, core.2.1, core.2.2, fun u => ?_⟩
    by_cases same : u = t
    · exact same ▸ outside
    · exact others u same
  cases move with
  | dowm here one same =>
    subst after
    refine .owned t ⟨rfl, ?_⟩ others
    simp only [goto, Function.update_self]
    exact ⟨holder, repeatNr, balanced⟩
  | stay same | callAcquire here nesting same | park here taken same =>
    subst after
    refine free ⟨value, holder, repeatNr⟩ ⟨balanced, ?_⟩
    simp [goto, stage]
  | test here same =>
    subst after
    refine free ⟨value, holder, repeatNr⟩ ⟨balanced, ?_⟩
    simp [goto, holder]
  | _ => simp_all

omit [DecidableEq T] in
theorem Owns.not_held (owns : v.Owns t) (other : u ≠ t) : v.holder ≠ some u := by
  obtain ⟨-, state⟩ := owns
  intro held
  cases here : v.stage t <;> rw [here] at state <;> simp [AtStage, held, other] at state

/-- Another thread moves: the lock itself stays as it is. -/
theorem owns_other (owns : v.Owns t) (outside : v.Outside u) (other : u ≠ t)
    (move : v.Move u after) : after.Owns t ∧ after.Outside u := by
  have holder := owns.not_held other
  obtain ⟨balanced, stage⟩ := outside
  have keep {stage : Stage} (same : after = v.goto u stage)
      (stages : stage = .elsewhere ∨ stage = .acquireTest ∨ stage = .acquireDowm ∨
        stage = .dowmBlocked) : after.Owns t ∧ after.Outside u := by
    subst after
    constructor
    · obtain ⟨taken, state⟩ := owns
      refine ⟨taken, ?_⟩
      have still : (v.goto u stage).stage t = v.stage t := Function.update_of_ne other.symm _ _
      rw [still]
      cases here : v.stage t <;> rw [here] at state <;> exact state
    · exact ⟨balanced, by simpa [goto] using stages⟩
  cases move with
  | stay same =>
    subst after
    exact ⟨owns, balanced, stage⟩
  | callAcquire here nesting same => exact keep same (by simp)
  | test here same => exact keep same (by simp [holder])
  | park here taken same => exact keep same (by simp)
  | dowm here free same => simp [owns.taken] at free
  | _ => simp_all

/-- The owner moves: it stays the owner, or it makes its `sema_up` and the lock is free. -/
theorem owns_self (owns : v.Owns t) (move : v.Move t after) :
    after.Owns t ∨ (v.stage t = .releaseUp ∧ after.value = 1 ∧ after.holder = none ∧
      after.holderRepeatNr = 0 ∧ after.Outside t) := by
  have whole := owns
  obtain ⟨taken, state⟩ := owns
  have bound := v.holderRepeatNr.isLt
  have inside (value : after.value = 0) {stage : Stage} (there : after.stage t = stage)
      (state : after.AtStage t stage) : after.Owns t := ⟨value, there ▸ state⟩
  have moved (stage : Stage) : Function.update v.stage t stage t = stage := Function.update_self ..
  cases move with
  | stay same => exact .inl (same ▸ whole)
  | dowm here free same => simp [taken] at free
  | park here full same =>
    rcases here with here | here <;> rw [here] at state <;> exact state.elim
  | up here same =>
    right
    subst after
    rw [here] at state
    obtain ⟨holder, repeatNr, counted⟩ := state
    refine ⟨here, rfl, holder, repeatNr, ?_, .inl (moved .elsewhere)⟩
    simpa [goto] using counted
  | callAcquire here nesting same =>
    left
    subst after
    rw [here] at state
    obtain ⟨holder, positive, counted⟩ := state
    refine inside taken (moved .acquireTest) ⟨holder, positive, ?_, counted⟩
    simp only [depth] at nesting
    change v.holderRepeatNr.toNat + 1 < 2 ^ 32
    omega
  | callRelease here holds same | owned here same =>
    left
    subst after
    rw [here] at state
    exact inside taken (moved _) state
  | test here same =>
    left
    subst after
    rw [here] at state
    refine inside taken (moved _) ?_
    rw [if_neg (by simpa using state.1)]
    exact state
  | check here same | once here same =>
    left
    subst after
    rw [here] at state
    exact inside taken (moved _) state
  | hold here same =>
    left
    subst after
    rw [here] at state
    exact inside taken (moved _) ⟨rfl, state.2⟩
  | unhold here same =>
    left
    subst after
    rw [here] at state
    exact inside taken (moved _) ⟨rfl, state.2⟩
  | clear here same =>
    left
    subst after
    rw [here] at state
    exact inside taken (moved _) ⟨state.1, rfl, state.2.2⟩
  | enter here same =>
    left
    subst after
    rw [here] at state
    obtain ⟨holder, -, counted⟩ := state
    refine inside taken (moved .elsewhere) ⟨holder, Nat.le_refl 1, ?_⟩
    simpa [goto] using counted
  | nest here same =>
    left
    subst after
    rw [here] at state
    obtain ⟨holder, positive, below, counted⟩ := state
    have next : (v.holderRepeatNr + 1).toNat = v.holderRepeatNr.toNat + 1 := by bv_omega
    refine inside taken (moved .elsewhere) ⟨holder, ?_, ?_⟩
    · rw [next]
      omega
    · simp only [goto, next, ↓reduceIte]
      omega
  | unnest here same =>
    left
    subst after
    rw [here] at state
    obtain ⟨holder, many, counted⟩ := state
    have next : (v.holderRepeatNr - 1).toNat = v.holderRepeatNr.toNat - 1 := by bv_omega
    refine inside taken (moved .elsewhere) ⟨holder, ?_, ?_⟩
    · rw [next]
      omega
    · simp only [goto, next, ↓reduceIte]
      omega
  | count here same =>
    left
    subst after
    rw [here] at state
    obtain ⟨holder, positive, counted⟩ := state
    refine inside taken (moved _) ?_
    split
    · rename_i many
      exact ⟨holder, many, counted⟩
    · rename_i few
      have one : v.holderRepeatNr = 1 := by bv_omega
      exact ⟨holder, one, by rw [one] at counted; exact counted⟩

theorem guarded_preserved (guarded : v.Guarded) (move : v.Move t after) : after.Guarded := by
  cases guarded with
  | free free => exact guarded_free free move
  | owned owner owns outside =>
    by_cases same : t = owner
    · subst owner
      have others (u : T) (other : u ≠ t) : after.Outside u := (outside u other).moved other move
      rcases owns_self owns move with owns | ⟨-, value, holder, repeatNr, own⟩
      · exact .owned t owns others
      · refine .free ⟨value, holder, repeatNr, fun u => ?_⟩
        by_cases same : u = t
        · exact same ▸ own
        · exact others u same
    · obtain ⟨owns, own⟩ := owns_other owns (outside t same) same move
      refine .owned owner owns fun u other => ?_
      by_cases same : u = t
      · exact same ▸ own
      · exact (outside u other).moved same move

omit [DecidableEq T] in
theorem Guarded.binary (guarded : v.Guarded) : v.value = 0 ∨ v.value = 1 := by
  cases guarded with
  | free free => exact .inr free.value
  | owned t owns outside => exact .inl owns.taken

/-- A thread inside its outermost acquire owns the lock. -/
theorem Guarded.inside (guarded : v.Guarded) (inside : v.releases t < v.acquires t) :
    v.Owns t ∧ ∀ u, u ≠ t → v.Outside u := by
  cases guarded with
  | free free => have := (free.outside t).balanced; omega
  | owned owner owns outside =>
    by_cases same : t = owner
    · exact same ▸ ⟨owns, outside⟩
    · have := (outside t same).balanced
      omega

theorem Guarded.exclusive (guarded : v.Guarded) (first : v.releases t < v.acquires t)
    (second : v.releases u < v.acquires u) : t = u := by
  by_contra other
  have := ((guarded.inside first).2 u (Ne.symm other)).balanced
  omega

/-- The `sema_up` of the outermost `lock_release` is the one step that frees the lock. -/
theorem Guarded.freed_iff (guarded : v.Guarded) (move : v.Move t after) :
    (v.value = 0 ∧ after.value = 1) ↔
      v.releases t < v.acquires t ∧ after.releases t = after.acquires t := by
  constructor
  · rintro ⟨taken, freed⟩
    cases guarded with
    | free free => simp [free.value] at taken
    | owned owner owns outside =>
      by_cases same : t = owner
      · subst owner
        rcases owns_self owns move with still | ⟨here, -, -, -, own⟩
        · simp [still.taken] at freed
        · have state := owns.atStage
          rw [here] at state
          exact ⟨by rw [state.2.2]; omega, own.balanced.symm⟩
      · have := (owns_other owns (outside t same) same move).1.taken
        simp [this] at freed
  · rintro ⟨inside, balanced⟩
    obtain ⟨owns, -⟩ := guarded.inside inside
    refine ⟨owns.taken, ?_⟩
    rcases owns_self owns move with still | ⟨-, freed, -⟩
    · -- only a nested `lock_release` changes the count, and it leaves the owner inside
      have before := owns.atStage
      cases move with
      | unnest here same =>
        subst after
        rw [here] at before
        obtain ⟨-, many, counted⟩ := before
        simp only [goto, ↓reduceIte] at balanced
        omega
      | up here same =>
        subst after
        exact absurd (show (1 : U8) = 0 from still.taken) (by decide)
      | enter here same | nest here same =>
        subst after
        simp only [goto, ↓reduceIte] at balanced
        omega
      | stay same =>
        subst after
        omega
      | _ =>
        subst after
        simp only [goto] at balanced
        omega
    · exact freed

end LockView

end LiziOS
