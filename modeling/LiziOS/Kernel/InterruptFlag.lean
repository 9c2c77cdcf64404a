import LiziOS.Library.Transition

namespace LiziOS

/-! The interrupt flag of the processor, and who changes it. Of the statements of a function those
that neither touch the flag nor change the thread are one; which branch is taken is open. -/

inductive Fun where
  | listInit | listInsertBefore | listPush | listAppend | listRemove | listPop
  | elemFind | listTraversal | listLen | listEmpty
  | threadBlock | threadUnblock | semaDowm | semaUp | lockAcquire | lockRelease
  | schedule | clockInterruptHandler | kernelThread | panicSpin
  deriving DecidableEq

/-- The heads of the `while` loops. -/
inductive Label where
  | semaDowmLoop | spin
  deriving DecidableEq

inductive Code where
  | done
  | other (k : Code)
  /-- `ASSERT`, which ends in `panic_spin` when it fails -/
  | check (k : Code)
  | branch (k k' : Code)
  /-- `old_status = intr_disable()`: the status is read, then `cli` -/
  | readStatus (k : Code)
  | cli (k : Code)
  | sti (k : Code)
  /-- `intr_set_status(old_status)` -/
  | setStatus (k : Code)
  | call (f : Fun) (k : Code)
  | switchTo (k : Code)
  | goto (l : Label)
  deriving DecidableEq

namespace Code

def intrDisable (k : Code) : Code := readStatus (cli k)

def dispatch : Code := call .listEmpty (check (call .listPop (check (other (switchTo done)))))

def raise : Code := other (check (setStatus done))

def labelled : Label → Code
  | .semaDowmLoop => branch
      (call .elemFind (check (call .listAppend (call .threadBlock (goto .semaDowmLoop)))))
      (other (check (setStatus done)))
  | .spin => other (goto .spin)

def body : Fun → Code
  | .listInit | .elemFind | .listTraversal | .listLen | .listEmpty => other done
  | .listInsertBefore | .listRemove => intrDisable (other (setStatus done))
  | .listPush | .listAppend => call .listInsertBefore done
  | .listPop => other (call .listRemove done)
  | .threadBlock => check (intrDisable (other (call .schedule (setStatus done))))
  | .threadUnblock =>
    intrDisable (check (call .elemFind (check (call .listPush (other (setStatus done))))))
  | .semaDowm => intrDisable (goto .semaDowmLoop)
  | .semaUp => intrDisable (check (call .listEmpty
      (branch (call .listPop (call .threadUnblock raise)) raise)))
  | .lockAcquire => branch (call .semaDowm (other (check (other done)))) (other done)
  | .lockRelease => check (branch (other done) (check (other (call .semaUp done))))
  | .schedule => branch (call .elemFind (check (call .listAppend (other dispatch)))) dispatch
  | .clockInterruptHandler => check (branch (call .schedule done) (other done))
  -- the thread's own function comes next
  | .kernelThread => sti done
  | .panicSpin => intrDisable (goto .spin)

end Code

/-- What is on the stack of a thread: calls with what is left of them, their local `old_status` and the
    flag when they were made, and the flags that `iretd` will pop. -/
inductive Frame where
  | call (fn : Fun) (code : Code) (oldStatus atCall : Bool)
  | iret (eflags : Bool)
  deriving DecidableEq

/-- The flag, the thread that runs and the stacks. An empty one is that of a thread in its own code. -/
structure Processor (T : Type*) where
  flag : Bool
  current : T
  stack : T → Option (List Frame)

namespace Processor

variable {T : Type*} [DecidableEq T]

inductive Act (T : Type*) where
  /-- what the thread's own code does: calls, changes of the flag, the creation of a thread -/
  | call (f : Fun)
  | setFlag (flag : Bool)
  | create (t : T)
  /-- the next statement of the function called last, with the branch taken and the thread that
      `schedule` has picked -/
  | statement (taken : Bool) (next : T)
  | clock

def setStack (s : Processor T) (stack : List Frame) : Processor T :=
  { s with stack := Function.update s.stack s.current (some stack) }

def enter (s : Processor T) (f : Fun) (stack : List Frame) : Processor T :=
  s.setStack (.call f (Code.body f) false s.flag :: stack)

/-- `schedule` is called by `thread_block` and the clock interrupt only. -/
def offered : Fun → Bool
  | .schedule | .clockInterruptHandler | .kernelThread => false
  | _ => true

def statement (s : Processor T) (taken : Bool) (next : T) : Option (Processor T) :=
  match s.stack s.current with
  | none | some [] => none
  | some (.iret eflags :: rest) => some { s.setStack rest with flag := eflags }
  | some (.call fn code old atCall :: rest) =>
    let left (k : Code) : List Frame := .call fn k old atCall :: rest
    match code with
    | .done => some (s.setStack rest)
    | .other k => some (s.setStack (left k))
    | .check k => some (if taken then s.setStack (left k) else s.enter .panicSpin (left k))
    | .branch k k' => some (s.setStack (left (if taken then k else k')))
    | .readStatus k => some (s.setStack (.call fn k s.flag atCall :: rest))
    | .cli k => some { s.setStack (left k) with flag := false }
    | .sti k => some { s.setStack (left k) with flag := true }
    | .setStatus k => some { s.setStack (left k) with flag := old }
    | .call f k => some (s.enter f (left k))
    | .switchTo k =>
      if (s.stack next).isSome then some { s.setStack (left k) with current := next } else none
    | .goto l => some (s.setStack (left (Code.labelled l)))

def step (s : Processor T) : Act T → Option (Except Empty (Processor T))
  | .call f => if offered f ∧ s.stack s.current = some [] then some (.ok (s.enter f [])) else none
  | .setFlag flag => if s.stack s.current = some [] then some (.ok { s with flag := flag }) else none
  | .create t =>
    if s.stack s.current = some [] ∧ s.stack t = none then
      some (.ok { s with
        stack := Function.update s.stack t
            (some [.call .kernelThread (Code.body .kernelThread) false true]) })
    else none
  | .statement taken next => (s.statement taken next).map .ok
  | .clock =>
    match s.flag, s.stack s.current with
    | true, some stack =>
      some (.ok ({ s with flag := false }.enter .clockInterruptHandler (.iret s.flag :: stack)))
    | _, _ => none

/-- After boot there is one thread; whether interrupts are on is not fixed. -/
def system (T : Type*) [DecidableEq T] : Transition.System (Processor T) (Act T) Empty where
  start s := ∃ flag t, s = ⟨flag, t, Function.update (fun _ => none) t (some [])⟩
  step := step

end Processor

/-- What is called with interrupts off. -/
def Fun.masked (f : Fun) : Prop := f = .schedule ∨ f = .clockInterruptHandler

/-- What is known at the head of a loop: the local `old_status`, the flag and the flag at the call. -/
def Label.holds : Label → Bool → Bool → Bool → Prop
  | .semaDowmLoop, old, flag, atCall => flag = false ∧ old = atCall
  | .spin, _, flag, _ => flag = false

/-- The rest of a function ends with the flag that it was called with, switches with the flag off and
    never sets a flag that was off. -/
def Code.Sound : Code → (old flag atCall : Bool) → Prop
  | .done, _, flag, atCall => flag = atCall
  | .other k, old, flag, atCall | .check k, old, flag, atCall =>
    (atCall = false → flag = false) ∧ k.Sound old flag atCall
  | .branch k k', old, flag, atCall =>
    (atCall = false → flag = false) ∧ k.Sound old flag atCall ∧ k'.Sound old flag atCall
  | .readStatus k, _, flag, atCall => (atCall = false → flag = false) ∧ k.Sound flag flag atCall
  | .cli k, old, flag, atCall => (atCall = false → flag = false) ∧ k.Sound old false atCall
  | .sti k, old, flag, atCall => (atCall = false → flag = false) ∧ k.Sound old true atCall
  | .setStatus k, old, flag, atCall => (atCall = false → flag = false) ∧ k.Sound old old atCall
  | .call f k, old, flag, atCall => (atCall = false → flag = false) ∧ (f.masked → flag = false) ∧
    f ≠ .kernelThread ∧ k.Sound old flag atCall
  | .switchTo k, old, flag, atCall => flag = false ∧ k.Sound old false atCall
  | .goto l, old, flag, atCall => (atCall = false → flag = false) ∧ l.holds old flag atCall

theorem Code.Sound.within {code : Code} {old flag atCall : Bool} (sound : code.Sound old flag atCall) :
    atCall = false → flag = false := by
  cases code with
  | done => exact fun off => sound.trans off
  | switchTo k => exact fun _ => sound.1
  | _ => exact sound.1

theorem Code.body_sound (f : Fun) (old flag : Bool) (masked : f.masked → flag = false)
    (called : f ≠ .kernelThread) : (Code.body f).Sound old flag flag := by
  cases f <;> cases flag <;>
    simp_all [Fun.masked, Code.body, Code.intrDisable, Code.dispatch, Code.raise, Code.Sound, Label.holds]

theorem Code.labelled_sound {l : Label} {old flag atCall : Bool} (holds : l.holds old flag atCall) :
    (Code.labelled l).Sound old flag atCall := by
  cases l <;> simp_all [Code.labelled, Code.Sound, Label.holds, Fun.masked]

/-- The frames of a thread whose flag is `flag`, the last call first. -/
def Frames : Bool → List Frame → Prop
  | _, [] => True
  | flag, .call fn code old atCall :: rest =>
    code.Sound old flag atCall ∧ (fn.masked → atCall = false) ∧ Frames atCall rest
  | _, .iret eflags :: rest => eflags = true ∧ Frames eflags rest

/-- A function that is called with the flag off runs with the flag off, and so do those it calls. -/
theorem Frames.masked {stack : List Frame} {flag : Bool} (frames : Frames flag stack) {fn : Fun} {code : Code}
    {old atCall : Bool} (member : .call fn code old atCall ∈ stack) (masked : fn.masked) : flag = false := by
  induction stack generalizing flag with
  | nil => cases member
  | cons frame rest ih =>
    cases frame with
    | call fn' code' old' atCall' =>
      obtain ⟨sound, off, below⟩ := frames
      refine sound.within ?_
      rcases List.mem_cons.mp member with same | member
      · injection same with same
        exact off (same ▸ masked)
      · exact ih below member
    | iret eflags =>
      obtain ⟨on, below⟩ := frames
      rcases List.mem_cons.mp member with same | member
      · cases same
      · have off := ih below member
        rw [on] at off
        contradiction

namespace Processor

variable {T : Type*} [DecidableEq T] {s after : Processor T}

/-- The stack of the running thread fits the flag; the others will go on with the flag off. -/
structure Kept (s : Processor T) : Prop where
  running : ∀ stack, s.stack s.current = some stack → Frames s.flag stack
  waiting : ∀ t stack, t ≠ s.current → s.stack t = some stack → Frames false stack

theorem Kept.set (kept : Kept s) {stack : List Frame} {flag : Bool} (frames : Frames flag stack) :
    Kept { s.setStack stack with flag := flag } where
  running found is := by
    simp only [setStack, Function.update_self, Option.some.injEq] at is
    exact is ▸ frames
  waiting t found other is := by
    change t ≠ s.current at other
    simp only [setStack, Function.update_of_ne other] at is
    exact kept.waiting t found other is

theorem Kept.goOn (kept : Kept s) {stack : List Frame} (frames : Frames s.flag stack) :
    Kept (s.setStack stack) :=
  kept.set frames

theorem Kept.enter (kept : Kept s) {stack : List Frame} {f : Fun} (frames : Frames s.flag stack)
    (masked : f.masked → s.flag = false) (called : f ≠ .kernelThread) : Kept (s.enter f stack) :=
  kept.set ⟨Code.body_sound f false s.flag masked called, masked, frames⟩

theorem Kept.switched (kept : Kept s) {stack : List Frame} (frames : Frames false stack)
    (off : s.flag = false)
    (next : T) : Kept { s.setStack stack with current := next } where
  running found is := by
    change Frames s.flag found
    rw [off]
    by_cases same : next = s.current
    · simp only [setStack, same, Function.update_self, Option.some.injEq] at is
      exact is ▸ frames
    · simp only [setStack, Function.update_of_ne same] at is
      exact kept.waiting next found same is
  waiting t found _ is := by
    by_cases same : t = s.current
    · simp only [setStack, same, Function.update_self, Option.some.injEq] at is
      exact is ▸ frames
    · simp only [setStack, Function.update_of_ne same] at is
      exact kept.waiting t found same is

theorem statement_kept {taken : Bool} {next : T} (kept : Kept s) (stepped : s.statement taken next =
    some after) :
    Kept after := by
  unfold statement at stepped
  split at stepped
  · contradiction
  · contradiction
  · rename_i eflags rest is
    cases stepped
    exact kept.set (kept.running _ is).2
  · rename_i fn code old atCall rest is
    obtain ⟨sound, masked, below⟩ := kept.running _ is
    cases code with
    | done =>
      cases stepped
      refine kept.goOn ?_
      rw [show s.flag = atCall from sound]
      exact below
    | other k =>
      cases stepped
      exact kept.goOn ⟨sound.2, masked, below⟩
    | check k =>
      cases stepped
      split
      · exact kept.goOn ⟨sound.2, masked, below⟩
      · exact kept.enter ⟨sound.2, masked, below⟩ (by simp [Fun.masked]) (by simp)
    | branch k k' =>
      cases stepped
      refine kept.goOn ⟨?_, masked, below⟩
      split
      · exact sound.2.1
      · exact sound.2.2
    | readStatus k =>
      cases stepped
      exact kept.goOn ⟨sound.2, masked, below⟩
    | cli k =>
      cases stepped
      exact kept.set ⟨sound.2, masked, below⟩
    | sti k =>
      cases stepped
      exact kept.set ⟨sound.2, masked, below⟩
    | setStatus k =>
      cases stepped
      exact kept.set ⟨sound.2, masked, below⟩
    | call f k =>
      cases stepped
      exact kept.enter ⟨sound.2.2.2, masked, below⟩ sound.2.1 sound.2.2.1
    | switchTo k =>
      dsimp only at stepped
      split at stepped
      · cases stepped
        have frames : Frames false (.call fn k old atCall :: rest) := ⟨sound.2, masked, below⟩
        exact kept.switched frames sound.1 next
      · contradiction
    | goto l =>
      cases stepped
      exact kept.goOn ⟨Code.labelled_sound sound.2, masked, below⟩

theorem step_kept {a : Act T} (kept : Kept s) (stepped : s.step a = some (.ok after)) : Kept after := by
  cases a with
  | call f =>
    simp only [step] at stepped
    split at stepped
    · rename_i allowed
      cases stepped
      refine kept.enter True.intro ?_ ?_
      · rintro (rfl | rfl) <;> simp [offered] at allowed
      · rintro rfl
        simp [offered] at allowed
    · contradiction
  | setFlag flag =>
    simp only [step] at stepped
    split at stepped
    · rename_i own
      cases stepped
      refine ⟨?_, kept.waiting⟩
      intro stack is
      rw [show s.stack s.current = some stack from is, Option.some.injEq] at own
      rw [own]
      exact True.intro
    · contradiction
  | create t =>
    simp only [step] at stepped
    split at stepped
    · rename_i own
      cases stepped
      have other : s.current ≠ t := by
        rintro rfl
        rw [own.2] at own
        cases own.1
      refine ⟨?_, ?_⟩
      · intro stack is
        dsimp only at is
        rw [Function.update_of_ne other] at is
        exact kept.running stack is
      · intro u stack waiting is
        dsimp only at is waiting
        by_cases same : u = t
        · rw [same, Function.update_self, Option.some.injEq] at is
          rw [← is]
          exact ⟨⟨fun _ => rfl, rfl⟩, by simp [Fun.masked], True.intro⟩
        · rw [Function.update_of_ne same] at is
          exact kept.waiting u stack waiting is
    · contradiction
  | statement taken next =>
    simp only [step, Option.map_eq_some_iff, Except.ok.injEq] at stepped
    obtain ⟨_, stepped, rfl⟩ := stepped
    exact statement_kept kept stepped
  | clock =>
    simp only [step] at stepped
    split at stepped
    · rename_i stack on is
      cases stepped
      have handler := Code.body_sound .clockInterruptHandler false false (fun _ => rfl) (by simp)
      have below : Frames true stack := on ▸ kept.running stack is
      have frames : Frames false (.call .clockInterruptHandler
          (Code.body .clockInterruptHandler) false false ::
          .iret s.flag :: stack) := ⟨handler, fun _ => rfl, on, on ▸ below⟩
      exact kept.set frames
    · contradiction

theorem reachable_kept (reached : (system T).Reachable s) : Kept s := by
  have initial (s : Processor T) : (system T).start s → Kept s := by
    rintro ⟨flag, t, rfl⟩
    refine ⟨?_, ?_⟩
    · intro stack is
      dsimp only at is
      rw [Function.update_self, Option.some.injEq] at is
      rw [← is]
      exact True.intro
    · intro u stack other is
      dsimp only at is other
      rw [Function.update_of_ne other] at is
      contradiction
  exact reached.invariant initial fun _ _ _ _ kept _ stepped => step_kept kept stepped

/-- `schedule`, and what it calls, and `switch_to` run with interrupts off, and a function returns with
    the flag that it was called with, whatever ran in between. -/
theorem flag_restored (reached : (system T).Reachable s) {stack : List Frame}
    (is : s.stack s.current = some stack) :
    (∀ code old atCall, .call .schedule code old atCall ∈ stack → s.flag = false) ∧
    (∀ fn k old atCall rest, stack = .call fn (.switchTo k) old atCall :: rest → s.flag = false) ∧
    ∀ fn old atCall rest, stack = .call fn .done old atCall :: rest → s.flag = atCall := by
  have frames := (reachable_kept reached).running stack is
  refine ⟨fun code old atCall member => frames.masked member (.inl rfl), ?_, ?_⟩
  · rintro fn k old atCall rest rfl
    exact frames.1.1
  · rintro fn old atCall rest rfl
    exact frames.1

/-- `thread_block` from its call up to the switch to `next`. -/
def blocks (next : Nat) : List (Act Nat) :=
  .call .threadBlock :: List.replicate 5 (.statement true next) ++ .statement false next ::
    List.replicate 16 (.statement true next)

/-- A thread blocks with interrupts off, another one turns them on and blocks in its turn. -/
theorem flag_restored_blocked : ∃ s : Processor Nat, (system Nat).Reachable s ∧
    s.stack s.current = some [.call .threadBlock .done false false] ∧ s.flag = false := by
  have booted : (system Nat).Reachable ⟨false, 0, Function.update (fun _ => none) 0 (some [])⟩ :=
      .start ⟨_, _, rfl⟩
  have run : ((system Nat).execute ⟨false, 0, Function.update (fun _ => none) 0 (some [])⟩
      (.create 1 :: blocks 1 ++ List.replicate 2 (.statement true 0) ++ blocks 0 ++
        List.replicate 2 (.statement true 0))).map (fun s => s.stack s.current) =
      some (some [.call .threadBlock .done false false]) := by decide +kernel
  obtain ⟨s, executed, is⟩ := Option.map_eq_some_iff.mp run
  have reached := booted.execute (fun _ _ _ => True.intro) executed
  exact ⟨s, reached, is, (flag_restored reached is).2.2 _ _ _ _ rfl⟩

end Processor

end LiziOS
