import LiziOS.ListCells
import LiziOS.Kernel.SchedulerInvariant
import LiziOS.Kernel.LockWaiters

namespace LiziOS

open Links

/-! `elem_find(&thread_ready_list, ...)` of `thread_start`, an iteration at a time, in the kernel that goes on
    scheduling. -/

section Model

variable {T L : Type} [DecidableEq T] [DecidableEq L]

/-- The kernel with the links of its lists in memory. `none` is `thread_ready_list`, `some l` the waiters of
    the semaphore of `l`; the nodes are the threads' `general_tag`. The cursor is `elem` of a thread that
    is in the loop of `elem_find`. -/
structure Search (T L : Type) where
  kernel : Kernel T L
  cells : Cells (Option L) T
  cursor : T → Option (Ptr (Option L) T)

/-- The operations one after the other. -/
def ListOp.execAll {K N : Type} [DecidableEq K] [DecidableEq N] (m : Cells K N) :
    List (ListOp K N) → Option (Cells K N)
  | [] => some m
  | op :: ops => do
    let (_, m) ← op.exec m
    execAll m ops

/-- The list operations in `schedule`. -/
def scheduleOps (k : Threads T) : List (ListOp (Option L) T) :=
  (if (k.task k.current).status = .running then [.append none k.current] else []) ++ [.pop none]

/-- The list operations in a step of the kernel. -/
def Kernel.listOps (s : Kernel T L) (a : Act T L) : List (ListOp (Option L) T) :=
  let t := s.threads.current
  match a with
  | .statement _ =>
    match s.pc t with
    | .acquireDowm l | .dowmBlocked l =>
      -- the thread that calls `schedule` from here is no longer running
      if (s.lock l).semaphore.value = 0 then [.append (some l) t, .pop none] else []
    | .releaseUp l =>
      match (popWaiter (s.waiters l)).1 with
      | some threadBlocked => [.pop (some l), .push none threadBlocked]
      | none => []
    | .startAppend c => [.append none c]
    | _ => []
  | .clock _ => if (s.threads.task t).ticks = 0 then scheduleOps s.threads else []
  | .threadBlock _ _ => [.pop none]
  | .threadUnblock pthread => [.push none pthread]
  | .processExecute pthread _ => [.append none pthread]
  | _ => []

/-- The lists of a state: the ready list and the waiters. -/
def listed (ready : List T) (waiters : L → List T) : Sequences (Option L) T
  | none => some ready
  | some l => some (waiters l)

def Kernel.lists (s : Kernel T L) : Sequences (Option L) T := listed s.threads.readyList s.waiters

namespace Search

/-- `elem = plist->head.next`, then one turn of the loop at a time. -/
def iterate (s : Search T L) (c : T) : Option (Except Fault (Search T L)) :=
  let t := s.kernel.threads.current
  match s.cursor t with
  | none => (s.cells.getNext (.head none)).map fun elem =>
      .ok { s with cursor := Function.update s.cursor t (some elem) }
  | some elem =>
    if elem ≠ .tail none then
      if elem = .elem c then some (.error (.panic .threadStart))
      else (s.cells.getNext elem).map fun elem =>
        .ok { s with cursor := Function.update s.cursor t (some elem) }
    else some (.ok { s with
      kernel := s.kernel.goto (.startAppend c)
      cursor := Function.update s.cursor t none })

/-- A step of the kernel that is no turn of the loop. -/
def other (s : Search T L) (a : Act T L) : Option (Except Fault (Search T L)) :=
  match s.kernel.step a with
  | none => none
  | some (.error fault) => some (.error fault)
  | some (.ok kernel) => (ListOp.execAll s.cells (s.kernel.listOps a)).map fun cells =>
      .ok ⟨kernel, cells, s.cursor⟩

def step (s : Search T L) (a : Act T L) : Option (Except Fault (Search T L)) :=
  match a, s.kernel.pc s.kernel.threads.current with
  | .statement _, .startFind c => s.iterate c
  | a, _ => s.other a

/-- After `list_init` of every list. -/
def Initialised (m : Cells (Option L) T) : Prop := ∀ l,
  m.prev (.head l) = .null ∧ m.next (.head l) = .tail l ∧ m.prev (.tail l) = .head l ∧ m.next (.tail l) = .null

def system (T L : Type) [DecidableEq T] [DecidableEq L] :
    Transition.System (Search T L) (Act T L) Fault where
  start s := (∃ mainThread memory, s.kernel = Kernel.boot mainThread memory) ∧ Initialised s.cells ∧
    s.cursor = fun _ => none
  step := step

/-- The first thread of the ready list is dispatched, as `schedule` does it. -/
def FirstReady : Act T L → Prop
  | .statement wanted | .clock wanted | .threadBlock _ wanted => wanted = none
  | _ => True

/-- A turn of the loop that goes on from the last waiter of a semaphore. -/
def LeavesWaiters (s : Search T L) (a : Act T L) : Prop := ∃ wanted c n l, a = .statement wanted ∧
  s.kernel.pc s.kernel.threads.current = .startFind c ∧
  s.cursor s.kernel.threads.current = some (.elem n) ∧ n ≠ c ∧ (s.kernel.waiters l).getLast? = some n

/-- The calls that the kernel makes, in runs where the loop never goes on from the last waiter. -/
structure Clear (s : Search T L) (a : Act T L) : Prop where
  firstReady : FirstReady a
  unblock : s.kernel.ProperUnblock a
  stays : ¬ s.LeavesWaiters a

end Search

end Model

/-! Nodes keep their links when they leave a list. -/

section Followed

variable {K N : Type} [DecidableEq K] [DecidableEq N] {home plist l : K} {m m' : Cells K N}
  {lists lists' : Sequences K N} {known : N → Prop} {gone : Option N} {op : ListOp K N} {ops : List (ListOp K N)}
  {us vs ns ns' : List N} {n y : N} {p result : Ptr K N}

omit [DecidableEq K] [DecidableEq N] in
theorem next_of_last (rep : Represented m lists) (is : lists l = some (us ++ [n])) :
    m.next (.elem n) = .tail l := by
  have linked := rep.linked l _ is
  rw [cellsOf_split] at linked
  exact (List.isChain_append_cons_cons.mp linked).2.1.1

omit [DecidableEq K] [DecidableEq N] in
theorem next_of_inner (rep : Represented m lists) (is : lists l = some (us ++ n :: y :: vs)) :
    m.next (.elem n) = .elem y := by
  have linked := rep.linked l _ is
  rw [cellsOf_split] at linked
  exact (List.isChain_append_cons_cons.mp linked).2.1.1

/-- A pointer to the tail of `home` or to a node that has been in a list. -/
def Leads (home : K) (known : N → Prop) (p : Ptr K N) : Prop := p = .tail home ∨ ∃ n, known n ∧ p = .elem n

omit [DecidableEq K] [DecidableEq N] in
theorem Leads.mono {wider : N → Prop} (leads : Leads home known p) (implies : ∀ n, known n → wider n) :
    Leads home wider p :=
  leads.imp id fun ⟨n, was, is⟩ => ⟨n, implies n was, is⟩

/-- The nodes that have been in a list and are in none now lead on, `gone` excepted. -/
structure Followed (home : K) (m : Cells K N) (lists : Sequences K N) (known : N → Prop) (gone : Option N) :
    Prop where
  rep : Represented m lists
  there : lists home ≠ none
  listed : ∀ l ns, lists l = some ns → ∀ n ∈ ns, known n
  stale : ∀ n, known n → some n ≠ gone → lists.Free n → Leads home known (m.next (.elem n))

theorem Followed.step (followed : Followed home m lists known gone) (gone' : Option N)
    (meant : Meant op lists plist ns result) (done : op.exec m = some (result, m'))
    (back : ∀ n, some n = gone → n ∈ ns ∨ some n = gone')
    (left : ∀ old, lists plist = some old → ∀ n ∈ old, n ∉ ns → some n ≠ gone' →
      Leads home known (m.next (.elem n))) :
    Followed home m' (Function.update lists plist (some ns)) (fun n => known n ∨ n ∈ ns) gone' := by
  obtain ⟨m'', done', _, kept⟩ := followed.rep.exec meant
  rw [done, Option.some.injEq, Prod.mk.injEq] at done'
  obtain ⟨_, rfl⟩ := done'
  refine ⟨followed.rep.step meant done, ?_, ?_, ?_⟩
  · by_cases same : home = plist
    · rw [same, Function.update_self]
      exact Option.some_ne_none ns
    · rw [Function.update_of_ne same]
      exact followed.there
  · intro l ns' is n member
    by_cases same : l = plist
    · rw [same, Function.update_self, Option.some.injEq] at is
      rw [← is] at member
      exact .inr member
    · rw [Function.update_of_ne same] at is
      exact .inl (followed.listed l ns' is n member)
  · intro n was other free
    have absent : n ∉ ns := free plist ns (Function.update_self ..)
    have known' := was.resolve_right absent
    have same : m'.next (.elem n) = m.next (.elem n) := by
      refine (kept _ fun member => ?_).1
      rcases mem_cellsOf.mp member with is | is | ⟨n', inside, is⟩
      · cases is
      · cases is
      · exact absent (Ptr.elem.inj is ▸ inside)
    rw [same]
    refine Leads.mono ?_ fun _ => Or.inl
    by_cases before : lists.Free n
    · exact followed.stale n known' (fun is => (back n is).elim absent other) before
    · -- the operation has taken it out of its list
      simp only [Sequences.Free, not_forall, not_not] at before
      obtain ⟨l, old, was, member⟩ := before
      by_cases here : l = plist
      · exact left old (here ▸ was) n member absent other
      · exact absurd member (free l old (by rw [Function.update_of_ne here]; exact was))

/-- What operations make of the lists when a node only ever leaves `home` for good. -/
inductive Change (home : K) : List (ListOp K N) → Sequences K N → Sequences K N → Prop
  | stay {lists : Sequences K N} : Change home [] lists lists
  | enter {op : ListOp K N} {ops : List (ListOp K N)} {lists lists' : Sequences K N} {l : K} {ns : List N} {n : N}
      (adds : op = .push l n ∨ op = .append l n) (meant : Meant op lists l ns .null)
      (rest : Change home ops (Function.update lists l (some ns)) lists') : Change home (op :: ops) lists lists'
  | leave {ops : List (ListOp K N)} {lists lists' : Sequences K N} {ns : List N} {n : N}
      (meant : Meant (.pop home) lists home ns (.elem n))
      (rest : Change home ops (Function.update lists home (some ns)) lists') :
      Change home (.pop home :: ops) lists lists'
  | move {ops : List (ListOp K N)} {lists lists' : Sequences K N} {l : K} {ns ns' : List N} {n : N}
      (meant : Meant (.pop l) lists l ns (.elem n))
      (meant' : Meant (.push home n) (Function.update lists l (some ns)) home ns' .null)
      (rest : Change home ops (Function.update (Function.update lists l (some ns)) home (some ns')) lists') :
      Change home (.pop l :: .push home n :: ops) lists lists'

omit [DecidableEq K] [DecidableEq N] in
/-- The first of a list leads on in it, or to its tail. -/
theorem next_of_popped (rep : Represented m lists) (meant : Meant (.pop l) lists l ns (.elem n)) :
    lists l = some (n :: ns) ∧ (m.next (.elem n) = .tail l ∨ ∃ y ∈ ns, m.next (.elem n) = .elem y) := by
  cases meant with
  | @pop _ _ old _ _ is popped =>
    cases old with
    | nil => cases popped
    | cons first rest =>
      simp only [listPop, Option.some.injEq, Prod.mk.injEq] at popped
      obtain ⟨rfl, rfl⟩ := popped
      refine ⟨is, ?_⟩
      cases rest with
      | nil =>
        have is' : lists l = some ([] ++ [first]) := is
        exact .inl (next_of_last rep is')
      | cons y rest =>
        have is' : lists l = some ([] ++ first :: y :: rest) := is
        exact .inr ⟨y, List.mem_cons_self, next_of_inner rep is'⟩

theorem Followed.change (followed : Followed home m lists known none) (change : Change home ops lists lists') :
    ∃ m' wider, ListOp.execAll m ops = some m' ∧ (∀ n, known n → wider n) ∧
      Followed home m' lists' wider none := by
  induction change generalizing m known with
  | stay => exact ⟨m, known, rfl, fun _ => id, followed⟩
  | @enter op ops lists lists' l ns n adds meant rest ih =>
    obtain ⟨m₁, done, _⟩ := followed.rep.exec meant
    have within (old : List N) (was : lists l = some old) (y : N) (member : y ∈ old) : y ∈ ns := by
      rcases adds with rfl | rfl
      · cases meant with
        | push is free =>
          rw [is, Option.some.injEq] at was
          subst was
          exact List.mem_cons_of_mem _ member
      · cases meant with
        | append is free =>
          rw [is, Option.some.injEq] at was
          subst was
          exact List.mem_append_left _ member
    have entered := followed.step none meant done (fun _ is => nomatch is)
      fun old was y member absent => absurd (within old was y member) absent
    obtain ⟨m', wider, run, more, after⟩ := ih entered
    refine ⟨m', wider, ?_, fun n was => more n (.inl was), after⟩
    rw [ListOp.execAll, done]
    exact run
  | @leave ops lists lists' ns n meant rest ih =>
    obtain ⟨m₁, done, _⟩ := followed.rep.exec meant
    obtain ⟨was, next⟩ := next_of_popped followed.rep meant
    have entered := followed.step none meant done (fun _ is => nomatch is) (by
      intro old is y member out _
      rw [was, Option.some.injEq] at is
      subst is
      rw [(List.mem_cons.mp member).resolve_right out]
      refine next.imp id fun ⟨z, inside, is⟩ => ⟨z, ?_, is⟩
      exact followed.listed home _ was z (List.mem_cons_of_mem _ inside))
    obtain ⟨m', wider, run, more, after⟩ := ih entered
    refine ⟨m', wider, ?_, fun n was => more n (.inl was), after⟩
    rw [ListOp.execAll, done]
    exact run
  | @move ops lists lists' l ns ns' n meant meant' rest ih =>
    obtain ⟨m₁, done, _⟩ := followed.rep.exec meant
    obtain ⟨was, _⟩ := next_of_popped followed.rep meant
    have between := followed.step (some n) meant done (fun _ is => nomatch is) (by
      intro old is y member out other
      rw [was, Option.some.injEq] at is
      subst is
      exact absurd (congrArg some ((List.mem_cons.mp member).resolve_right out)) other)
    obtain ⟨m₂, done', _⟩ := between.rep.exec meant'
    have here : n ∈ ns' ∧ ∀ old, Function.update lists l (some ns) home = some old → ∀ y ∈ old, y ∈ ns' := by
      cases meant' with
      | push is free =>
        refine ⟨List.mem_cons_self, fun old is' y member => ?_⟩
        rw [is, Option.some.injEq] at is'
        subst is'
        exact List.mem_cons_of_mem _ member
    have entered := between.step none meant' done'
      (fun y is => .inl (Option.some.inj is ▸ here.1))
      fun old is y member absent => absurd (here.2 old is y member) absent
    obtain ⟨m', wider, run, more, after⟩ := ih entered
    refine ⟨m', wider, ?_, fun n was => more n (.inl (.inl was)), after⟩
    rw [ListOp.execAll, done]
    change ListOp.execAll m₁ _ = _
    rw [ListOp.execAll, done']
    exact run

end Followed

/-! The lists of the kernel. -/

section Lists

variable {T L : Type} [DecidableEq T] [DecidableEq L] {s after : Kernel T L} {a : Act T L} {l : L} {t : T}
  {k k' : Threads T} {ready ready' : List T} {waiters : L → List T} {queue rest : List T} {next : T}

omit [DecidableEq T] in
theorem listed_ready : Function.update (listed ready waiters) none (some ready') = listed ready' waiters := by
  funext place
  cases place with
  | none => rw [Function.update_self]; rfl
  | some l => rw [Function.update_of_ne (Option.some_ne_none l)]; rfl

omit [DecidableEq T] in
theorem listed_waiters : Function.update (listed ready waiters) (some l) (some queue) =
    listed ready (Function.update waiters l queue) := by
  funext place
  cases place with
  | none => rw [Function.update_of_ne (Option.some_ne_none l).symm]; rfl
  | some l' =>
    by_cases same : l' = l
    · subst same
      rw [Function.update_self]
      exact congrArg some (Function.update_self l' queue waiters).symm
    · rw [Function.update_of_ne fun is => same (Option.some.inj is)]
      exact congrArg some (Function.update_of_ne same queue waiters).symm

omit [DecidableEq T] [DecidableEq L] in
theorem listed_free (notReady : t ∉ ready) (notWaiting : ∀ l, t ∉ waiters l) : (listed ready waiters).Free t := by
  rintro (_ | l) ns is
  · cases is
    exact notReady
  · cases is
    exact notWaiting l

theorem dispatch_first (dispatched : dispatch none k = .ok k') :
    listPop k.readyList = some (k'.current, k'.readyList) := by
  unfold dispatch at dispatched
  split at dispatched
  · contradiction
  · rename_i next rest taken
    cases dispatched
    exact taken

theorem schedule_first (scheduled : schedule none k = .ok k') :
    listPop (if (k.task k.current).status = .running then listAppend k.readyList k.current else k.readyList) =
      some (k'.current, k'.readyList) := by
  unfold schedule deschedule at scheduled
  by_cases running : (k.task k.current).status = .running
  · rw [if_pos running]
    by_cases queued : elemFind k.readyList k.current = true
    · simp [running, queued] at scheduled
    · simp only [running, ↓reduceIte, queued, Bool.false_eq_true] at scheduled
      exact dispatch_first scheduled
  · rw [if_neg running]
    simp only [running, ↓reduceIte] at scheduled
    exact dispatch_first scheduled

theorem threadBlock_first {status : TaskStatus} (blocked : threadBlock none status k = .ok k') :
    listPop k.readyList = some (k'.current, k'.readyList) := by
  unfold threadBlock at blocked
  by_cases asleep : status.asleep = true
  · rw [if_pos asleep] at blocked
    have notRunning : ¬ ((k.setTask k.current { k.task k.current with status := status }).task k.current).status =
        .running := by
      rw [Threads.setTask_task, Function.update_self]
      rintro rfl
      cases asleep
    have popped := schedule_first blocked
    rw [Threads.setTask_current, if_neg notRunning] at popped
    exact popped
  · rw [if_neg asleep] at blocked
    cases blocked

omit [DecidableEq T] in
theorem change_stay (readySame : after.threads.readyList = s.threads.readyList)
    (waitersSame : after.waiters = s.waiters) : Change none [] s.lists after.lists := by
  unfold Kernel.lists
  rw [readySame, waitersSame]
  exact .stay

/-! What the operations make of the lists of a state, `t` being in none of them. -/

omit [DecidableEq T] in
theorem change_append (free : s.lists.Free t) :
    Change none [.append none t] s.lists (listed (listAppend s.threads.readyList t) s.waiters) := by
  have change : Change none [.append none t] s.lists _ := .enter (.inr rfl) (.append rfl free) .stay
  unfold Kernel.lists at change
  rw [listed_ready] at change
  exact change

omit [DecidableEq T] in
theorem change_push (free : s.lists.Free t) :
    Change none [.push none t] s.lists (listed (listPush s.threads.readyList t) s.waiters) := by
  have change : Change none [.push none t] s.lists _ := .enter (.inl rfl) (.push rfl free) .stay
  unfold Kernel.lists at change
  rw [listed_ready] at change
  exact change

omit [DecidableEq T] in
theorem change_pop (popped : listPop s.threads.readyList = some (next, rest)) :
    Change none [.pop none] s.lists (listed rest s.waiters) := by
  have change : Change none [.pop none] s.lists _ := .leave (.pop rfl popped) .stay
  unfold Kernel.lists at change
  rw [listed_ready] at change
  exact change

omit [DecidableEq T] in
theorem change_switch (free : s.lists.Free t)
    (popped : listPop (listAppend s.threads.readyList t) = some (next, rest)) :
    Change none [.append none t, .pop none] s.lists (listed rest s.waiters) := by
  have change : Change none [.append none t, .pop none] s.lists _ := .enter (.inr rfl) (.append rfl free)
    (.leave (.pop (Function.update_self ..) popped) .stay)
  unfold Kernel.lists at change
  rw [listed_ready, listed_ready] at change
  exact change

omit [DecidableEq T] in
theorem change_park (free : s.lists.Free t) (popped : listPop s.threads.readyList = some (next, rest)) :
    Change none [.append (some l) t, .pop none] s.lists
      (listed rest (Function.update s.waiters l (listAppend (s.waiters l) t))) := by
  have change : Change none [.append (some l) t, .pop none] s.lists _ := .enter (.inr rfl) (.append rfl free)
    (.leave (.pop (Function.update_of_ne (Option.some_ne_none l).symm _ _) popped) .stay)
  unfold Kernel.lists at change
  rw [listed_waiters, listed_ready] at change
  exact change

omit [DecidableEq T] in
theorem change_wake (queued : s.waiters l = t :: rest)
    (free : (listed s.threads.readyList (Function.update s.waiters l rest)).Free t) :
    Change none [.pop (some l), .push none t] s.lists
      (listed (listPush s.threads.readyList t) (Function.update s.waiters l rest)) := by
  rw [← listed_waiters] at free
  have change : Change none [.pop (some l), .push none t] s.lists _ :=
    .move (.pop (congrArg some queued) rfl) (.push rfl free) .stay
  unfold Kernel.lists at change
  rw [listed_waiters, listed_ready] at change
  exact change

omit [DecidableEq T] [DecidableEq L] in
/-- The running thread is in no list. -/
theorem current_free (scheduled : s.Scheduled) : s.lists.Free s.threads.current := by
  refine listed_free ?_ fun l waits => ?_
  · rw [scheduled.ready, scheduled.currentRunning]
    exact fun is => nomatch is.2
  · have status := (scheduled.waiting _ l waits).2
    rw [scheduled.currentRunning] at status
    cases status

theorem change_clock (scheduled : s.Scheduled) (ticked : clockInterruptHandler none s.threads = .ok k) :
    Change none (s.listOps (.clock none)) s.lists (s.setThreads k).lists := by
  have running : (s.threads.task s.threads.current).status = .running := scheduled.currentRunning
  unfold clockInterruptHandler at ticked
  dsimp only at ticked
  by_cases magic : (s.threads.task s.threads.current).stackMagic = 0x19870916
  · rw [if_pos magic] at ticked
    by_cases spent : (s.threads.task s.threads.current).ticks = 0
    · rw [if_pos spent] at ticked
      have popped := schedule_first ticked
      rw [if_pos running] at popped
      have ops : s.listOps (.clock none) = [.append none s.threads.current, .pop none] := by
        simp only [Kernel.listOps, scheduleOps, spent, running, ↓reduceIte]
        rfl
      rw [ops]
      exact change_switch (current_free scheduled) popped
    · rw [if_neg spent] at ticked
      cases ticked
      have ops : s.listOps (.clock none) = [] := by
        simp only [Kernel.listOps, spent, ↓reduceIte]
      rw [ops]
      exact change_stay rfl rfl
  · rw [if_neg magic] at ticked
    cases ticked

theorem change_dowm (scheduled : s.Scheduled) {wanted : Option T}
    (here : s.pc s.threads.current = .acquireDowm l ∨ s.pc s.threads.current = .dowmBlocked l)
    (stepped : s.dowm l none = .ok after) : Change none (s.listOps (.statement wanted)) s.lists after.lists := by
  have ops : s.listOps (.statement wanted) =
      if (s.lock l).semaphore.value = 0 then [.append (some l) s.threads.current, .pop none] else [] := by
    rcases here with here | here <;> simp only [Kernel.listOps, here]
  rw [ops]
  unfold Kernel.dowm at stepped
  dsimp only at stepped
  split at stepped
  · contradiction
  · rename_i sema taken
    cases stepped
    rcases semaDowm_cases taken with ⟨_, _, no, _⟩ | ⟨one, _, same⟩
    · contradiction
    · rw [if_neg (by rw [one]; decide)]
      exact change_stay rfl (Kernel.waiters_setLock_same (by rw [same]; rfl))
  · rename_i sema taken
    rcases semaDowm_cases taken with ⟨zero, absent, _, same⟩ | ⟨_, no, _⟩
    · cases blocked : threadBlock none .blocked s.threads with
      | error fault => simp [blocked, Except.map] at stepped
      | ok threads =>
        simp only [blocked, Except.map, Except.ok.injEq] at stepped
        subst after
        have waiters := Kernel.waiters_setLock s l { s.lock l with semaphore := sema }
        have queue : sema.waiters = listAppend (s.waiters l) s.threads.current := by rw [same]; rfl
        have parked := @change_park _ _ _ s l _ _ _ (current_free scheduled) (threadBlock_first blocked)
        rw [← queue, ← waiters] at parked
        rw [if_pos zero]
        exact parked
    · contradiction

theorem change_up {wanted : Option T} (here : s.pc s.threads.current = .releaseUp l) (scheduled : s.Scheduled)
    (stepped : s.up l = .ok after) : Change none (s.listOps (.statement wanted)) s.lists after.lists := by
  have ops : s.listOps (.statement wanted) = match (popWaiter (s.waiters l)).1 with
      | some threadBlocked => [.pop (some l), .push none threadBlocked]
      | none => [] := by
    simp only [Kernel.listOps, here]
  rw [ops]
  unfold Kernel.up at stepped
  dsimp only at stepped
  split at stepped
  · contradiction
  · rename_i sema raised
    cases stepped
    obtain ⟨_, _, popped⟩ := semaUp_cases raised
    change (none, sema.waiters) = popWaiter (s.waiters l) at popped
    rw [← popped]
    rcases popWaiter_cases (s.waiters l) with ⟨empty, answer⟩ | ⟨b, r, _, answer⟩
    · rw [answer] at popped
      exact change_stay rfl (Kernel.waiters_setLock_same ((Prod.mk.inj popped).2.trans empty.symm))
    · rw [answer] at popped
      cases popped
  · rename_i sema woken raised
    obtain ⟨_, _, popped⟩ := semaUp_cases raised
    change (some woken, sema.waiters) = popWaiter (s.waiters l) at popped
    rw [← popped]
    cases unblocked : threadUnblock woken s.threads with
    | error fault => simp [unblocked, Except.map] at stepped
    | ok threads =>
      simp only [unblocked, Except.map, Except.ok.injEq] at stepped
      subst after
      rcases popWaiter_cases (s.waiters l) with ⟨_, answer⟩ | ⟨b, r, queue, answer⟩
      · rw [answer] at popped
        cases popped
      · rw [answer] at popped
        obtain ⟨rfl, rest⟩ : woken = b ∧ sema.waiters = r := by simpa using popped
        obtain ⟨_, absent, same⟩ := threadUnblock_cases unblocked
        have nodup := scheduled.waitersNodup l
        rw [queue] at nodup
        have waiters := Kernel.waiters_setLock s l { s.lock l with semaphore := sema }
        have free : (listed s.threads.readyList (Function.update s.waiters l r)).Free woken := by
          refine listed_free absent fun m waits => ?_
          by_cases here : m = l
          · rw [here, Function.update_self] at waits
            exact (List.nodup_cons.mp nodup).1 waits
          · rw [Function.update_of_ne here] at waits
            have first : woken ∈ s.waiters l := by rw [queue]; exact List.mem_cons_self
            have place := (scheduled.waiting _ _ waits).1.symm.trans (scheduled.waiting _ _ first).1
            exact here (Pc.dowmBlocked.inj place)
        have woke := change_wake queue free
        rw [← rest, ← waiters] at woke
        have ready : listPush s.threads.readyList woken = threads.readyList := by rw [same]
        rw [ready] at woke
        exact woke

theorem change_step (scheduled : s.Scheduled) (created : s.Created) (first : Search.FirstReady a)
    (unblock : s.ProperUnblock a)
    (elsewhere : (∃ wanted, a = .statement wanted) → ∀ c, s.pc s.threads.current ≠ .startFind c)
    (stepped : s.step a = some (.ok after)) : Change none (s.listOps a) s.lists after.lists := by
  cases a with
  | statement wanted =>
    cases first
    change s.statement none = _ at stepped
    cases here : s.pc s.threads.current with
    | run | unborn | embryo => simp [Kernel.statement, here] at stepped
    | startFind c => exact absurd here (elsewhere ⟨none, rfl⟩ c)
    | acquireDowm l =>
      simp only [Kernel.statement, here, Option.some.injEq] at stepped
      exact change_dowm scheduled (.inl here) stepped
    | dowmBlocked l =>
      simp only [Kernel.statement, here, Option.some.injEq] at stepped
      exact change_dowm scheduled (.inr here) stepped
    | releaseUp l =>
      simp only [Kernel.statement, here, Option.some.injEq] at stepped
      cases raised : s.up l with
      | error fault => simp [raised, Except.map] at stepped
      | ok middle =>
        simp only [raised, Except.map, Except.ok.injEq] at stepped
        subst after
        have change : Change none (s.listOps (.statement none)) s.lists middle.lists :=
          change_up here scheduled raised
        exact change
    | startAppend c =>
      have embryo := created.preparing s.threads.current c (by rw [here]; rfl)
      obtain ⟨notReady, notWaiting, _⟩ := scheduled.unlisted (c := c) (by rw [embryo]; exact id)
      have ops : s.listOps (.statement none) = [.append none c] := by simp only [Kernel.listOps, here]
      simp only [Kernel.statement, here, Option.some.injEq, Except.ok.injEq] at stepped
      subst after
      rw [ops]
      exact change_append (listed_free notReady notWaiting)
    | acquireTest l | releaseTest l | startAppendAll l | blocked =>
      have ops : s.listOps (.statement none) = [] := by simp only [Kernel.listOps, here]
      simp only [Kernel.statement, here, Option.some.injEq, Except.ok.injEq] at stepped
      subst after
      rw [ops]
      exact change_stay rfl rfl
    | acquireHolder l | acquireRepeat l | acquireNest l | releaseNest l | releaseHolder l | releaseRepeat l =>
      have ops : s.listOps (.statement none) = [] := by simp only [Kernel.listOps, here]
      simp only [Kernel.statement, here, Option.some.injEq, Except.ok.injEq] at stepped
      subst after
      rw [ops]
      exact change_stay rfl (Kernel.waiters_setLock_same rfl)
    | acquireAssert l | releaseAssert l | releaseOnce l =>
      have ops : s.listOps (.statement none) = [] := by simp only [Kernel.listOps, here]
      simp only [Kernel.statement, here, Option.some.injEq] at stepped
      rw [ops]
      split at stepped
      · cases stepped
        exact change_stay rfl rfl
      · contradiction
    | startFindAll c =>
      have ops : s.listOps (.statement none) = [] := by simp only [Kernel.listOps, here]
      simp only [Kernel.statement, here, Option.some.injEq] at stepped
      rw [ops]
      split at stepped
      · contradiction
      · cases stepped
        exact change_stay rfl rfl
  | clock wanted =>
    cases first
    simp only [Kernel.step] at stepped
    split at stepped
    · simp only [Option.some.injEq] at stepped
      cases ticked : clockInterruptHandler none s.threads with
      | error fault => simp [ticked, Except.map] at stepped
      | ok threads =>
        simp only [ticked, Except.map, Except.ok.injEq] at stepped
        subst after
        exact change_clock scheduled ticked
    · contradiction
  | threadBlock status wanted =>
    cases first
    simp only [Kernel.step] at stepped
    split at stepped
    · simp only [Option.some.injEq] at stepped
      cases blocked : threadBlock none status s.threads with
      | error fault => simp [blocked, Except.map] at stepped
      | ok threads =>
        simp only [blocked, Except.map, Except.ok.injEq] at stepped
        subst after
        exact change_pop (threadBlock_first blocked)
    · contradiction
  | threadUnblock pthread =>
    simp only [Kernel.step] at stepped
    split at stepped
    · simp only [Option.some.injEq] at stepped
      cases unblocked : threadUnblock pthread s.threads with
      | error fault => simp [unblocked, Except.map] at stepped
      | ok threads =>
        simp only [unblocked, Except.map, Except.ok.injEq] at stepped
        subst after
        obtain ⟨_, absent, same⟩ := threadUnblock_cases unblocked
        rw [same]
        exact change_push (listed_free absent unblock.2.2)
    · contradiction
  | processExecute pthread pgdir =>
    simp only [Kernel.step] at stepped
    split at stepped
    · rename_i fresh
      obtain ⟨notReady, notWaiting, _⟩ := scheduled.unlisted (c := pthread) (by rw [fresh.2]; exact id)
      simp only [Option.some.injEq, Kernel.executeProcess] at stepped
      split at stepped
      · contradiction
      · split at stepped
        · contradiction
        · cases stepped
          exact change_append (listed_free notReady notWaiting)
    · contradiction
  | lockAcquire l | lockRelease l | work =>
    simp only [Kernel.step] at stepped
    split at stepped
    · cases stepped
      exact change_stay rfl rfl
    · contradiction
  | threadStart pthread prio =>
    simp only [Kernel.step] at stepped
    split at stepped
    · cases stepped
      exact change_stay rfl rfl
    · contradiction

end Lists

/-! The runs. -/

section Runs

namespace Search

variable {T L : Type} [DecidableEq T] [DecidableEq L] {s after : Search T L} {a : Act T L} {c t n : T} {l : L}
  {known : T → Prop} {p : Ptr (Option L) T}

/-- What the turns of the loop do, the branch that ends it apart. -/
theorem iterate_cases (turned : s.iterate c = some (.ok after)) :
    (∃ elem, s.cursor s.kernel.threads.current = none ∧ elem = s.cells.next (.head none) ∧
        after = { s with cursor := Function.update s.cursor s.kernel.threads.current (some elem) }) ∨
      (∃ elem, s.cursor s.kernel.threads.current = some elem ∧ elem ≠ .tail none ∧ elem ≠ .elem c ∧
        after = { s with
          cursor := Function.update s.cursor s.kernel.threads.current (some (s.cells.next elem)) }) ∨
      (s.cursor s.kernel.threads.current = some (.tail none) ∧ after = { s with
        kernel := s.kernel.goto (.startAppend c)
        cursor := Function.update s.cursor s.kernel.threads.current none }) := by
  unfold iterate at turned
  dsimp only at turned
  cases here : s.cursor s.kernel.threads.current with
  | none =>
    rw [here] at turned
    unfold Cells.getNext at turned
    rw [if_neg (by simp), Option.map_some, Option.some.injEq, Except.ok.injEq] at turned
    exact .inl ⟨_, rfl, rfl, turned.symm⟩
  | some elem =>
    rw [here] at turned
    dsimp only at turned
    by_cases ended : elem = .tail none
    · rw [if_neg (not_not.mpr ended), Option.some.injEq, Except.ok.injEq] at turned
      exact .inr (.inr ⟨congrArg some ended, turned.symm⟩)
    · rw [if_pos ended] at turned
      by_cases found : elem = .elem c
      · rw [if_pos found] at turned
        cases turned
      · rw [if_neg found] at turned
        by_cases null : elem = .null
        · rw [null] at turned
          cases turned
        · unfold Cells.getNext at turned
          rw [if_neg null, Option.map_some, Option.some.injEq, Except.ok.injEq] at turned
          exact .inr (.inl ⟨elem, rfl, ended, found, turned.symm⟩)

theorem other_cases (stepped : s.other a = some (.ok after)) : ∃ kernel cells,
    s.kernel.step a = some (.ok kernel) ∧ ListOp.execAll s.cells (s.kernel.listOps a) = some cells ∧
      after = ⟨kernel, cells, s.cursor⟩ := by
  unfold other at stepped
  cases kernelStep : s.kernel.step a with
  | none => rw [kernelStep] at stepped; cases stepped
  | some outcome =>
    cases outcome with
    | error fault => rw [kernelStep] at stepped; cases stepped
    | ok kernel =>
      rw [kernelStep] at stepped
      cases run : ListOp.execAll s.cells (s.kernel.listOps a) with
      | none => rw [run] at stepped; cases stepped
      | some cells =>
        rw [run] at stepped
        cases stepped
        exact ⟨kernel, cells, rfl, rfl, rfl⟩

/-- A step is a turn of the loop, or one of the kernel elsewhere. -/
theorem step_cases (stepped : s.step a = some (.ok after)) :
    (∃ wanted c, a = .statement wanted ∧ s.kernel.pc s.kernel.threads.current = .startFind c ∧
        s.iterate c = some (.ok after)) ∨
      (s.other a = some (.ok after) ∧
        ((∃ wanted, a = .statement wanted) → ∀ c, s.kernel.pc s.kernel.threads.current ≠ .startFind c)) := by
  unfold step at stepped
  split at stepped
  next wanted c here => exact .inl ⟨wanted, c, rfl, here, stepped⟩
  next away =>
    refine .inr ⟨stepped, ?_⟩
    rintro ⟨wanted, rfl⟩ c here
    exact away wanted c rfl here

/-- What holds in the runs: the cursors stand on nodes that have been in a list, or at the tail. -/
structure Safe (s : Search T L) (known : T → Prop) : Prop where
  scheduled : s.kernel.Scheduled
  created : s.kernel.Created
  followed : Followed none s.cells s.kernel.lists known none
  cursors : ∀ t p, s.cursor t = some p → Leads none known p

omit [DecidableEq T] [DecidableEq L] in
theorem next_leads (safe : Safe s known) (was : known n) (inner : ∀ l, (s.kernel.waiters l).getLast? ≠ some n) :
    Leads none known (s.cells.next (.elem n)) := by
  by_cases free : s.kernel.lists.Free n
  · exact safe.followed.stale n was (Option.some_ne_none n) free
  · simp only [Sequences.Free, not_forall, not_not] at free
    obtain ⟨place, ns, is, member⟩ := free
    obtain ⟨us, vs, rfl⟩ := List.append_of_mem member
    cases vs with
    | nil =>
      cases place with
      | none => exact .inl (next_of_last safe.followed.rep is)
      | some l =>
        have last : (s.kernel.waiters l).getLast? = some n := by
          rw [Option.some.inj is]
          exact List.getLast?_concat
        exact absurd last (inner l)
    | cons y vs =>
      refine .inr ⟨y, ?_, next_of_inner safe.followed.rep is⟩
      exact safe.followed.listed place _ is y (by simp)

/-- The sought thread is not yet in the list, so the kernel's check passes as well. -/
theorem found_step (scheduled : s.kernel.Scheduled) (created : s.kernel.Created)
    (here : s.kernel.pc s.kernel.threads.current = .startFind c) :
    s.kernel.step (.statement none) = some (.ok (s.kernel.goto (.startAppend c))) := by
  have embryo := created.preparing s.kernel.threads.current c (by rw [here]; rfl)
  have absent := (scheduled.unlisted (show ¬ (s.kernel.pc c).Started by rw [embryo]; exact id)).1
  have missing : ¬ elemFind s.kernel.threads.readyList c = true := by rw [elemFind_iff]; exact absent
  simp only [Kernel.step, Kernel.statement, here, missing, ↓reduceIte, Bool.false_eq_true]

omit [DecidableEq L] in
theorem cursors_moved (leads : ∀ t p, s.cursor t = some p → Leads none known p) (next : Leads none known p) :
    ∀ u q, Function.update s.cursor t (some p) u = some q → Leads none known q := by
  intro u q at_
  by_cases own : u = t
  · rw [own, Function.update_self, Option.some.injEq] at at_
    rw [← at_]
    exact next
  · rw [Function.update_of_ne own] at at_
    exact leads u q at_

theorem Safe.turn (safe : Safe s known) (stays : ∀ n, s.cursor s.kernel.threads.current = some (.elem n) → n ≠ c →
      ∀ l, (s.kernel.waiters l).getLast? ≠ some n)
    (here : s.kernel.pc s.kernel.threads.current = .startFind c) (turned : s.iterate c = some (.ok after)) :
    Safe after known := by
  rcases iterate_cases turned with ⟨elem, _, first, rfl⟩ | ⟨elem, cursor, going, unfound, rfl⟩ | ⟨_, rfl⟩
  · refine ⟨safe.scheduled, safe.created, safe.followed, cursors_moved safe.cursors ?_⟩
    have head := safe.followed.rep.first (show s.kernel.lists none = some _ from rfl)
    unfold Cells.getNext at head
    rw [if_neg (by simp), Option.some.injEq] at head
    rw [first, head]
    cases ready : s.kernel.threads.readyList with
    | nil => exact .inl (by simp)
    | cons n rest =>
      refine .inr ⟨n, safe.followed.listed none _ rfl n ?_, by simp⟩
      rw [ready]
      exact List.mem_cons_self
  · refine ⟨safe.scheduled, safe.created, safe.followed, cursors_moved safe.cursors ?_⟩
    obtain ⟨n, was, rfl⟩ := (safe.cursors _ _ cursor).resolve_left going
    exact next_leads safe was (stays n cursor fun same => unfound (congrArg _ same))
  · have effect := Kernel.step_effect (found_step safe.scheduled safe.created here)
    have proper : s.kernel.ProperUnblock (.statement none) := trivial
    refine ⟨Kernel.scheduled_preserved safe.scheduled safe.created proper effect,
      Kernel.created_preserved safe.scheduled safe.created proper effect, safe.followed, fun u q at_ => ?_⟩
    dsimp only at at_
    by_cases own : u = s.kernel.threads.current
    · rw [own, Function.update_self] at at_
      cases at_
    · rw [Function.update_of_ne own] at at_
      exact safe.cursors u q at_

theorem Safe.step (safe : Safe s known) (clear : Clear s a) (stepped : s.step a = some (.ok after)) :
    ∃ wider, Safe after wider := by
  rcases step_cases stepped with ⟨wanted, c, rfl, here, turned⟩ | ⟨elsewhere, away⟩
  · refine ⟨known, safe.turn ?_ here turned⟩
    intro n cursor other l last
    exact clear.stays ⟨wanted, c, n, l, rfl, here, cursor, other, last⟩
  · obtain ⟨kernel, cells, kernelStep, run, rfl⟩ := other_cases elsewhere
    have change := change_step safe.scheduled safe.created clear.firstReady clear.unblock away kernelStep
    obtain ⟨cells', wider, run', more, followed⟩ := safe.followed.change change
    rw [run, Option.some.injEq] at run'
    subst run'
    have effect := Kernel.step_effect kernelStep
    exact ⟨wider, Kernel.scheduled_preserved safe.scheduled safe.created clear.unblock effect,
      Kernel.created_preserved safe.scheduled safe.created clear.unblock effect, followed,
      fun t p at_ => (safe.cursors t p at_).mono more⟩

theorem start_safe (begun : (system T L).start s) : Safe s fun _ => False := by
  obtain ⟨⟨mainThread, memory, boot⟩, initialised, noCursor⟩ := begun
  have empty (place : Option L) : s.kernel.lists place = some [] := by
    rw [boot]
    cases place <;> rfl
  refine ⟨by rw [boot]; exact Kernel.boot_scheduled mainThread memory,
    by rw [boot]; exact Kernel.boot_created mainThread memory, ⟨⟨?_, ?_, ?_⟩, ?_, ?_, ?_⟩, ?_⟩
  · intro place ns is
    rw [empty, Option.some.injEq] at is
    subst is
    obtain ⟨_, forward, backward, _⟩ := initialised place
    exact List.isChain_cons_cons.mpr ⟨⟨forward, backward⟩, .singleton _⟩
  · intro place ns is
    rw [empty, Option.some.injEq] at is
    subst is
    exact .nil
  · intro place place' ns ns' _ is _ n member
    rw [empty, Option.some.injEq] at is
    subst is
    cases member
  · exact Option.some_ne_none _
  · intro place ns is n member
    rw [empty, Option.some.injEq] at is
    subst is
    cases member
  · exact fun _ was => was.elim
  · intro t p at_
    rw [noCursor] at at_
    cases at_

theorem reachable_safe (reached : (system T L).ReachableBy Clear s) : ∃ known, Safe s known := by
  have initial (s : Search T L) (begun : (system T L).start s) : ∃ known, Safe s known := ⟨_, start_safe begun⟩
  refine reached.invariant initial ?_
  rintro s a after - ⟨known, safe⟩ clear stepped
  exact safe.step clear stepped

/-- The turn that goes on from the last waiter of a semaphore reaches the tail of its waiters. -/
theorem leaves_waiters (safe : Safe s known) (leaves : s.LeavesWaiters a) : ∃ after l,
    s.step a = some (.ok after) ∧ after.cursor s.kernel.threads.current = some (.tail (some l)) := by
  obtain ⟨wanted, c, n, l, rfl, here, cursor, other, last⟩ := leaves
  have next : s.cells.next (.elem n) = .tail (some l) := by
    obtain ⟨us, split⟩ := List.getLast?_eq_some_iff.mp last
    exact next_of_last safe.followed.rep (show s.kernel.lists (some l) = some (us ++ [n]) from congrArg some split)
  refine ⟨{ s with cursor := Function.update s.cursor s.kernel.threads.current (some (.tail (some l))) }, l, ?_,
    Function.update_self ..⟩
  unfold step
  rw [here]
  unfold iterate
  dsimp only
  rw [cursor]
  have found : ¬ (Ptr.elem n : Ptr (Option L) T) = .elem c := fun same => other (Ptr.elem.inj same)
  simp only [ne_eq, reduceCtorEq, not_false_eq_true, ↓reduceIte, found, Cells.getNext, next, Option.map_some]

/-- The lists of the kernel as `list_init` leaves them, the nodes zeroed. -/
def freshCells : Cells (Option Unit) Nat where
  prev
    | .tail l => .head l
    | _ => .null
  next
    | .head l => .tail l
    | _ => .null

def booted : Search Nat Unit := ⟨Kernel.boot 0 fun _ => ⟨.died, 0, 0, 0, 0⟩, freshCells, fun _ => none⟩

theorem booted_start : (system Nat Unit).start booted :=
  ⟨⟨0, _, rfl⟩, fun _ => ⟨rfl, rfl, rfl, rfl⟩, rfl⟩

/-- Two threads are started. While the main thread looks for a third one and its cursor is at the second, the
    first takes the lock and the second waits for it; the main thread goes on through the waiters. -/
def strayed : List (Act Nat Unit) :=
  (.threadStart 1 31 :: List.replicate 5 (.statement none)) ++
  (.threadStart 2 31 :: List.replicate 6 (.statement none)) ++
  (.threadStart 3 31 :: List.replicate 2 (.statement none)) ++ List.replicate 32 (.clock none) ++
  (.lockAcquire () :: List.replicate 5 (.statement none)) ++ List.replicate 32 (.clock none) ++
  (.lockAcquire () :: List.replicate 2 (.statement none)) ++ List.replicate 2 (.statement none)

end Search

end Runs

end LiziOS
