import LiziOS.Kernel.IoQueueInvariant

namespace LiziOS.IoState

variable {T : Type*} [DecidableEq T] {s after : IoState T} {wanted : Option T} {call : IoCall}
  {fault : Fault}

/-- A thread is parked in a slot only while it has to be. -/
structure Timely (s : IoState T) : Prop where
  consumer : s.ioq.consumer ≠ none → ioqEmpty s.ioq = true
  producer : s.ioq.producer ≠ none → ioqFull s.ioq = true

omit [DecidableEq T] in
theorem Timely.same (timely : Timely s) (same : SameBytes s after)
    (consumer : after.ioq.consumer ≠ none → s.ioq.consumer ≠ none)
    (producer : after.ioq.producer ≠ none → s.ioq.producer ≠ none) : Timely after := by
  obtain ⟨-, head, tail, -, -⟩ := same
  constructor
  · intro named
    rw [ioqEmpty, head, tail]
    exact timely.consumer (consumer named)
  · intro named
    rw [ioqFull, head, tail]
    exact timely.producer (producer named)

omit [DecidableEq T] in
theorem take_ordered (ordered : Ordered s) (some_ : ioqEmpty s.ioq = false)
    (buf : after.ioq.buf = s.ioq.buf) (head : after.ioq.head = s.ioq.head)
    (tail : after.ioq.tail = nextPos s.ioq.tail) (stored : after.stored = s.stored)
    (returned : after.returned = s.returned ++ [s.ioq.buf s.ioq.tail.toNat]) : Ordered after := by
  have next := nextPos_toNat ordered.tail
  have nonempty : s.ioq.head.toNat ≠ s.ioq.tail.toNat := by
    intro same
    simp [ioqEmpty, BitVec.eq_of_toNat_eq same] at some_
  refine ⟨by rw [head]; exact ordered.head, ?_, ?_⟩
  · rw [tail, next]
    exact Ring.next_lt ordered.tail
  · have fifo := ordered.fifo
    rw [contents, Ring.contents_take ordered.head ordered.tail nonempty] at fifo
    rw [contents, buf, head, tail, next, stored, returned, List.append_assoc]
    exact fifo

omit [DecidableEq T] in
theorem put_ordered {byte : U8} (ordered : Ordered s) (room : ioqFull s.ioq = false)
    (buf : after.ioq.buf = Function.update s.ioq.buf s.ioq.head.toNat byte)
    (head : after.ioq.head = nextPos s.ioq.head) (tail : after.ioq.tail = s.ioq.tail)
    (stored : after.stored = s.stored ++ [byte]) (returned : after.returned = s.returned) :
    Ordered after := by
  have next := nextPos_toNat ordered.head
  have notFull : Ring.next 64 s.ioq.head.toNat ≠ s.ioq.tail.toNat := by
    intro same
    simp [ioqFull, BitVec.eq_of_toNat_eq (next.trans same)] at room
  refine ⟨?_, by rw [tail]; exact ordered.tail, ?_⟩
  · rw [head, next]
    exact Ring.next_lt ordered.head
  · rw [contents, buf, head, tail, next, stored, returned,
      Ring.contents_put byte ordered.head ordered.tail notFull, ← List.append_assoc]
    exact congrArg (· ++ [byte]) ordered.fifo

/-- The `lock_release` after `ioq_wait` always completes. -/
theorem release_placed (placed : Placed s) (atWait : s.pc s.threads.current = .atWait call) :
    ∃ after, s.release = .ok after ∧ Placed after ∧ SameBytes s after ∧
      after.pc after.threads.current = .idle ∧ after.ioq.consumer = none ∧
      after.ioq.producer = none := by
  obtain ⟨owner, _, held, -, only⟩ := placed.lock.resolve_left (fun free => free.2 _ _ atWait)
  obtain rfl := only _ _ atWait
  have noConsumer : s.ioq.consumer = none := by
    refine Option.eq_none_iff_forall_ne_some.mpr fun t named => ?_
    obtain ⟨blocked, parked⟩ := placed.consumer t named
    exact placed.current_not_blocked blocked (only t _ parked)
  have noProducer : s.ioq.producer = none := by
    refine Option.eq_none_iff_forall_ne_some.mpr fun t named => ?_
    obtain ⟨blocked, _, parked⟩ := placed.producer t named
    exact placed.current_not_blocked blocked (only t _ parked)
  have there {t : T} (other : t ≠ s.threads.current) : (s.goto .idle).pc t = s.pc t :=
    Function.update_of_ne other _ _
  have here : (s.goto .idle).pc s.threads.current = .idle := Function.update_self ..
  have nobody (t : T) (call : IoCall) : (s.goto .idle).pc t ≠ .atWait call := by
    intro parked
    by_cases moved : t = s.threads.current
    · rw [moved, here] at parked
      contradiction
    · rw [there moved] at parked
      exact moved (only t call parked)
  have waiting (t : T) (waits : t ∈ s.waiters) : s.threads.status t = .blocked ∧
      ∃ call, (s.goto .idle).pc t = .atLock call := by
    obtain ⟨blocked, atLock⟩ := placed.waiting t waits
    rw [there (placed.current_not_blocked blocked)]
    exact ⟨blocked, atLock⟩
  have nodup := placed.waitersNodup
  unfold release
  rw [lockRelease_held held]
  rcases popWaiter_cases s.waiters with ⟨empty, answer⟩ | ⟨woken, rest, queue, answer⟩
  · have popped : popWaiter s.ioq.lock.semaphore.waiters = (none, []) := answer
    refine ⟨{ s.goto .idle with ioq := { s.ioq with lock := ⟨none, ⟨1, []⟩, 0⟩ } }, ?_, ?_,
      ⟨rfl, rfl, rfl, rfl, rfl⟩, here, noConsumer, noProducer⟩
    · rw [popped]
      rfl
    · refine ⟨placed.coherent, List.nodup_nil, fun t waits => (nomatch waits),
        .inl ⟨⟨rfl, rfl, rfl⟩, nobody⟩, ?_, ?_⟩
      · intro t named
        cases noConsumer.symm.trans named
      · intro t named
        cases noProducer.symm.trans named
  · have popped : popWaiter s.ioq.lock.semaphore.waiters = (some woken, rest) := answer
    rw [queue] at nodup waiting
    obtain ⟨gone, restNodup⟩ := List.nodup_cons.mp nodup
    obtain ⟨threads, unblocked, coherent, current, roused⟩ :=
      coherent_unblock placed.coherent (waiting woken List.mem_cons_self).1
    refine ⟨{ s.goto .idle with
        ioq := { s.ioq with lock := ⟨none, ⟨1, rest⟩, 0⟩ }
        threads := threads }, ?_, ?_, ⟨rfl, rfl, rfl, rfl, rfl⟩, ?_, noConsumer, noProducer⟩
    · rw [popped]
      change (threadUnblock woken s.threads).map _ = _
      rw [unblocked]
      rfl
    · refine ⟨coherent, restNodup, ?_, .inl ⟨⟨rfl, rfl, rfl⟩, nobody⟩, ?_, ?_⟩
      · intro t waits
        obtain ⟨blocked, atLock⟩ := waiting t (List.mem_cons_of_mem _ waits)
        exact ⟨(roused t).mpr ⟨blocked, fun eq => gone (eq ▸ waits)⟩, atLock⟩
      · intro t named
        cases noConsumer.symm.trans named
      · intro t named
        cases noProducer.symm.trans named
    · rw [current]
      exact here

/-- What is preserved from a blocking point to the next one. -/
structure Sound (s : IoState T) : Prop where
  placed : Placed s
  ordered : Ordered s

/-- The thread has passed or queued at the lock. It parks at the right time when its call still
    has to wait. -/
theorem acquire_sound (sound : Sound s)
    (outside : ∀ call, s.pc s.threads.current ≠ .atWait call)
    (done : (lockDowm s.ioq.lock s.threads.current >>= s.afterAcquire wanted call) = .ok after) :
    Sound after ∧ (Timely s →
      (s.ioq.lock.semaphore.value = 1 → call.waits s.ioq = true) → Timely after) := by
  have same := acquire_bytes done sound.placed
  refine ⟨⟨acquire_placed sound.placed outside done, sound.ordered.same same⟩, ?_⟩
  intro timely needed
  rcases sound.placed.lock with ⟨free, nobody⟩ | ⟨t, _, held, _, _⟩
  · have waits := needed free.2.1
    have consumer : s.ioq.consumer = none := sound.placed.no_waiter nobody .getchar
    have producer : s.ioq.producer = none := sound.placed.no_waiter nobody (.putchar 0)
    rw [acquire_free sound.placed free nobody] at done
    obtain ⟨threads, slept, rfl⟩ := map_completed done
    cases call with
    | getchar => exact ⟨fun _ => waits, fun named => absurd producer named⟩
    | putchar byte => exact ⟨fun named => absurd consumer named, fun _ => waits⟩
  · rw [acquire_held sound.placed held] at done
    obtain ⟨threads, slept, rfl⟩ := map_completed done
    exact timely.same same id id

/-- The thread gets the lock when its call need not wait any more, and parks all the same. -/
theorem acquire_late (sound : Sound s) (free : s.ioq.lock.semaphore.value = 1)
    (ready : call.waits s.ioq = false)
    (done : (lockDowm s.ioq.lock s.threads.current >>= s.afterAcquire wanted call) = .ok after) :
    ¬ Timely after := by
  rcases sound.placed.lock with ⟨unheld, nobody⟩ | ⟨t, _, held, _, _⟩
  · rw [acquire_free sound.placed unheld nobody] at done
    obtain ⟨threads, slept, rfl⟩ := map_completed done
    intro timely
    cases call with
    | getchar => exact absurd (timely.consumer nofun) (ne_true_of_eq_false ready)
    | putchar byte => exact absurd (timely.producer nofun) (ne_true_of_eq_false ready)
  · rw [held.2.1] at free
    exact absurd free (by decide)

/-- A caller that is not in `ioq_wait` does not have the lock. -/
theorem lockAcquire_outside (placed : Placed s)
    (outside : ∀ call, s.pc s.threads.current ≠ .atWait call) :
    lockAcquire s.ioq.lock s.threads.current = lockDowm s.ioq.lock s.threads.current := by
  refine if_pos ?_
  intro holds
  rcases placed.lock with ⟨free, -⟩ | ⟨owner, call, held, parked, -⟩
  · cases free.1.symm.trans holds
  · obtain rfl : owner = s.threads.current := Option.some.inj (held.1.symm.trans holds)
    exact outside call parked

theorem loop_sound (sound : Sound s) (outside : ∀ call, s.pc s.threads.current ≠ .atWait call)
    (done : s.loop wanted call = .ok after) : Sound after ∧ (Timely s → Timely after) := by
  unfold loop at done
  split at done
  · rename_i waits
    rw [lockAcquire_outside sound.placed outside] at done
    obtain ⟨result, timely⟩ := acquire_sound sound outside done
    exact ⟨result, fun before => timely before fun _ => waits⟩
  · rename_i proceeds
    cases call with
    | getchar =>
      have some_ : ioqEmpty s.ioq = false := by simpa [IoCall.waits] using proceeds
      obtain ⟨final, taken, placed, buf, head, tail, stored, returned, producer, consumer⟩ :=
        takeChar_placed sound.placed outside
      obtain rfl : final = after := Except.ok.inj (taken.symm.trans done)
      refine ⟨⟨placed, take_ordered sound.ordered some_ buf head tail stored returned⟩, ?_⟩
      intro timely
      constructor
      · intro named
        rw [consumer] at named
        rw [timely.consumer named] at some_
        contradiction
      · intro named
        exact absurd producer named
    | putchar byte =>
      have room : ioqFull s.ioq = false := by simpa [IoCall.waits] using proceeds
      obtain ⟨final, put, placed, buf, head, tail, stored, returned, consumer, producer⟩ :=
        putChar_placed byte sound.placed outside
      obtain rfl : final = after := Except.ok.inj (put.symm.trans done)
      refine ⟨⟨placed, put_ordered sound.ordered room buf head tail stored returned⟩, ?_⟩
      intro timely
      constructor
      · intro named
        exact absurd consumer named
      · intro named
        rw [producer] at named
        rw [timely.producer named] at room
        contradiction

theorem loop_error (placed : Placed s) (outside : ∀ call, s.pc s.threads.current ≠ .atWait call)
    (failed : s.loop wanted call = .error fault) : fault = .panic .schedule := by
  unfold loop at failed
  split at failed
  · rw [lockAcquire_outside placed outside] at failed
    exact acquire_error placed failed
  · cases call with
    | getchar =>
      obtain ⟨final, taken, -⟩ := takeChar_placed placed outside
      cases taken.symm.trans failed
    | putchar byte =>
      obtain ⟨final, put, -⟩ := putChar_placed byte placed outside
      cases put.symm.trans failed

/-- The thread that goes on behind its `sema_dowm` still has to wait when it gets the lock. -/
def Fresh (s : IoState T) (a : IoAct × Option T) : Prop :=
  ∀ call, a.1 = .resume → s.pc s.threads.current = .atLock call →
    s.ioq.lock.semaphore.value = 1 → call.waits s.ioq = true

theorem resume_sound (sound : Sound s) (stepped : s.resume wanted = some (.ok after)) :
    Sound after ∧ (Fresh s (.resume, wanted) → Timely s → Timely after) := by
  unfold resume at stepped
  split at stepped
  · contradiction
  · rename_i call here
    have outside (other : IoCall) : s.pc s.threads.current ≠ .atWait other := by
      rw [here]
      simp
    obtain ⟨result, timely⟩ := acquire_sound sound outside (Option.some.inj stepped)
    exact ⟨result, fun fresh before => timely before (fresh call rfl here)⟩
  · rename_i call here
    obtain ⟨middle, released, placed, same, idle, consumer, producer⟩ :=
      release_placed sound.placed here
    have done : (s.release >>= fun s => s.loop wanted call) = .ok after := Option.some.inj stepped
    rw [released] at done
    obtain ⟨result, timely⟩ := loop_sound ⟨placed, sound.ordered.same same⟩
      (fun other => by rw [idle]; simp) done
    refine ⟨result, fun _ before => timely (before.same same ?_ ?_)⟩
    · exact fun named => absurd consumer named
    · exact fun named => absurd producer named

theorem step_sound {a : IoAct × Option T} (sound : Sound s)
    (stepped : s.step a = some (.ok after)) :
    Sound after ∧ (Fresh s a → Timely s → Timely after) := by
  have calls (call : IoCall) (wanted : Option T) (idle : s.pc s.threads.current = .idle)
      (done : s.loop wanted call = .ok after) : Sound after ∧ (Timely s → Timely after) :=
    loop_sound sound (fun other => by rw [idle]; simp) done
  obtain ⟨act, wanted⟩ := a
  cases act with
  | getchar =>
    simp only [step] at stepped
    split at stepped
    · obtain ⟨result, timely⟩ := calls .getchar wanted ‹_› (Option.some.inj stepped)
      exact ⟨result, fun _ => timely⟩
    · contradiction
  | putchar byte =>
    simp only [step] at stepped
    split at stepped
    · obtain ⟨result, timely⟩ := calls (.putchar byte) wanted ‹_› (Option.some.inj stepped)
      exact ⟨result, fun _ => timely⟩
    · contradiction
  | keyboard byte =>
    simp only [step] at stepped
    split at stepped
    · rename_i idle
      have done := Option.some.inj stepped
      split at done
      · cases done
        exact ⟨sound, fun _ => id⟩
      · obtain ⟨result, timely⟩ := calls (.putchar byte) wanted idle done
        exact ⟨result, fun _ => timely⟩
    · contradiction
  | clock =>
    simp only [step] at stepped
    split at stepped
    · obtain ⟨threads, ticked, rfl⟩ := map_completed (Option.some.inj stepped)
      obtain ⟨coherent, asleep⟩ := coherent_clock sound.placed.coherent ticked
      obtain ⟨-, nodup, waiting, lock, consumer, producer⟩ := sound.placed
      refine ⟨⟨⟨coherent, nodup, ?_, lock, ?_, ?_⟩, sound.ordered.same ⟨rfl, rfl, rfl, rfl, rfl⟩⟩,
        fun _ timely => timely.same ⟨rfl, rfl, rfl, rfl, rfl⟩ id id⟩
      · exact fun t waits => (waiting t waits).imp_left (asleep t).mpr
      · exact fun t named => (consumer t named).imp_left (asleep t).mpr
      · exact fun t named => (producer t named).imp_left (asleep t).mpr
    · contradiction
  | resume => exact resume_sound sound stepped

omit [DecidableEq T] in
theorem start_sound (start : Start s) : Sound s ∧ Timely s := by
  obtain ⟨running, ready, nodup, ⟨memory, queue⟩, idle, stored, returned⟩ := start
  have waiters : s.waiters = [] := by rw [waiters, queue]; rfl
  have head : s.ioq.head = 0 := by rw [queue]; rfl
  have tail : s.ioq.tail = 0 := by rw [queue]; rfl
  have consumer : s.ioq.consumer = none := by rw [queue]; rfl
  have producer : s.ioq.producer = none := by rw [queue]; rfl
  refine ⟨⟨⟨⟨running, ready, nodup⟩, ?_, ?_, ?_, ?_, ?_⟩, ?_, ?_, ?_⟩, ?_, ?_⟩
  · rw [waiters]
    exact List.nodup_nil
  · rw [waiters]
    simp
  · refine .inl ⟨by rw [queue]; exact ⟨rfl, rfl, rfl⟩, fun t call => ?_⟩
    rw [idle]
    simp
  · simp [consumer]
  · simp [producer]
  · rw [head]
    decide
  · rw [tail]
    decide
  · rw [contents, head, tail, stored, returned]
    rfl
  · exact fun named => absurd consumer named
  · exact fun named => absurd producer named

theorem reachable_sound {allowed : IoState T → IoAct × Option T → Prop}
    (reached : (system T).ReachableBy allowed s) : Sound s :=
  reached.invariant (fun _ start => (start_sound start).1)
    (fun _ _ _ _ sound _ stepped => (step_sound sound stepped).1)

/-- The checks on the paths through the queue, those of `schedule` apart. -/
def ioSites : List Site :=
  [.ioqFull, .ioqEmpty, .ioqWait, .wakeup, .ioqGetchar, .ioqPutchar, .semaDowm, .semaUp,
    .lockAcquire, .lockRelease, .threadBlock, .threadUnblock]

theorem io_checks_pass (sound : Sound s) (a : IoAct × Option T) {site : Site}
    (listed : site ∈ ioSites) : s.step a ≠ some (.error (.panic site)) := by
  intro failed
  have scheduleOnly (same : Fault.panic site = .panic .schedule) : False := by
    cases same
    simp [ioSites] at listed
  have calls (call : IoCall) (wanted : Option T) (idle : s.pc s.threads.current = .idle)
      (failed : s.loop wanted call = .error (.panic site)) : False :=
    scheduleOnly (loop_error sound.placed (fun other => by rw [idle]; simp) failed)
  obtain ⟨act, wanted⟩ := a
  cases act with
  | getchar =>
    simp only [step] at failed
    split at failed
    · exact calls .getchar wanted ‹_› (Option.some.inj failed)
    · contradiction
  | putchar byte =>
    simp only [step] at failed
    split at failed
    · exact calls (.putchar byte) wanted ‹_› (Option.some.inj failed)
    · contradiction
  | keyboard byte =>
    simp only [step] at failed
    split at failed
    · rename_i idle
      have refused := Option.some.inj failed
      split at refused
      · contradiction
      · exact calls (.putchar byte) wanted idle refused
    · contradiction
  | clock =>
    simp only [step] at failed
    split at failed
    · rcases clockInterruptHandler_error (map_failed (Option.some.inj failed)) with same | same <;>
        cases same <;> simp [ioSites] at listed
    · contradiction
  | resume =>
    simp only [step, resume] at failed
    split at failed
    · contradiction
    · rename_i call here
      have outside (other : IoCall) : s.pc s.threads.current ≠ .atWait other := by
        rw [here]
        simp
      exact scheduleOnly (acquire_error sound.placed (Option.some.inj failed))
    · rename_i call here
      obtain ⟨middle, released, placed, -, idle, -⟩ := release_placed sound.placed here
      have refused : (s.release >>= fun s => s.loop wanted call) = .error (.panic site) :=
        Option.some.inj failed
      rw [released] at refused
      exact scheduleOnly (loop_error placed (fun other => by rw [idle]; simp) refused)

/-- Thread 1 runs, threads 2 and 0 are ready. -/
def threeThreads : IoState Nat where
  threads := ⟨1, fun t => ⟨if t = 1 then .running else if t = 2 ∨ t = 0 then .ready else .died,
    0, 0, 0, 0x19870916⟩, 0, [2, 0], []⟩
  ioq := ioqInit fun _ => 0
  pc := fun _ => .idle
  stored := []
  returned := []

theorem threeThreads_start : Start threeThreads := by
  refine ⟨?_, ?_, by decide, ⟨_, rfl⟩, fun _ => rfl, rfl, rfl⟩
  · intro t
    by_cases one : t = 1
    · simp [threeThreads, one]
    · by_cases ready : t = 2 ∨ t = 0 <;> simp [threeThreads, one, ready]
  · intro t
    by_cases one : t = 1
    · simp [threeThreads, one]
    · by_cases ready : t = 2 ∨ t = 0 <;> simp [threeThreads, one, ready]

/-- First in, first out: the bytes returned so far and then the bytes in the buffer are the bytes
    stored. At most one slot names a thread, which sleeps and has the lock. -/
theorem ioqueue_fifo (reached : (system T).Reachable s) :
    s.returned ++ s.contents = s.stored ∧
    s.ioq.head.toNat < 64 ∧ s.ioq.tail.toNat < 64 ∧ s.contents.length ≤ 63 ∧
    (s.ioq.producer = none ∨ s.ioq.consumer = none) ∧
    (∀ t, s.ioq.producer = some t ∨ s.ioq.consumer = some t →
      s.threads.status t = .blocked ∧ s.ioq.lock.holder = some t) ∧
    ∀ a, ∀ site ∈ ioSites, s.step a ≠ some (.error (.panic site)) := by
  have sound := reachable_sound reached
  obtain ⟨head, tail, fifo⟩ := sound.ordered
  have short : s.contents.length ≤ 63 := by
    have small := Ring.size_lt s.ioq.tail.toNat head
    rw [contents, Ring.contents_length]
    omega
  refine ⟨fifo, head, tail, short, sound.placed.exclusive, ?_,
    fun a site listed => io_checks_pass sound a listed⟩
  have holds {t : T} {call : IoCall} (parked : s.pc t = .atWait call) :
      s.ioq.lock.holder = some t := by
    rcases sound.placed.lock with ⟨-, nobody⟩ | ⟨owner, _, held, -, only⟩
    · exact absurd parked (nobody t call)
    · rw [only t call parked]
      exact held.1
  rintro t (named | named)
  · obtain ⟨blocked, byte, parked⟩ := sound.placed.producer t named
    exact ⟨blocked, holds parked⟩
  · obtain ⟨blocked, parked⟩ := sound.placed.consumer t named
    exact ⟨blocked, holds parked⟩

/-- One of two bytes put into the queue has been taken out again. -/
theorem ioqueue_fifo_two_bytes : ∃ s : IoState Nat, (system Nat).Reachable s ∧
    s.stored = [97, 98] ∧ s.returned = [97] ∧ s.returned ++ s.contents = s.stored := by
  obtain ⟨s, executed, stored, returned⟩ : ∃ s, (system Nat).execute threeThreads
      [(.putchar 97, none), (.putchar 98, none), (.getchar, none)] = some s ∧
      s.stored = [97, 98] ∧ s.returned = [97] := ⟨_, rfl, rfl, rfl⟩
  have reached : (system Nat).Reachable s :=
    .execute (.start threeThreads_start) (fun _ _ _ => True.intro) executed
  exact ⟨s, reached, stored, returned, (ioqueue_fifo reached).1⟩

theorem late_step {a : IoAct × Option T} (sound : Sound s) (late : ¬ Fresh s a)
    (stepped : s.step a = some (.ok after)) : ¬ Timely after := by
  obtain ⟨act, wanted⟩ := a
  simp only [Fresh, not_forall] at late
  obtain ⟨call, rfl, here, free, ready⟩ := late
  simp only [step, resume, here] at stepped
  exact acquire_late sound free (Bool.eq_false_iff.mpr ready) (Option.some.inj stepped)

/-- While every thread that gets the lock behind a queue still has to wait, nobody is parked when
    the queue could serve it; the first such thread that need not wait ends this. -/
theorem no_lost_wakeup (reached : (system T).ReachableBy Fresh s) :
    Timely s ∧ ∀ a after, s.step a = some (.ok after) → (Timely after ↔ Fresh s a) := by
  have timely : Timely s := reached.invariant (fun _ start => (start_sound start).2)
    (fun _ _ _ earlier timely fresh stepped =>
      (step_sound (reachable_sound earlier) stepped).2 fresh timely)
  refine ⟨timely, fun a after stepped => ⟨fun still => ?_, fun fresh => ?_⟩⟩
  · by_contra late
    exact late_step (reachable_sound reached) late stepped still
  · exact (step_sound (reachable_sound reached) stepped).2 fresh timely

/-- A consumer is parked at the empty queue. -/
theorem no_lost_wakeup_parked : ∃ s : IoState Nat, (system Nat).ReachableBy Fresh s ∧
    s.ioq.consumer = some 1 ∧ Timely s := by
  have started : (system Nat).ReachableBy Fresh threeThreads := .start threeThreads_start
  have fresh : Fresh threeThreads (.getchar, none) := fun _ resumes => (nomatch resumes)
  have parked := started.next fresh rfl
  exact ⟨_, parked, rfl, (no_lost_wakeup parked).1⟩

/-- Two consumers find the queue empty, the first parks with the lock and the second queues at it.
    Two bytes arrive and the first consumer takes one of them. The second then gets the lock and
    parks, with a byte in the buffer. -/
theorem wakeup_lost : ¬ ∀ s : IoState Nat, (system Nat).Reachable s → Timely s := by
  intro always
  obtain ⟨s, executed, parked, some_⟩ : ∃ s, (system Nat).execute threeThreads
      [(.getchar, none), (.getchar, none), (.putchar 97, none), (.putchar 98, none),
        (.clock, none), (.resume, none), (.clock, none), (.resume, none)] = some s ∧
      s.ioq.consumer = some 2 ∧ ioqEmpty s.ioq = false := ⟨_, rfl, rfl, rfl⟩
  have reached : (system Nat).Reachable s :=
    .execute (.start threeThreads_start) (fun _ _ _ => True.intro) executed
  have empty := (always s reached).consumer (by simp [parked])
  simp [some_] at empty

end LiziOS.IoState
