import LiziOS.Kernel.IoQueue

namespace LiziOS.IoState

variable {T : Type*} [DecidableEq T] {s after : IoState T} {wanted : Option T} {call : IoCall}
  {fault : Fault}

def waiters (s : IoState T) : List T := s.ioq.lock.semaphore.waiters

/-- Which threads sleep where, who has the lock, and whom the two slots name. -/
structure Placed (s : IoState T) : Prop where
  coherent : Coherent s.threads
  waitersNodup : s.waiters.Nodup
  waiting : ∀ t ∈ s.waiters, s.threads.status t = .blocked ∧ ∃ call, s.pc t = .atLock call
  lock : (s.ioq.lock.Free ∧ ∀ t call, s.pc t ≠ .atWait call) ∨
    ∃ t call, s.ioq.lock.HeldBy t ∧ s.pc t = .atWait call ∧
      ∀ u other, s.pc u = .atWait other → u = t
  consumer : ∀ t, s.ioq.consumer = some t →
    s.threads.status t = .blocked ∧ s.pc t = .atWait .getchar
  producer : ∀ t, s.ioq.producer = some t →
    s.threads.status t = .blocked ∧ ∃ byte, s.pc t = .atWait (.putchar byte)

/-- The bytes stored are those returned and those still in the buffer. -/
structure Ordered (s : IoState T) : Prop where
  head : s.ioq.head.toNat < 64
  tail : s.ioq.tail.toNat < 64
  fifo : s.returned ++ s.contents = s.stored

theorem nextPos_toNat {pos : U32} (inside : pos.toNat < 64) :
    (nextPos pos).toNat = Ring.next 64 pos.toNat := by
  unfold nextPos Ring.next
  have noCarry : (pos.toNat + 1) % 2 ^ 32 = pos.toNat + 1 := Nat.mod_eq_of_lt (by omega)
  rw [BitVec.toNat_umod, BitVec.toNat_add]
  simp [noCarry]

omit [DecidableEq T] in
theorem Placed.running (placed : Placed s) : s.threads.status s.threads.current = .running :=
  (placed.coherent.running _).mpr rfl

omit [DecidableEq T] in
theorem Placed.current_not_blocked (placed : Placed s) {t : T}
    (blocked : s.threads.status t = .blocked) : t ≠ s.threads.current := by
  rintro rfl
  rw [placed.running] at blocked
  contradiction

omit [DecidableEq T] in
theorem Placed.current_not_waiting (placed : Placed s) : s.threads.current ∉ s.waiters :=
  fun waits => placed.current_not_blocked (placed.waiting _ waits).1 rfl

omit [DecidableEq T] in
/-- While nobody has the lock both slots are empty. -/
theorem Placed.no_waiter (placed : Placed s) (nobody : ∀ t call, s.pc t ≠ .atWait call)
    (call : IoCall) : call.waiter s.ioq = none := by
  cases call with
  | getchar =>
    cases named : s.ioq.consumer with
    | none => exact named
    | some t => exact absurd (placed.consumer t named).2 (nobody t _)
  | putchar byte =>
    cases named : s.ioq.producer with
    | none => exact named
    | some t =>
      obtain ⟨-, byte, parked⟩ := placed.producer t named
      exact absurd parked (nobody t _)

/-- `sema_dowm` passes: the thread has the lock and parks in its slot. -/
theorem acquire_free (placed : Placed s) (free : s.ioq.lock.Free)
    (nobody : ∀ t call, s.pc t ≠ .atWait call) :
    (lockDowm s.ioq.lock s.threads.current >>= s.afterAcquire wanted call) =
      IoState.block { s with ioq := call.setWaiter { s.ioq with
        lock := ⟨some s.threads.current, ⟨0, s.waiters⟩, 1⟩ } (some s.threads.current) }
        wanted (.atWait call) := by
  have empty := placed.no_waiter nobody call
  rw [lockDowm_free free]
  cases call with
  | getchar =>
    change (ioqWait s.ioq.consumer s.threads.current >>= _) = _
    rw [show s.ioq.consumer = none from empty]
    rfl
  | putchar byte =>
    change (ioqWait s.ioq.producer s.threads.current >>= _) = _
    rw [show s.ioq.producer = none from empty]
    rfl

/-- `sema_dowm` queues the thread. -/
theorem acquire_held {t : T} (placed : Placed s) (held : s.ioq.lock.HeldBy t) :
    (lockDowm s.ioq.lock s.threads.current >>= s.afterAcquire wanted call) =
      IoState.block { s with ioq := { s.ioq with lock := { s.ioq.lock with
        semaphore := { s.ioq.lock.semaphore with
          waiters := listAppend s.waiters s.threads.current } } } } wanted (.atLock call) := by
  rw [lockDowm_held held placed.current_not_waiting]
  rfl

theorem block_error {pc : IoPc} (failed : s.block wanted pc = .error fault) :
    fault = .panic .schedule := by
  have blocked := map_failed failed
  unfold threadBlock at blocked
  exact schedule_error blocked

/-- The current thread goes to sleep with the lock, in the slot of its call. -/
theorem park_placed (placed : Placed s) (nobody : ∀ t call, s.pc t ≠ .atWait call)
    (coherent : Coherent after.threads)
    (asleep : ∀ t, after.threads.status t = .blocked ↔
      t = s.threads.current ∨ s.threads.status t = .blocked)
    (waiters : after.waiters = s.waiters) (held : after.ioq.lock.HeldBy s.threads.current)
    (pcs : after.pc = Function.update s.pc s.threads.current (.atWait call))
    (consumer : ∀ t, after.ioq.consumer = some t → call = .getchar ∧ t = s.threads.current)
    (producer : ∀ t, after.ioq.producer = some t →
      (∃ byte, call = .putchar byte) ∧ t = s.threads.current) : Placed after := by
  have here : after.pc s.threads.current = .atWait call := by rw [pcs, Function.update_self]
  have there {t : T} (other : t ≠ s.threads.current) : after.pc t = s.pc t := by
    rw [pcs, Function.update_of_ne other]
  have sleeping : after.threads.status s.threads.current = .blocked := (asleep _).mpr (.inl rfl)
  refine ⟨coherent, ?_, ?_, .inr ⟨s.threads.current, call, held, here, ?_⟩, ?_, ?_⟩
  · rw [waiters]
    exact placed.waitersNodup
  · intro t waits
    rw [waiters] at waits
    obtain ⟨wasBlocked, atLock⟩ := placed.waiting t waits
    refine ⟨(asleep t).mpr (.inr wasBlocked), ?_⟩
    rw [there (placed.current_not_blocked wasBlocked)]
    exact atLock
  · intro u other parked
    by_contra moved
    rw [there moved] at parked
    exact nobody u other parked
  · intro t named
    obtain ⟨rfl, rfl⟩ := consumer t named
    exact ⟨sleeping, here⟩
  · intro t named
    obtain ⟨⟨byte, rfl⟩, rfl⟩ := producer t named
    exact ⟨sleeping, byte, here⟩

/-- The current thread goes to sleep in the queue of the lock. -/
theorem queue_placed {owner : T} (placed : Placed s) (held : s.ioq.lock.HeldBy owner)
    (outside : ∀ call, s.pc s.threads.current ≠ .atWait call)
    (coherent : Coherent after.threads)
    (asleep : ∀ t, after.threads.status t = .blocked ↔
      t = s.threads.current ∨ s.threads.status t = .blocked)
    (waiters : after.waiters = listAppend s.waiters s.threads.current)
    (still : ∀ t, s.ioq.lock.HeldBy t → after.ioq.lock.HeldBy t)
    (pcs : after.pc = Function.update s.pc s.threads.current (.atLock call))
    (slots : after.ioq.consumer = s.ioq.consumer ∧ after.ioq.producer = s.ioq.producer) :
    Placed after := by
  have here : after.pc s.threads.current = .atLock call := by rw [pcs, Function.update_self]
  have there {t : T} (other : t ≠ s.threads.current) : after.pc t = s.pc t := by
    rw [pcs, Function.update_of_ne other]
  refine ⟨coherent, ?_, ?_, .inr ?_, ?_, ?_⟩
  · rw [waiters]
    simpa [listAppend, List.nodup_append] using
      ⟨placed.waitersNodup, fun t member eq => placed.current_not_waiting (eq ▸ member)⟩
  · intro t waits
    rw [waiters, listAppend, List.mem_append, List.mem_singleton] at waits
    rcases waits with before | rfl
    · obtain ⟨wasBlocked, atLock⟩ := placed.waiting t before
      refine ⟨(asleep t).mpr (.inr wasBlocked), ?_⟩
      rw [there (placed.current_not_blocked wasBlocked)]
      exact atLock
    · exact ⟨(asleep _).mpr (.inl rfl), call, here⟩
  · rcases placed.lock with ⟨free, -⟩ | ⟨t, tCall, heldBy, atWait, only⟩
    · exact absurd (free.1.symm.trans held.1) (by simp)
    · have other : t ≠ s.threads.current := by
        rintro rfl
        exact outside tCall atWait
      refine ⟨t, tCall, still t heldBy, (there other).trans atWait, ?_⟩
      intro u uCall parked
      by_cases moved : u = s.threads.current
      · rw [moved, here] at parked
        contradiction
      · rw [there moved] at parked
        exact only u uCall parked
  · intro t named
    obtain ⟨wasBlocked, parked⟩ := placed.consumer t (slots.1 ▸ named)
    exact ⟨(asleep t).mpr (.inr wasBlocked),
      (there (placed.current_not_blocked wasBlocked)).trans parked⟩
  · intro t named
    obtain ⟨wasBlocked, byte, parked⟩ := placed.producer t (slots.2 ▸ named)
    exact ⟨(asleep t).mpr (.inr wasBlocked), byte,
      (there (placed.current_not_blocked wasBlocked)).trans parked⟩

theorem acquire_placed (placed : Placed s)
    (outside : ∀ call, s.pc s.threads.current ≠ .atWait call)
    (done : (lockDowm s.ioq.lock s.threads.current >>= s.afterAcquire wanted call) = .ok after) :
    Placed after := by
  rcases placed.lock with ⟨free, nobody⟩ | ⟨t, _, held, _, _⟩
  · rw [acquire_free placed free nobody] at done
    obtain ⟨threads, slept, rfl⟩ := map_completed done
    obtain ⟨coherent, asleep⟩ := coherent_block placed.coherent slept
    have consumer := placed.no_waiter nobody .getchar
    have producer := placed.no_waiter nobody (.putchar 0)
    cases call with
    | getchar =>
      refine park_placed placed nobody coherent asleep rfl ⟨rfl, rfl, rfl⟩ rfl ?_ ?_
      · intro t named
        exact ⟨rfl, (Option.some.inj named).symm⟩
      · intro t named
        cases producer.symm.trans named
    | putchar byte =>
      refine park_placed placed nobody coherent asleep rfl ⟨rfl, rfl, rfl⟩ rfl ?_ ?_
      · intro t named
        cases consumer.symm.trans named
      · intro t named
        exact ⟨⟨byte, rfl⟩, (Option.some.inj named).symm⟩
  · rw [acquire_held placed held] at done
    obtain ⟨threads, slept, rfl⟩ := map_completed done
    obtain ⟨coherent, asleep⟩ := coherent_block placed.coherent slept
    exact queue_placed placed held outside coherent asleep rfl (fun _ held => held) rfl ⟨rfl, rfl⟩

theorem acquire_error (placed : Placed s)
    (failed : (lockDowm s.ioq.lock s.threads.current >>= s.afterAcquire wanted call) =
      .error fault) : fault = .panic .schedule := by
  rcases placed.lock with ⟨free, nobody⟩ | ⟨t, _, held, _, _⟩
  · rw [acquire_free placed free nobody] at failed
    exact block_error failed
  · rw [acquire_held placed held] at failed
    exact block_error failed

/-- The bytes and the two slots are as before. -/
structure SameBytes (s after : IoState T) : Prop where
  buf : after.ioq.buf = s.ioq.buf
  head : after.ioq.head = s.ioq.head
  tail : after.ioq.tail = s.ioq.tail
  stored : after.stored = s.stored
  returned : after.returned = s.returned

omit [DecidableEq T] in
theorem Ordered.same (ordered : Ordered s) (same : SameBytes s after) : Ordered after := by
  obtain ⟨buf, head, tail, stored, returned⟩ := same
  refine ⟨by rw [head]; exact ordered.head, by rw [tail]; exact ordered.tail, ?_⟩
  rw [contents, buf, head, tail, stored, returned]
  exact ordered.fifo

theorem acquire_bytes (done : (lockDowm s.ioq.lock s.threads.current >>=
    s.afterAcquire wanted call) = .ok after) (placed : Placed s) : SameBytes s after := by
  rcases placed.lock with ⟨free, nobody⟩ | ⟨t, _, held, _, _⟩
  · rw [acquire_free placed free nobody] at done
    obtain ⟨threads, slept, rfl⟩ := map_completed done
    cases call <;> exact ⟨rfl, rfl, rfl, rfl, rfl⟩
  · rw [acquire_held placed held] at done
    obtain ⟨threads, slept, rfl⟩ := map_completed done
    exact ⟨rfl, rfl, rfl, rfl, rfl⟩

/-- The current thread is dispatched in the middle of a call or makes a new one. -/
theorem idle_placed (placed : Placed s)
    (outside : ∀ call, s.pc s.threads.current ≠ .atWait call) : Placed (s.goto .idle) := by
  have there {t : T} (other : t ≠ s.threads.current) : (s.goto .idle).pc t = s.pc t :=
    Function.update_of_ne other _ _
  have here : (s.goto .idle).pc s.threads.current = .idle := Function.update_self ..
  have back {t : T} {call : IoCall} (parked : (s.goto .idle).pc t = .atWait call) :
      s.pc t = .atWait call := by
    by_cases moved : t = s.threads.current
    · rw [moved, here] at parked
      contradiction
    · rwa [there moved] at parked
  refine ⟨placed.coherent, placed.waitersNodup, ?_, ?_, ?_, ?_⟩
  · intro t waits
    obtain ⟨blocked, atLock⟩ := placed.waiting t waits
    refine ⟨blocked, ?_⟩
    rw [there (placed.current_not_blocked blocked)]
    exact atLock
  · rcases placed.lock with ⟨free, nobody⟩ | ⟨t, call, held, parked, only⟩
    · exact .inl ⟨free, fun t call parked => nobody t call (back parked)⟩
    · have other : t ≠ s.threads.current := by
        rintro rfl
        exact outside call parked
      exact .inr ⟨t, call, held, (there other).trans parked, fun u c parked => only u c (back parked)⟩
  · intro t named
    obtain ⟨blocked, parked⟩ := placed.consumer t named
    exact ⟨blocked, (there (placed.current_not_blocked blocked)).trans parked⟩
  · intro t named
    obtain ⟨blocked, byte, parked⟩ := placed.producer t named
    exact ⟨blocked, byte, (there (placed.current_not_blocked blocked)).trans parked⟩

omit [DecidableEq T] in
/-- `Placed` says nothing about the bytes. -/
theorem Placed.bytes (placed : Placed s) (threads : after.threads = s.threads)
    (lock : after.ioq.lock = s.ioq.lock) (pc : after.pc = s.pc)
    (consumer : after.ioq.consumer = s.ioq.consumer)
    (producer : after.ioq.producer = s.ioq.producer) : Placed after := by
  obtain ⟨coherent, waitersNodup, waiting, owner, consumerAt, producerAt⟩ := placed
  constructor <;> simpa only [waiters, threads, lock, pc, consumer, producer]

omit [DecidableEq T] in
/-- The thread named by a slot wakes up and the slot is cleared. -/
theorem roused_placed {woken : T} {threads : Threads T} (placed : Placed s)
    (parked : ∃ call, s.pc woken = .atWait call) (coherent : Coherent threads)
    (roused : ∀ t, threads.status t = .blocked ↔ s.threads.status t = .blocked ∧ t ≠ woken)
    (after_threads : after.threads = threads) (lock : after.ioq.lock = s.ioq.lock)
    (pc : after.pc = s.pc)
    (consumer : ∀ t, after.ioq.consumer = some t → s.ioq.consumer = some t ∧ t ≠ woken)
    (producer : ∀ t, after.ioq.producer = some t → s.ioq.producer = some t ∧ t ≠ woken) :
    Placed after := by
  obtain ⟨call, parked⟩ := parked
  have waiters : after.waiters = s.waiters := by rw [waiters, waiters, lock]
  refine ⟨by rw [after_threads]; exact coherent, ?_, ?_, ?_, ?_, ?_⟩
  · rw [waiters]
    exact placed.waitersNodup
  · intro t waits
    rw [waiters] at waits
    obtain ⟨blocked, atLock⟩ := placed.waiting t waits
    have other : t ≠ woken := by
      rintro rfl
      obtain ⟨_, atLock⟩ := atLock
      rw [parked] at atLock
      contradiction
    rw [after_threads, pc]
    exact ⟨(roused t).mpr ⟨blocked, other⟩, atLock⟩
  · rw [lock, pc]
    exact placed.lock
  · intro t named
    obtain ⟨was, other⟩ := consumer t named
    obtain ⟨blocked, atWait⟩ := placed.consumer t was
    rw [after_threads, pc]
    exact ⟨(roused t).mpr ⟨blocked, other⟩, atWait⟩
  · intro t named
    obtain ⟨was, other⟩ := producer t named
    obtain ⟨blocked, atWait⟩ := placed.producer t was
    rw [after_threads, pc]
    exact ⟨(roused t).mpr ⟨blocked, other⟩, atWait⟩

omit [DecidableEq T] in
/-- The two slots never name threads at the same time. -/
theorem Placed.exclusive (placed : Placed s) :
    s.ioq.producer = none ∨ s.ioq.consumer = none := by
  cases producer : s.ioq.producer with
  | none => exact .inl rfl
  | some t =>
    cases consumer : s.ioq.consumer with
    | none => exact .inr rfl
    | some u =>
      obtain ⟨-, byte, parked⟩ := placed.producer t producer
      obtain ⟨-, other⟩ := placed.consumer u consumer
      rcases placed.lock with ⟨-, nobody⟩ | ⟨owner, _, -, -, only⟩
      · exact absurd parked (nobody t _)
      · rw [only t _ parked, ← only u _ other, other] at parked
        injection parked with same
        contradiction

/-- `ioq_getchar` after its loop always completes. -/
theorem takeChar_placed (placed : Placed s)
    (outside : ∀ call, s.pc s.threads.current ≠ .atWait call) :
    ∃ after, s.takeChar = .ok after ∧ Placed after ∧ after.ioq.buf = s.ioq.buf ∧
      after.ioq.head = s.ioq.head ∧ after.ioq.tail = nextPos s.ioq.tail ∧
      after.stored = s.stored ∧ after.returned = s.returned ++ [s.ioq.buf s.ioq.tail.toNat] ∧
      after.ioq.producer = none ∧ after.ioq.consumer = s.ioq.consumer := by
  have idle := idle_placed placed outside
  cases slot : s.ioq.producer with
  | none =>
    refine ⟨_, if_neg (by simp [slot]), ?_, rfl, rfl, rfl, rfl, rfl, slot, rfl⟩
    exact idle.bytes rfl rfl rfl rfl rfl
  | some t =>
    obtain ⟨blocked, byte, parked⟩ := idle.producer t slot
    obtain ⟨threads, woken, coherent, current, roused⟩ := coherent_unblock idle.coherent blocked
    have answer : wakeup (some t) s.threads = .ok (none, threads) := by
      change (threadUnblock t (s.goto .idle).threads).map _ = _
      rw [woken]
      rfl
    refine ⟨{ s.goto .idle with
        threads := threads
        ioq := { s.ioq with tail := nextPos s.ioq.tail, producer := none }
        returned := s.returned ++ [s.ioq.buf s.ioq.tail.toNat] }, ?_, ?_, rfl, rfl, rfl, rfl, rfl,
      rfl, rfl⟩
    · unfold takeChar
      dsimp only [goto]
      rw [slot, if_pos (by simp), answer]
      rfl
    · refine roused_placed idle ⟨_, parked⟩ coherent roused rfl rfl rfl ?_ ?_
      · intro u named
        have := placed.exclusive
        rw [slot] at this
        cases named.symm.trans (this.resolve_left (by simp))
      · intro u named
        cases named

/-- `ioq_putchar` after its loop always completes. -/
theorem putChar_placed (byte : U8) (placed : Placed s)
    (outside : ∀ call, s.pc s.threads.current ≠ .atWait call) :
    ∃ after, s.putChar byte = .ok after ∧ Placed after ∧
      after.ioq.buf = Function.update s.ioq.buf s.ioq.head.toNat byte ∧
      after.ioq.head = nextPos s.ioq.head ∧ after.ioq.tail = s.ioq.tail ∧
      after.stored = s.stored ++ [byte] ∧ after.returned = s.returned ∧
      after.ioq.consumer = none ∧ after.ioq.producer = s.ioq.producer := by
  have idle := idle_placed placed outside
  cases slot : s.ioq.consumer with
  | none =>
    refine ⟨_, if_neg (by simp [slot]), ?_, rfl, rfl, rfl, rfl, rfl, slot, rfl⟩
    exact idle.bytes rfl rfl rfl rfl rfl
  | some t =>
    obtain ⟨blocked, parked⟩ := idle.consumer t slot
    obtain ⟨threads, woken, coherent, current, roused⟩ := coherent_unblock idle.coherent blocked
    have answer : wakeup (some t) s.threads = .ok (none, threads) := by
      change (threadUnblock t (s.goto .idle).threads).map _ = _
      rw [woken]
      rfl
    refine ⟨{ s.goto .idle with
        threads := threads
        ioq := { s.ioq with
          buf := Function.update s.ioq.buf s.ioq.head.toNat byte
          head := nextPos s.ioq.head
          consumer := none }
        stored := s.stored ++ [byte] }, ?_, ?_, rfl, rfl, rfl, rfl, rfl, rfl, rfl⟩
    · unfold putChar
      dsimp only [goto]
      rw [slot, if_pos (by simp), answer]
      rfl
    · refine roused_placed idle ⟨_, parked⟩ coherent roused rfl rfl rfl ?_ ?_
      · intro u named
        cases named
      · intro u named
        have := placed.exclusive
        rw [slot] at this
        cases named.symm.trans (this.resolve_right (by simp))

end LiziOS.IoState
