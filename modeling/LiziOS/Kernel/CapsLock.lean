import LiziOS.Kernel.Modifiers

namespace LiziOS

/-! Two runs of the keyboard that differ in `caps_lock_status`. -/

namespace IoState

variable {T : Type*} [DecidableEq T] {s t : IoState T} {buf : Nat → U8} {stored returned : List U8}
  {wanted : Option T}

/-- The same state with other bytes. -/
def repaint (s : IoState T) (buf : Nat → U8) (stored returned : List U8) : IoState T :=
  { s with ioq := { s.ioq with buf := buf }, stored := stored, returned := returned }

omit [DecidableEq T] in
theorem repaint_self (s : IoState T) : s.repaint s.ioq.buf s.stored s.returned = s := rfl

theorem block_repaint (pc : IoPc) : (s.repaint buf stored returned).block wanted pc =
    (s.block wanted pc).map (·.repaint buf stored returned) := by
  unfold block
  change (threadBlock wanted .blocked s.threads).map _ = ((threadBlock wanted .blocked s.threads).map _).map _
  cases threadBlock wanted .blocked s.threads <;> rfl

theorem takeChar_repaint : (s.repaint buf stored returned).takeChar =
    s.takeChar.map (·.repaint buf stored (returned ++ [buf s.ioq.tail.toNat])) := by
  unfold takeChar
  change (if s.ioq.producer ≠ none then _ else _) = Except.map _ (if s.ioq.producer ≠ none then _ else _)
  by_cases parked : s.ioq.producer ≠ none
  · rw [if_pos parked, if_pos parked]
    change (wakeup s.ioq.producer s.threads >>= _) = Except.map _ (wakeup s.ioq.producer s.threads >>= _)
    cases wakeup s.ioq.producer s.threads <;> rfl
  · rw [if_neg parked, if_neg parked]
    rfl

theorem putChar_repaint (s : IoState T) (buf : Nat → U8) (stored returned : List U8) (byte byte' : U8) : (s.repaint buf stored returned).putChar byte' =
    (s.putChar byte).map
      (·.repaint (Function.update buf s.ioq.head.toNat byte') (stored ++ [byte']) returned) := by
  unfold putChar
  change (if s.ioq.consumer ≠ none then _ else _) = Except.map _ (if s.ioq.consumer ≠ none then _ else _)
  by_cases parked : s.ioq.consumer ≠ none
  · rw [if_pos parked, if_pos parked]
    change (wakeup s.ioq.consumer s.threads >>= _) = Except.map _ (wakeup s.ioq.consumer s.threads >>= _)
    cases wakeup s.ioq.consumer s.threads <;> rfl
  · rw [if_neg parked, if_neg parked]
    rfl

theorem afterAcquire_repaint (result : Lock T × Bool) :
    (s.repaint buf stored returned).afterAcquire wanted .getchar result =
      (s.afterAcquire wanted .getchar result).map (·.repaint buf stored returned) := by
  obtain ⟨lock, passed⟩ := result
  unfold afterAcquire
  cases passed with
  | false => exact block_repaint (s := { s with ioq := { s.ioq with lock := lock } }) _
  | true =>
    change (ioqWait s.ioq.consumer s.threads.current >>= _) =
      Except.map _ (ioqWait s.ioq.consumer s.threads.current >>= _)
    cases ioqWait s.ioq.consumer s.threads.current with
    | error fault => rfl
    | ok waiter =>
      exact block_repaint (s := { s with ioq := { s.ioq with lock := lock, consumer := waiter } }) _

theorem loop_repaint (s : IoState T) (wanted : Option T) (buf : Nat → U8) (stored returned : List U8) :
    ∃ returned', (s.repaint buf stored returned).loop wanted .getchar =
    (s.loop wanted .getchar).map (·.repaint buf stored returned') := by
  unfold loop
  change ∃ returned', (if ioqEmpty s.ioq then _ else _) = Except.map _ (if ioqEmpty s.ioq then _ else _)
  by_cases empty : ioqEmpty s.ioq
  · refine ⟨returned, ?_⟩
    rw [if_pos empty, if_pos empty]
    change (lockAcquire s.ioq.lock s.threads.current >>= _) =
      Except.map _ (lockAcquire s.ioq.lock s.threads.current >>= _)
    cases lockAcquire s.ioq.lock s.threads.current with
    | error fault => rfl
    | ok result => exact afterAcquire_repaint result
  · refine ⟨returned ++ [buf s.ioq.tail.toNat], ?_⟩
    rw [if_neg empty, if_neg empty]
    exact takeChar_repaint

theorem release_repaint : (s.repaint buf stored returned).release =
    s.release.map (·.repaint buf stored returned) := by
  unfold release
  change (lockRelease s.ioq.lock s.threads.current >>= _) =
    Except.map _ (lockRelease s.ioq.lock s.threads.current >>= _)
  cases lockRelease s.ioq.lock s.threads.current with
  | error fault => rfl
  | ok result =>
    obtain ⟨lock, woken⟩ := result
    cases woken with
    | none => rfl
    | some t =>
      change (threadUnblock t s.threads).map _ = ((threadUnblock t s.threads).map _).map _
      cases threadUnblock t s.threads <;> rfl

/-- Not inside `ioq_putchar`. -/
def Reading (pc : IoPc) : Prop := pc = .idle ∨ pc = .atLock .getchar ∨ pc = .atWait .getchar

/-- No thread is inside `ioq_putchar`: only the handler calls it. -/
def Consuming (s : IoState T) : Prop := ∀ t, Reading (s.pc t)

theorem resume_repaint (consuming : Consuming s) : ∃ returned', (s.repaint buf stored returned).resume wanted =
    (s.resume wanted).map fun done => done.map (·.repaint buf stored returned') := by
  have same : (s.repaint buf stored returned).pc (s.repaint buf stored returned).threads.current =
      s.pc s.threads.current := rfl
  unfold resume
  rw [same]
  rcases consuming s.threads.current with idle | atLock | atWait
  · refine ⟨returned, ?_⟩
    rw [idle]
    rfl
  · refine ⟨returned, ?_⟩
    rw [atLock]
    change some (lockDowm s.ioq.lock s.threads.current >>= _) =
      some (Except.map _ (lockDowm s.ioq.lock s.threads.current >>= _))
    cases lockDowm s.ioq.lock s.threads.current with
    | error fault => rfl
    | ok result => exact congrArg some (afterAcquire_repaint result)
  · rw [atWait]
    change ∃ returned', some ((s.repaint buf stored returned).release >>= _) =
      some (Except.map (fun t : IoState T => t.repaint buf stored returned') (s.release >>= _))
    rw [release_repaint]
    cases s.release with
    | error fault => exact ⟨returned, rfl⟩
    | ok t =>
      obtain ⟨returned', looped⟩ := loop_repaint t wanted buf stored returned
      exact ⟨returned', congrArg some looped⟩

theorem ioqPutchar_room (room : ioqFull s.ioq = false) (wanted : Option T) (byte : U8) : s.ioqPutchar wanted byte = s.putChar byte := by
  unfold ioqPutchar loop
  rw [if_neg (by rw [IoCall.waits, room]; decide)]

theorem ioqPutchar_buf {byte : U8} (room : ioqFull s.ioq = false) (done : s.ioqPutchar wanted byte = .ok t) :
    t.ioq.buf = Function.update s.ioq.buf s.ioq.head.toNat byte := by
  rw [ioqPutchar_room room] at done
  have self := putChar_repaint s s.ioq.buf s.stored s.returned byte byte
  rw [repaint_self, done] at self
  rw [Except.ok.inj self]
  rfl

/-- The steps of threads that read from the queue. -/
def Reads (act : IoAct) : Prop := act = .getchar ∨ act = .clock ∨ act = .resume

theorem step_repaint (consuming : Consuming s) {act : IoAct} (reads : Reads act) (wanted : Option T)
    (buf : Nat → U8) (stored returned : List U8) : ∃ returned', (s.repaint buf stored returned).step (act, wanted) =
    (s.step (act, wanted)).map fun done => done.map (·.repaint buf stored returned') := by
  rcases reads with rfl | rfl | rfl
  · obtain ⟨returned', looped⟩ := loop_repaint s wanted buf stored returned
    refine ⟨returned', ?_⟩
    change (if s.pc s.threads.current = .idle then some ((s.repaint buf stored returned).loop wanted .getchar)
      else none) = Option.map _ (if s.pc s.threads.current = .idle then some (s.loop wanted .getchar) else none)
    rw [looped]
    split <;> rfl
  · refine ⟨returned, ?_⟩
    change (if s.pc s.threads.current = .idle then some ((clockInterruptHandler wanted s.threads).map _) else none) =
      Option.map _ (if s.pc s.threads.current = .idle then some ((clockInterruptHandler wanted s.threads).map _)
        else none)
    split
    · cases clockInterruptHandler wanted s.threads <;> rfl
    · rfl
  · exact resume_repaint consuming

omit [DecidableEq T] in
/-- The buffer is the handler's. -/
theorem reads_buf [DecidableEq T] (consuming : Consuming s) {act : IoAct} (reads : Reads act)
    (stepped : s.step (act, wanted) = some (.ok t)) : t.ioq.buf = s.ioq.buf := by
  obtain ⟨returned', same⟩ := step_repaint consuming reads wanted s.ioq.buf s.stored s.returned
  rw [repaint_self, stepped] at same
  have self : t = t.repaint s.ioq.buf s.stored returned' := Except.ok.inj (Option.some.inj same)
  rw [self]
  rfl

theorem Consuming.update (consuming : Consuming s) {pc : IoPc} (reading : Reading pc) (c u : T) :
    Reading (Function.update s.pc c pc u) := by
  by_cases same : u = c
  · rw [same, Function.update_self]
    exact reading
  · rw [Function.update_of_ne same]
    exact consuming u

theorem Consuming.block {pc : IoPc} (consuming : Consuming s) (reading : Reading pc)
    (blocked : s.block wanted pc = .ok t) : Consuming t := by
  obtain ⟨threads, -, rfl⟩ := map_completed blocked
  exact consuming.update reading s.threads.current

theorem Consuming.goto (consuming : Consuming s) : Consuming (s.goto .idle) :=
  consuming.update (.inl rfl) s.threads.current

theorem Consuming.takeChar (consuming : Consuming s) (taken : s.takeChar = .ok t) : Consuming t := by
  unfold IoState.takeChar at taken
  change (if s.ioq.producer ≠ none then _ else _) = _ at taken
  split at taken
  · obtain ⟨⟨producer, threads⟩, -, done⟩ := bind_completed taken
    cases done
    exact consuming.goto
  · cases taken
    exact consuming.goto

theorem Consuming.putChar {byte : U8} (consuming : Consuming s) (stored : s.putChar byte = .ok t) : Consuming t := by
  unfold IoState.putChar at stored
  change (if s.ioq.consumer ≠ none then _ else _) = _ at stored
  split at stored
  · obtain ⟨⟨consumer, threads⟩, -, done⟩ := bind_completed stored
    cases done
    exact consuming.goto
  · cases stored
    exact consuming.goto

theorem Consuming.afterAcquire (consuming : Consuming s) {result : Lock T × Bool}
    (done : s.afterAcquire wanted .getchar result = .ok t) : Consuming t := by
  obtain ⟨lock, passed⟩ := result
  unfold IoState.afterAcquire at done
  cases passed with
  | false =>
    have same : Consuming { s with ioq := { s.ioq with lock := lock } } := consuming
    exact same.block (.inr (.inl rfl)) done
  | true =>
    obtain ⟨waiter, -, blocked⟩ := bind_completed done
    have same : Consuming { s with ioq := IoCall.getchar.setWaiter { s.ioq with lock := lock } waiter } := consuming
    exact same.block (.inr (.inr rfl)) blocked

theorem Consuming.loop (consuming : Consuming s) (done : s.loop wanted .getchar = .ok t) : Consuming t := by
  unfold IoState.loop at done
  split at done
  · obtain ⟨result, -, acquired⟩ := bind_completed done
    exact consuming.afterAcquire acquired
  · exact consuming.takeChar done

theorem Consuming.release (consuming : Consuming s) (done : s.release = .ok t) : Consuming t := by
  unfold IoState.release at done
  obtain ⟨⟨lock, woken⟩, -, released⟩ := bind_completed done
  have same : Consuming ({ s with ioq := { s.ioq with lock := lock } }.goto .idle) := consuming.goto
  cases woken with
  | none => cases released; exact same
  | some u =>
    obtain ⟨threads, -, rfl⟩ := map_completed released
    exact same

theorem Consuming.step (consuming : Consuming s) {act : IoAct} (reads : Reads act)
    (stepped : s.step (act, wanted) = some (.ok t)) : Consuming t := by
  rcases reads with rfl | rfl | rfl
  · change (if s.pc s.threads.current = .idle then some (s.loop wanted .getchar) else none) = _ at stepped
    split at stepped
    · exact consuming.loop (Option.some.inj stepped)
    · contradiction
  · change (if s.pc s.threads.current = .idle then some ((clockInterruptHandler wanted s.threads).map _) else none) = _
      at stepped
    split at stepped
    · obtain ⟨threads, -, rfl⟩ := map_completed (Option.some.inj stepped)
      exact consuming
    · contradiction
  · change s.resume wanted = _ at stepped
    unfold IoState.resume at stepped
    rcases consuming s.threads.current with idle | atLock | atWait
    · rw [idle] at stepped
      contradiction
    · rw [atLock] at stepped
      obtain ⟨result, -, acquired⟩ := bind_completed (Option.some.inj stepped)
      exact consuming.afterAcquire acquired
    · rw [atWait] at stepped
      obtain ⟨u, released, looped⟩ := bind_completed (Option.some.inj stepped)
      exact (consuming.release released).loop looped

end IoState

/-! The characters. -/

/-- An ASCII letter in the other case, and any other byte as it is. -/
def swapCase (byte : U8) : U8 :=
  if 0x41 ≤ byte ∧ byte ≤ 0x5a then byte + 0x20
  else if 0x61 ≤ byte ∧ byte ≤ 0x7a then byte - 0x20
  else byte

theorem swapCase_zero : ∀ byte : U8, swapCase byte = 0 ↔ byte = 0 := by
  unfold swapCase
  decide +kernel

namespace KeyStatus

variable {f : KeyStatus}

def flip (f : KeyStatus) : KeyStatus := { f with capsLockStatus := !f.capsLockStatus }

/-- The two columns of the key map differ by the case exactly where caps lock counts. -/
theorem curChar_column : ∀ code : Fin 0x3b, ∀ shift capsLock : Bool,
    curChar (BitVec.ofNat 16 code) (KeyStatus.shift ⟨false, shift, false, !capsLock, false⟩ (BitVec.ofNat 16 code)) =
      swapCase (curChar (BitVec.ofNat 16 code)
        (KeyStatus.shift ⟨false, shift, false, capsLock, false⟩ (BitVec.ofNat 16 code))) := by
  decide +kernel

theorem curChar_flip (f : KeyStatus) (scancode : U16)
    (lookedUp : (0 < scancode ∧ scancode < 0x3b) ∨ scancode = altRMake ∨ scancode = ctrlRMake) :
    curChar (scancode &&& 0x00ff) (f.flip.shift scancode) =
      swapCase (curChar (scancode &&& 0x00ff) (f.shift scancode)) := by
  have column : ∀ code : U16, code < 0x3b → curChar code (f.flip.shift code) = swapCase (curChar code (f.shift code)) := by
    intro code less
    have small : code.toNat < 0x3b := less
    have same : code = BitVec.ofNat 16 (⟨code.toNat, small⟩ : Fin 0x3b) := by simp
    rw [same]
    exact curChar_column ⟨code.toNat, small⟩ f.shiftStatus f.capsLockStatus
  rcases lookedUp with ⟨-, less⟩ | rfl | rfl
  · have low : scancode &&& 0x00ff = scancode := by
      have small : scancode.toNat < 0x3b := less
      have same : scancode = BitVec.ofNat 16 (⟨scancode.toNat, small⟩ : Fin 0x3b) := by simp
      have all : ∀ code : Fin 0x3b, BitVec.ofNat 16 code &&& 0x00ff = BitVec.ofNat 16 code := by decide
      rw [same]
      exact all _
    rw [low]
    exact column scancode less
  · have nothing : ∀ shift, curChar (altRMake &&& 0x00ff) shift = 0 := by decide
    rw [nothing, nothing]
    rfl
  · have nothing : ∀ shift, curChar (ctrlRMake &&& 0x00ff) shift = 0 := by decide
    rw [nothing, nothing]
    rfl

theorem released_flip (f : KeyStatus) (makeCode : U16) : f.flip.released makeCode = (f.released makeCode).flip := by
  unfold released
  split
  · rfl
  · split
    · rfl
    · split <;> rfl

theorem pressed_flip (f : KeyStatus) (scancode : U16) : f.flip.pressed scancode = (f.pressed scancode).flip := by
  unfold pressed
  split
  · rfl
  · split
    · rfl
    · split
      · rfl
      · split <;> rfl

end KeyStatus

def KeyEffect.swap : KeyEffect → KeyEffect
  | .char byte => .char (swapCase byte)
  | effect => effect

namespace KeyStatus

theorem decode_flip (f : KeyStatus) (scancode : U16) :
    f.flip.decode scancode = ((f.decode scancode).1.flip, (f.decode scancode).2.swap) := by
  unfold decode
  by_cases broken : scancode &&& 0x0080 ≠ 0
  · rw [if_pos broken, if_pos broken, released_flip]
    rfl
  · rw [if_neg broken, if_neg broken]
    by_cases lookedUp : (0 < scancode ∧ scancode < 0x3b) ∨ scancode = altRMake ∨ scancode = ctrlRMake
    · rw [if_pos lookedUp, if_pos lookedUp]
      have column := curChar_flip f scancode lookedUp
      by_cases byte : curChar (scancode &&& 0x00ff) (f.shift scancode) = 0
      · have byte' : curChar (scancode &&& 0x00ff) (f.flip.shift scancode) = 0 := by
          rw [column, byte]
          rfl
        rw [if_neg (not_not.mpr byte), if_neg (not_not.mpr byte'), pressed_flip]
        rfl
      · have byte' : curChar (scancode &&& 0x00ff) (f.flip.shift scancode) ≠ 0 := by
          rw [column]
          exact fun zero => byte ((swapCase_zero _).mp zero)
        rw [if_pos byte, if_pos byte', column]
        rfl
    · rw [if_neg lookedUp, if_neg lookedUp]
      rfl

theorem scan_flip (f : KeyStatus) (byte : U8) :
    f.flip.scan byte = ((f.scan byte).1.flip, (f.scan byte).2.swap) := by
  unfold scan
  by_cases extension : (byte.setWidth 16 : U16) = 0xe0
  · rw [if_pos extension, if_pos extension]
    rfl
  · rw [if_neg extension, if_neg extension]
    change (if f.extScancode then _ else _) = _
    by_cases ext : f.extScancode
    · rw [if_pos ext, if_pos ext]
      exact decode_flip { f with extScancode := false } _
    · rw [if_neg ext, if_neg ext]
      exact decode_flip f _

end KeyStatus

namespace Keyboard

variable {T : Type*} [DecidableEq T] {s s' t : Keyboard T} {wanted : Option T} {buf : Nat → U8}
  {typed : List (U8 × Option Nat)}

/-- The buffer after the characters have been put in their places. -/
def replay (buf : Nat → U8) (typed : List (U8 × Option Nat)) : Nat → U8 :=
  typed.foldl (fun buf entry => match entry.2 with
    | some place => Function.update buf place entry.1
    | none => buf) buf

/-- The same entries with the case swapped: the same places, and none where the buffer was full. -/
def swapped (typed : List (U8 × Option Nat)) : List (U8 × Option Nat) :=
  typed.map fun entry => (swapCase entry.1, entry.2)

/-- Two runs from states with the buffer `buf` and the characters `typed` so far. -/
structure Twins (buf : Nat → U8) (typed : List (U8 × Option Nat)) (s s' : Keyboard T) : Prop where
  status : s'.status = s.status.flip
  unknownKeys : s'.unknownKeys = s.unknownKeys
  kbdBuf : ∃ bytes stored returned, s'.kbdBuf = s.kbdBuf.repaint bytes stored returned
  typed : ∃ new, s.typed = typed ++ new ∧ s'.typed = typed ++ swapped new ∧
    s.kbdBuf.ioq.buf = replay buf new ∧ s'.kbdBuf.ioq.buf = replay buf (swapped new)

theorem replay_snoc (buf : Nat → U8) (typed : List (U8 × Option Nat)) (byte : U8) (place : Nat) :
    replay buf (typed ++ [(byte, some place)]) = Function.update (replay buf typed) place byte := List.foldl_append

theorem replay_dropped (buf : Nat → U8) (typed : List (U8 × Option Nat)) (byte : U8) :
    replay buf (typed ++ [(byte, none)]) = replay buf typed := List.foldl_append

theorem swapped_snoc (typed : List (U8 × Option Nat)) (byte : U8) (place : Option Nat) :
    swapped (typed ++ [(byte, place)]) = swapped typed ++ [(swapCase byte, place)] := List.map_append

/-- The two calls panic alike, or both return. -/
inductive Lockstep (buf : Nat → U8) (typed : List (U8 × Option Nat)) :
    Except Fault (Keyboard T) → Except Fault (Keyboard T) → Prop where
  | error (fault : Fault) : Lockstep buf typed (.error fault) (.error fault)
  | ok {t t' : Keyboard T} (twins : Twins buf typed t t') (consuming : t.kbdBuf.Consuming) :
      Lockstep buf typed (.ok t) (.ok t')

theorem Twins.put (twins : Twins buf typed s s') (consuming : s.kbdBuf.Consuming) (byte : U8) :
    Lockstep buf typed (s.put wanted byte) (s'.put wanted (swapCase byte)) := by
  obtain ⟨status, unknownKeys, ⟨bytes, stored, returned, same⟩, new, typed₁, typed₂, buf₁, buf₂⟩ := twins
  have full : ioqFull s'.kbdBuf.ioq = ioqFull s.kbdBuf.ioq := by
    rw [same]
    rfl
  have head : s'.kbdBuf.ioq.head = s.kbdBuf.ioq.head := by
    rw [same]
    rfl
  unfold Keyboard.put
  rw [full]
  cases room : ioqFull s.kbdBuf.ioq with
  | true =>
    refine .ok ⟨status, unknownKeys, ⟨bytes, stored, returned, same⟩, new ++ [(byte, none)], ?_, ?_, ?_, ?_⟩ consuming
    · change s.typed ++ _ = _
      rw [typed₁, List.append_assoc]
    · change s'.typed ++ _ = _
      rw [typed₂, swapped_snoc, List.append_assoc]
    · rw [replay_dropped]
      exact buf₁
    · rw [swapped_snoc, replay_dropped]
      exact buf₂
  | false =>
    have other := IoState.putChar_repaint s.kbdBuf bytes stored returned byte (swapCase byte)
    rw [← same, ← IoState.ioqPutchar_room room wanted,
      ← IoState.ioqPutchar_room (full.trans room) wanted] at other
    change Lockstep buf typed ((s.kbdBuf.ioqPutchar wanted byte).map _)
      ((s'.kbdBuf.ioqPutchar wanted (swapCase byte)).map _)
    cases put : s.kbdBuf.ioqPutchar wanted byte with
    | error fault =>
      rw [put] at other
      rw [other]
      exact .error fault
    | ok t =>
      rw [put] at other
      have buf' := IoState.ioqPutchar_buf (full.trans room) other
      have buf := IoState.ioqPutchar_buf room put
      rw [other]
      rw [IoState.ioqPutchar_room room] at put
      refine .ok ⟨status, unknownKeys, ⟨_, _, _, rfl⟩, new ++ [(byte, some s.kbdBuf.ioq.head.toNat)], ?_, ?_, ?_, ?_⟩
        (consuming.putChar put)
      · change s.typed ++ _ = _
        rw [typed₁, List.append_assoc]
      · change s'.typed ++ _ = _
        rw [typed₂, swapped_snoc, List.append_assoc, head]
      · rw [replay_snoc, ← buf₁]
        exact buf
      · rw [swapped_snoc, replay_snoc, ← buf₂]
        exact buf'.trans (by rw [head])

theorem Twins.handler (twins : Twins buf typed s s') (consuming : s.kbdBuf.Consuming) (byte : U8) :
    Lockstep buf typed (s.intrKeyboardHandler wanted byte) (s'.intrKeyboardHandler wanted byte) := by
  obtain ⟨status, unknownKeys, kbdBuf, new⟩ := twins
  unfold intrKeyboardHandler
  rw [status, KeyStatus.scan_flip]
  generalize s.status.scan byte = scanned
  obtain ⟨status', effect⟩ := scanned
  have next : Twins buf typed { s with status := status' } { s' with status := status'.flip } :=
    ⟨rfl, unknownKeys, kbdBuf, new⟩
  cases effect with
  | none => exact .ok next consuming
  | char byte => exact next.put consuming byte
  | unknownKey => exact .ok ⟨rfl, congrArg (· + 1) unknownKeys, kbdBuf, new⟩ consuming

/-- Both steps are impossible, or both are possible and in lockstep. -/
def Parallel (buf : Nat → U8) (typed : List (U8 × Option Nat)) (first second : Option (Except Fault (Keyboard T))) :
    Prop :=
  (first = none ∧ second = none) ∨ ∃ r r', first = some r ∧ second = some r' ∧ Lockstep buf typed r r'

theorem Twins.others (twins : Twins buf typed s s') (consuming : s.kbdBuf.Consuming) {act : IoAct}
    (reads : IoState.Reads act) : Parallel buf typed (s.others (act, wanted)) (s'.others (act, wanted)) := by
  obtain ⟨status, unknownKeys, ⟨bytes, stored, returned, same⟩, new, typed₁, typed₂, buf₁, buf₂⟩ := twins
  obtain ⟨returned', stepped⟩ := IoState.step_repaint consuming reads wanted bytes stored returned
  have bytes' : s'.kbdBuf.ioq.buf = bytes := by
    rw [same]
    rfl
  unfold Keyboard.others
  rw [same, stepped]
  cases step : s.kbdBuf.step (act, wanted) with
  | none => exact .inl ⟨rfl, rfl⟩
  | some result =>
    refine .inr ⟨_, _, rfl, rfl, ?_⟩
    cases result with
    | error fault => exact .error fault
    | ok t =>
      refine .ok ⟨status, unknownKeys, ⟨_, _, _, rfl⟩, new, typed₁, typed₂, ?_, ?_⟩ (consuming.step reads step)
      · exact (IoState.reads_buf consuming reads step).trans buf₁
      · exact bytes'.symm.trans buf₂

theorem Twins.step (twins : Twins buf typed s s') (consuming : s.kbdBuf.Consuming) (act : KeyAct × Option T) :
    Parallel buf typed (s.step act) (s'.step act) := by
  obtain ⟨act, wanted⟩ := act
  cases act with
  | scan byte =>
    obtain ⟨bytes, stored, returned, same⟩ := twins.kbdBuf
    have idle : s'.kbdBuf.pc s'.kbdBuf.threads.current = s.kbdBuf.pc s.kbdBuf.threads.current := by
      rw [same]
      rfl
    change Parallel buf typed (if s.kbdBuf.pc s.kbdBuf.threads.current = .idle then _ else none)
      (if s'.kbdBuf.pc s'.kbdBuf.threads.current = .idle then _ else none)
    rw [idle]
    split
    · exact .inr ⟨_, _, rfl, rfl, twins.handler consuming byte⟩
    · exact .inl ⟨rfl, rfl⟩
  | getchar => exact twins.others consuming (.inl rfl)
  | clock => exact twins.others consuming (.inr (.inl rfl))
  | resume => exact twins.others consuming (.inr (.inr rfl))

theorem Twins.execute (twins : Twins buf typed s s') (consuming : s.kbdBuf.Consuming)
    (acts : List (KeyAct × Option T)) :
    ((system T).execute s acts = none ∧ (system T).execute s' acts = none) ∨
    ∃ t t', (system T).execute s acts = some t ∧ (system T).execute s' acts = some t' ∧ Twins buf typed t t' := by
  induction acts generalizing s s' with
  | nil => exact .inr ⟨s, s', rfl, rfl, twins⟩
  | cons act acts ih =>
    rw [Transition.System.execute, Transition.System.execute, show (system T).step s act = s.step act from rfl,
      show (system T).step s' act = s'.step act from rfl]
    rcases twins.step consuming act with ⟨first, second⟩ | ⟨r, r', first, second, lockstep⟩
    · rw [first, second]
      exact .inl ⟨rfl, rfl⟩
    · rw [first, second]
      cases lockstep with
      | error fault => exact .inl ⟨rfl, rfl⟩
      | ok twins consuming => exact ih twins consuming

/-- Caps lock changes the case of what is typed and nothing else: neither when a character is stored or dropped,
    nor its place, nor any other part of the state. -/
theorem caps_lock_case (s : Keyboard T) (consuming : s.kbdBuf.Consuming) (acts : List (KeyAct × Option T)) :
    ((system T).execute s acts = none ∧
      (system T).execute { s with status := s.status.flip } acts = none) ∨
    ∃ t t', (system T).execute s acts = some t ∧
      (system T).execute { s with status := s.status.flip } acts = some t' ∧
      Twins s.kbdBuf.ioq.buf s.typed t t' := by
  have twins : Twins s.kbdBuf.ioq.buf s.typed s { s with status := s.status.flip } :=
    ⟨rfl, rfl, ⟨_, _, _, rfl⟩, [], (List.append_nil _).symm, (List.append_nil _).symm, rfl, rfl⟩
  exact twins.execute consuming acts

theorem caps_lock_case_letter : ∃ t t', (system Nat).execute quiet [(.scan 0x1e, none)] = some t ∧
    (system Nat).execute { quiet with status := quiet.status.flip } [(.scan 0x1e, none)] = some t' ∧
    Twins quiet.kbdBuf.ioq.buf quiet.typed t t' := by
  obtain ⟨t, run⟩ : ∃ t, (system Nat).execute quiet [(.scan 0x1e, none)] = some t := ⟨_, rfl⟩
  rcases caps_lock_case quiet (fun _ => .inl rfl) [(.scan 0x1e, none)] with ⟨stuck, -⟩ | runs
  · rw [run] at stuck
    contradiction
  · exact runs

end Keyboard

end LiziOS
