import LiziOS.Kernel.CapsLock
import LiziOS.Library.LossyQueue

namespace LiziOS

/-! What the threads read is what has been typed. -/

namespace IoState

variable {T : Type*} [DecidableEq T] {s t : IoState T} {wanted : Option T} {call : IoCall}

/-- Nothing new is stored, and at most one more byte has been returned. -/
structure Handed (s t : IoState T) : Prop where
  stored : t.stored = s.stored
  returned : t.returned = s.returned ∨ ∃ byte, t.returned = s.returned ++ [byte]

omit [DecidableEq T] in
theorem SameBytes.handed (same : SameBytes s t) : Handed s t := ⟨same.stored, .inl same.returned⟩

theorem loop_handed (sound : Sound s) (outside : ∀ call, s.pc s.threads.current ≠ .atWait call)
    (done : s.loop wanted .getchar = .ok t) : Handed s t := by
  unfold loop at done
  split at done
  · rw [lockAcquire_outside sound.placed outside] at done
    exact (acquire_bytes done sound.placed).handed
  · obtain ⟨final, taken, -, -, -, -, stored, returned, -, -⟩ := takeChar_placed sound.placed outside
    obtain rfl : final = t := Except.ok.inj (taken.symm.trans done)
    exact ⟨stored, .inr ⟨_, returned⟩⟩

theorem resume_handed (sound : Sound s) (consuming : Consuming s) (stepped : s.resume wanted = some (.ok t)) :
    Handed s t := by
  unfold resume at stepped
  rcases consuming s.threads.current with idle | atLock | atWait
  · rw [idle] at stepped
    contradiction
  · rw [atLock] at stepped
    exact (acquire_bytes (Option.some.inj stepped) sound.placed).handed
  · rw [atWait] at stepped
    obtain ⟨middle, released, placed, same, idle, -, -⟩ := release_placed sound.placed atWait
    have done : (s.release >>= fun s => s.loop wanted .getchar) = .ok t := Option.some.inj stepped
    rw [released] at done
    have outside (call : IoCall) : middle.pc middle.threads.current ≠ .atWait call := by
      rw [idle]
      simp
    obtain ⟨stored, returned⟩ := loop_handed ⟨placed, sound.ordered.same same⟩ outside done
    exact ⟨stored.trans same.stored, by rw [← same.returned]; exact returned⟩

theorem step_handed (sound : Sound s) (consuming : Consuming s) {act : IoAct} (reads : Reads act)
    (stepped : s.step (act, wanted) = some (.ok t)) : Handed s t := by
  rcases reads with rfl | rfl | rfl
  · change (if s.pc s.threads.current = .idle then some (s.loop wanted .getchar) else none) = _ at stepped
    split at stepped
    · rename_i idle
      exact loop_handed sound (fun other => by rw [idle]; simp) (Option.some.inj stepped)
    · contradiction
  · change (if s.pc s.threads.current = .idle then some ((clockInterruptHandler wanted s.threads).map _) else none) = _
      at stepped
    split at stepped
    · obtain ⟨threads, -, rfl⟩ := map_completed (Option.some.inj stepped)
      exact ⟨rfl, .inl rfl⟩
    · contradiction
  · exact resume_handed sound consuming stepped

omit [DecidableEq T] in
theorem full_length (ordered : Ordered s) : ioqFull s.ioq = true ↔ s.contents.length = 63 := by
  have next := nextPos_toNat ordered.head
  have full := Ring.size_full ordered.head ordered.tail
  rw [contents, Ring.contents_length, ioqFull, decide_eq_true_iff, ← BitVec.toNat_inj, next, full]
  omega

end IoState

/-- The character, where there is one. -/
def KeyEffect.text : KeyEffect → List U8
  | .none => []
  | .char c => [c]
  | .unknownKey => []

namespace KeyStatus

/-- The characters that the bytes from the keyboard stand for. -/
def text (f : KeyStatus) : List U8 → List U8
  | [] => []
  | byte :: bytes => (f.scan byte).2.text ++ (f.scan byte).1.text bytes

theorem text_append (f : KeyStatus) (bytes more : List U8) :
    f.text (bytes ++ more) = f.text bytes ++ (f.scans bytes).text more := by
  induction bytes generalizing f with
  | nil => rfl
  | cons byte bytes ih =>
    rw [List.cons_append, text, text, ih, List.append_assoc]
    rfl

end KeyStatus

namespace Keyboard

open LossyQueue (Run)

variable {T : Type*} [DecidableEq T] {s t : Keyboard T} {wanted : Option T} {f : KeyStatus} {bytes : List U8}

/-- After these bytes the queue around `kbd_buf` has come through an abstract run. -/
structure Delivers (f : KeyStatus) (bytes : List U8) (s : Keyboard T) : Prop where
  sound : s.kbdBuf.Sound
  consuming : s.kbdBuf.Consuming
  status : s.status = f.scans bytes
  run : Run 63 (f.text bytes) s.kbdBuf.returned s.kbdBuf.contents

theorem put_run {sent : List U8} (sound : s.kbdBuf.Sound) (idle : s.kbdBuf.pc s.kbdBuf.threads.current = .idle)
    (run : Run 63 sent s.kbdBuf.returned s.kbdBuf.contents) (wanted : Option T) (c : U8) :
    ∃ t, s.put wanted c = .ok t ∧ Run 63 (sent ++ [c]) t.kbdBuf.returned t.kbdBuf.contents ∧
      t.kbdBuf.Sound ∧ (s.kbdBuf.Consuming → t.kbdBuf.Consuming) := by
  have full := IoState.full_length sound.ordered
  unfold Keyboard.put
  cases room : ioqFull s.kbdBuf.ioq with
  | true => exact ⟨_, rfl, run.lose c (full.mp room), sound, id⟩
  | false =>
    have outside (call : IoCall) : s.kbdBuf.pc s.kbdBuf.threads.current ≠ .atWait call := by
      rw [idle]
      simp
    obtain ⟨after, stored, placed, buf, head, tail, more, same, -, -⟩ :=
      IoState.putChar_placed c sound.placed outside
    have ordered := IoState.put_ordered sound.ordered room buf head tail more same
    have contents : after.contents = s.kbdBuf.contents ++ [c] := by
      have fifo := ordered.fifo
      rw [more, same, ← sound.ordered.fifo, List.append_assoc] at fifo
      exact List.append_cancel_left fifo
    have below : s.kbdBuf.contents.length < 63 := by
      refine Nat.lt_of_le_of_ne run.bounded fun filled => ?_
      rw [full.mpr filled] at room
      contradiction
    refine ⟨{ s with kbdBuf := after, typed := s.typed ++ [(c, some s.kbdBuf.ioq.head.toNat)] }, ?_, ?_,
      ⟨placed, ordered⟩, fun consuming => consuming.putChar stored⟩
    · change (s.kbdBuf.ioqPutchar wanted c).map _ = _
      rw [IoState.ioqPutchar_room room, stored]
      rfl
    · change Run 63 _ after.returned after.contents
      rw [same, contents]
      exact run.put c below

/-- The handler never waits, and no check of the queue stops it. -/
theorem Delivers.handler (delivers : Delivers f bytes s) (idle : s.kbdBuf.pc s.kbdBuf.threads.current = .idle)
    (wanted : Option T) (byte : U8) :
    ∃ t, s.intrKeyboardHandler wanted byte = .ok t ∧ Delivers f (bytes ++ [byte]) t := by
  obtain ⟨sound, consuming, status, run⟩ := delivers
  have scans : f.scans (bytes ++ [byte]) = (s.status.scan byte).1 := by
    rw [status]
    exact List.foldl_append
  have text : f.text (bytes ++ [byte]) = f.text bytes ++ s.status.text [byte] := by
    rw [status]
    exact f.text_append bytes [byte]
  rw [KeyStatus.text, KeyStatus.text, List.append_nil] at text
  unfold intrKeyboardHandler
  generalize s.status.scan byte = scanned at scans text
  obtain ⟨status', effect⟩ := scanned
  cases effect with
  | none =>
    refine ⟨_, rfl, sound, consuming, scans.symm, ?_⟩
    rw [text, KeyEffect.text, List.append_nil]
    exact run
  | unknownKey =>
    refine ⟨_, rfl, sound, consuming, scans.symm, ?_⟩
    rw [text, KeyEffect.text, List.append_nil]
    exact run
  | char c =>
    obtain ⟨t, done, run, sound, same⟩ :=
      put_run (s := { s with status := status' }) sound idle run wanted c
    refine ⟨t, done, sound, same consuming, (put_status done).trans scans.symm, ?_⟩
    rw [text]
    exact run

theorem Delivers.others (delivers : Delivers f bytes s) {act : IoAct} (reads : IoState.Reads act)
    (stepped : s.others (act, wanted) = some (.ok t)) : Delivers f bytes t := by
  obtain ⟨result, moved, done⟩ := Option.map_eq_some_iff.mp stepped
  obtain ⟨kbdBuf, rfl, rfl⟩ := map_completed done
  obtain ⟨sound, consuming, status, run⟩ := delivers
  obtain ⟨after, -⟩ := IoState.step_sound sound moved
  obtain ⟨stored, returned⟩ := IoState.step_handed sound consuming reads moved
  have fifo := after.ordered.fifo
  rw [stored, ← sound.ordered.fifo] at fifo
  refine ⟨after, consuming.step reads moved, status, ?_⟩
  change Run 63 (f.text bytes) kbdBuf.returned kbdBuf.contents
  rcases returned with same | ⟨byte, more⟩
  · rw [same] at fifo
    rw [same, List.append_cancel_left fifo]
    exact run
  · rw [more, List.append_assoc] at fifo
    rw [← List.append_cancel_left fifo] at run
    rw [more]
    exact run.take byte

theorem Delivers.step (delivers : Delivers f bytes s) {act : KeyAct × Option T} (stepped : s.step act = some (.ok t)) :
    Delivers f (bytes ++ sent [act]) t := by
  obtain ⟨act, wanted⟩ := act
  cases act with
  | scan byte =>
    change (if s.kbdBuf.pc s.kbdBuf.threads.current = .idle then some (s.intrKeyboardHandler wanted byte) else none) =
      _ at stepped
    split at stepped
    · rename_i idle
      obtain ⟨after, done, result⟩ := delivers.handler idle wanted byte
      obtain rfl : after = t := Except.ok.inj (done.symm.trans (Option.some.inj stepped))
      exact result
    · contradiction
  | getchar =>
    rw [show sent [(KeyAct.getchar, wanted)] = [] from rfl, List.append_nil]
    exact delivers.others (.inl rfl) stepped
  | clock =>
    rw [show sent [(KeyAct.clock, wanted)] = [] from rfl, List.append_nil]
    exact delivers.others (.inr (.inl rfl)) stepped
  | resume =>
    rw [show sent [(KeyAct.resume, wanted)] = [] from rfl, List.append_nil]
    exact delivers.others (.inr (.inr rfl)) stepped

omit [DecidableEq T] in
theorem sent_cons (act : KeyAct × Option T) (acts : List (KeyAct × Option T)) :
    sent (act :: acts) = sent [act] ++ sent acts := by
  obtain ⟨act, wanted⟩ := act
  cases act <;> rfl

theorem Delivers.execute (delivers : Delivers f bytes s) {acts : List (KeyAct × Option T)}
    (executed : (system T).execute s acts = some t) : Delivers f (bytes ++ sent acts) t := by
  induction acts generalizing s bytes with
  | nil =>
    cases executed
    rw [sent, List.append_nil]
    exact delivers
  | cons act acts ih =>
    rw [Transition.System.execute] at executed
    split at executed
    · rename_i u stepped
      rw [sent_cons, ← List.append_assoc]
      exact ih (delivers.step stepped) executed
    · contradiction

omit [DecidableEq T] in
theorem Start.delivers (start : Start s) : Delivers s.status [] s := by
  have sound := (IoState.start_sound start.kbdBuf).1
  obtain ⟨stored, returned⟩ := start.kbdBuf.fresh
  have fifo := sound.ordered.fifo
  rw [stored, returned, List.nil_append] at fifo
  refine ⟨sound, fun t => .inl (start.kbdBuf.idle t), rfl, ?_⟩
  rw [returned, fifo]
  exact .start

/-- Whatever the interrupts and the readers do in whatever order, the characters returned and then those still
    waiting are those typed, in their order and each once. One is lost only when 63 wait; the handler itself never
    stops. -/
theorem typed_text (start : Start s) {acts : List (KeyAct × Option T)}
    (executed : (system T).execute s acts = some t) :
    Run 63 (s.status.text (sent acts)) t.kbdBuf.returned t.kbdBuf.contents ∧
    (t.kbdBuf.returned ++ t.kbdBuf.contents).Sublist (s.status.text (sent acts)) ∧
    ((s.status.text (sent acts)).length ≤ 63 →
      t.kbdBuf.returned ++ t.kbdBuf.contents = s.status.text (sent acts)) ∧
    (t.kbdBuf.pc t.kbdBuf.threads.current = .idle →
      ∀ wanted byte, ∃ u, t.intrKeyboardHandler wanted byte = .ok u) := by
  have delivers := start.delivers.execute executed
  rw [List.nil_append] at delivers
  refine ⟨delivers.run, delivers.run.sublist, delivers.run.complete, fun idle wanted byte => ?_⟩
  obtain ⟨u, done, -⟩ := delivers.handler idle wanted byte
  exact ⟨u, done⟩

/-- The keys A and B, of which the first has been read. -/
theorem typed_text_letters : ∃ t, (system Nat).execute quiet
      [(.scan 0x1e, none), (.scan 0x30, none), (.getchar, none)] = some t ∧
    t.kbdBuf.returned ++ t.kbdBuf.contents = [0x61, 0x62] := by
  obtain ⟨t, executed⟩ : ∃ t, (system Nat).execute quiet
      [(.scan 0x1e, none), (.scan 0x30, none), (.getchar, none)] = some t := ⟨_, rfl⟩
  obtain ⟨-, -, complete, -⟩ := typed_text quiet_start executed
  exact ⟨t, executed, complete (by decide)⟩

end Keyboard

end LiziOS
