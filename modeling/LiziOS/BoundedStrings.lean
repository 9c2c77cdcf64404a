import LiziOS.Strings

namespace LiziOS.Strings

open Recorded

/-! The functions of `string.c` that take a bound. -/

variable {s t : Ram 32} {a dest src str count maxlen : U32} {bytes chars : List U8} {n left : Nat}

/-- The two places that a loop copies between. -/
def Apart (dest src : U32) (n : Nat) : Prop := ∀ x, Range dest n x → ¬ Range src n x

theorem Apart.succ (apart : Apart dest src (n + 1)) : Apart (dest + 1) (src + 1) n :=
  fun x inside inside' => apart x inside.succ inside'.succ

theorem Apart.mono (apart : Apart dest src n) {m : Nat} (less : m ≤ n) : Apart dest src m :=
  fun x inside inside' => apart x (inside.mono less) (inside'.mono less)

theorem Apart.ne (apart : Apart dest src (n + 1)) : src ≠ dest := by
  rintro rfl
  exact apart src (range_self (Nat.succ_pos n)) (range_self (Nat.succ_pos n))

/-- What is behind the first byte is as before. -/
theorem BytesAt.copy (apart : Apart dest src (bytes.length + 1)) (there : BytesAt s.bytes (src + 1) bytes) :
    BytesAt (Ram.copy s dest src).bytes (src + 1) bytes := by
  refine there.congr fun x inside => Function.update_of_ne ?_ _ _
  rintro rfl
  exact apart x (range_self (Nat.succ_pos _)) inside.succ

theorem strncpyLoop_turn (apart : Apart dest src (n + 1)) : strncpyLoop dest src (left + 1) s =
    if s.bytes src = eos then some (true, Ram.copy s dest src)
    else strncpyLoop (dest + 1) (src + 1) left (Ram.copy s dest src) := by
  have again : ((s.read src).write dest (s.bytes src)).bytes src = s.bytes src := Function.update_of_ne apart.ne _ _
  rw [strncpyLoop, bind_load, bind_store, bind_load, again]
  split
  · rfl
  · rfl

/-- A loop that meets no NUL copies as many bytes as it has turns. -/
theorem strncpyLoop_full (there : BytesAt s.bytes src bytes) (noNul : ∀ c ∈ bytes, c ≠ eos)
    (apart : Apart dest src bytes.length) (small : bytes.length < 2 ^ 32) :
    ∃ t, strncpyLoop dest src bytes.length s = some (false, t) ∧ BytesAt t.bytes dest bytes ∧
      Within (Range src bytes.length) (Range dest bytes.length) s t := by
  induction bytes generalizing s dest src with
  | nil => exact ⟨s, rfl, True.intro, Within.refl s⟩
  | cons c rest ih =>
    rw [List.length_cons] at apart small
    have more : s.bytes src ≠ eos := by
      rw [there.1]
      exact noNul c List.mem_cons_self
    obtain ⟨t, done, copied, within⟩ := @ih (Ram.copy s dest src) (dest + 1) (src + 1) (BytesAt.copy apart there.2)
      (fun b member => noNul b (List.mem_cons_of_mem _ member)) apart.succ (by omega)
    refine ⟨t, ?_, ⟨?_, copied⟩, ?_⟩
    · rw [List.length_cons, strncpyLoop_turn apart, if_neg more, done]
    · rw [within.bytes dest (not_range_next (by omega)), ← there.1]
      exact Function.update_self _ _ _
    · exact (within_copy (range_self (Nat.succ_pos _)) (range_self (Nat.succ_pos _))).trans
        (within.mono (fun _ => Range.succ) fun _ => Range.succ)

/-- A loop that meets the NUL has copied the string. -/
theorem strncpyLoop_string (string : StringAt s.bytes src chars) (apart : Apart dest src (chars.length + 1))
    (less : chars.length < left) (small : left < 2 ^ 32) :
    ∃ t, strncpyLoop dest src left s = some (true, t) ∧ StringAt t.bytes dest chars ∧
      Within (Range src (chars.length + 1)) (Range dest (chars.length + 1)) s t := by
  induction chars generalizing s dest src left with
  | nil =>
    obtain ⟨left, rfl⟩ := Nat.exists_eq_succ_of_ne_zero (Nat.ne_zero_of_lt less)
    have nul : s.bytes src = eos := string
    refine ⟨Ram.copy s dest src, ?_, ?_, within_copy (range_self Nat.one_pos) (range_self Nat.one_pos)⟩
    · rw [strncpyLoop_turn apart, if_pos nul]
    · exact (Function.update_self dest (s.bytes src) s.bytes).trans nul
  | cons c rest ih =>
    obtain ⟨left, rfl⟩ := Nat.exists_eq_succ_of_ne_zero (Nat.ne_zero_of_lt less)
    rw [List.length_cons] at apart less
    obtain ⟨first, more, tail⟩ := string
    have tail' : StringAt (Ram.copy s dest src).bytes (src + 1) rest := by
      rw [stringAt_iff] at tail ⊢
      refine ⟨BytesAt.copy ?_ tail.1, tail.2⟩
      rw [List.length_append]
      exact apart
    obtain ⟨t, done, copied, within⟩ := @ih (Ram.copy s dest src) (dest + 1) (src + 1) left tail' apart.succ
      (by omega) (by omega)
    refine ⟨t, ?_, ⟨?_, more, copied⟩, ?_⟩
    · rw [strncpyLoop_turn apart, first, if_neg more, done]
    · rw [within.bytes dest (not_range_next (by omega)), ← first]
      exact Function.update_self _ _ _
    · exact (within_copy (range_self (Nat.succ_pos _)) (range_self (Nat.succ_pos _))).trans
        (within.mono (fun _ => Range.succ) fun _ => Range.succ)

/-- The characters before the bound, and the NUL that the call puts behind them. -/
theorem strncpy_cut (there : BytesAt s.bytes src bytes) (noNul : ∀ c ∈ bytes, c ≠ eos)
    (apart : Apart dest src bytes.length) (positive : 0 < count.toNat) (length : bytes.length = count.toNat) :
    ∃ t, strncpy dest src count s = some (dest, t) ∧ StringAt t.bytes dest (bytes.take (count.toNat - 1)) ∧
      Within (Range src count.toNat) (Range dest count.toNat) s t := by
  obtain ⟨t, done, copied, within⟩ := strncpyLoop_full there noNul apart (by rw [length]; exact count.isLt)
  rw [length] at done within
  have last : dest + (count - 1) = dest + BitVec.ofNat 32 (count.toNat - 1) := by
    congr 1
    apply BitVec.eq_of_toNat_eq
    rw [BitVec.toNat_ofNat, BitVec.toNat_sub, show (1 : U32).toNat = 1 from rfl]
    omega
  have inside : Range dest count.toNat (dest + (count - 1)) := by
    rw [last]
    exact range_index (by omega)
  refine ⟨t.write (dest + (count - 1)) eos, ?_, ?_, within.trans (within_write _ inside)⟩
  · unfold strncpy
    rw [bind_ok done, if_neg (by simp), bind_store]
    rfl
  · rw [stringAt_iff]
    refine ⟨?_, fun c member => noNul c (List.mem_of_mem_take member)⟩
    have cut : (bytes.take (count.toNat - 1)).length = count.toNat - 1 := by
      rw [List.length_take]
      omega
    rw [bytesAt_append, cut]
    refine ⟨(bytesAt_append.mp (by rw [List.take_append_drop]; exact copied)).1.congr fun x inside => ?_, ?_⟩
    · apply Function.update_of_ne
      rintro rfl
      rw [cut, last, range_index_iff (by omega)] at inside
      omega
    · rw [← last]
      exact ⟨Function.update_self _ _ _, True.intro⟩

theorem strnlenLoop_string (string : StringAt s.bytes str chars) (less : chars.length < left) :
    ∃ t, strnlenLoop str left s = some (str + BitVec.ofNat 32 chars.length, t) ∧
      Within (Range str (chars.length + 1)) (fun _ => False) s t := by
  induction chars generalizing s str left with
  | nil =>
    obtain ⟨left, rfl⟩ := Nat.exists_eq_succ_of_ne_zero (Nat.ne_zero_of_lt less)
    have nul : s.bytes str = eos := string
    refine ⟨s.read str, ?_, within_read (range_self Nat.one_pos)⟩
    rw [strnlenLoop, bind_load, nul, if_neg (by simp)]
    exact congrArg (fun ptr => some (ptr, s.read str)) (BitVec.add_zero str).symm
  | cons c rest ih =>
    obtain ⟨left, rfl⟩ := Nat.exists_eq_succ_of_ne_zero (Nat.ne_zero_of_lt less)
    rw [List.length_cons] at less
    obtain ⟨t, done, within⟩ := ih (s := s.read str) string.2.2 (Nat.lt_of_succ_lt_succ less)
    refine ⟨t, ?_, (within_read (range_self (Nat.succ_pos _))).trans
      (within.mono (fun _ => Range.succ) fun _ no => no)⟩
    rw [strnlenLoop, bind_load, string.1, if_pos string.2.1, done, List.length_cons, BitVec.add_assoc,
      Nat.add_comm rest.length 1, BitVec.ofNat_add]
    rfl

/-- When no NUL comes within the bound, the byte at the bound is read. -/
theorem strnlenLoop_full (there : BytesAt s.bytes str bytes) (noNul : ∀ c ∈ bytes, c ≠ eos) :
    ∃ t new, strnlenLoop str bytes.length s = some (str + BitVec.ofNat 32 bytes.length, t) ∧
      t.reads = s.reads ++ new ∧ str + BitVec.ofNat 32 bytes.length ∈ new := by
  induction bytes generalizing s str with
  | nil =>
    have here : str + BitVec.ofNat 32 0 = str := BitVec.add_zero str
    refine ⟨s.read str, [str], ?_, rfl, ?_⟩
    · rw [List.length_nil, strnlenLoop, bind_load, here]
      rfl
    · rw [List.length_nil, here]
      exact List.mem_singleton_self _
  | cons c rest ih =>
    have more : s.bytes str ≠ eos := by
      rw [there.1]
      exact noNul c List.mem_cons_self
    obtain ⟨t, new, done, reads, member⟩ := ih (s := s.read str) there.2
      fun b member => noNul b (List.mem_cons_of_mem _ member)
    have next : str + BitVec.ofNat 32 (rest.length + 1) = str + 1 + BitVec.ofNat 32 rest.length := by
      rw [BitVec.add_assoc, Nat.add_comm rest.length 1, BitVec.ofNat_add]
      rfl
    refine ⟨t, str :: new, ?_, ?_, List.mem_cons_of_mem _ ?_⟩
    · rw [List.length_cons, strnlenLoop, bind_load, if_pos more, done, next]
    · rw [reads]
      exact List.append_assoc _ _ _
    · rw [List.length_cons, next]
      exact member

/-! What their callers rely on. -/

/-- The call writes no more than `count` bytes and reads no more, and leaves a string of fewer characters
    with which the one at `src` begins. -/
def StrncpyBounded (s : Ram 32) (dest src count : U32) (chars : List U8) : Prop :=
  ∃ t, strncpy dest src count s = some (dest, t) ∧ Within (Range src count.toNat) (Range dest count.toNat) s t ∧
    (0 < count.toNat → ∃ copied, StringAt t.bytes dest copied ∧ copied <+: chars ∧
      copied.length = min chars.length (count.toNat - 1))

/-- The call returns the length, or the bound where that is less, and reads no byte behind the bound. -/
def StrnlenBounded (s : Ram 32) (str maxlen : U32) (chars : List U8) : Prop :=
  ∃ t, strnlen str maxlen s = some (BitVec.ofNat 32 (min chars.length maxlen.toNat), t) ∧
    Within (Range str maxlen.toNat) (fun _ => False) s t

/-- The first bytes of a string that is longer. -/
theorem StringAt.take (string : StringAt m a chars) (inside : n ≤ chars.length) :
    BytesAt m a (chars.take n) ∧ (∀ c ∈ chars.take n, c ≠ eos) ∧ (chars.take n).length = n := by
  obtain ⟨there, noNul⟩ := stringAt_iff.mp string
  have split : chars.take n ++ (chars.drop n ++ [eos]) = chars ++ [eos] := by
    rw [← List.append_assoc, List.take_append_drop]
  rw [← split] at there
  exact ⟨(bytesAt_append.mp there).1, fun c member => noNul c (List.mem_of_mem_take member),
    List.length_take_of_le inside⟩

theorem strncpyBounded_iff (string : StringAt s.bytes src chars)
    (apart : Apart dest src (min (chars.length + 1) count.toNat)) :
    StrncpyBounded s dest src count chars ↔ 0 < count.toNat := by
  constructor
  · rintro ⟨t, done, within, -⟩
    by_contra zero
    have none : count = 0 := BitVec.eq_of_toNat_eq (Nat.eq_zero_of_not_pos zero)
    subst count
    -- `dest[-1]` is written
    have stored : strncpy dest src 0 s = some (dest, s.write (dest + (0 - 1)) eos) := rfl
    rw [stored] at done
    cases done
    exact Nat.not_lt_zero _ (within.was_writable rfl (List.mem_singleton_self _))
  · intro positive
    have bound := count.isLt
    by_cases less : chars.length < count.toNat
    · obtain ⟨t, done, copied, within⟩ := strncpyLoop_string string (apart.mono (by omega)) less bound
      refine ⟨t, ?_, within.mono (fun x inside => inside.mono (by omega)) fun x inside => inside.mono (by omega),
        fun _ => ⟨chars, copied, List.prefix_refl _, by omega⟩⟩
      unfold strncpy
      rw [bind_ok done]
      rfl
    · obtain ⟨there, noNul, length⟩ := string.take (Nat.le_of_not_lt less)
      obtain ⟨t, done, copied, within⟩ := strncpy_cut there noNul (apart.mono (by omega)) positive length
      refine ⟨t, done, within, fun _ => ⟨_, copied, ?_, ?_⟩⟩
      · exact (List.take_prefix _ _).trans (List.take_prefix _ _)
      · rw [List.length_take, length]
        omega

theorem strnlenBounded_iff (string : StringAt s.bytes str chars) :
    StrnlenBounded s str maxlen chars ↔ chars.length < maxlen.toNat := by
  have returned (r : U32) : (str + r) - str = r := by
    rw [BitVec.add_comm, BitVec.add_sub_cancel]
  constructor
  · rintro ⟨t, done, within⟩
    by_contra long
    obtain ⟨there, noNul, length⟩ := string.take (Nat.le_of_not_lt long)
    obtain ⟨u, new, ended, reads, member⟩ := strnlenLoop_full there noNul
    rw [length] at ended member
    unfold strnlen at done
    rw [bind_ok ended] at done
    have same : u = t := congrArg Prod.snd (Option.some.inj done)
    rw [same] at reads
    have inside := within.was_readable reads member
    rw [range_index_iff maxlen.isLt] at inside
    exact Nat.lt_irrefl _ inside
  · intro less
    obtain ⟨t, ended, within⟩ := strnlenLoop_string string less
    refine ⟨t, ?_, within.mono (fun x inside => inside.mono less) fun _ no => no⟩
    unfold strnlen
    rw [bind_ok ended, Nat.min_eq_left (Nat.le_of_lt less)]
    exact congrArg (fun r => some (r, t)) (returned _)

/-- `strncpy` keeps to every bound but 0, and `strnlen` to those that the string does not reach. -/
theorem bounded_strings (string : StringAt s.bytes src chars)
    (apart : Apart dest src (min (chars.length + 1) count.toNat)) :
    (StrncpyBounded s dest src count chars ↔ 0 < count.toNat) ∧
      (StrnlenBounded s src count chars ↔ chars.length < count.toNat) :=
  ⟨strncpyBounded_iff string apart, strnlenBounded_iff string⟩

theorem bounded_strings_ab : StrncpyBounded abMemory 0x2000 0x1000 3 [0x61, 0x62] ∧
    StrnlenBounded abMemory 0x1000 3 [0x61, 0x62] := by
  have apart : Apart 0x2000 0x1000 (min ([0x61, 0x62].length + 1) (3 : U32).toNat) := by
    intro x inside inside'
    change (x - 0x2000).toNat < 3 at inside
    change (x - 0x1000).toNat < 3 at inside'
    bv_omega
  obtain ⟨copies, counts⟩ := bounded_strings abMemory_string apart
  exact ⟨copies.mpr (by decide), counts.mpr (by decide)⟩

/-- At the bound 2 the NUL is read, which is the third byte; at the bound 0 the byte before `dest` is
    written. -/
theorem bounds_exceeded : ¬ StrnlenBounded abMemory 0x1000 2 [0x61, 0x62] ∧
    ¬ StrncpyBounded abMemory 0x2000 0x1000 0 [0x61, 0x62] := by
  constructor
  · rw [strnlenBounded_iff abMemory_string]
    decide
  · rw [strncpyBounded_iff abMemory_string fun x inside => absurd inside (Nat.not_lt_zero _)]
    decide

end LiziOS.Strings
