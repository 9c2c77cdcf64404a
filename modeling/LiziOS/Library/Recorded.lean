import LiziOS.Library.ByteMemory
import Mathlib.Data.List.Basic
import Mathlib.Logic.Function.Basic

/-! Byte memory of a flat address space, with a record of the addresses that a program reads and writes. -/

namespace Recorded

structure Ram (w : Nat) where
  bytes : BitVec w → BitVec 8
  /-- the addresses read and those written, oldest first -/
  reads : List (BitVec w)
  writes : List (BitVec w)

/-- A program over the memory; `none` where a loop does not end within the turns that it is given. -/
abbrev Code (w : Nat) := StateT (Ram w) Option

variable {w n : Nat} {α β : Type} {a b x : BitVec w} {s t u : Ram w} {c : Code w α} {f : α → Code w β}

def load (a : BitVec w) : Code w (BitVec 8) := fun s => some (s.bytes a, { s with reads := s.reads ++ [a] })

def store (a : BitVec w) (byte : BitVec 8) : Code w Unit := fun s =>
  some ((), { s with bytes := Function.update s.bytes a byte, writes := s.writes ++ [a] })

def endless : Code w α := fun _ => none

theorem bind_ok {v : α} (first : c s = some (v, t)) : (c >>= f) s = f v t := by
  change (c s).bind (fun r => f r.1 r.2) = _
  rw [first]
  rfl

theorem bind_completed {v : β} (completed : (c >>= f) s = some (v, u)) :
    ∃ a t, c s = some (a, t) ∧ f a t = some (v, u) := by
  change (c s).bind (fun r => f r.1 r.2) = _ at completed
  obtain ⟨⟨a, t⟩, first, rest⟩ := Option.bind_eq_some_iff.mp completed
  exact ⟨a, t, first, rest⟩

def Ram.read (s : Ram w) (a : BitVec w) : Ram w := { s with reads := s.reads ++ [a] }

def Ram.write (s : Ram w) (a : BitVec w) (byte : BitVec 8) : Ram w :=
  { s with bytes := Function.update s.bytes a byte, writes := s.writes ++ [a] }

@[simp] theorem read_bytes : (s.read a).bytes = s.bytes := rfl

@[simp] theorem write_bytes (byte : BitVec 8) : (s.write a byte).bytes = Function.update s.bytes a byte := rfl

theorem bind_load (f : BitVec 8 → Code w β) (a : BitVec w) (s : Ram w) :
    (load a >>= f) s = f (s.bytes a) (s.read a) := rfl

theorem bind_store (f : Unit → Code w β) (a : BitVec w) (byte : BitVec 8) (s : Ram w) :
    (store a byte >>= f) s = f () (s.write a byte) := rfl

/-- From some number of turns on, the program ends so. -/
def Returns (c : Nat → Code w α) (s : Ram w) (v : α) (t : Ram w) : Prop :=
  ∃ enough, ∀ turns, enough ≤ turns → c turns s = some (v, t)

theorem Returns.unique {c : Nat → Code w α} {v v' : α} (first : Returns c s v t) (second : Returns c s v' u) :
    v = v' ∧ t = u := by
  obtain ⟨enough, ends⟩ := first
  obtain ⟨enough', ends'⟩ := second
  have same := (ends (max enough enough') (Nat.le_max_left _ _)).symm.trans
    (ends' (max enough enough') (Nat.le_max_right _ _))
  cases same
  exact ⟨rfl, rfl⟩

/-! Ranges of addresses, which may go around the end of the address space. -/

def Range (a : BitVec w) (n : Nat) (x : BitVec w) : Prop := (x - a).toNat < n

theorem range_self (positive : 0 < n) : Range a n a := by
  unfold Range
  rw [BitVec.sub_self, BitVec.toNat_zero]
  exact positive

theorem Range.mono {m : Nat} (inside : Range a n x) (more : n ≤ m) : Range a m x := Nat.lt_of_lt_of_le inside more

theorem Range.succ (inside : Range (a + 1) n x) : Range a (n + 1) x := by
  have next : x - a = x - (a + 1) + 1 := by grind
  have one : (1 : BitVec w).toNat ≤ 1 := Nat.mod_le 1 _
  have sum : (x - (a + 1) + 1).toNat ≤ (x - (a + 1)).toNat + 1 := by
    rw [BitVec.toNat_add]
    exact Nat.le_trans (Nat.mod_le _ _) (Nat.add_le_add_left one _)
  unfold Range at inside ⊢
  rw [next]
  omega

theorem range_index {i : Nat} (less : i < n) : Range a n (a + BitVec.ofNat w i) := by
  unfold Range
  rw [BitVec.add_comm, BitVec.add_sub_cancel, BitVec.toNat_ofNat]
  exact Nat.lt_of_le_of_lt (Nat.mod_le i _) less

theorem range_index_iff {i : Nat} (small : i < 2 ^ w) : Range a n (a + BitVec.ofNat w i) ↔ i < n := by
  unfold Range
  rw [BitVec.add_comm, BitVec.add_sub_cancel, BitVec.toNat_ofNat, Nat.mod_eq_of_lt small]

theorem Range.index (a x : BitVec w) : x = a + BitVec.ofNat w (x - a).toNat := by
  rw [BitVec.ofNat_toNat, BitVec.setWidth_eq, BitVec.add_comm, BitVec.sub_add_cancel]

/-- The first address and those behind it. -/
theorem Range.first (inside : Range a (n + 1) x) : x = a ∨ Range (a + 1) n x := by
  have place := Range.index a x
  unfold Range at inside
  cases distance : (x - a).toNat with
  | zero =>
    rw [distance] at place
    exact .inl (place.trans (BitVec.add_zero a))
  | succ i =>
    have next : x = a + 1 + BitVec.ofNat w i := by
      rw [place, distance, BitVec.ofNat_add]
      grind
    rw [next]
    exact .inr (range_index (by omega))

theorem not_range_next (small : n < 2 ^ w) : ¬ Range (a + 1) n a := by
  intro inside
  unfold Range at inside
  have turned : a - (a + 1) + 1 = 0 := by grind
  have sum := congrArg BitVec.toNat turned
  rw [BitVec.toNat_add, show (0 : BitVec w).toNat = 0 from BitVec.toNat_zero] at sum
  have one : (1 : BitVec w).toNat = 1 := Nat.mod_eq_of_lt (a := 1) (b := 2 ^ w) (by omega)
  rw [one, Nat.mod_eq_of_lt (by omega)] at sum
  omega

/-! The bytes of a list, one behind the other. -/

def BytesAt (m : BitVec w → BitVec 8) : BitVec w → List (BitVec 8) → Prop
  | _, [] => True
  | a, byte :: rest => m a = byte ∧ BytesAt m (a + 1) rest

variable {m m' : BitVec w → BitVec 8} {bytes : List (BitVec 8)}

theorem BytesAt.congr (there : BytesAt m a bytes) (same : ∀ x, Range a bytes.length x → m' x = m x) :
    BytesAt m' a bytes := by
  induction bytes generalizing a with
  | nil => exact True.intro
  | cons byte rest ih =>
    refine ⟨?_, ih there.2 fun x inside => same x inside.succ⟩
    rw [same a (range_self (Nat.succ_pos _))]
    exact there.1

theorem bytesAt_append {others : List (BitVec 8)} :
    BytesAt m a (bytes ++ others) ↔ BytesAt m a bytes ∧ BytesAt m (a + BitVec.ofNat w bytes.length) others := by
  induction bytes generalizing a with
  | nil =>
    rw [List.length_nil, show a + BitVec.ofNat w 0 = a from BitVec.add_zero a]
    exact ⟨fun there => ⟨True.intro, there⟩, fun both => both.2⟩
  | cons byte rest ih =>
    have next : a + BitVec.ofNat w (rest.length + 1) = a + 1 + BitVec.ofNat w rest.length := by
      rw [BitVec.ofNat_add]
      grind
    rw [List.cons_append, BytesAt, ih, BytesAt, List.length_cons, next, and_assoc]

theorem BytesAt.get (there : BytesAt m a bytes) {i : Nat} (inside : i < bytes.length) :
    m (a + BitVec.ofNat w i) = bytes[i] := by
  induction bytes generalizing a i with
  | nil => exact absurd inside (Nat.not_lt_zero i)
  | cons byte rest ih =>
    cases i with
    | zero =>
      rw [show a + BitVec.ofNat w 0 = a from BitVec.add_zero a]
      exact there.1
    | succ i =>
      have next : a + BitVec.ofNat w (i + 1) = a + 1 + BitVec.ofNat w i := by
        rw [BitVec.ofNat_add]
        grind
      rw [next]
      exact ih there.2 (Nat.lt_of_succ_lt_succ inside)

/-! What a program reads and writes. -/

/-- Between the two states only these addresses have been read, and only those written. -/
structure Within (readable writable : BitVec w → Prop) (s t : Ram w) : Prop where
  reads : ∃ new, t.reads = s.reads ++ new ∧ ∀ a ∈ new, readable a
  writes : ∃ new, t.writes = s.writes ++ new ∧ ∀ a ∈ new, writable a
  bytes : ∀ a, ¬ writable a → t.bytes a = s.bytes a

variable {readable writable : BitVec w → Prop}

theorem Within.refl (s : Ram w) : Within readable writable s s :=
  ⟨⟨[], (List.append_nil _).symm, by simp⟩, ⟨[], (List.append_nil _).symm, by simp⟩, fun _ _ => rfl⟩

theorem Within.trans (first : Within readable writable s t) (second : Within readable writable t u) :
    Within readable writable s u := by
  obtain ⟨⟨reads, readsEq, read⟩, ⟨writes, writesEq, written⟩, same⟩ := first
  obtain ⟨⟨reads', readsEq', read'⟩, ⟨writes', writesEq', written'⟩, same'⟩ := second
  refine ⟨⟨reads ++ reads', ?_, ?_⟩, ⟨writes ++ writes', ?_, ?_⟩, fun a outside => ?_⟩
  · rw [readsEq', readsEq, List.append_assoc]
  · exact fun a member => (List.mem_append.mp member).elim (read a) (read' a)
  · rw [writesEq', writesEq, List.append_assoc]
  · exact fun a member => (List.mem_append.mp member).elim (written a) (written' a)
  · exact (same' a outside).trans (same a outside)

theorem Within.mono {readable' writable' : BitVec w → Prop} (within : Within readable writable s t)
    (reads : ∀ a, readable a → readable' a) (writes : ∀ a, writable a → writable' a) :
    Within readable' writable' s t := by
  obtain ⟨⟨new, readsEq, read⟩, ⟨new', writesEq, written⟩, same⟩ := within
  exact ⟨⟨new, readsEq, fun a member => reads a (read a member)⟩,
    ⟨new', writesEq, fun a member => writes a (written a member)⟩,
    fun a outside => same a fun inside => outside (writes a inside)⟩

theorem within_read (inside : readable a) : Within readable writable s (s.read a) :=
  ⟨⟨[a], rfl, by simpa using inside⟩, ⟨[], (List.append_nil _).symm, by simp⟩, fun _ _ => rfl⟩

theorem within_write (byte : BitVec 8) (inside : writable a) : Within readable writable s (s.write a byte) := by
  refine ⟨⟨[], (List.append_nil _).symm, by simp⟩, ⟨[a], rfl, by simpa using inside⟩, fun b outside => ?_⟩
  apply Function.update_of_ne
  rintro rfl
  exact outside inside

/-- An address that the record has gained is one of those that may be read. -/
theorem Within.was_readable {new : List (BitVec w)} (within : Within readable writable s t)
    (reads : t.reads = s.reads ++ new) (member : a ∈ new) : readable a := by
  obtain ⟨others, same, read⟩ := within.reads
  rw [reads, List.append_cancel_left_eq] at same
  exact read a (same ▸ member)

theorem Within.was_writable {new : List (BitVec w)} (within : Within readable writable s t)
    (writes : t.writes = s.writes ++ new) (member : a ∈ new) : writable a := by
  obtain ⟨others, same, written⟩ := within.writes
  rw [writes, List.append_cancel_left_eq] at same
  exact written a (same ▸ member)

/-! Words, and memory as it is seen from one address. -/

def storeWord (a : BitVec w) (word : BitVec 32) : Code w Unit := do
  store a (ByteMemory.byteOf word 0)
  store (a + 1) (ByteMemory.byteOf word 1)
  store (a + 2) (ByteMemory.byteOf word 2)
  store (a + 3) (ByteMemory.byteOf word 3)

def loadWord (a : BitVec w) : Code w (BitVec 32) := do
  let byte0 ← load a
  let byte1 ← load (a + 1)
  let byte2 ← load (a + 2)
  let byte3 ← load (a + 3)
  return byte3 ++ byte2 ++ byte1 ++ byte0

def Ram.writeWord (s : Ram w) (a : BitVec w) (word : BitVec 32) : Ram w :=
  (((s.write a (ByteMemory.byteOf word 0)).write (a + 1) (ByteMemory.byteOf word 1)).write (a + 2)
    (ByteMemory.byteOf word 2)).write (a + 3) (ByteMemory.byteOf word 3)

def Ram.readWord (s : Ram w) (a : BitVec w) : Ram w := (((s.read a).read (a + 1)).read (a + 2)).read (a + 3)

@[simp] theorem readWord_bytes : (s.readWord a).bytes = s.bytes := rfl

/-- The byte at a distance from the address. -/
def view (m : BitVec w → BitVec 8) (a : BitVec w) : ByteMemory.Memory := fun o =>
  if o < 2 ^ w then m (a + BitVec.ofNat w o) else 0

theorem view_eq {o : Nat} (small : o < 2 ^ w) : view m a o = m (a + BitVec.ofNat w o) := if_pos small

theorem offset_inj {o o' : Nat} (small : o < 2 ^ w) (small' : o' < 2 ^ w)
    (same : a + BitVec.ofNat w o = a + BitVec.ofNat w o') : o = o' := by
  have equal := congrArg BitVec.toNat ((BitVec.add_right_inj a).mp same)
  rwa [BitVec.toNat_ofNat, BitVec.toNat_ofNat, Nat.mod_eq_of_lt small, Nat.mod_eq_of_lt small'] at equal

theorem view_write {o : Nat} (small : o < 2 ^ w) (byte : BitVec 8) :
    view (s.write (a + BitVec.ofNat w o) byte).bytes a = Function.update (view s.bytes a) o byte := by
  funext o'
  by_cases same : o' = o
  · rw [same, Function.update_self, view_eq small]
    exact Function.update_self _ _ _
  · rw [Function.update_of_ne same]
    by_cases small' : o' < 2 ^ w
    · rw [view_eq small', view_eq small']
      exact Function.update_of_ne (fun equal => same (offset_inj small' small equal)) _ _
    · rw [view, if_neg small', view, if_neg small']

theorem view_writeWord {o : Nat} (small : o + 3 < 2 ^ w) (word : BitVec 32) :
    view (s.writeWord (a + BitVec.ofNat w o) word).bytes a = ByteMemory.setWord (view s.bytes a) o word := by
  have next (i : Nat) (c : BitVec w) (is : c = BitVec.ofNat w i) :
      a + BitVec.ofNat w o + c = a + BitVec.ofNat w (o + i) := by
    rw [is, BitVec.ofNat_add, BitVec.add_assoc]
  rw [Ram.writeWord, next 1 1 rfl, next 2 2 rfl, next 3 3 rfl, view_write (by omega), view_write (by omega),
    view_write (by omega), view_write (by omega), ByteMemory.setWord_bytes]

theorem bind_storeWord (f : Unit → Code w β) (a : BitVec w) (word : BitVec 32) (s : Ram w) :
    (storeWord a word >>= f) s = f () (s.writeWord a word) := rfl

theorem bind_loadWord (f : BitVec 32 → Code w β) {o : Nat} (small : o + 3 < 2 ^ w) :
    (loadWord (a + BitVec.ofNat w o) >>= f) s =
      f (ByteMemory.word (view s.bytes a) o) (s.readWord (a + BitVec.ofNat w o)) := by
  have next (i : Nat) (c : BitVec w) (is : c = BitVec.ofNat w i) :
      a + BitVec.ofNat w o + c = a + BitVec.ofNat w (o + i) := by
    rw [is, BitVec.ofNat_add, BitVec.add_assoc]
  rw [ByteMemory.word, view_eq (by omega), view_eq (by omega), view_eq (by omega), view_eq (by omega),
    ← next 1 1 rfl, ← next 2 2 rfl, ← next 3 3 rfl]
  rfl

theorem within_writeWord {o : Nat} (word : BitVec 32) (inside : ∀ i, i < 4 → writable (a + BitVec.ofNat w (o + i))) :
    Within readable writable s (s.writeWord (a + BitVec.ofNat w o) word) := by
  have next (i : Nat) (c : BitVec w) (is : c = BitVec.ofNat w i) (less : i < 4) :
      writable (a + BitVec.ofNat w o + c) := by
    rw [is, BitVec.add_assoc, ← BitVec.ofNat_add]
    exact inside i less
  have first : writable (a + BitVec.ofNat w o) := inside 0 (by omega)
  exact (((within_write _ first).trans (within_write _ (next 1 1 rfl (by omega)))).trans
    (within_write _ (next 2 2 rfl (by omega)))).trans (within_write _ (next 3 3 rfl (by omega)))

end Recorded
