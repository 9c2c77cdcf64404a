import LiziOS.Kernel.Sync
import LiziOS.Library.Paging
import LiziOS.Library.Program

namespace LiziOS

/-- `struct bitmap`. -/
structure Bitmap where
  length : U32
  bits : U32
  deriving DecidableEq

/-- `struct virtual_addr`. -/
structure VirtualAddr where
  addrBitmap : Bitmap
  addrStart : U32
  deriving DecidableEq

/-- `struct pool`. -/
structure Pool where
  lock : Lock U32
  poolBitmap : Bitmap
  phyAddrStart : U32
  poolSize : U32
  deriving DecidableEq

/-- `enum pool_type`. -/
inductive PoolType where
  | kernelPool | userPool
  deriving DecidableEq, Repr

/-- The fields of `struct tss` that the kernel sets. -/
structure Tss where
  esp0 : U32
  ss0 : U32
  ioBase : U32
  deriving DecidableEq

/-- Addresses that the linker chooses. -/
structure Symbols where
  kernelThread : U32
  startProcess : U32
  tss : U32
  deriving DecidableEq

/-- The processor and its memory, the globals of the memory system, and a record of what has
    happened that no function reads. PCBs, bitmaps and page tables lie in `phys`. -/
structure Machine where
  /-- `ASSERT` is compiled out -/
  ndebug : Bool
  phys : ByteMemory.Memory
  cr3 : U32
  gdtLimit : U16
  gdtBase : U32
  /-- the page that the stack pointer is in -/
  runningThread : U32
  kernelPool : Pool
  userPool : Pool
  kernelVaddr : VirtualAddr
  mainThread : U32
  threadReadyList : List U32
  threadAllList : List U32
  tss : Tss
  symbols : Symbols
  /-- the frames that `paddr_get_page` has returned, oldest first -/
  handed : List U32
  /-- the results of `malloc_kernel_pages` -/
  granted : List U32
  /-- the physical addresses of the directories that `create_page_dir` has made -/
  pageDirs : List U32
  /-- something was stored in the page of the address `NULL` -/
  nullStored : Bool

abbrev M := EStateM Fault Machine

namespace Machine

def pool (s : Machine) : PoolType → Pool
  | .kernelPool => s.kernelPool
  | .userPool => s.userPool

def setPool (s : Machine) (type : PoolType) (pool : Pool) : Machine :=
  match type with
  | .kernelPool => { s with kernelPool := pool }
  | .userPool => { s with userPool := pool }

def setLock (s : Machine) (type : PoolType) (lock : Lock U32) : Machine :=
  s.setPool type { s.pool type with lock := lock }

/-- The frame of the active page directory. -/
def root (s : Machine) : Nat := s.cr3.toNat / 4096

/-- The physical address of a linear one under the active page directory. -/
def translate (s : Machine) (a : U32) : Option Nat := Paging.translate s.phys s.root a.toNat

def write (s : Machine) (a : U32) (phys : ByteMemory.Memory) : Machine :=
  { s with phys := phys, nullStored := s.nullStored || decide (a.toNat < 4096) }

end Machine

namespace Memory

def assert (condition : Bool) (site : Site) : M Unit := fun s =>
  if s.ndebug || condition then .ok () s else .error (.panic site) s

def panic {α : Type} (site : Site) : M α := fun s => .error (.panic site) s

def physical (a : U32) : M Nat := fun s =>
  match s.translate a with
  | some p => .ok p s
  | none => .error .pageFault s

def load8 (a : U32) : M U8 := do
  let p ← physical a
  return (← get).phys p

def store8 (a : U32) (byte : U8) : M Unit := do
  let p ← physical a
  modify fun s => s.write a (Function.update s.phys p byte)

def load32 (a : U32) : M U32 := do
  let b0 ← load8 a
  let b1 ← load8 (a + 1)
  let b2 ← load8 (a + 2)
  let b3 ← load8 (a + 3)
  return b3 ++ b2 ++ b1 ++ b0

/-- All four bytes are translated before any of them is stored. -/
def store32 (a : U32) (w : U32) : M Unit := do
  let p0 ← physical a
  let p1 ← physical (a + 1)
  let p2 ← physical (a + 2)
  let p3 ← physical (a + 3)
  modify fun s => s.write a (Function.update (Function.update (Function.update (Function.update
    s.phys p0 (ByteMemory.byteOf w 0)) p1 (ByteMemory.byteOf w 1)) p2 (ByteMemory.byteOf w 2))
    p3 (ByteMemory.byteOf w 3))

/-- Stores to consecutive addresses. -/
def storeBytes (dest : U32) : List U8 → M Unit
  | [] => pure ()
  | byte :: rest => do
    store8 dest byte
    storeBytes (dest + 1) rest

/-- `memset`, with `count` as the number of turns of its loop. -/
def memset (dest : U32) (ch : U8) : Nat → M Unit
  | 0 => pure ()
  | count + 1 => do
    store8 dest ch
    memset (dest + 1) ch count

def memcpy (dest src : U32) : Nat → M Unit
  | 0 => pure ()
  | count + 1 => do
    store8 dest (← load8 src)
    memcpy (dest + 1) (src + 1) count

/-- `strcpy` of the string that consists of the characters `src` before its terminator. -/
def strcpy (dest : U32) : List U8 → M Unit
  | [] => store8 dest 0
  | c :: src => do
    store8 dest c
    strcpy (dest + 1) src

variable {s : Machine} {a : U32} {p : Nat}

theorem Machine.write_high (s : Machine) (phys : ByteMemory.Memory) (high : 4096 ≤ a.toNat) :
    s.write a phys = { s with phys := phys } := by
  simp [Machine.write, Nat.not_lt.mpr high]

theorem physical_ok (mapped : s.translate a = some p) : physical a s = .ok p s := by
  simp [physical, mapped]

theorem physical_fault (absent : s.translate a = none) : physical a s = .error .pageFault s := by
  simp [physical, absent]

theorem load8_ok (mapped : s.translate a = some p) : load8 a s = .ok (s.phys p) s := by
  unfold load8
  rw [Program.bind_ok (physical_ok mapped)]
  rfl

theorem load8_fault (absent : s.translate a = none) : load8 a s = .error .pageFault s := by
  unfold load8
  rw [Program.bind_error (physical_fault absent)]

theorem store8_ok (byte : U8) (mapped : s.translate a = some p) :
    store8 a byte s = .ok () (s.write a (Function.update s.phys p byte)) := by
  unfold store8
  rw [Program.bind_ok (physical_ok mapped)]
  rfl

theorem store8_fault (byte : U8) (absent : s.translate a = none) :
    store8 a byte s = .error .pageFault s := by
  unfold store8
  rw [Program.bind_error (physical_fault absent)]

/-- The bytes of an aligned word lie in one page. -/
theorem translate_word (aligned : a.toNat % 4 = 0) (mapped : s.translate a = some p) :
    s.translate (a + 1) = some (p + 1) ∧ s.translate (a + 2) = some (p + 2) ∧
      s.translate (a + 3) = some (p + 3) := by
  have bound := a.isLt
  have next (i : U32) (small : i.toNat < 4) : s.translate (a + i) = some (p + i.toNat) := by
    unfold Machine.translate at mapped ⊢
    have sum : (a + i).toNat = a.toNat + i.toNat := by
      rw [BitVec.toNat_add, Nat.mod_eq_of_lt (by omega)]
    rw [sum]
    exact Paging.translate_add mapped (by omega)
  exact ⟨next 1 (by decide), next 2 (by decide), next 3 (by decide)⟩

theorem load32_ok (aligned : a.toNat % 4 = 0) (mapped : s.translate a = some p) :
    load32 a s = .ok (ByteMemory.word s.phys p) s := by
  obtain ⟨first, second, third⟩ := translate_word aligned mapped
  unfold load32
  rw [Program.bind_ok (load8_ok mapped), Program.bind_ok (load8_ok first),
    Program.bind_ok (load8_ok second), Program.bind_ok (load8_ok third)]
  rfl

theorem load32_fault (absent : s.translate a = none) : load32 a s = .error .pageFault s := by
  unfold load32
  rw [Program.bind_error (load8_fault absent)]

theorem store32_ok (w : U32) (aligned : a.toNat % 4 = 0) (mapped : s.translate a = some p) :
    store32 a w s = .ok () (s.write a (ByteMemory.setWord s.phys p w)) := by
  obtain ⟨first, second, third⟩ := translate_word aligned mapped
  unfold store32
  rw [Program.bind_ok (physical_ok mapped), Program.bind_ok (physical_ok first),
    Program.bind_ok (physical_ok second), Program.bind_ok (physical_ok third)]
  rw [← ByteMemory.setWord_bytes]
  rfl

theorem memset_eq (ch : U8) (count : Nat) : memset a ch count = storeBytes a (List.replicate count ch) := by
  induction count generalizing a with
  | zero => rfl
  | succ count ih => simp only [memset, ih, List.replicate_succ, storeBytes]

theorem strcpy_eq (src : List U8) : strcpy a src = storeBytes a (src ++ [0]) := by
  induction src generalizing a with
  | nil => simp [strcpy, storeBytes]
  | cons c src ih => simp only [strcpy, ih, List.cons_append, storeBytes]

/-- Where the bytes from the address `a` on lie: at `p`, as long as the memory satisfies `inv`,
    which storing bytes there does not break. -/
structure Region (inv : ByteMemory.Memory → Prop) (root a length : Nat) (p : Nat → Nat) : Prop where
  mapped : ∀ m i, inv m → i < length → Paging.translate m root (a + i) = some (p i)
  kept : ∀ m i (byte : U8), inv m → i < length → inv (Function.update m (p i) byte)
  apart : ∀ i j, i < length → j < length → p i = p j → i = j

variable {inv : ByteMemory.Memory → Prop} {root length : Nat} {q : Nat → Nat}

theorem Region.tail {n : Nat} {p : Nat → Nat} (region : Region inv root n (length + 1) p) :
    Region inv root (n + 1) length fun i => p (i + 1) where
  mapped m i holds inside := by
    have mapped := region.mapped m (i + 1) holds (by omega)
    rw [show n + 1 + i = n + (i + 1) by omega]
    exact mapped
  kept m i byte holds inside := region.kept m (i + 1) byte holds (by omega)
  apart i j inside inside' same := by
    have eq := region.apart (i + 1) (j + 1) (by omega) (by omega) same
    omega

theorem toNat_succ (bound : a.toNat + 1 < 2 ^ 32) : (a + 1).toNat = a.toNat + 1 := by
  rw [BitVec.toNat_add]
  exact Nat.mod_eq_of_lt bound

/-- A run of stores, with its trace when it starts in the page of `NULL`. -/
theorem storeBytes_any {p : Nat → Nat} (bytes : List U8)
    (region : Region inv s.root a.toNat bytes.length p) (bound : a.toNat + bytes.length < 2 ^ 32)
    (holds : inv s.phys) :
    ∃ m, storeBytes a bytes s = .ok () { s with
        phys := m, nullStored := s.nullStored || decide (a.toNat < 4096 ∧ bytes ≠ []) } ∧ inv m ∧
      (∀ i (inside : i < bytes.length), m (p i) = bytes[i]) ∧
      ∀ x, (∀ i < bytes.length, p i ≠ x) → m x = s.phys x := by
  induction bytes generalizing a s p with
  | nil =>
    refine ⟨s.phys, ?_, holds, fun i inside => absurd inside (Nat.not_lt_zero i), fun x _ => rfl⟩
    simp [storeBytes, pure, EStateM.pure]
  | cons byte rest ih =>
    rw [List.length_cons] at region bound
    have mapped : s.translate a = some (p 0) := region.mapped s.phys 0 holds (by omega)
    have next : (a + 1).toNat = a.toNat + 1 := toNat_succ (by omega)
    have stored := store8_ok byte mapped
    have tail := region.tail
    rw [← next] at tail
    obtain ⟨m, completed, kept, hit, miss⟩ := ih
      (s := s.write a (Function.update s.phys (p 0) byte)) tail (by omega)
      (region.kept _ 0 byte holds (by omega))
    refine ⟨m, ?_, kept, ?_, ?_⟩
    · have trace : (s.nullStored || decide (a.toNat < 4096) || decide ((a + 1).toNat < 4096 ∧ rest ≠ [])) =
          (s.nullStored || decide (a.toNat < 4096 ∧ byte :: rest ≠ [])) := by
        rw [next]
        by_cases low : a.toNat < 4096
        · simp [low]
        · simp [low, show ¬ a.toNat + 1 < 4096 by omega]
      rw [storeBytes, Program.bind_ok stored, completed, ← trace]
      rfl
    · intro i inside
      cases i with
      | zero =>
        rw [miss (p 0) fun i less same => by
          have := region.apart (i + 1) 0 (by omega) (by omega) same
          omega]
        simp [Machine.write]
      | succ i => exact hit i (by simpa using inside)
    · intro x outside
      rw [miss x fun i less => outside (i + 1) (by simpa using less)]
      exact Function.update_of_ne (outside 0 (by simp)).symm _ _

theorem storeBytes_ok {p : Nat → Nat} (bytes : List U8)
    (region : Region inv s.root a.toNat bytes.length p) (bound : a.toNat + bytes.length < 2 ^ 32)
    (high : 4096 ≤ a.toNat) (holds : inv s.phys) :
    ∃ m, storeBytes a bytes s = .ok () { s with phys := m } ∧ inv m ∧
      (∀ i (inside : i < bytes.length), m (p i) = bytes[i]) ∧
      ∀ x, (∀ i < bytes.length, p i ≠ x) → m x = s.phys x := by
  obtain ⟨m, done, rest⟩ := storeBytes_any bytes region bound holds
  refine ⟨m, ?_, rest⟩
  rw [done]
  simp [Nat.not_lt.mpr high]

theorem memset_ok {p : Nat → Nat} (ch : U8) (count : Nat)
    (region : Region inv s.root a.toNat count p) (bound : a.toNat + count < 2 ^ 32)
    (high : 4096 ≤ a.toNat) (holds : inv s.phys) :
    ∃ m, memset a ch count s = .ok () { s with phys := m } ∧ inv m ∧ (∀ i < count, m (p i) = ch) ∧
      ∀ x, (∀ i < count, p i ≠ x) → m x = s.phys x := by
  have length : (List.replicate count ch).length = count := List.length_replicate
  obtain ⟨m, done, kept, hit, miss⟩ := storeBytes_ok (List.replicate count ch)
    (by rw [length]; exact region) (by rw [length]; exact bound) high holds
  refine ⟨m, by rw [memset_eq]; exact done, kept, ?_, ?_⟩
  · intro i inside
    rw [hit i (by rw [length]; exact inside), List.getElem_replicate]
  · rw [length] at miss
    exact miss

/-- A copy between places that do not overlap. -/
theorem memcpy_ok {src : U32} {p : Nat → Nat} (count : Nat)
    (region : Region inv s.root a.toNat count p) (bound : a.toNat + count < 2 ^ 32)
    (high : 4096 ≤ a.toNat)
    (source : ∀ m i, inv m → i < count →
      Paging.translate m s.root (src + BitVec.ofNat 32 i).toNat = some (q i))
    (apart : ∀ i j, i < count → j < count → p i ≠ q j) (holds : inv s.phys) :
    ∃ m, memcpy a src count s = .ok () { s with phys := m } ∧ inv m ∧
      (∀ i < count, m (p i) = s.phys (q i)) ∧ ∀ x, (∀ i < count, p i ≠ x) → m x = s.phys x := by
  induction count generalizing a src s p q with
  | zero => exact ⟨s.phys, rfl, holds, fun i inside => absurd inside (Nat.not_lt_zero i), fun x _ => rfl⟩
  | succ count ih =>
    have mapped : s.translate a = some (p 0) := region.mapped s.phys 0 holds (by omega)
    have read : s.translate src = some (q 0) := by
      have first := source s.phys 0 holds (by omega)
      rwa [BitVec.add_zero] at first
    have next : (a + 1).toNat = a.toNat + 1 := toNat_succ (by omega)
    have stored := store8_ok (s.phys (q 0)) mapped
    rw [Machine.write_high s _ high] at stored
    have tail := region.tail
    rw [← next] at tail
    have following (m : ByteMemory.Memory) (i : Nat) (holds : inv m) (inside : i < count) :
        Paging.translate m s.root (src + 1 + BitVec.ofNat 32 i).toNat = some (q (i + 1)) := by
      have later := source m (i + 1) holds (by omega)
      rw [Nat.add_comm i 1, BitVec.ofNat_add, ← BitVec.add_assoc, Nat.add_comm 1 i] at later
      exact later
    obtain ⟨m, completed, kept, hit, miss⟩ := ih (q := fun i => q (i + 1))
      (s := { s with phys := Function.update s.phys (p 0) (s.phys (q 0)) }) tail
      (by omega) (by omega)
      following (fun i j inside inside' => apart (i + 1) (j + 1) (by omega) (by omega))
      (region.kept _ 0 _ holds (by omega))
    refine ⟨m, ?_, kept, ?_, ?_⟩
    · rw [memcpy, Program.bind_ok (load8_ok read), Program.bind_ok stored, completed]
    · intro i inside
      cases i with
      | zero =>
        rw [miss (p 0) fun i less same => by
          have := region.apart (i + 1) 0 (by omega) (by omega) same
          omega]
        simp
      | succ i =>
        rw [hit i (by omega)]
        exact Function.update_of_ne (apart 0 (i + 1) (by omega) inside).symm _ _
    · intro x outside
      rw [miss x fun i less => outside (i + 1) (by omega)]
      exact Function.update_of_ne (outside 0 (by omega)).symm _ _

end Memory

end LiziOS
