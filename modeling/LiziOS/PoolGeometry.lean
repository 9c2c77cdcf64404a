import LiziOS.KernelAllocation

namespace LiziOS.Memory

/-! What `mem_pool_init` makes of every size of memory. -/

variable {s t : Machine} {allMem : U32}

/-- The free pages, before they are held in 16 bits. -/
def allPages (allMem : U32) : Nat := (allMem.toNat - 0x200000) / 4096

theorem freePages_toNat (enough : 0x200000 ≤ allMem.toNat) :
    (freePages allMem).toNat = allPages allMem % 2 ^ 16 := by
  have less : (0x200000 : U32) ≤ allMem := BitVec.le_def.mpr enough
  unfold freePages allPages
  rw [BitVec.toNat_setWidth, BitVec.toNat_udiv, BitVec.toNat_sub_of_le less]
  rfl

theorem kernelPages_eq : kernelPages allMem = (freePages allMem).toNat / 2 := by
  unfold kernelPages
  rw [BitVec.toNat_udiv]
  rfl

theorem userPages_eq : userPages allMem = (freePages allMem).toNat - (freePages allMem).toNat / 2 := by
  have half : (freePages allMem / 2).toNat = (freePages allMem).toNat / 2 := BitVec.toNat_udiv
  unfold userPages
  rw [BitVec.toNat_sub_of_le (BitVec.le_def.mpr (by omega)), half]

/-! `bitmap_init` writes memory only. -/

/-- The descriptions of the pools and of the heap are the same. -/
def SamePools (s t : Machine) : Prop :=
  t.kernelPool = s.kernelPool ∧ t.userPool = s.userPool ∧ t.kernelVaddr = s.kernelVaddr

theorem samePools_tolerant : Tolerant SamePools where
  refl _ := ⟨rfl, rfl, rfl⟩
  trans _ _ _ first second :=
    ⟨second.1.trans first.1, second.2.1.trans first.2.1, second.2.2.trans first.2.2⟩
  write _ _ _ := ⟨rfl, rfl, rfl⟩
  hand _ _ := ⟨rfl, rfl, rfl⟩

theorem bitmapInit_same {bitmap : Bitmap} (done : bitmapInit bitmap s = .ok () t) : SamePools s t :=
  within_memset samePools_tolerant _ _ _ _ _ _ done

/-- The fields that `mem_pool_init` sets, as numbers without a bound. -/
structure Pooled (t : Machine) (allMem : U32) : Prop where
  kernelStart : t.kernelPool.phyAddrStart.toNat = 0x200000
  kernelSize : t.kernelPool.poolSize.toNat = 4096 * kernelPages allMem
  kernelLength : t.kernelPool.poolBitmap.length.toNat = kernelPages allMem / 8
  kernelBits : t.kernelPool.poolBitmap.bits.toNat = 0xc009a000
  userStart : t.userPool.phyAddrStart.toNat = 0x200000 + 4096 * kernelPages allMem
  userSize : t.userPool.poolSize.toNat = 4096 * userPages allMem
  userLength : t.userPool.poolBitmap.length.toNat = userPages allMem / 8
  userBits : t.userPool.poolBitmap.bits.toNat = 0xc009a000 + kernelPages allMem / 8
  heapStart : t.kernelVaddr.addrStart.toNat = 0xc0100000
  heapLength : t.kernelVaddr.addrBitmap.length.toNat = kernelPages allMem / 8
  heapBits : t.kernelVaddr.addrBitmap.bits.toNat =
    0xc009a000 + kernelPages allMem / 8 + userPages allMem / 8

theorem memPoolInit_pooled (done : memPoolInit allMem s = .ok () t) : Pooled t allMem := by
  obtain ⟨kernelSmall, userSmall⟩ := pages_small allMem
  have kernelWord : (((allMem - (pgSize * 256 + 0x100000)) / pgSize).setWidth 16 / 2 : U16).setWidth 32 =
    BitVec.ofNat 32 (kernelPages allMem) := kernelPages_word allMem
  have userWord : (((allMem - (pgSize * 256 + 0x100000)) / pgSize).setWidth 16 -
      ((allMem - (pgSize * 256 + 0x100000)) / pgSize).setWidth 16 / 2 : U16).setWidth 32 =
    BitVec.ofNat 32 (userPages allMem) := userPages_word allMem
  unfold memPoolInit at done
  simp only [kernelWord, userWord, length_word (show kernelPages allMem < 2 ^ 16 by omega),
    length_word (show userPages allMem < 2 ^ 16 by omega), Program.bind_modify] at done
  obtain ⟨_, s₁, first, rest⟩ := Program.bind_completed done
  rw [Program.bind_modify] at rest
  obtain ⟨_, s₂, second, last⟩ := Program.bind_completed rest
  rw [Program.bind_modify] at last
  obtain ⟨kernel₁, -, -⟩ := bitmapInit_same first
  obtain ⟨kernel₂, user₂, -⟩ := bitmapInit_same second
  obtain ⟨kernel₃, user₃, heap₃⟩ := bitmapInit_same last
  have kernel := (kernel₃.trans kernel₂).trans kernel₁
  have user := user₃.trans user₂
  have product (n : Nat) (small : n ≤ 2 ^ 15) : (BitVec.ofNat 32 n * pgSize).toNat = 4096 * n := by
    rw [BitVec.toNat_mul, BitVec.toNat_ofNat, show pgSize.toNat = 4096 from rfl]
    omega
  have word (n : Nat) (small : n ≤ 2 ^ 15) : (BitVec.ofNat 32 n).toNat = n := by
    rw [BitVec.toNat_ofNat, Nat.mod_eq_of_lt (by omega)]
  have base : memBitmapBase.toNat = 0xc009a000 := rfl
  constructor
  · rw [kernel]
    rfl
  · rw [kernel]
    exact product _ (by omega)
  · rw [kernel]
    exact word _ (by omega)
  · rw [kernel]
    exact base
  · rw [user]
    change (pgSize * 256 + 0x100000 + BitVec.ofNat 32 (kernelPages allMem) * pgSize : U32).toNat = _
    rw [BitVec.toNat_add, product _ (by omega), show (pgSize * 256 + 0x100000 : U32).toNat = 0x200000 from rfl]
    omega
  · rw [user]
    exact product _ (by omega)
  · rw [user]
    exact word _ (by omega)
  · rw [user]
    change (memBitmapBase + BitVec.ofNat 32 (kernelPages allMem / 8)).toNat = _
    rw [BitVec.toNat_add, word _ (by omega), base]
    omega
  · rw [heap₃]
    rfl
  · rw [heap₃]
    exact word _ (by omega)
  · rw [heap₃]
    change (memBitmapBase + BitVec.ofNat 32 (kernelPages allMem / 8) +
      BitVec.ofNat 32 (userPages allMem / 8)).toNat = _
    rw [BitVec.toNat_add, BitVec.toNat_add, word _ (by omega), word _ (by omega), base]
    omega

/-! Where the pools and their bitmaps lie. -/

/-- `Apart a m b n`: the `m` numbers from `a` on and the `n` numbers from `b` on have none in common. -/
def Apart (a m b n : Nat) : Prop := ∀ x, ¬ ((a ≤ x ∧ x < a + m) ∧ b ≤ x ∧ x < b + n)

/-- A bitmap lies in the pages for bitmaps, below the PCB of the main thread. -/
def InBitmapPages (bitmap : Bitmap) : Prop :=
  0xc009a000 ≤ bitmap.bits.toNat ∧ bitmap.bits.toNat + bitmap.length.toNat ≤ 0xc009e000

structure SafeGeometry (t : Machine) (allMem : U32) : Prop where
  poolInside : ∀ type, 0x200000 ≤ (t.pool type).phyAddrStart.toNat ∧
    (t.pool type).phyAddrStart.toNat + (t.pool type).poolSize.toNat ≤ allMem.toNat
  poolsApart : Apart t.kernelPool.phyAddrStart.toNat t.kernelPool.poolSize.toNat
    t.userPool.phyAddrStart.toNat t.userPool.poolSize.toNat
  /-- the whole page of an index lies in the pool, and its address does not wrap -/
  pageInside : ∀ type, ∀ i < 8 * (t.pool type).poolBitmap.length.toNat,
    ((t.pool type).phyAddrStart + pgSize * BitVec.ofNat 32 i).toNat =
      (t.pool type).phyAddrStart.toNat + 4096 * i ∧
    4096 * (i + 1) ≤ (t.pool type).poolSize.toNat
  bitmapsInside : (∀ type, InBitmapPages (t.pool type).poolBitmap) ∧ InBitmapPages t.kernelVaddr.addrBitmap
  bitmapsApart :
    Apart t.kernelPool.poolBitmap.bits.toNat t.kernelPool.poolBitmap.length.toNat
      t.userPool.poolBitmap.bits.toNat t.userPool.poolBitmap.length.toNat ∧
    Apart t.kernelPool.poolBitmap.bits.toNat t.kernelPool.poolBitmap.length.toNat
      t.kernelVaddr.addrBitmap.bits.toNat t.kernelVaddr.addrBitmap.length.toNat ∧
    Apart t.userPool.poolBitmap.bits.toNat t.userPool.poolBitmap.length.toNat
      t.kernelVaddr.addrBitmap.bits.toNat t.kernelVaddr.addrBitmap.length.toNat
  heapBelow : t.kernelVaddr.addrStart.toNat + 4096 * (8 * t.kernelVaddr.addrBitmap.length.toNat) < 0xffc00000
  heapPage : ∀ i < 8 * t.kernelVaddr.addrBitmap.length.toNat,
    (t.kernelVaddr.addrStart + BitVec.ofNat 32 i * pgSize).toNat = t.kernelVaddr.addrStart.toNat + 4096 * i

theorem page_toNat {a : U32} {i : Nat} (inside : a.toNat + 4096 * i < 2 ^ 32) :
    (a + pgSize * BitVec.ofNat 32 i).toNat = a.toNat + 4096 * i := by
  rw [BitVec.toNat_add, BitVec.toNat_mul, BitVec.toNat_ofNat, show pgSize.toNat = 4096 from rfl,
    Nat.mod_eq_of_lt (show i < 2 ^ 32 by omega)]
  omega

/-- For every size of memory from 2 MiB on, the pools lie in it, and the bitmaps in their pages. -/
theorem memPoolInit_safe (enough : 0x200000 ≤ allMem.toNat) (done : memPoolInit allMem s = .ok () t) :
    SafeGeometry t allMem := by
  obtain ⟨kernelSmall, userSmall⟩ := pages_small allMem
  have total : kernelPages allMem + userPages allMem = (freePages allMem).toNat := by
    rw [kernelPages_eq, userPages_eq]
    omega
  have free := freePages_toNat enough
  have inside : 0x200000 + 4096 * (kernelPages allMem + userPages allMem) ≤ allMem.toNat := by
    rw [total, free]
    unfold allPages
    omega
  obtain ⟨kernelStart, kernelSize, kernelLength, kernelBits, userStart, userSize, userLength, userBits, heapStart,
    heapLength, heapBits⟩ := memPoolInit_pooled done
  have below := allMem.isLt
  refine ⟨?_, ?_, ?_, ⟨?_, ?_⟩, ⟨?_, ?_, ?_⟩, ?_, ?_⟩
  · intro type
    cases type <;> simp only [Machine.pool] <;> omega
  · unfold Apart
    omega
  · intro type i less
    cases type with
    | kernelPool =>
      simp only [Machine.pool] at less ⊢
      exact ⟨page_toNat (by omega), by omega⟩
    | userPool =>
      simp only [Machine.pool] at less ⊢
      exact ⟨page_toNat (by omega), by omega⟩
  · intro type
    unfold InBitmapPages
    cases type <;> simp only [Machine.pool] <;> omega
  · unfold InBitmapPages
    omega
  · unfold Apart
    omega
  · unfold Apart
    omega
  · unfold Apart
    omega
  · omega
  · intro i less
    rw [BitVec.mul_comm]
    exact page_toNat (by omega)

theorem entryMachine_pools {m : ByteMemory.Memory} {allMem gdtBase : U32} (loaded : Loaded m allMem gdtBase) :
    ∃ t, memPoolInit allMem (entryMachine m) = .ok () t := by
  have root : (entryMachine m).root = 0x100 := by
    have cr3 : (entryMachine m).cr3 = 0x100000 := rfl
    unfold Machine.root
    rw [cr3]
    rfl
  obtain ⟨m', tail, done, -⟩ := memPoolInit_ok (s := entryMachine m) (setupPage_holds loaded) root
  exact ⟨_, done⟩

theorem memPoolInit_safe_first : ∃ s t, (0x200000 : Nat) ≤ (0x2000000 : U32).toNat ∧
    memPoolInit 0x2000000 s = .ok () t ∧ SafeGeometry t 0x2000000 := by
  obtain ⟨t, done⟩ := entryMachine_pools loadedMemory_loaded
  have enough : (0x200000 : Nat) ≤ (0x2000000 : U32).toNat := by decide
  exact ⟨_, t, enough, done, memPoolInit_safe enough done⟩

/-! Which pages the pools manage. -/

def managedPages (t : Machine) : Nat :=
  8 * (t.kernelPool.poolBitmap.length.toNat + t.userPool.poolBitmap.length.toNat)

/-- No page is forgotten but for the rounding of the two bitmaps, and a smaller memory has at most
    that many pages more. -/
structure AllManaged (t : Machine) (allMem : U32) : Prop where
  most : allPages allMem ≤ managedPages t + 14
  growing : ∀ fewer s' t', 0x200000 ≤ fewer.toNat → fewer.toNat ≤ allMem.toNat →
    memPoolInit fewer s' = .ok () t' → managedPages t' ≤ managedPages t + 14

theorem managedPages_bounds (enough : 0x200000 ≤ allMem.toNat) (done : memPoolInit allMem s = .ok () t) :
    managedPages t ≤ allPages allMem % 2 ^ 16 ∧ allPages allMem % 2 ^ 16 ≤ managedPages t + 14 := by
  have pooled := memPoolInit_pooled done
  rw [← freePages_toNat enough]
  unfold managedPages
  rw [pooled.kernelLength, pooled.userLength, kernelPages_eq, userPages_eq]
  omega

/-- The count of free pages is held in 16 bits, so the pages are managed up to 65535 of them. -/
theorem memPoolInit_managed (enough : 0x200000 ≤ allMem.toNat) (done : memPoolInit allMem s = .ok () t) :
    AllManaged t allMem ↔ allMem.toNat < 0x200000 + 65536 * 4096 := by
  obtain ⟨atMost, atLeast⟩ := managedPages_bounds enough done
  have pages : allPages allMem = (allMem.toNat - 0x200000) / 4096 := rfl
  constructor
  · intro managed
    have most := managed.most
    omega
  · intro small
    refine ⟨by omega, fun fewer s' t' enough' smaller done' => ?_⟩
    obtain ⟨atMost', -⟩ := managedPages_bounds enough' done'
    have pages' : allPages fewer = (fewer.toNat - 0x200000) / 4096 := rfl
    omega

theorem memPoolInit_managed_first : ∃ s t, (0x200000 : Nat) ≤ (0x2000000 : U32).toNat ∧
    memPoolInit 0x2000000 s = .ok () t ∧ AllManaged t 0x2000000 := by
  obtain ⟨t, done⟩ := entryMachine_pools loadedMemory_loaded
  have enough : (0x200000 : Nat) ≤ (0x2000000 : U32).toNat := by decide
  exact ⟨_, t, enough, done, (memPoolInit_managed enough done).mpr (by decide)⟩

/-- Of 258 MiB, which are 65536 free pages, the pools manage none. -/
theorem memPoolInit_forgets : ∃ s t, memPoolInit 0x10200000 s = .ok () t ∧ managedPages t = 0 ∧
    ¬ AllManaged t 0x10200000 := by
  have none (s : Machine) : ∃ t, memPoolInit 0x10200000 s = .ok () t ∧ managedPages t = 0 := ⟨_, rfl, rfl⟩
  obtain ⟨t, done, zero⟩ := none (entryMachine fun _ => 0)
  refine ⟨_, t, done, zero, fun managed => ?_⟩
  have most := managed.most
  rw [zero] at most
  revert most
  decide

end LiziOS.Memory
