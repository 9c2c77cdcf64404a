import LiziOS.Bitmap

namespace LiziOS.Memory

/-! `memory.c`. -/

def pgSize : U32 := 4096
def memBitmapBase : U32 := 0xc009a000
def kHeapStart : U32 := 0xc0100000

def pdeIdx (addr : U32) : U32 := (addr &&& 0xffc00000) >>> 22
def pteIdx (addr : U32) : U32 := (addr &&& 0x003ff000) >>> 12

/-! The offsets of the fields of `struct task_struct`. -/

namespace Pcb

def selfKstack : U32 := 0
def status : U32 := 4
def name : U32 := 8
def priority : U32 := 24
def ticks : U32 := 25
def pgdir : U32 := 44
def bitmapLength : U32 := 48
def bitmapBits : U32 := 52
def addrStart : U32 := 56
def stackMagic : U32 := 60
def size : Nat := 64

end Pcb

def memPoolInit (allMem : U32) : M Unit := do
  let pageTableSize := pgSize * 256
  let usedMem := pageTableSize + 0x100000
  let freeMem := allMem - usedMem
  let allFreePages : U16 := (freeMem / pgSize).setWidth 16
  let kernelFreePages : U16 := allFreePages / 2
  let userFreePages : U16 := allFreePages - kernelFreePages
  let kernelPages : U32 := kernelFreePages.setWidth 32
  let userPages : U32 := userFreePages.setWidth 32
  let kernelBitmap : Bitmap := ⟨kernelPages / 8, memBitmapBase⟩
  modify fun s => { s with kernelPool := { s.kernelPool with
    phyAddrStart := usedMem, poolSize := kernelPages * pgSize, poolBitmap := kernelBitmap } }
  bitmapInit kernelBitmap
  let userBitmap : Bitmap := ⟨userPages / 8, memBitmapBase + kernelPages / 8⟩
  modify fun s => { s with userPool := { s.userPool with
    phyAddrStart := usedMem + kernelPages * pgSize, poolSize := userPages * pgSize
    poolBitmap := userBitmap } }
  bitmapInit userBitmap
  let heapBitmap : Bitmap := ⟨kernelPages / 8, memBitmapBase + kernelPages / 8 + userPages / 8⟩
  modify fun s => { s with kernelVaddr := ⟨heapBitmap, kHeapStart⟩ }
  bitmapInit heapBitmap

def ptePtr (vaddr : U32) : U32 :=
  (0xffc00000 : U32) + ((vaddr &&& 0xffc00000) >>> 10) + pteIdx vaddr * 4

def pdePtr (vaddr : U32) : U32 := 0xfffff000 + pdeIdx vaddr * 4

/-- The `addr_bitmap` of a thread's `userprog_vaddr`. -/
def userBitmap (cur : U32) : M Bitmap := do
  let length ← load32 (cur + Pcb.bitmapLength)
  let bits ← load32 (cur + Pcb.bitmapBits)
  return ⟨length, bits⟩

/-- The loops of `vaddr_get_pages` that mark what was found. -/
def markBits (setBit : U32 → M Unit) (i bound : U32) : M Unit := do
  if less : i < bound then
    setBit i
    markBits setBit (i + 1) bound
  else return
termination_by bound.toNat - i.toNat
decreasing_by
  have below := BitVec.lt_def.mp less
  have next : (i + 1).toNat = i.toNat + 1 := toNat_succ (by omega)
  omega

def vaddrGetPages (type : PoolType) (count : U32) : M U32 := do
  match type with
  | .kernelPool =>
    let vaddr := (← get).kernelVaddr
    let bitIndexStart ← bitmapRequestBits vaddr.addrBitmap count
    if bitIndexStart = -1 then return 0
    else
      markBits (bitmapSetBit vaddr.addrBitmap · 1) bitIndexStart (bitIndexStart + count)
      return vaddr.addrStart + bitIndexStart * pgSize
  | .userPool =>
    let cur := (← get).runningThread
    let bitIndexStart ← bitmapRequestBits (← userBitmap cur) count
    if bitIndexStart = -1 then return 0
    else
      markBits (fun i => do bitmapSetBit (← userBitmap cur) i 1) bitIndexStart (bitIndexStart + count)
      let vaddrStart := (← load32 (cur + Pcb.addrStart)) + bitIndexStart * pgSize
      assert (vaddrStart < 0xc0000000 - pgSize) .vaddrGetPages
      return vaddrStart

def paddrGetPage (type : PoolType) : M U32 := do
  let pool := (← get).pool type
  let bitIdx ← bitmapRequestBits pool.poolBitmap 1
  if bitIdx = -1 then return 0
  else
    bitmapSetBit pool.poolBitmap bitIdx 1
    let pagePyaddr := pool.phyAddrStart + pgSize * bitIdx
    modify fun s => { s with handed := s.handed ++ [pagePyaddr] }
    return pagePyaddr

def bindVaddrPaddrPage (vaddr pagePhyaddr : U32) : M Unit := do
  let pde := pdePtr vaddr
  let pte := ptePtr vaddr
  if (← load32 pde) &&& 1 ≠ 0 then
    assert ((← load32 pte) &&& 1 = 0) .bindVaddrPaddrPage
    if (← load32 pte) &&& 1 = 0 then store32 pte (pagePhyaddr ||| 0b0111)
    else panic .bindVaddrPaddrPage
  else
    let pdePhyaddr ← paddrGetPage .kernelPool
    store32 pde (pdePhyaddr ||| 0b0111)
    memset (pte &&& 0xfffff000) 0 4096
    assert ((← load32 pte) &&& 1 = 0) .bindVaddrPaddrPage
    store32 pte (pagePhyaddr ||| 0b0111)

/-- The loop of `malloc_pages`, with `cnt` as the number of turns; the answer is whether it ran to
    its end. -/
def mapPages (type : PoolType) (vaddr : U32) : Nat → M Bool
  | 0 => return true
  | cnt + 1 => do
    let pagePhyaddr ← paddrGetPage type
    if pagePhyaddr = 0 then return false
    else
      bindVaddrPaddrPage vaddr pagePhyaddr
      mapPages type (vaddr + pgSize) cnt

def mallocPages (type : PoolType) (count : U32) : M U32 := do
  assert (0 < count ∧ count < 3840) .mallocPages
  let vaddrStart ← vaddrGetPages type count
  if vaddrStart = 0 then return 0
  else if ← mapPages type vaddrStart count.toNat then
    memset vaddrStart 0 (count * pgSize).toNat
    return vaddrStart
  else return 0

/-- `thread_unblock`, on the PCB in memory. -/
def threadUnblock (pthread : U32) : M Unit := do
  let status ← load32 (pthread + Pcb.status)
  assert (status = 2 ∨ status = 3 ∨ status = 4) .threadUnblock
  if elemFind (← get).threadReadyList pthread then panic .threadUnblock
  else
    modify fun s => { s with threadReadyList := listPush s.threadReadyList pthread }
    store32 (pthread + Pcb.status) 1

/-- `lock_acquire` of a pool's lock. A caller that has to sleep does not complete its call. -/
def lockAcquire (type : PoolType) : M Unit := fun s =>
  match LiziOS.lockAcquire (s.pool type).lock s.runningThread with
  | .error fault => .error fault s
  | .ok (lock, true) => .ok () (s.setLock type lock)
  | .ok (lock, false) => .error .asleep (s.setLock type lock)

def lockRelease (type : PoolType) : M Unit := fun s =>
  match LiziOS.lockRelease (s.pool type).lock s.runningThread with
  | .error fault => .error fault s
  | .ok (lock, none) => .ok () (s.setLock type lock)
  | .ok (lock, some woken) => threadUnblock woken (s.setLock type lock)

def mallocKernelPages (count : U32) : M U32 := do
  lockAcquire .kernelPool
  let vaddr ← mallocPages .kernelPool count
  lockRelease .kernelPool
  modify fun s => { s with granted := s.granted ++ [vaddr] }
  return vaddr

def mallocUserPages (count : U32) : M U32 := do
  lockAcquire .userPool
  let vaddr ← mallocPages .userPool count
  lockRelease .userPool
  return vaddr

/-- The part of `get_a_page` that sets the bit of the page. -/
def markPage (pf : PoolType) (vaddr : U32) : M Unit := do
  let cur := (← get).runningThread
  let pgdir ← load32 (cur + Pcb.pgdir)
  if pgdir ≠ 0 ∧ pf = .userPool then
    let bitIdx := (vaddr - (← load32 (cur + Pcb.addrStart))) / pgSize
    assert (BitVec.slt 0 bitIdx) .getAPage
    bitmapSetBit (← userBitmap cur) bitIdx 1
  else if pgdir = 0 ∧ pf = .kernelPool then
    let kernelVaddr := (← get).kernelVaddr
    let bitIdx := (vaddr - kernelVaddr.addrStart) / pgSize
    assert (BitVec.slt 0 bitIdx) .getAPage
    bitmapSetBit kernelVaddr.addrBitmap bitIdx 1
  else panic .getAPage

def getAPage (pf : PoolType) (vaddr : U32) : M U32 := do
  lockAcquire pf
  markPage pf vaddr
  let pagePhyaddr ← paddrGetPage pf
  -- the lock stays taken on this way out
  if pagePhyaddr = 0 then return 0
  else
    bindVaddrPaddrPage vaddr pagePhyaddr
    lockRelease pf
    return vaddr

def vaddrToPaddr (vaddr : U32) : M U32 := do
  return ((← load32 (ptePtr vaddr)) &&& 0xfffff000) + (vaddr &&& 0x00000fff)

def memoryInit : M Unit := do
  let memBytesTotal ← load32 0xd00
  memPoolInit memBytesTotal
  modify fun s => { s with userPool := { s.userPool with lock := lockInit } }
  modify fun s => { s with kernelPool := { s.kernelPool with lock := lockInit } }

theorem pdeIdx_toNat (vaddr : U32) : (pdeIdx vaddr).toNat = vaddr.toNat / 4096 / 1024 := by
  have high : pdeIdx vaddr = vaddr >>> 22 := by
    unfold pdeIdx
    apply BitVec.eq_of_getLsbD_eq
    intro i below
    interval_cases i <;> simp
  rw [high, BitVec.toNat_ushiftRight, Nat.shiftRight_eq_div_pow]
  omega

theorem pteIdx_toNat (vaddr : U32) : (pteIdx vaddr).toNat = vaddr.toNat / 4096 % 1024 := by
  have low : pteIdx vaddr = (vaddr >>> 12) &&& 1023 := by
    unfold pteIdx
    apply BitVec.eq_of_getLsbD_eq
    intro i below
    interval_cases i <;> simp
  rw [low, BitVec.toNat_and, BitVec.toNat_ushiftRight, Nat.shiftRight_eq_div_pow,
    show (1023 : U32).toNat = 2 ^ 10 - 1 from rfl, Nat.and_two_pow_sub_one_eq_mod]

theorem pdePtr_toNat (vaddr : U32) : (pdePtr vaddr).toNat = 0xfffff000 + 4 * (vaddr.toNat / 4096 / 1024) := by
  have bound := vaddr.isLt
  unfold pdePtr
  rw [BitVec.toNat_add, BitVec.toNat_mul, pdeIdx_toNat,
    show (0xfffff000 : U32).toNat = 0xfffff000 from rfl, show (4 : U32).toNat = 4 from rfl]
  omega

theorem ptePtr_toNat (vaddr : U32) : (ptePtr vaddr).toNat = 0xffc00000 + 4 * (vaddr.toNat / 4096) := by
  have bound := vaddr.isLt
  have shifted : (vaddr &&& (0xffc00000 : U32)) >>> 10 = pdeIdx vaddr <<< 12 := by
    unfold pdeIdx
    apply BitVec.eq_of_getLsbD_eq
    intro i below
    interval_cases i <;> simp
  unfold ptePtr
  rw [shifted, BitVec.toNat_add, BitVec.toNat_add, BitVec.toNat_mul, pteIdx_toNat,
    BitVec.toNat_shiftLeft, pdeIdx_toNat, Nat.shiftLeft_eq,
    show (0xffc00000 : U32).toNat = 0xffc00000 from rfl, show (4 : U32).toNat = 4 from rfl]
  omega

theorem page_mask (a : U32) : (a &&& (0xfffff000 : U32)).toNat = a.toNat / 4096 * 4096 := by
  have shifted : a &&& (0xfffff000 : U32) = (a >>> 12) <<< 12 := by
    apply BitVec.eq_of_getLsbD_eq
    intro i below
    interval_cases i <;> simp
  rw [shifted, BitVec.toNat_shiftLeft, BitVec.toNat_ushiftRight, Nat.shiftRight_eq_div_pow,
    Nat.shiftLeft_eq]
  have bound := a.isLt
  omega

theorem offset_mask (a : U32) : (a &&& (0x00000fff : U32)).toNat = a.toNat % 4096 := by
  rw [BitVec.toNat_and, show (0x00000fff : U32).toNat = 2 ^ 12 - 1 from rfl,
    Nat.and_two_pow_sub_one_eq_mod]

theorem present_mask (e : U32) : e &&& 1 ≠ 0 ↔ Paging.present e = true := by
  have low : e &&& 1 = (BitVec.ofBool (Paging.present e)).setWidth 32 := by
    unfold Paging.present
    apply BitVec.eq_of_getLsbD_eq
    intro i below
    interval_cases i <;> simp
  rw [low]
  cases Paging.present e <;> decide

theorem frame_or {frame : Nat} (small : frame < 2 ^ 20) :
    BitVec.ofNat 32 (4096 * frame) ||| 0b0111 = Paging.mk frame := by
  apply BitVec.eq_of_toNat_eq
  have join : 4096 * frame ||| 7 = 4096 * frame + 7 :=
    (Nat.two_pow_add_eq_or_of_lt (i := 12) (b := 7) (by decide) frame).symm
  unfold Paging.mk
  rw [BitVec.toNat_or, BitVec.toNat_ofNat, BitVec.toNat_ofNat, Nat.mod_eq_of_lt (by omega),
    Nat.mod_eq_of_lt (by omega), show (0b0111 : U32).toNat = 7 from rfl, join]

end LiziOS.Memory
