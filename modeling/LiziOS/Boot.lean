import LiziOS.Process

namespace LiziOS

open ByteMemory

/-! `setup_page` of `loader.asm`, which runs before paging is on, and the way from there to the
end of the initialisation in `main`. -/

namespace Loader

def pageDirTablePos : Nat := 0x100000

/-- The loop `.clear_page_dir`. -/
def clearPageDir (m : Memory) (esi : Nat) : Nat → Memory
  | 0 => m
  | ecx + 1 => clearPageDir (Function.update m (pageDirTablePos + esi) 0) (esi + 1) ecx

/-- The loops `.create_pte` and `.create_kernel_pde`. -/
def createEntries (m : Memory) (ebx esi : Nat) (eax : U32) : Nat → Memory
  | 0 => m
  | ecx + 1 => createEntries (setWord m (ebx + esi * 4) eax) ebx (esi + 1) (eax + 0x1000) ecx

def setupPage (m : Memory) : Memory :=
  let m := clearPageDir m 0 0x1000
  let eax : U32 := BitVec.ofNat 32 pageDirTablePos + 0x1000
  let ebx := eax
  let eax := eax ||| 0b111
  let m := setWord m pageDirTablePos eax
  let m := setWord m (pageDirTablePos + 0xc00) eax
  let eax := eax - 0x1000
  let m := setWord m (pageDirTablePos + 4092) eax
  let m := createEntries m ebx.toNat 0 0b111 256
  let eax : U32 := (BitVec.ofNat 32 pageDirTablePos + 0x2000) ||| 0b111
  createEntries m pageDirTablePos 769 eax 254

end Loader

/-- The pages of the kernel heap: as many as the kernel's bitmap has bits. -/
def heapPages (allMem : U32) : Nat :=
  let allFreePages : U16 := ((allMem - 0x200000) / 4096).setWidth 16
  8 * ((allFreePages / 2).toNat / 8)

/-- The page table entry of the heap page `i`. -/
def heapEntry (m : Memory) (i : Nat) : U32 := Paging.entry m (0x101 + (256 + i) / 1024) ((256 + i) % 1024)

/-- What the loader has left in memory when it jumps to the kernel. The kernel image lies in the
    first megabyte, behind the loader. -/
structure Loaded (m : Memory) (allMem gdtBase : U32) : Prop where
  tables : ∃ before, ∀ x, 0x100000 ≤ x → m x = Loader.setupPage before x
  memBytesTotal : word m 0xd00 = allMem
  gdtLabel : word m 0xd04 = gdtBase
  gdtInLoader : 0x900 ≤ gdtBase.toNat ∧ gdtBase.toNat < 0xd00
  /-- `setup_page` leaves the tables of the heap as they were -/
  heapClear : ∀ i < heapPages allMem, Paging.present (heapEntry m i) = false

/-- The machine at the entry of `main`, the stack being at its first page. -/
structure Entered (s : Machine) (allMem gdtBase : U32) : Prop where
  loaded : Loaded s.phys allMem gdtBase
  cr3 : s.cr3 = 0x100000
  stack : s.runningThread = 0xc009e000
  checked : s.ndebug = false

/-- The part of `main` that sets up memory, threads and the task state segment. -/
def kernelInit : M Unit := do
  Memory.memoryInit
  Memory.threadInit
  Memory.tssInit

/-- The end of the initialisation, where the record of the run starts. -/
def Booted (s : Machine) (allMem gdtBase : U32) : Prop :=
  ∃ entered t, Entered entered allMem gdtBase ∧ kernelInit entered = .ok () t ∧
    s = { t with handed := [], granted := [], pageDirs := [], nullStored := false }

end LiziOS
