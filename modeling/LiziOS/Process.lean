import LiziOS.Memory

namespace LiziOS.Memory

/-! The parts of `thread.c`, `process.c` and `tss.c` that work on memory. Interrupts are off or no
other thread runs, so nothing is said about the interrupt flag; messages are left out. -/

def userVaddrStart : U32 := 0x8048000

def initThread (pthread : U32) (name : List U8) (prio : U32) : M Unit := do
  memset pthread 0 Pcb.size
  strcpy (pthread + Pcb.name) name
  if pthread = (← get).mainThread then store32 (pthread + Pcb.status) 0
  else store32 (pthread + Pcb.status) 1
  store32 (pthread + Pcb.selfKstack) (pthread + pgSize)
  store8 (pthread + Pcb.priority) (prio.setWidth 8)
  store8 (pthread + Pcb.ticks) (prio.setWidth 8)
  store32 (pthread + Pcb.pgdir) 0
  store32 (pthread + Pcb.stackMagic) 0x19870916

/-- `self_kstack` is a pointer to `u32`: what is subtracted from it counts words, so four times
    the size of `struct intr_stack` and of `struct thread_stack` is left free. -/
def threadCreate (pthread function funcArg : U32) : M Unit := do
  store32 (pthread + Pcb.selfKstack) ((← load32 (pthread + Pcb.selfKstack)) - 4 * 76)
  store32 (pthread + Pcb.selfKstack) ((← load32 (pthread + Pcb.selfKstack)) - 4 * 32)
  let kthreadStack ← load32 (pthread + Pcb.selfKstack)
  store32 (kthreadStack + 8) 0
  store32 (kthreadStack + 12) 0
  store32 (kthreadStack + 4) 0
  store32 kthreadStack 0
  store32 (kthreadStack + 16) (← get).symbols.kernelThread
  store32 (kthreadStack + 24) function
  store32 (kthreadStack + 28) funcArg

/-- The end of `thread_start` and of `process_execute`. -/
def enlist (thread : U32) (site : Site) : M Unit := do
  assert (!elemFind (← get).threadReadyList thread) site
  modify fun s => { s with threadReadyList := listAppend s.threadReadyList thread }
  assert (!elemFind (← get).threadAllList thread) site
  modify fun s => { s with threadAllList := listAppend s.threadAllList thread }

def threadStart (name : List U8) (prio function funcArg : U32) : M U32 := do
  let thread ← mallocKernelPages 1
  initThread thread name prio
  threadCreate thread function funcArg
  enlist thread .threadStart
  return thread

def updateTssEsp (pthread : U32) : M Unit :=
  modify fun s => { s with tss := { s.tss with esp0 := pthread + pgSize } }

def setCr3 (pde : U32) : M Unit := modify fun s => { s with cr3 := pde }

def pageDirActivate (pThread : U32) : M Unit := do
  let pgdir ← load32 (pThread + Pcb.pgdir)
  if pgdir ≠ 0 then
    let pagedirPhyAddr ← vaddrToPaddr pgdir
    setCr3 pagedirPhyAddr
  else setCr3 0x100000

def processActivate (pThread : U32) : M Unit := do
  assert (pThread ≠ 0) .processActivate
  pageDirActivate pThread
  let pgdir ← load32 (pThread + Pcb.pgdir)
  if pgdir ≠ 0 then updateTssEsp pThread else return

def createPageDir : M U32 := do
  let pageDirVaddr ← mallocKernelPages 1
  if pageDirVaddr = 0 then return 0
  else
    memcpy (pageDirVaddr + 0x300 * 4) (0xfffff000 + 0x300 * 4) 1024
    let newPageDirPhyAddr ← vaddrToPaddr pageDirVaddr
    store32 (pageDirVaddr + 4 * 1023) (newPageDirPhyAddr ||| 4 ||| 2 ||| 1)
    modify fun s => { s with pageDirs := s.pageDirs ++ [newPageDirPhyAddr] }
    return pageDirVaddr

def divRoundUp (x step : U32) : U32 := (x + step - 1) / step

def createUserVaddrBitmap (userProg : U32) : M Unit := do
  store32 (userProg + Pcb.addrStart) userVaddrStart
  let bitmapPgCnt := divRoundUp ((0xc0000000 - userVaddrStart) / pgSize / 8) pgSize
  store32 (userProg + Pcb.bitmapBits) (← mallocKernelPages bitmapPgCnt)
  store32 (userProg + Pcb.bitmapLength) ((0xc0000000 - userVaddrStart) / pgSize / 8)
  bitmapInit (← userBitmap userProg)

def processExecute (filename : U32) (name : List U8) : M Unit := do
  let thread ← mallocKernelPages 1
  initThread thread name 31
  createUserVaddrBitmap thread
  threadCreate thread (← get).symbols.startProcess filename
  let pgdir ← createPageDir
  store32 (thread + Pcb.pgdir) pgdir
  enlist thread .processExecute

def makeMainThread : M Unit := do
  modify fun s => { s with mainThread := s.runningThread }
  let mainThread := (← get).mainThread
  initThread mainThread [0x6d, 0x61, 0x69, 0x6e] 31
  assert (!elemFind (← get).threadAllList mainThread) .threadInit
  modify fun s => { s with threadAllList := listAppend s.threadAllList mainThread }

def threadInit : M Unit := do
  modify fun s => { s with threadReadyList := [], threadAllList := [] }
  makeMainThread

/-- `struct gdt_desc`. -/
structure GdtDesc where
  limitLowWord : U16
  baseLowWord : U16
  baseMidByte : U8
  attrLowByte : U8
  limitHighAttrHigh : U8
  baseHighByte : U8

def GdtDesc.bytes (desc : GdtDesc) : List U8 :=
  [desc.limitLowWord.setWidth 8, (desc.limitLowWord >>> 8).setWidth 8,
    desc.baseLowWord.setWidth 8, (desc.baseLowWord >>> 8).setWidth 8,
    desc.baseMidByte, desc.attrLowByte, desc.limitHighAttrHigh, desc.baseHighByte]

def makeGdtDesc (descBase limit : U32) (attrLow attrHigh : U8) : GdtDesc where
  limitLowWord := (limit &&& 0x0000ffff).setWidth 16
  baseLowWord := (descBase &&& 0x0000ffff).setWidth 16
  baseMidByte := ((descBase &&& 0x00ff0000) >>> 16).setWidth 8
  attrLowByte := attrLow
  limitHighAttrHigh := ((limit &&& 0x000f0000) >>> 16).setWidth 8 + attrHigh
  baseHighByte := (descBase >>> 24).setWidth 8

/-- `lgdt` takes the limit from the low 16 bits of its operand and the base from the next 32. -/
def lgdt (operand : BitVec 64) : M Unit := modify fun s =>
  { s with gdtLimit := operand.setWidth 16, gdtBase := (operand >>> 16).setWidth 32 }

def tssInit : M Unit := do
  let tssSize : U32 := 108
  modify fun s => { s with tss := ⟨0, (2 : U32) <<< 3, tssSize⟩ }
  let tss := (← get).symbols.tss
  let gdtBase ← load32 0xd04
  storeBytes (gdtBase + 0x20) (makeGdtDesc tss (tssSize - 1) 0b10001001 0b10000000).bytes
  storeBytes (gdtBase + 0x28) (makeGdtDesc 0 0xfffff 0b11111000 0b11000000).bytes
  storeBytes (gdtBase + 0x30) (makeGdtDesc 0 0xfffff 0b11110010 0b11000000).bytes
  lgdt ((8 * 7 - 1 : BitVec 64) ||| (gdtBase.setWidth 64 <<< 16))

end LiziOS.Memory
