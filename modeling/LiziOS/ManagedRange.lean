import LiziOS.FailedAllocation
import LiziOS.FrameOwnership
import LiziOS.PageBinding

namespace LiziOS.Memory

open ByteMemory Paging

/-! `get_a_page` for every address: in the range of the bitmap concerned, at its first page, and out
of the range. -/

variable {s t u : Machine} {g g' : Layout} {pf : PoolType} {virtual : VirtualAddr} {vaddr : U32}
  {frame i n k base : Nat}

/-- The pool that the thread may ask for, and the addresses that its bitmap is for. -/
inductive Caller (s : Machine) (g : Layout) : PoolType → VirtualAddr → Prop where
  | kernel {frame : Nat} (page : PageAt g s.runningThread frame) (pgdir : field s.phys frame Pcb.pgdir = 0) :
    Caller s g .kernelPool s.kernelVaddr
  | process {role : Nat → Role} {frame bits : Nat} (site : Site s g role s.runningThread frame bits) :
    Caller s g .userPool ⟨⟨field s.phys frame Pcb.bitmapLength, field s.phys frame Pcb.bitmapBits⟩,
      field s.phys frame Pcb.addrStart⟩

/-- The pages that the bitmap has a bit for. -/
def InRange (virtual : VirtualAddr) (vaddr : U32) : Prop :=
  virtual.addrStart.toNat ≤ vaddr.toNat ∧
    vaddr.toNat < virtual.addrStart.toNat + 8 * virtual.addrBitmap.length.toNat * 4096

/-- The index that `get_a_page` computes, a difference that wraps. -/
def bitIndex (virtual : VirtualAddr) (vaddr : U32) : U32 := (vaddr - virtual.addrStart) / pgSize

/-- The page's bit is set and no other of the bitmap, the page is mapped and the address returned. -/
def Served (s : Machine) (pf : PoolType) (virtual : VirtualAddr) (vaddr : U32) : Prop :=
  ∃ t, getAPage pf vaddr s = .ok vaddr t ∧ (t.translate vaddr).isSome = true ∧
    ∀ i < 8 * virtual.addrBitmap.length.toNat, bitAt t virtual.addrBitmap i =
      if i = (bitIndex virtual vaddr).toNat then some true else bitAt s virtual.addrBitmap i

/-- The states between the statements of the call, and the one in which it ends. -/
inductive Stage (s : Machine) (pf : PoolType) (vaddr : U32) : Machine → Prop where
  | marked {t : Machine} (done : (lockAcquire pf >>= fun _ => markPage pf vaddr) s = .ok () t) :
    Stage s pf vaddr t
  | taken {t : Machine} {page : U32}
    (done : (lockAcquire pf >>= fun _ => markPage pf vaddr >>= fun _ => paddrGetPage pf) s = .ok page t) :
    Stage s pf vaddr t
  | ended : Stage s pf vaddr (Program.finish (getAPage pf vaddr s))

/-- No byte behind the bitmap's own has changed at any stage, and no page is mapped. -/
def Rejected (s : Machine) (pf : PoolType) (virtual : VirtualAddr) (vaddr : U32) : Prop :=
  ∀ t, Stage s pf vaddr t →
    (∀ x, (∀ i < virtual.addrBitmap.length.toNat,
      s.translate (virtual.addrBitmap.bits + BitVec.ofNat 32 i) ≠ some x) → t.phys x = s.phys x) ∧
    ∀ page, walk s.phys s.root page = none → walk t.phys t.root page = none

/-- The bitmap of the pool has a clear bit. -/
def FreeFrame (s : Machine) (type : PoolType) : Prop :=
  ∃ i < 8 * (s.pool type).poolBitmap.length.toNat, bitAt s (s.pool type).poolBitmap i = some false

/-! The mark. -/

theorem Caller.setLock (caller : Caller s g pf virtual) (type : PoolType) (lock : Lock U32) :
    Caller (s.setLock type lock) g pf virtual := by
  cases caller with
  | kernel page pgdir => cases type <;> exact .kernel page pgdir
  | process site =>
    have moved := site.setLock type lock
    cases type <;> exact .process moved

theorem markPage_eq (rep : Represents s g) (caller : Caller s g pf virtual) (vaddr : U32) :
    markPage pf vaddr s = (assert (BitVec.slt 0 (bitIndex virtual vaddr)) .getAPage >>= fun _ =>
      bitmapSetBit virtual.addrBitmap (bitIndex virtual vaddr) 1) s := by
  cases caller with
  | @kernel frame page pgdir =>
    have load := page.load rep (o := Pcb.pgdir) (by decide) (by decide)
    rw [pgdir] at load
    unfold markPage
    rw [Program.bind_get, Program.bind_ok load, if_neg (fun both => both.1 rfl), if_pos ⟨rfl, rfl⟩,
      Program.bind_get]
    rfl
  | @process role frame bits site =>
    have page := site.pcb.page
    have index : (vaddr - field s.phys frame Pcb.addrStart) / pgSize = bitIndex ⟨⟨field s.phys frame
      Pcb.bitmapLength, field s.phys frame Pcb.bitmapBits⟩, field s.phys frame Pcb.addrStart⟩ vaddr := rfl
    unfold markPage
    rw [Program.bind_get, Program.bind_ok (page.load rep (by decide) (by decide)),
      if_pos ⟨site.process.pgdir_ne rep.core.valid, rfl⟩,
      Program.bind_ok (page.load rep (by decide) (by decide)), index]
    cases BitVec.slt 0 (bitIndex ⟨⟨field s.phys frame Pcb.bitmapLength, field s.phys frame Pcb.bitmapBits⟩,
        field s.phys frame Pcb.addrStart⟩ vaddr) with
    | false =>
      rw [Program.bind_error (assert_false _ rep.checked), Program.bind_error (assert_false _ rep.checked)]
    | true =>
      rw [Program.bind_ok (assert_true _ s), Program.bind_ok (assert_true _ s),
        Program.bind_ok (userBitmap_ok rep page)]

theorem bitIndex_small (virtual : VirtualAddr) (vaddr : U32) : (bitIndex virtual vaddr).toNat < 2 ^ 20 := by
  have bound := (vaddr - virtual.addrStart).isLt
  unfold bitIndex
  rw [BitVec.toNat_udiv, show pgSize.toNat = 4096 from rfl]
  omega

theorem bitIndex_positive {virtual : VirtualAddr} (aligned : vaddr.toNat % 4096 = 0)
    (start : virtual.addrStart.toNat % 4096 = 0) :
    BitVec.slt 0 (bitIndex virtual vaddr) = true ↔ vaddr ≠ virtual.addrStart := by
  have small := bitIndex_small virtual vaddr
  have bound := vaddr.isLt
  have bound' := virtual.addrStart.isLt
  have value : (bitIndex virtual vaddr).toNat = (vaddr - virtual.addrStart).toNat / 4096 := BitVec.toNat_udiv
  rw [BitVec.slt_iff_toInt_lt,
    BitVec.toInt_eq_toNat_of_lt (by omega : 2 * (bitIndex virtual vaddr).toNat < 2 ^ 32)]
  rw [value, BitVec.toNat_sub]
  constructor
  · rintro positive rfl
    rw [show (0 : U32).toInt = 0 from rfl] at positive
    omega
  · intro other
    have different : vaddr.toNat ≠ virtual.addrStart.toNat := fun eq => other (BitVec.eq_of_toNat_eq eq)
    rw [show (0 : U32).toInt = 0 from rfl]
    omega

theorem bitIndex_inside {virtual : VirtualAddr} (inside : InRange virtual vaddr) :
    (bitIndex virtual vaddr).toNat = (vaddr.toNat - virtual.addrStart.toNat) / 4096 ∧
      (bitIndex virtual vaddr).toNat < 8 * virtual.addrBitmap.length.toNat := by
  obtain ⟨above, below⟩ := inside
  have value : (bitIndex virtual vaddr).toNat = (vaddr.toNat - virtual.addrStart.toNat) / 4096 := by
    unfold bitIndex
    rw [BitVec.toNat_udiv, BitVec.toNat_sub_of_le (BitVec.le_def.mpr above)]
    rfl
  refine ⟨value, ?_⟩
  rw [value]
  omega

theorem Caller.start_aligned (rep : Represents s g) (caller : Caller s g pf virtual) :
    virtual.addrStart.toNat % 4096 = 0 := by
  cases caller with
  | kernel =>
    rw [rep.heap]
    exact show (0xc0100000 : U32).toNat % 4096 = 0 by decide
  | process site =>
    change (field s.phys _ Pcb.addrStart).toNat % 4096 = 0
    rw [site.process.addrStart]
    decide

theorem getAPage_first (settled : Settled s g) (caller : Caller s g pf virtual) :
    ∃ t, getAPage pf virtual.addrStart s = .error (.panic .getAPage) t := by
  have locked := settled.rep.setLock pf (heldLock s.runningThread)
  have marked := markPage_eq locked (caller.setLock pf _) virtual.addrStart
  have zero : BitVec.slt 0 (bitIndex virtual virtual.addrStart) = false := by
    unfold bitIndex
    rw [BitVec.sub_self]
    rfl
  rw [zero, Program.bind_error (assert_false _ locked.checked)] at marked
  refine ⟨s.setLock pf (heldLock s.runningThread), ?_⟩
  unfold getAPage
  rw [Program.bind_ok (lockAcquire_free (settled.lock pf)), Program.bind_error marked]

theorem setLock_translate (s : Machine) (type : PoolType) (lock : Lock U32) (a : U32) :
    (s.setLock type lock).translate a = s.translate a := by
  cases type <;> rfl

/-- Where the byte of the index is not mapped, the call ends before it has changed anything. -/
theorem getAPage_fault (settled : Settled s g) (caller : Caller s g pf virtual)
    (positive : BitVec.slt 0 (bitIndex virtual vaddr) = true)
    (absent : s.translate (virtual.addrBitmap.bits + bitIndex virtual vaddr / 8) = none) :
    Rejected s pf virtual vaddr := by
  have locked := settled.rep.setLock pf (heldLock s.runningThread)
  have marked := markPage_eq locked (caller.setLock pf _) vaddr
  have fault : bitmapSetBit virtual.addrBitmap (bitIndex virtual vaddr) 1
      (s.setLock pf (heldLock s.runningThread)) = .error .pageFault (s.setLock pf (heldLock s.runningThread)) := by
    rw [← setLock_translate s pf (heldLock s.runningThread)] at absent
    exact Program.bind_error (load8_fault absent)
  rw [positive, Program.bind_ok (assert_true _ _), fault] at marked
  have free := lockAcquire_free (settled.lock pf)
  intro t stage
  cases stage with
  | marked done =>
    rw [Program.bind_ok free, marked] at done
    contradiction
  | taken done =>
    rw [Program.bind_ok free, Program.bind_error marked] at done
    contradiction
  | ended =>
    have ended : getAPage pf vaddr s = .error .pageFault (s.setLock pf (heldLock s.runningThread)) := by
      unfold getAPage
      rw [Program.bind_ok free, Program.bind_error marked]
    rw [ended]
    have phys : (s.setLock pf (heldLock s.runningThread)).phys = s.phys := setLock_phys _ _ _
    have root : (s.setLock pf (heldLock s.runningThread)).root = s.root := by cases pf <;> rfl
    refine ⟨fun x _ => congrFun phys x, fun page none => ?_⟩
    change walk (s.setLock pf _).phys (s.setLock pf _).root page = _
    rw [phys, root, none]

/-! Out of the range, the call writes. -/

theorem paddrGetPage_free (half : KernelHalf s.phys s.root) (type : PoolType)
    (bitmap : (s.pool type).poolBitmap = ⟨BitVec.ofNat 32 n, BitVec.ofNat 32 (0xc0000000 + base)⟩)
    (few : n ≤ 4096) (inside : base + n < 0x100000) (free : ∃ k < 8 * n, bit s.phys base k = false) :
    ∃ k < 8 * n, bit s.phys base k = false ∧
      paddrGetPage type s = .ok ((s.pool type).phyAddrStart + pgSize * BitVec.ofNat 32 k) { s with
        phys := Function.update s.phys (base + k / 8) (s.phys (base + k / 8) ||| (1 : U8) <<< (k % 8))
        handed := s.handed ++ [(s.pool type).phyAddrStart + pgSize * BitVec.ofNat 32 k] } := by
  rcases paddrGetPage_first half type bitmap few inside with ⟨full, -⟩ | taken
  · obtain ⟨k, less, clear⟩ := free
    rw [full k less] at clear
    contradiction
  · exact taken

/-- A byte of one of the address bitmaps: of the heap's, or in a heap page of a process. -/
def BitmapByte (g : Layout) (x : Nat) : Prop :=
  (g.heapBase ≤ x ∧ x < g.heapBase + g.kernelLength) ∨ ∃ j, g.use (x / 4096) = .heap j ∧ x / 4096 ∉ g.dirs

theorem Caller.bytes (rep : Represents s g) (caller : Caller s g pf virtual) :
    ∃ start, ∀ i < virtual.addrBitmap.length.toNat,
      s.translate (virtual.addrBitmap.bits + BitVec.ofNat 32 i) = some (start + i) ∧ BitmapByte g (start + i) ∧
        0xc0000000 ≤ (virtual.addrBitmap.bits + BitVec.ofNat 32 i).toNat ∧
        (virtual.addrBitmap.bits + BitVec.ofNat 32 i).toNat < 0xffc00000 := by
  have valid := rep.core.valid
  obtain ⟨top, kernelFew, -⟩ := valid.bitmaps_end
  have low : 0x9a000 ≤ g.heapBase := by
    unfold Layout.heapBase Layout.userBase
    omega
  cases caller with
  | kernel =>
    refine ⟨g.heapBase, fun i inside => ?_⟩
    rw [rep.heap] at inside ⊢
    dsimp only at inside ⊢
    rw [BitVec.toNat_ofNat, Nat.mod_eq_of_lt (by omega)] at inside
    have address : (BitVec.ofNat 32 (0xc0000000 + g.heapBase) + BitVec.ofNat 32 i).toNat =
        0xc0000000 + (g.heapBase + i) := by
      rw [BitVec.toNat_add, BitVec.toNat_ofNat, BitVec.toNat_ofNat]
      omega
    refine ⟨?_, .inl ⟨by omega, by omega⟩, by omega, by omega⟩
    unfold Machine.translate
    rw [address]
    exact rep.half.translate_low (by omega)
  | @process role frame bits site =>
    obtain ⟨b, bitsEq, pages⟩ := site.process.bitmapBits
    refine ⟨4096 * bits, fun i inside => ?_⟩
    change i < (field s.phys frame Pcb.bitmapLength).toNat at inside
    change s.translate (field s.phys frame Pcb.bitmapBits + BitVec.ofNat 32 i) = some (4096 * bits + i) ∧
      BitmapByte g (4096 * bits + i) ∧
      0xc0000000 ≤ (field s.phys frame Pcb.bitmapBits + BitVec.ofNat 32 i).toNat ∧
      (field s.phys frame Pcb.bitmapBits + BitVec.ofNat 32 i).toNat < 0xffc00000
    rw [site.process.bitmapLength, show (94199 : U32).toNat = 94199 from rfl] at inside
    obtain ⟨use, -, notDir⟩ := pages (i / 4096) (by omega)
    have small := valid.heap_small use
    have mapped := rep.heap_page use (show i % 4096 < 4096 by omega)
    rw [← heapAddr_split, show 4096 * (bits + i / 4096) + i % 4096 = 4096 * bits + i by omega] at mapped
    have address : (heapAddr b + BitVec.ofNat 32 i).toNat = 0xc0100000 + 4096 * b + i := by
      rw [BitVec.toNat_add, heapAddr_toNat (by omega), BitVec.toNat_ofNat]
      omega
    rw [bitsEq]
    refine ⟨mapped, .inr ⟨b + i / 4096, ?_, ?_⟩, by omega, by omega⟩
    · rw [show (4096 * bits + i) / 4096 = bits + i / 4096 by omega]
      exact use
    · rw [show (4096 * bits + i) / 4096 = bits + i / 4096 by omega]
      exact notDir

theorem Caller.byte (rep : Represents s g) (caller : Caller s g pf virtual)
    (inside : i < virtual.addrBitmap.length.toNat) :
    ∃ x, s.translate (virtual.addrBitmap.bits + BitVec.ofNat 32 i) = some x ∧ BitmapByte g x ∧
      4096 ≤ (virtual.addrBitmap.bits + BitVec.ofNat 32 i).toNat := by
  obtain ⟨start, bytes⟩ := caller.bytes rep
  obtain ⟨mapped, byte, high, -⟩ := bytes i inside
  exact ⟨_, mapped, byte, by omega⟩

/-- The bytes of the address bitmaps are apart from the tables of the kernel and from the bitmaps of
    the pools. -/
theorem BitmapByte.apart (rep : Represents s g) {x : Nat} (byte : BitmapByte g x) :
    x / 4096 ≠ s.root ∧ x / 4096 ≠ 0x101 ∧ (x < 0x9e000 → g.heapBase ≤ x) := by
  have valid := rep.core.valid
  obtain ⟨top, -, -⟩ := valid.bitmaps_end
  have root := root_apart rep
  rcases byte with low | ⟨j, use, notDir⟩
  · omega
  · have inside := (valid.heapFrame _ j use).1
    refine ⟨?_, by omega, by omega⟩
    intro eq
    rcases rep.root with kernel | member
    · omega
    · exact notDir (eq ▸ member)

theorem FreeFrame.clear (rep : Represents s g) {type : PoolType} (free : FreeFrame s type) :
    ∃ k < 8 * g.length type, bit s.phys (g.base type) k = false := by
  obtain ⟨above, below, few, -⟩ := rep.core.valid.pool_small type
  obtain ⟨k, less, clear⟩ := free
  rw [rep.bitmap] at less clear
  dsimp only at less
  rw [BitVec.toNat_ofNat, Nat.mod_eq_of_lt (by omega)] at less
  refine ⟨k, less, ?_⟩
  rw [bitAt_low rep _ (by omega)] at clear
  exact Option.some.inj clear

theorem or_bit_ne {byte : U8} {k : Nat} (clear : byte.getLsbD (k % 8) = false) :
    byte ||| (1 : U8) <<< (k % 8) ≠ byte := by
  intro same
  have less : k % 8 < 8 := Nat.mod_lt _ (by decide)
  have set : (byte ||| (1 : U8) <<< (k % 8)).getLsbD (k % 8) = true := by simp [less]
  rw [same, clear] at set
  contradiction

/-- Where the byte of the index is mapped, the mark is stored there, and a frame is taken next. -/
theorem getAPage_writes (settled : Settled s g) (caller : Caller s g pf virtual) (free : FreeFrame s pf)
    (positive : BitVec.slt 0 (bitIndex virtual vaddr) = true) {b : Nat}
    (mapped : s.translate (virtual.addrBitmap.bits + bitIndex virtual vaddr / 8) = some b) :
    ¬ Rejected s pf virtual vaddr := by
  intro rejected
  have rep := settled.rep
  have locked := rep.setLock pf (heldLock s.runningThread)
  have acquired := lockAcquire_free (settled.lock pf)
  have marked := markPage_eq locked (caller.setLock pf _) vaddr
  rw [positive, Program.bind_ok (assert_true _ _)] at marked
  rw [← setLock_translate s pf (heldLock s.runningThread)] at mapped
  rw [bitmapSetBit_mapped mapped] at marked
  generalize marking : Machine.write _ _ _ = u at marked
  have root : u.root = s.root := by
    rw [← marking]
    cases pf <;> rfl
  have pool : (u.pool pf).poolBitmap = (s.pool pf).poolBitmap := by
    rw [← marking]
    cases pf <;> rfl
  have stage : Stage s pf vaddr u := .marked ((Program.bind_ok acquired).trans marked)
  have same (x : Nat) (outside : ¬ BitmapByte g x) : u.phys x = s.phys x := by
    refine (rejected u stage).1 x fun i inside here => outside ?_
    obtain ⟨y, there, byte, -⟩ := caller.byte rep inside
    rw [here] at there
    cases there
    exact byte
  obtain ⟨above, below, few, -⟩ := rep.core.valid.pool_small pf
  have heap : g.base pf + g.length pf ≤ g.heapBase := by
    cases pf
    · exact Nat.le_add_right _ _
    · exact Nat.le_refl _
  have poolByte {k : Nat} (less : k < 8 * g.length pf) :
      u.phys (g.base pf + k / 8) = s.phys (g.base pf + k / 8) := by
    refine same _ fun byte => ?_
    have behind := (byte.apart rep).2.2 (by omega)
    omega
  have half : KernelHalf u.phys u.root := by
    rw [root]
    apply rep.half.congr
    intro x tables
    refine same x fun byte => ?_
    have apart := byte.apart rep
    omega
  obtain ⟨k₀, less₀, clear₀⟩ := free.clear rep
  obtain ⟨k, less, clear, taken⟩ := paddrGetPage_free half pf (pool.trans (rep.bitmap pf)) few (by omega)
    ⟨k₀, less₀, (bit_congr (poolByte less₀)).trans clear₀⟩
  have changed := (rejected _ (.taken ((Program.bind_ok acquired).trans
    ((Program.bind_ok marked).trans taken)))).1 (g.base pf + k / 8) fun i inside here => by
      obtain ⟨y, there, byte, -⟩ := caller.byte rep inside
      rw [here] at there
      cases there
      have behind := (byte.apart rep).2.2 (by omega)
      omega
  dsimp only at changed
  rw [Function.update_self, ← poolByte less] at changed
  exact or_bit_ne clear changed

/-! In the range, behind its first page -/

/-- A frame that holds the directory or a table, as far as is known. -/
def TableFrame (g : Layout) (f : Nat) : Prop :=
  (0x100 ≤ f ∧ f < 0x200) ∨ f ∈ g.dirs ∨ ∃ d p, g.use f = .table d p

theorem Represents.rootTable (rep : Represents s g) : TableFrame g s.root := by
  rcases rep.root with kernel | member
  · exact .inl (by omega)
  · exact .inr (.inl member)

theorem BitmapByte.notTable (rep : Represents s g) {x : Nat} (byte : BitmapByte g x) :
    ¬ TableFrame g (x / 4096) := by
  have valid := rep.core.valid
  obtain ⟨top, -, -⟩ := valid.bitmaps_end
  rcases byte with low | ⟨j, use, notDir⟩
  · rintro (tables | member | ⟨d, p, table⟩)
    · omega
    · obtain ⟨j, use⟩ := valid.dir _ member
      have inside := (valid.heapFrame _ j use).1
      omega
    · have inside := (valid.tableFrame _ d p table).1
      omega
  · have inside := (valid.heapFrame _ j use).1
    rintro (tables | member | ⟨d, p, table⟩)
    · omega
    · exact notDir member
    · rw [use] at table
      contradiction

/-- The machine once the bit of the page is set and a frame is taken. -/
structure FrameTaken (s w : Machine) (g : Layout) (pf : PoolType) (virtual : VirtualAddr) (vaddr : U32) :
    Prop where
  root : w.root = s.root
  lock : (w.pool pf).lock = heldLock w.runningThread
  same : ∀ x, TableFrame g (x / 4096) → w.phys x = s.phys x
  pool : w.kernelPool.poolBitmap = s.kernelPool.poolBitmap ∧
    w.kernelPool.phyAddrStart = s.kernelPool.phyAddrStart
  kernelBits : pf = .userPool → ∀ k < 8 * g.kernelLength, bit w.phys 0x9a000 k = bit s.phys 0x9a000 k
  bytes : ∃ b, s.translate (virtual.addrBitmap.bits + bitIndex virtual vaddr / 8) = some b ∧
    ∀ x, BitmapByte g x → w.phys x =
      if x = b then s.phys x ||| (1 : U8) <<< ((bitIndex virtual vaddr).toNat % 8) else s.phys x

theorem FrameTaken.tables {w : Machine} (taken : FrameTaken s w g pf virtual vaddr) (rep : Represents s g) :
    Holds w.phys g.slot := by
  apply rep.core.tables.congr
  rintro x ⟨i, small, known⟩
  exact taken.same x (rep.core.valid.known _ i small known)

theorem byteIndex (virtual : VirtualAddr) (vaddr : U32) :
    bitIndex virtual vaddr / 8 = BitVec.ofNat 32 ((bitIndex virtual vaddr).toNat / 8) := by
  apply BitVec.eq_of_toNat_eq
  have bound := (bitIndex virtual vaddr).isLt
  rw [BitVec.toNat_udiv, BitVec.toNat_ofNat, show (8 : U32).toNat = 8 from rfl, Nat.mod_eq_of_lt (by omega)]

theorem frameTaken (settled : Settled s g) (caller : Caller s g pf virtual) (free : FreeFrame s pf)
    (inside : InRange virtual vaddr) (positive : BitVec.slt 0 (bitIndex virtual vaddr) = true) :
    ∃ u w page, markPage pf vaddr (s.setLock pf (heldLock s.runningThread)) = .ok () u ∧
      paddrGetPage pf u = .ok page w ∧ page ≠ 0 ∧ page.toNat % 4096 = 0 ∧ FrameTaken s w g pf virtual vaddr := by
  have rep := settled.rep
  have valid := rep.core.valid
  obtain ⟨-, index⟩ := bitIndex_inside inside
  have locked := rep.setLock pf (heldLock s.runningThread)
  obtain ⟨b, mapped, byte, high⟩ := caller.byte rep (show (bitIndex virtual vaddr).toNat / 8 < _ by omega)
  rw [← byteIndex] at mapped high
  have marked := markPage_eq locked (caller.setLock pf _) vaddr
  have mapped' := mapped
  rw [← setLock_translate s pf (heldLock s.runningThread)] at mapped'
  rw [positive, Program.bind_ok (assert_true _ _), bitmapSetBit_mapped mapped', Machine.write_high _ _ high,
    setLock_phys,
    show (bitIndex virtual vaddr % 8).toNat = (bitIndex virtual vaddr).toNat % 8 from BitVec.toNat_umod]
    at marked
  generalize marking : ({ s.setLock pf (heldLock s.runningThread) with phys := _ } : Machine) = u at marked
  obtain ⟨top, -, -⟩ := valid.bitmaps_end
  obtain ⟨above, below, few, frames⟩ := valid.pool_small pf
  have heap : g.base pf + g.length pf ≤ g.heapBase := by
    cases pf
    · exact Nat.le_add_right _ _
    · exact Nat.le_refl _
  have user : pf = .userPool → g.base pf = 0x9a000 + g.kernelLength := by
    rintro rfl
    rfl
  have apart := byte.apart rep
  have root : u.root = s.root := by
    rw [← marking]
    cases pf <;> rfl
  have phys : u.phys = Function.update s.phys b
      (s.phys b ||| (1 : U8) <<< ((bitIndex virtual vaddr).toNat % 8)) := by rw [← marking]
  have pool : (u.pool pf).poolBitmap = (s.pool pf).poolBitmap ∧
      (u.pool pf).phyAddrStart = (s.pool pf).phyAddrStart := by
    rw [← marking]
    cases pf <;> exact ⟨rfl, rfl⟩
  have half : KernelHalf u.phys u.root := by
    rw [root, phys]
    apply rep.half.congr
    intro x tables
    apply Function.update_of_ne
    omega
  have freeBit : ∃ k < 8 * g.length pf, bit u.phys (g.base pf) k = false := by
    obtain ⟨k, less, clear⟩ := free.clear rep
    refine ⟨k, less, (bit_congr ?_).trans clear⟩
    rw [phys]
    apply Function.update_of_ne
    omega
  obtain ⟨k, less, -, taken⟩ := paddrGetPage_free half pf (pool.1.trans (rep.bitmap pf)) few (by omega) freeBit
  rw [pool.2, rep.start] at taken
  have page : (BitVec.ofNat 32 (4096 * g.first pf) + pgSize * BitVec.ofNat 32 k : U32).toNat =
      4096 * (g.first pf + k) := by
    rw [BitVec.toNat_add, BitVec.toNat_mul, BitVec.toNat_ofNat, BitVec.toNat_ofNat,
      show pgSize.toNat = 4096 from rfl]
    omega
  have first : 0x200 ≤ g.first pf := by
    cases pf
    · exact Nat.le_refl _
    · exact Nat.le_add_right _ _
  generalize handing : ({ u with phys := _, handed := _ } : Machine) = w at taken
  have after (x : Nat) :
      w.phys x = if x = g.base pf + k / 8 then u.phys x ||| (1 : U8) <<< (k % 8) else u.phys x := by
    rw [← handing]
    dsimp only
    rw [Function.update_apply]
    split
    · rename_i eq
      rw [eq]
    · rfl
  have rest (x : Nat) (outside : x ≠ g.base pf + k / 8) (other : x ≠ b) : w.phys x = s.phys x := by
    rw [after, if_neg outside, phys, Function.update_of_ne other]
  refine ⟨u, w, _, marked, taken, ?_, by omega, ?_, ?_, ?_, ?_, ?_, b, mapped, ?_⟩
  · intro zero
    rw [zero, show (0 : U32).toNat = 0 from rfl] at page
    omega
  · rw [← root, ← handing]
    rfl
  · rw [← handing, ← marking]
    cases pf <;> rfl
  · intro x table
    have high : 0x100 ≤ x / 4096 := by
      rcases table with tables | member | ⟨d, p, use⟩
      · exact tables.1
      · obtain ⟨j, use⟩ := valid.dir _ member
        have inKernel := (valid.heapFrame _ j use).1
        omega
      · have inKernel := (valid.tableFrame _ d p use).1
        omega
    apply rest x (by omega)
    rintro rfl
    exact byte.notTable rep table
  · rw [← handing, ← marking]
    cases pf <;> exact ⟨rfl, rfl⟩
  · intro isUser j inBitmap
    have base := user isUser
    exact bit_congr (rest _ (by omega) (by omega))
  · intro x isByte
    have elsewhere := (isByte.apart rep).2.2
    rw [after, if_neg (by omega), phys, Function.update_apply]
    split
    · rename_i eq
      rw [eq]
    · rfl

/-- The table for a page of the range: one of the kernel's or of the process's, or none yet. -/
theorem Caller.slot (rep : Represents s g) (caller : Caller s g pf virtual) (inside : InRange virtual vaddr) :
    vaddr.toNat < 0xffc00000 ∧
    ((∃ table, g.slot s.root (vaddr.toNat / 4096 / 1024) = .maps table ∧ table ≠ s.root ∧ TableFrame g table) ∨
      (pf = .userPool ∧ vaddr.toNat / 4096 / 1024 < 768 ∧
        g.slot s.root (vaddr.toNat / 4096 / 1024) = .absent)) := by
  have valid := rep.core.valid
  have root := root_apart rep
  obtain ⟨above, below⟩ := inside
  cases caller with
  | kernel =>
    obtain ⟨-, kernelFew, -⟩ := valid.bitmaps_end
    have kernelFree := valid.kernelFree
    rw [rep.heap] at above below
    dsimp only at above below
    rw [show (0xc0100000 : U32).toNat = 0xc0100000 from rfl] at above below
    rw [BitVec.toNat_ofNat, Nat.mod_eq_of_lt (by omega)] at below
    unfold Layout.kernelLength at below
    refine ⟨by omega, .inl ⟨0x101 + (vaddr.toNat / 4096 / 1024 - 768), ?_, by omega, .inl ⟨by omega, by omega⟩⟩⟩
    have slot := valid.kernelHalf s.root rep.root (vaddr.toNat / 4096 / 1024 - 768) (by omega)
    rw [show 768 + (vaddr.toNat / 4096 / 1024 - 768) = vaddr.toNat / 4096 / 1024 by omega] at slot
    exact slot
  | @process role frame bits site =>
    change vaddr.toNat < (field s.phys frame Pcb.addrStart).toNat +
      8 * (field s.phys frame Pcb.bitmapLength).toNat * 4096 at below
    rw [site.process.addrStart, site.process.bitmapLength, show userVaddrStart.toNat = 0x8048000 from rfl,
      show (94199 : U32).toNat = 94199 from rfl] at below
    refine ⟨by omega, ?_⟩
    rcases valid.userHalf _ site.member (vaddr.toNat / 4096 / 1024) (by omega) with absent | ⟨table, slot, use⟩
    · exact .inr ⟨rfl, by omega, absent⟩
    · refine .inl ⟨table, slot, ?_, .inr (.inr ⟨_, _, use⟩)⟩
      rintro rfl
      obtain ⟨j, dirUse⟩ := valid.dir _ site.member
      rw [use] at dirUse
      contradiction

/-- What the mapping leaves of the pages that the kernel's tables map and of the address bitmaps. -/
structure Kept (w x : Machine) (g : Layout) : Prop where
  root : x.root = w.root
  pages : ∀ page < 2 ^ 20, ∀ table < 0x200, 0x100 ≤ table → g.slot w.root (page / 1024) = .maps table →
    ∀ f, Paging.walk w.phys w.root page = some f → Paging.walk x.phys x.root page = some f
  bytes : ∀ y, BitmapByte g y → x.phys y = w.phys y

theorem bind_kept_table {w x : Machine} {page : U32} (rep : Represents s g) (root : w.root = s.root)
    (tables : Holds w.phys g.slot) (after : x.root = w.root) {table : Nat}
    (slot : g.slot s.root (vaddr.toNat / 4096 / 1024) = .maps table) (notRoot : table ≠ s.root)
    (isTable : TableFrame g table) (absent : walk w.phys w.root (vaddr.toNat / 4096) = none)
    (phys : x.phys = setWord w.phys (4096 * frameOf (entry w.phys w.root (vaddr.toNat / 4096 / 1024)) +
      4 * (vaddr.toNat / 4096 % 1024)) (page ||| 0b0111)) : Kept w x g := by
  have bound := vaddr.isLt
  obtain ⟨pde, small⟩ := (tables s.root).maps _ (by omega) _ slot
  rw [root, pde, frameOf_mk small] at phys
  refine ⟨after, ?_, ?_⟩
  · intro other inside table' _ _ slot' f mapped
    obtain ⟨pde', small'⟩ := (tables w.root).maps _ (by omega) _ slot'
    rw [← mapped, after]
    apply walk_congr
    · rw [phys]
      exact entry_setWord_other _ (by omega) (by omega) (.inl (by rw [root]; exact notRoot.symm))
    · intro _
      rw [phys]
      apply entry_setWord_other _ (by omega) (by omega)
      by_contra same
      rw [pde', frameOf_mk small', not_or, not_not, not_not] at same
      obtain ⟨rfl, index⟩ := same
      have alike : walk w.phys w.root other = walk w.phys w.root (vaddr.toNat / 4096) := by
        have pde₂ := pde
        rw [← root] at pde₂
        unfold walk
        rw [pde', pde₂, index]
      rw [alike, absent] at mapped
      contradiction
  · intro y byte
    have notTable := byte.notTable rep
    rw [phys]
    apply setWord_outside
    by_contra within_
    apply notTable
    rw [show y / 4096 = table by omega]
    exact isTable

theorem bind_kept_new {w w₂ x : Machine} {m : ByteMemory.Memory} (rep : Represents s g) (root : w.root = s.root)
    (tables : Holds w.phys g.slot) (after : x.root = w.root) (high : 0x200 ≤ s.root)
    (slot : g.slot s.root (vaddr.toNat / 4096 / 1024) = .absent) {f k : Nat} (less : k < 8 * g.kernelLength)
    (free : f = 0x200 + k) (unused : g.kernelUsed ≤ k)
    (taken : w₂.phys = Function.update w.phys (0x9a000 + k / 8)
      (w.phys (0x9a000 + k / 8) ||| (1 : U8) <<< (k % 8)))
    (kept : ∀ y, ¬ InWord (4096 * w.root + 4 * (vaddr.toNat / 4096 / 1024)) y → y / 4096 ≠ f → m y = w₂.phys y)
    {word : U32} (phys : x.phys = setWord m (4096 * f + 4 * (vaddr.toNat / 4096 % 1024)) word) :
    Kept w x g := by
  have valid := rep.core.valid
  obtain ⟨top, -, -⟩ := valid.bitmaps_end
  have heapBase : g.heapBase = 0x9a000 + g.kernelLength + g.userLength := rfl
  have apart : s.root ≠ f := by
    rcases rep.root with kernel | member
    · omega
    · obtain ⟨j, use⟩ := valid.dir _ member
      have inKernel := (valid.heapFrame _ j use).2
      omega
  have same (y : Nat) (outside : ¬ InWord (4096 * s.root + 4 * (vaddr.toNat / 4096 / 1024)) y)
      (other : y / 4096 ≠ f) (notBit : y ≠ 0x9a000 + k / 8) : x.phys y = w.phys y := by
    rw [phys, setWord_outside _ (by omega), kept y (by rw [root]; exact outside) other, taken,
      Function.update_of_ne notBit]
  refine ⟨after, ?_, ?_⟩
  · intro other inside table' low above slot' g' mapped
    obtain ⟨pde', small'⟩ := (tables w.root).maps _ (by omega) _ slot'
    have different : other / 1024 ≠ vaddr.toNat / 4096 / 1024 := by
      intro eq
      rw [root, eq, slot] at slot'
      contradiction
    rw [← mapped, after]
    apply walk_congr
    · rw [root]
      apply word_congr
      intro y aboveY belowY
      apply same
      · unfold InWord
        omega
      · omega
      · omega
    · intro _
      rw [pde', frameOf_mk small']
      apply entry_congr _ (by omega)
      intro y eq
      apply same
      · unfold InWord
        omega
      · omega
      · omega
  · intro y byte
    have elsewhere := byte.apart rep
    apply same
    · unfold InWord
      omega
    · intro eq
      rcases byte with lowByte | ⟨j, use, -⟩
      · omega
      · have inKernel := (valid.heapFrame _ j use).2
        omega
    · intro eq
      have behind := elsewhere.2.2 (by omega)
      omega

theorem sameThread : Tolerant fun s t => t.runningThread = s.runningThread :=
  ⟨fun _ => rfl, fun _ _ _ first second => second.trans first, fun _ _ _ => rfl, fun _ _ => rfl⟩

theorem bind_served {w : Machine} {page : U32} (rep : Represents s g) (caller : Caller s g pf virtual)
    (inside : InRange virtual vaddr) (aligned : vaddr.toNat % 4096 = 0)
    (unmapped : walk s.phys s.root (vaddr.toNat / 4096) = none) (free : FreeFrame s .kernelPool)
    (taken : FrameTaken s w g pf virtual vaddr) (frame : page.toNat % 4096 = 0) :
    ∃ x, bindVaddrPaddrPage vaddr page w = .ok () x ∧ Kept w x g ∧ (x.translate vaddr).isSome = true := by
  have bound := vaddr.isLt
  have valid := rep.core.valid
  have root := taken.root
  have tables := taken.tables rep
  have half := half_of_holds valid tables (root ▸ rep.root)
  obtain ⟨below, slot⟩ := caller.slot rep inside
  have row :
      entry w.phys s.root (vaddr.toNat / 4096 / 1024) = entry s.phys s.root (vaddr.toNat / 4096 / 1024) :=
    entry_congr (fun x eq => taken.same x (eq ▸ rep.rootTable)) (by omega)
  have pdeSame : entry w.phys w.root (vaddr.toNat / 4096 / 1024) =
      entry s.phys s.root (vaddr.toNat / 4096 / 1024) := by
    rw [root]
    exact row
  rcases slot with ⟨table, slot, notRoot, isTable⟩ | ⟨rfl, low, slot⟩
  · obtain ⟨pde, small⟩ := (rep.core.tables s.root).maps _ (by omega) _ slot
    have there : Paging.present (entry w.phys w.root (vaddr.toNat / 4096 / 1024)) = true := by
      rw [pdeSame, pde, present_mk]
    have absent : walk w.phys w.root (vaddr.toNat / 4096) = none := by
      rw [← unmapped, root]
      apply walk_congr row
      intro _
      rw [pde, frameOf_mk small]
      exact entry_congr (fun x eq => taken.same x (eq ▸ isTable)) (by omega)
    obtain ⟨x, done, after, phys⟩ := bind_table_completed half.window absent there
    have bound_ : Bound w x vaddr page := by
      apply bound_store ⟨aligned, below, absent, frame⟩ after half.window there ?_ phys fun _ _ _ => rfl
      rw [pdeSame, pde, frameOf_mk small, root]
      exact notRoot
    refine ⟨x, done, bind_kept_table rep root tables after slot notRoot isTable absent phys, ?_⟩
    unfold Machine.translate
    rw [Loader.translate_isSome, bound_.present]
    rfl
  · have absent : Paging.present (entry w.phys w.root (vaddr.toNat / 4096 / 1024)) = false := by
      rw [pdeSame]
      exact (rep.core.tables s.root).absent _ (by omega) slot
    have high : 0x200 ≤ s.root := by
      cases caller with
      | process site =>
        obtain ⟨j, use⟩ := valid.dir _ site.member
        exact (valid.heapFrame _ j use).1
    obtain ⟨above, inBitmaps, few, frames⟩ := valid.pool_small .kernelPool
    change 0x200 + 8 * g.kernelLength ≤ _ at frames
    change g.kernelLength ≤ 4096 at few
    obtain ⟨k₀, less₀, clear₀⟩ := free.clear rep
    change k₀ < 8 * g.kernelLength at less₀
    obtain ⟨k, less, clear, taken₂⟩ := paddrGetPage_free half .kernelPool
      (taken.pool.1.trans (rep.bitmap .kernelPool)) few (show 0x9a000 + g.kernelLength < 0x100000 by omega)
      ⟨k₀, less₀, (taken.kernelBits rfl k₀ less₀).trans clear₀⟩
    have unused : g.kernelUsed ≤ k := by
      have old := (taken.kernelBits rfl k less).symm.trans clear
      rw [rep.core.kernelBits k less] at old
      simpa using old
    have start : (w.pool .kernelPool).phyAddrStart = 0x200000 :=
      taken.pool.2.trans (rep.start .kernelPool)
    rw [start] at taken₂
    have number : ((0x200000 : U32) + pgSize * BitVec.ofNat 32 k).toNat = 4096 * (0x200 + k) := by
      rw [BitVec.toNat_add, BitVec.toNat_mul, BitVec.toNat_ofNat, show pgSize.toNat = 4096 from rfl,
        show (0x200000 : U32).toNat = 0x200000 from rfl]
      omega
    have f : ((0x200000 : U32) + pgSize * BitVec.ofNat 32 k).toNat / 4096 = 0x200 + k := by omega
    generalize handing : ({ w with phys := _, handed := _ } : Machine) = w₂ at taken₂
    have phys₂ : w₂.phys = Function.update w.phys (0x9a000 + k / 8)
        (w.phys (0x9a000 + k / 8) ||| (1 : U8) <<< (k % 8)) := by
      rw [← handing]
      rfl
    have root₂ : w₂.root = w.root := by
      rw [← handing]
      rfl
    have apart : s.root ≠ 0x200 + k := by
      rcases rep.root with kernel | member
      · omega
      · obtain ⟨j, use⟩ := valid.dir _ member
        have inKernel := (valid.heapFrame _ j use).2
        omega
    have window₂ : entry w₂.phys w₂.root 1023 = mk w₂.root := by
      rw [root₂, ← half.window, phys₂]
      apply entry_congr _ (by omega)
      intro x eq
      exact Function.update_of_ne (by omega) _ _
    obtain ⟨x, m, done, after, phys, pde, -, kept⟩ := bind_new_completed half.window below absent taken₂ root₂
      window₂ (by omega) (by rw [f, root₂, root]; exact apart)
    rw [f] at phys pde kept
    refine ⟨x, done, bind_kept_new rep root tables after high slot less rfl unused phys₂ kept phys, ?_⟩
    have mapped : walk x.phys x.root (vaddr.toNat / 4096) = some (page.toNat / 4096) := by
      apply walk_of_entries (t := 0x200 + k)
      · rw [after, phys, ← pde]
        exact entry_setWord_other _ (by omega) (by omega) (.inl (by rw [root]; exact apart))
      · rw [phys, ← frame_mk frame]
        exact entry_setWord_same _ _ _ _
      · omega
      · have top := page.isLt
        omega
    unfold Machine.translate
    rw [Loader.translate_isSome, mapped]
    rfl

/-- Where the bitmap lies is found as before once the page is mapped. -/
theorem Kept.address {w x : Machine} (kept : Kept w x g) (rep : Represents s g)
    (taken : FrameTaken s w g pf virtual vaddr) {a : U32} {p : Nat} (mapped : s.translate a = some p)
    (above : 0xc0000000 ≤ a.toNat) (below : a.toNat < 0xffc00000) : x.translate a = some p := by
  have valid := rep.core.valid
  have slot := valid.kernelHalf s.root rep.root (a.toNat / 4096 / 1024 - 768) (by omega)
  rw [show 768 + (a.toNat / 4096 / 1024 - 768) = a.toNat / 4096 / 1024 by omega] at slot
  obtain ⟨pde, small⟩ := (rep.core.tables s.root).maps _ (by omega) _ slot
  have same : walk w.phys w.root (a.toNat / 4096) = walk s.phys s.root (a.toNat / 4096) := by
    rw [taken.root]
    apply walk_congr
    · exact entry_congr (fun x eq => taken.same x (eq ▸ rep.rootTable)) (by omega)
    · intro _
      rw [pde, frameOf_mk small]
      exact entry_congr (fun x eq => taken.same x (.inl (by omega))) (by omega)
  unfold Machine.translate Paging.translate at mapped ⊢
  cases found : walk s.phys s.root (a.toNat / 4096) with
  | none =>
    rw [found] at mapped
    contradiction
  | some f =>
    rw [found] at mapped
    rw [kept.pages _ (by omega) _ (by omega) (by omega) (taken.root ▸ slot) f (same.trans found)]
    exact mapped

theorem getAPage_served (settled : Settled s g) (caller : Caller s g pf virtual)
    (free : ∀ type, FreeFrame s type) (aligned : vaddr.toNat % 4096 = 0)
    (unmapped : walk s.phys s.root (vaddr.toNat / 4096) = none) (inside : InRange virtual vaddr)
    (positive : BitVec.slt 0 (bitIndex virtual vaddr) = true) : Served s pf virtual vaddr := by
  have rep := settled.rep
  obtain ⟨u, w, page, marked, given, nonzero, frame, taken⟩ :=
    frameTaken settled caller (free pf) inside positive
  obtain ⟨x, bound, kept, present⟩ :=
    bind_served rep caller inside aligned unmapped (free .kernelPool) taken frame
  have held : (x.pool pf).lock = heldLock x.runningThread := by
    rw [within_bindVaddrPaddrPage lockless _ _ _ _ _ bound pf,
      within_bindVaddrPaddrPage sameThread _ _ _ _ _ bound, taken.lock]
  refine ⟨x.setLock pf lockInit, ?_, ?_, ?_⟩
  · unfold getAPage
    rw [Program.bind_ok (lockAcquire_free (settled.lock pf)), Program.bind_ok marked, Program.bind_ok given,
      if_neg nonzero, Program.bind_ok bound, Program.bind_ok (lockRelease_held' held)]
    rfl
  · rw [setLock_translate]
    exact present
  · intro i less
    obtain ⟨start, bytes⟩ := caller.bytes rep
    obtain ⟨b, place, after⟩ := taken.bytes
    obtain ⟨-, indexLess⟩ := bitIndex_inside inside
    obtain ⟨mapped, byte, above, below⟩ := bytes (i / 8) (by omega)
    obtain ⟨mark, -, -, -⟩ := bytes ((bitIndex virtual vaddr).toNat / 8) (by omega)
    rw [byteIndex, mark] at place
    cases place
    have still := kept.address rep taken mapped above below
    unfold bitAt
    rw [setLock_translate, setLock_phys, still, mapped, Option.map_some, Option.map_some, kept.bytes _ byte,
      after _ byte]
    have set : bit (Function.update s.phys (start + (bitIndex virtual vaddr).toNat / 8)
        (s.phys (start + (bitIndex virtual vaddr).toNat / 8) |||
          (1 : U8) <<< ((bitIndex virtual vaddr).toNat % 8))) start i =
        (decide (i = (bitIndex virtual vaddr).toNat) || bit s.phys start i) := bit_set s.phys
    have cell : (if start + i / 8 = start + (bitIndex virtual vaddr).toNat / 8 then
        s.phys (start + i / 8) ||| (1 : U8) <<< ((bitIndex virtual vaddr).toNat % 8) else s.phys (start + i / 8)) =
        Function.update s.phys (start + (bitIndex virtual vaddr).toNat / 8)
          (s.phys (start + (bitIndex virtual vaddr).toNat / 8) |||
            (1 : U8) <<< ((bitIndex virtual vaddr).toNat % 8)) (start + i / 8) := by
      rw [Function.update_apply]
      split
      · rename_i eq
        rw [eq]
      · rfl
    rw [cell]
    change some (bit _ start i) = if _ then some true else some (bit s.phys start i)
    rw [set]
    by_cases here : i = (bitIndex virtual vaddr).toNat
    · rw [if_pos here, decide_eq_true here, Bool.true_or]
    · rw [if_neg here, decide_eq_false here, Bool.false_or]

theorem Caller.start_inside (rep : Represents s g) (caller : Caller s g pf virtual)
    (free : ∀ type, FreeFrame s type) :
    InRange virtual virtual.addrStart := by
  obtain ⟨-, -, few, -⟩ := rep.core.valid.pool_small .kernelPool
  change g.kernelLength ≤ 4096 at few
  have some_ : 0 < virtual.addrBitmap.length.toNat := by
    cases caller with
    | kernel =>
      obtain ⟨k, less, -⟩ := (free .kernelPool).clear rep
      change k < 8 * g.kernelLength at less
      rw [rep.heap]
      dsimp only
      rw [BitVec.toNat_ofNat, Nat.mod_eq_of_lt (by omega)]
      omega
    | @process role frame bits site =>
      change 0 < (field s.phys frame Pcb.bitmapLength).toNat
      rw [site.process.bitmapLength]
      decide
  exact ⟨Nat.le_refl _, by omega⟩

theorem FreeFrame.of_room (rep : Represents s g) {type : PoolType} (room : g.used type < 8 * g.length type) :
    FreeFrame s type := by
  obtain ⟨above, below, few, -⟩ := rep.core.valid.pool_small type
  refine ⟨g.used type, ?_, ?_⟩
  · rw [rep.bitmap]
    dsimp only
    rw [BitVec.toNat_ofNat, Nat.mod_eq_of_lt (by omega)]
    exact room
  · rw [rep.bitmap, bitAt_low rep _ (by omega), rep.core.bits type _ room, decide_eq_false (Nat.lt_irrefl _)]

theorem main_thread : ∃ s g, Settled s g ∧ Caller s g .kernelPool s.kernelVaddr ∧ (∀ type, FreeFrame s type) ∧
    s.kernelVaddr.addrStart = 0xc0100000 ∧ s.kernelVaddr.addrBitmap.length = 480 ∧
    ∀ i < 2, walk s.phys s.root (0xc0100 + i) = none := by
  obtain ⟨after, tail, -, settled, -, -, running, -⟩ := memoryInit_ok (entryMachine_starting loadedMemory_loaded)
  obtain ⟨s, -, settled', -, kernel, -, same, -⟩ := threadInit_ok settled running
  have rep := settled'.rep
  refine ⟨s, _, settled', ?_, fun type => FreeFrame.of_room rep ?_, ?_, ?_, fun i less => ?_⟩
  · have page : PageAt (bootLayout (kernelPages 0x2000000) (userPages 0x2000000) tail) s.runningThread 0x9e :=
      .inl ⟨same.trans running, rfl⟩
    exact .kernel page kernel.pgdir
  · cases type
    · exact show 0 < 8 * (kernelPages 0x2000000 / 8) by decide
    · exact show 0 < 8 * (userPages 0x2000000 / 8) by decide
  · rw [rep.heap]
  · rw [rep.heap]
    exact show BitVec.ofNat 32 (kernelPages 0x2000000 / 8) = 480 by decide
  · have pages : i < 8 * (kernelPages 0x2000000 / 8) := Nat.lt_of_lt_of_le less (by decide)
    have absent := rep.heap_absent (Nat.zero_le i) pages
    unfold Machine.translate at absent
    rw [heapAddr_toNat (by omega), ← Option.not_isSome_iff_eq_none, Loader.translate_isSome,
      Option.not_isSome_iff_eq_none, show (0xc0100000 + 4096 * i) / 4096 = 0xc0100 + i by omega] at absent
    exact absent

end LiziOS.Memory
