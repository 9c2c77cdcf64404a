import LiziOS.ProcessExecution

namespace LiziOS.Memory

open ByteMemory Paging

/-! What `malloc_kernel_pages` gives to its caller, in every state that the kernel reaches by such
calls. -/

/-- The frames that belong to other code: what lies below 1 MiB beside the bitmaps, and the frames
    of the pools that no page directory lies in. -/
def Foreign (s : Machine) (frame : Nat) : Prop :=
  (frame < 0x100 ∧ ¬ (0x9a ≤ frame ∧ frame < 0x9e)) ∨
    (0x200 ≤ frame ∧ BitVec.ofNat 32 (4096 * frame) ∉ s.pageDirs)

/-- What happens outside the memory system: threads are switched and use their memory. -/
structure Elsewhere (s t : Machine) : Prop where
  phys : ∀ x, t.phys x ≠ s.phys x → Foreign s (x / 4096)
  cr3 : t.cr3 = 0x100000 ∨ t.cr3 ∈ s.pageDirs
  checked : t.ndebug = s.ndebug
  pools : ∀ type, t.pool type = s.pool type
  kernelVaddr : t.kernelVaddr = s.kernelVaddr
  handed : t.handed = s.handed
  granted : t.granted = s.granted
  pageDirs : t.pageDirs = s.pageDirs

/-- One step of a run in which `malloc_kernel_pages` does not return `NULL`. -/
inductive AllocStep (s : Machine) : Machine → Prop where
  | mallocKernelPages {count v : U32} {t : Machine} (done : mallocKernelPages count s = .ok v t)
      (success : v ≠ 0) : AllocStep s t
  | threadStart {name : List U8} {prio function funcArg thread : U32} {t : Machine}
      (fits : name.length < 16) (done : threadStart name prio function funcArg s = .ok thread t)
      (success : 0 ∉ t.granted) : AllocStep s t
  | processExecute {filename : U32} {name : List U8} {t : Machine} (fits : name.length < 16)
      (done : processExecute filename name s = .ok () t) (success : 0 ∉ t.granted) : AllocStep s t
  | elsewhere {t : Machine} (changed : Elsewhere s t) : AllocStep s t

/-- The states of these runs, from `mem_pool_init` in `memory_init` on. -/
inductive AllocReached (allMem gdtBase : U32) : Machine → Prop where
  | start {s t : Machine} (starting : Starting s allMem gdtBase) (done : memoryInit s = .ok () t) :
      AllocReached allMem gdtBase t
  | next {s t : Machine} (earlier : AllocReached allMem gdtBase s) (step : AllocStep s t) :
      AllocReached allMem gdtBase t

variable {s t u : Machine} {g g' : Layout} {count v thread : U32} {frame n : Nat}

/-! The invariant of the runs. -/

structure Allocating (s : Machine) (g : Layout) : Prop where
  settled : Settled s g
  dirs : ∀ d ∈ g.dirs, BitVec.ofNat 32 (4096 * d) ∈ s.pageDirs
  made : ∀ a ∈ s.pageDirs, ∃ d ∈ g.dirs, a = BitVec.ofNat 32 (4096 * d)
  noTable : ∀ frame d p, g.use frame ≠ .table d p

theorem Layout.Valid.dir_small (valid : g.Valid) {d : Nat} (member : d ∈ g.dirs) : d < 2 ^ 20 := by
  obtain ⟨i, use⟩ := valid.dir d member
  have inside := (valid.heapFrame d i use).2
  have used := valid.kernelUsed
  have free := valid.kernelFree
  unfold Layout.kernelLength at used
  omega

theorem Allocating.elsewhere (inv : Allocating s g) (changed : Elsewhere s t) : Allocating t g := by
  obtain ⟨⟨rep, mapped, locks⟩, dirs, made, noTable⟩ := inv
  have valid := rep.core.valid
  have root : g.Root t.root := by
    unfold Machine.root
    rcases changed.cr3 with kernel | member
    · rw [kernel]
      exact .inl rfl
    · obtain ⟨d, isDir, eq⟩ := made _ member
      have small := valid.dir_small isDir
      rw [eq, BitVec.toNat_ofNat, Nat.mod_eq_of_lt (by omega), Nat.mul_div_cancel_left d (by decide)]
      exact .inr isDir
  have core : Core t.phys g := by
    apply rep.core.plain
    intro x notPlain
    by_contra different
    apply notPlain
    rcases changed.phys x different with ⟨low, outside⟩ | ⟨high, notDir⟩
    · exact valid.plain_low low (by omega)
    · exact valid.plain_high high (fun member => notDir (dirs _ member)) (noTable _)
  have pools := changed.pools
  refine ⟨⟨⟨core, root, ?_, ?_, ?_, ?_, ?_, ?_⟩, mapped, ?_⟩, ?_, ?_, noTable⟩
  · rw [changed.checked]
    exact rep.checked
  · intro type
    rw [pools]
    exact rep.bitmap type
  · intro type
    rw [pools]
    exact rep.start type
  · rw [changed.kernelVaddr]
    exact rep.heap
  · rw [changed.handed]
    exact rep.nodup
  · rw [changed.handed]
    exact rep.owned
  · intro type
    rw [pools]
    exact locks type
  · rw [changed.pageDirs]
    exact dirs
  · rw [changed.pageDirs]
    exact made

theorem Allocating.advance (inv : Allocating s g) {role role' : Nat → Role} {new : List Nat}
    (advance : Advance 768 s t g g' role role' new) : Allocating t g' := by
  refine ⟨advance.settled, ?_, ?_, ?_⟩
  · intro d member
    rw [advance.dirs, List.mem_append] at member
    rw [advance.pageDirs, List.mem_append]
    rcases member with fresh | old
    · exact .inr (List.mem_map_of_mem fresh)
    · exact .inl (inv.dirs d old)
  · intro a member
    rw [advance.pageDirs, List.mem_append, List.mem_map] at member
    rw [advance.dirs]
    rcases member with old | ⟨d, fresh, eq⟩
    · obtain ⟨d, isDir, eq⟩ := inv.made a old
      exact ⟨d, List.mem_append_right _ isDir, eq⟩
    · exact ⟨d, List.mem_append_left _ fresh, eq.symm⟩
  · intro frame d p use
    rcases advance.tables frame d p use with old | above
    · exact inv.noTable frame d p old
    · have below := (advance.settled.rep.core.valid.table frame d p use).2.1
      omega

theorem AllocStep.keeps (step : AllocStep s t) (inv : Allocating s g) : ∃ g', Allocating t g' := by
  have valid := inv.settled.rep.core.valid
  cases step with
  | mallocKernelPages done success =>
    rcases mallocKernelPages_cases inv.settled done with ⟨g', took⟩ | ⟨null, -⟩
    · exact ⟨g', inv.advance (took.advance valid 768 fun _ => .other)⟩
    · exact absurd null success
  | threadStart fits done success =>
    obtain ⟨g', role', advance⟩ := threadStart_completed inv.settled 768 (fun _ => .other) fits done
      (.of_absent success)
    exact ⟨g', inv.advance advance⟩
  | processExecute fits done success =>
    obtain ⟨g', role', d, advance⟩ := processExecute_completed inv.settled 768 (fun _ => .other) fits done
      (.of_absent success)
    exact ⟨g', inv.advance advance⟩
  | elsewhere changed => exact ⟨g, inv.elsewhere changed⟩

theorem AllocReached.allocating {allMem gdtBase : U32} (reached : AllocReached allMem gdtBase s) :
    ∃ g, Allocating s g := by
  induction reached with
  | start starting done =>
    obtain ⟨u, tail, called, settled, -, pageDirs, -⟩ := memoryInit_ok starting
    rw [done] at called
    cases called
    refine ⟨_, settled, ?_, ?_, ?_⟩
    · intro d member
      cases member
    · rw [pageDirs]
      intro a member
      cases member
    · intro frame d p use
      cases use
  | next earlier step ih =>
    obtain ⟨g, inv⟩ := ih
    exact step.keeps inv

/-! What the caller gets. -/

/-- `malloc_kernel_pages(count)` has returned `v` and led from `s` to `t`. -/
structure KernelPages (s : Machine) (count v : U32) (t : Machine) : Prop where
  aligned : v.toNat % 4096 = 0
  within : kHeapStart.toNat ≤ v.toNat ∧
    v.toNat + 4096 * count.toNat ≤ kHeapStart.toNat + 8 * s.kernelVaddr.addrBitmap.length.toNat * 4096
  /-- the pages were neither allocated nor mapped -/
  fresh : ∀ i < count.toNat,
    bitAt s s.kernelVaddr.addrBitmap ((v.toNat - kHeapStart.toNat) / 4096 + i) = some false ∧
    s.translate (v + BitVec.ofNat 32 (4096 * i)) = none
  marked : ∀ i < count.toNat,
    bitAt t t.kernelVaddr.addrBitmap ((v.toNat - kHeapStart.toNat) / 4096 + i) = some true
  /-- each page has got a frame of `kernel_pool` that was free -/
  backed : ∀ i < count.toNat, ∃ k < 8 * s.kernelPool.poolBitmap.length.toNat,
    t.translate (v + BitVec.ofNat 32 (4096 * i)) = some (s.kernelPool.phyAddrStart.toNat + 4096 * k) ∧
    bitAt s s.kernelPool.poolBitmap k = some false ∧ bitAt t t.kernelPool.poolBitmap k = some true
  zero : ∀ o < 4096 * count.toNat, load8 (v + BitVec.ofNat 32 o) t = .ok 0 t
  /-- every page that was allocated stays where it is and keeps its bytes -/
  earlier : ∀ i < 8 * s.kernelVaddr.addrBitmap.length.toNat,
    bitAt s s.kernelVaddr.addrBitmap i = some true → ∀ o < 4096,
      ∃ p, s.translate (heapAddr i + BitVec.ofNat 32 o) = some p ∧
        t.translate (heapAddr i + BitVec.ofNat 32 o) = some p ∧ t.phys p = s.phys p

theorem bitAt_low (rep : Represents s g) (length : U32) {base i : Nat} (inside : base + i / 8 < 0x100000) :
    bitAt s ⟨length, BitVec.ofNat 32 (0xc0000000 + base)⟩ i = some (bit s.phys base i) := by
  have address : (BitVec.ofNat 32 (0xc0000000 + base) + BitVec.ofNat 32 (i / 8)).toNat =
      0xc0000000 + (base + i / 8) := by
    rw [base_word, BitVec.toNat_ofNat, Nat.mod_eq_of_lt (by omega)]
  unfold bitAt Machine.translate
  simp only [address]
  rw [rep.core.translate_low rep.root inside]
  rfl

theorem heapAddr_add (i j : Nat) : heapAddr i + BitVec.ofNat 32 (4096 * j) = heapAddr (i + j) := by
  unfold heapAddr
  rw [← BitVec.ofNat_add]
  congr 1
  omega

theorem heapAddr_split (i o : Nat) :
    heapAddr i + BitVec.ofNat 32 o = heapAddr (i + o / 4096) + BitVec.ofNat 32 (o % 4096) := by
  rw [← heapAddr_add, BitVec.add_assoc, ← BitVec.ofNat_add, Nat.div_add_mod]

theorem Represents.heap_page (rep : Represents s g) {i o : Nat} (use : g.use frame = .heap i)
    (offset : o < 4096) : s.translate (heapAddr i + BitVec.ofNat 32 o) = some (4096 * frame + o) := by
  obtain ⟨mapped, slot⟩ := rep.core.valid.heap frame i use
  have small := rep.core.valid.heap_small use
  have address : (heapAddr i + BitVec.ofNat 32 o).toNat = 0xc0100000 + 4096 * i + o := by
    unfold heapAddr
    rw [← BitVec.ofNat_add, BitVec.toNat_ofNat, Nat.mod_eq_of_lt (by omega)]
  unfold Machine.translate
  rw [address]
  exact rep.core.translate_heap rep.root slot small.1 offset

theorem Represents.heap_absent (rep : Represents s g) {i : Nat} (above : g.heapMapped ≤ i)
    (inside : i < 8 * g.kernelLength) : s.translate (heapAddr i) = none := by
  have valid := rep.core.valid
  have small := valid.heap_table inside
  have free := valid.kernelFree
  have length : 8 * g.kernelLength < 2 ^ 15 := by
    unfold Layout.kernelLength
    omega
  unfold Machine.translate Paging.translate
  rw [heapAddr_toNat (by omega)]
  have pde := valid.kernelHalf _ rep.root ((256 + i) / 1024) (by omega)
  have pte := valid.unmapped i above inside
  rw [show 768 + (256 + i) / 1024 = (0xc0100000 + 4096 * i) / 4096 / 1024 by omega] at pde
  unfold Layout.heapSlot at pte
  rw [show (256 + i) % 1024 = (0xc0100000 + 4096 * i) / 4096 % 1024 by omega] at pte
  rw [rep.core.tables.walk_no_page pde pte (by omega)]
  rfl

theorem Allocated.keeps (allocated : Allocated g n g') (valid : g.Valid) {i : Nat}
    (use : g.use frame = .heap i) : g'.use frame = .heap i := by
  rw [allocated.grown.old frame (.inl (valid.heapFrame frame i use).2)]
  exact use

/-- The pages and frames of a call, as the caller sees them. -/
theorem Took.kernelPages (took : Took s g count.toNat v t g') (settled : Settled s g) :
    KernelPages s count v t := by
  obtain ⟨positive, few, room, address, granted, settled', allocated, zero, outside⟩ := took
  have rep := settled.rep
  have rep' := settled'.rep
  have valid := rep.core.valid
  have mapped := settled.mapped
  have mappedFew := valid.heapMapped
  have free := valid.kernelFree
  have few : 8 * g.kernelLength < 2 ^ 15 := by
    unfold Layout.kernelLength
    omega
  have lengths : g'.kernelLength = g.kernelLength := by
    unfold Layout.kernelLength
    rw [allocated.grown.lengths.1]
    rfl
  have bases : g'.heapBase = g.heapBase := by
    unfold Layout.heapBase Layout.userBase Layout.userLength
    rw [lengths, allocated.grown.lengths.2]
    rfl
  have used : g'.heapUsed = g.heapUsed + count.toNat := allocated.grown.heapUsed
  have kernelUsed : g'.kernelUsed = g.kernelUsed + count.toNat := allocated.grown.kernelUsed
  have top := valid.bitmaps_end.1
  have heapVaddr : t.kernelVaddr = s.kernelVaddr := by rw [granted]
  have kernelPool : t.kernelPool = s.kernelPool := by rw [granted]
  have value := heapAddr_toNat (i := g.heapUsed) (by omega)
  have start : kHeapStart.toNat = 0xc0100000 := rfl
  have length : (BitVec.ofNat 32 g.kernelLength).toNat = g.kernelLength := by
    rw [BitVec.toNat_ofNat, Nat.mod_eq_of_lt (by omega)]
  have number (i : Nat) : ((heapAddr g.heapUsed).toNat - kHeapStart.toNat) / 4096 + i = g.heapUsed + i := by
    rw [value, start]
    omega
  have pool : s.kernelPool.poolBitmap =
      ⟨BitVec.ofNat 32 g.kernelLength, BitVec.ofNat 32 (0xc0000000 + 0x9a000)⟩ :=
    rep.bitmap .kernelPool
  have first : s.kernelPool.phyAddrStart = 0x200000 := rep.start .kernelPool
  subst address
  refine ⟨?_, ?_, ?_, ?_, ?_, ?_, ?_⟩
  · rw [value]
    omega
  · rw [value, start, rep.heap]
    dsimp only
    rw [length]
    omega
  · intro i less
    rw [number, heapAddr_add, rep.heap, bitAt_low rep _ (by omega),
      rep.heap_clear (Nat.le_add_right _ i) (by omega)]
    exact ⟨rfl, rep.heap_absent (by omega) (by omega)⟩
  · intro i less
    rw [number, heapVaddr, rep.heap, bitAt_low rep' _ (by omega), ← bases,
      rep'.heap_taken (by omega) (by omega)]
  · intro i less
    have use := (allocated.pages i less).1
    rw [mapped] at use
    have page := rep'.heap_page use (o := 0) (by decide)
    rw [BitVec.add_zero] at page
    refine ⟨g.kernelUsed + i, ?_, ?_, ?_, ?_⟩
    · rw [pool]
      dsimp only
      rw [length]
      omega
    · rw [heapAddr_add, page, first]
      congr 1
      change _ = 0x200000 + _
      omega
    · rw [pool, bitAt_low rep _ (by omega), rep.core.kernelBits _ (by omega)]
      simp
    · rw [kernelPool, pool, bitAt_low rep' _ (by omega), rep'.core.kernelBits _ (by omega), kernelUsed]
      simp [less]
  · intro o less
    have use := (allocated.pages (o / 4096) (by omega)).1
    rw [mapped] at use
    have page := rep'.heap_page use (o := o % 4096) (by omega)
    rw [← heapAddr_split] at page
    rw [load8_ok page, zero _ (by omega) (by omega)]
  · intro i inside taken o offset
    rw [rep.heap] at inside taken
    dsimp only at inside taken
    rw [length] at inside
    rw [bitAt_low rep _ (by omega), rep.core.heapBits i inside] at taken
    have less : i < g.heapUsed := by simpa using taken
    obtain ⟨frame, -, use⟩ := valid.mapped i (by omega)
    have owned := valid.heapFrame frame i use
    refine ⟨4096 * frame + o, rep.heap_page use offset, rep'.heap_page (allocated.keeps valid use) offset, ?_⟩
    obtain ⟨above, below⟩ := owned
    apply outside
    · unfold InKernelTables InBitmaps
      omega
    · omega

/-- In every state of a run of successful calls, pages that `malloc_kernel_pages` returns are new,
    lie in the heap, are backed by frames of `kernel_pool` and read as zero, and the pages that were
    allocated before are as they were. -/
theorem mallocKernelPages_post {allMem gdtBase : U32} (reached : AllocReached allMem gdtBase s)
    (done : mallocKernelPages count s = .ok v t) (success : v ≠ 0) : KernelPages s count v t := by
  obtain ⟨g, inv⟩ := reached.allocating
  rcases mallocKernelPages_cases inv.settled done with ⟨g', took⟩ | ⟨null, -⟩
  · exact took.kernelPages inv.settled
  · exact absurd null success

/-- 32 MiB of memory that hold nothing but what the loader stored for the kernel. -/
def loadedMemory : ByteMemory.Memory := setWord (setWord (fun _ => 0) 0xd00 0x2000000) 0xd04 0x903

def entryMachine (m : ByteMemory.Memory) : Machine where
  ndebug := false
  phys := m
  cr3 := 0x100000
  gdtLimit := 0
  gdtBase := 0
  runningThread := 0xc009e000
  kernelPool := ⟨lockInit, ⟨0, 0⟩, 0, 0⟩
  userPool := ⟨lockInit, ⟨0, 0⟩, 0, 0⟩
  kernelVaddr := ⟨⟨0, 0⟩, 0⟩
  mainThread := 0
  threadReadyList := []
  threadAllList := []
  tss := ⟨0, 0, 0⟩
  symbols := ⟨0, 0, 0⟩
  handed := []
  granted := []
  pageDirs := []
  nullStored := false

theorem loadedMemory_zero {x : Nat} (above : 0xd08 ≤ x) : loadedMemory x = 0 := by
  unfold loadedMemory
  rw [setWord_outside _ (by omega), setWord_outside _ (by omega)]

theorem loadedMemory_loaded : Loaded (Loader.setupPage loadedMemory) 0x2000000 0x903 := by
  have low {a : Nat} (below : a + 4 ≤ 0x100000) : word (Loader.setupPage loadedMemory) a =
      word loadedMemory a :=
    word_congr fun x _ _ => Loader.setupPage_outside (by omega)
  refine ⟨⟨loadedMemory, fun x _ => rfl⟩, ?_, ?_, ⟨by decide, by decide⟩, fun i _ => ?_⟩
  · rw [low (by decide)]
    unfold loadedMemory
    rw [word_setWord_outside _ (by decide), word_setWord]
  · rw [low (by decide)]
    unfold loadedMemory
    rw [word_setWord]
  · unfold heapEntry
    rw [Loader.setupPage_rest (by omega)]
    have zero : entry loadedMemory (0x101 + (256 + i) / 1024) ((256 + i) % 1024) = 0 :=
      word_zero fun x above _ => loadedMemory_zero (by omega)
    rw [zero]
    rfl

theorem entryMachine_starting {m : ByteMemory.Memory} {allMem gdtBase : U32}
    (loaded : Loaded m allMem gdtBase) :
    Starting (entryMachine m) allMem gdtBase :=
  ⟨loaded, rfl, rfl, rfl, rfl, rfl⟩

theorem mallocKernelPages_post_first : ∃ s v t, AllocReached 0x2000000 0x903 s ∧
    mallocKernelPages 1 s = .ok v t ∧ v ≠ 0 ∧ KernelPages s 1 v t := by
  obtain ⟨s, tail, done, settled, -⟩ := memoryInit_ok (entryMachine_starting loadedMemory_loaded)
  have reached : AllocReached 0x2000000 0x903 s := .start (entryMachine_starting loadedMemory_loaded) done
  have room : 0 + 1 ≤ 8 * (kernelPages 0x2000000 / 8) := by decide
  obtain ⟨t, g', called, -⟩ := mallocKernelPages_ok settled Nat.one_pos (show 1 < 3840 by omega) room
  have success : heapAddr 0 ≠ 0 := by decide
  exact ⟨s, heapAddr 0, t, reached, called, success, mallocKernelPages_post reached called success⟩

end LiziOS.Memory
