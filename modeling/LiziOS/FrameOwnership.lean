import LiziOS.KernelAllocation
import LiziOS.UserCalls
import LiziOS.MemorySystem

namespace LiziOS.Memory

open ByteMemory Paging

/-! Which frame belongs to what, in every state of every run of calls by any threads. -/

variable {s t u : Machine} {g g' : Layout} {role role' : Nat → Role} {thread : U32} {frame dir bits n : Nat}

/-- The kernel after `memory_init` and `thread_init`, on the first page of the stack. -/
def Prepared (s : Machine) (allMem gdtBase : U32) : Prop :=
  ∃ before after, Starting before allMem gdtBase ∧ before.runningThread = 0xc009e000 ∧
    memoryInit before = .ok () after ∧ threadInit after = .ok () s

/-- The calls of the threads, one at a time. -/
def calls (allMem gdtBase : U32) : Transition.System Machine Act Fault where
  start s := Prepared s allMem gdtBase
  step := step

/-- User pages are asked for in the range of the caller's bitmap, names fit into the PCB, and what
    makes a thread gets the pages that it asks for. -/
def Proper (s : Machine) (a : Act) : Prop :=
  match a.call with
  | .mallocKernelPages _ => True
  | .mallocUserPages _ => True
  | .getAPage vaddr => Managed vaddr
  | .processExecute _ name => name.length < 16 ∧ ∀ t, step s a = some (.ok t) → Succeeds s t
  | .threadStart name _ _ _ => name.length < 16 ∧ ∀ t, step s a = some (.ok t) → Succeeds s t

/-! The invariant. -/

structure Sound (s : Machine) (g : Layout) (role : Nat → Role) : Prop where
  settled : Settled s g
  threads : ∀ thread ∈ s.threadAllList, Known s.phys g role thread
  dirs : ∀ d ∈ g.dirs, BitVec.ofNat 32 (4096 * d) ∈ s.pageDirs
  made : ∀ a ∈ s.pageDirs, ∃ d ∈ g.dirs, a = BitVec.ofNat 32 (4096 * d)
  tables : ∀ frame d p, g.use frame = .table d p → 32 ≤ p

theorem Sound.advance (sound : Sound s g role) {new : List Nat}
    (advance : Advance 32 s t g g' role role' new) : Sound t g' role' := by
  have valid := sound.settled.rep.core.valid
  have valid' := advance.settled.rep.core.valid
  refine ⟨advance.settled, ?_, ?_, ?_, ?_⟩
  · intro thread member
    rcases advance.known thread member with old | known
    · exact (sound.threads thread old).keep valid valid' advance.extended (advance.pcbs thread)
    · exact known
  · intro d member
    rw [advance.dirs, List.mem_append] at member
    rw [advance.pageDirs, List.mem_append]
    rcases member with fresh | old
    · exact .inr (List.mem_map_of_mem fresh)
    · exact .inl (sound.dirs d old)
  · intro a member
    rw [advance.pageDirs, List.mem_append, List.mem_map] at member
    rw [advance.dirs]
    rcases member with old | ⟨d, fresh, eq⟩
    · obtain ⟨d, isDir, eq⟩ := sound.made a old
      exact ⟨d, List.mem_append_right _ isDir, eq⟩
    · exact ⟨d, List.mem_append_left _ fresh, eq.symm⟩
  · intro frame d p use
    rcases advance.tables frame d p use with old | above
    · exact sound.tables frame d p old
    · exact above

/-! The switch to the caller. -/

/-- The value of CR3 for the thread whose PCB lies in the frame. -/
inductive Active (m : ByteMemory.Memory) (g : Layout) (frame : Nat) : U32 → Prop where
  | kernel (pgdir : field m frame Pcb.pgdir = 0) : Active m g frame 0x100000
  | process {i d : Nat} (pgdir : field m frame Pcb.pgdir = heapAddr i) (use : g.use d = .heap i)
      (member : d ∈ g.dirs) : Active m g frame (BitVec.ofNat 32 (4096 * d))

theorem dir_root (valid : g.Valid) {d : Nat} (member : d ∈ g.dirs) :
    (BitVec.ofNat 32 (4096 * d)).toNat / 4096 = d := by
  have small := valid.dir_small member
  rw [BitVec.toNat_ofNat, Nat.mod_eq_of_lt (by omega), Nat.mul_div_cancel_left d (by decide)]

theorem Active.root {m : ByteMemory.Memory} {cr3 : U32} (active : Active m g frame cr3) (valid : g.Valid) :
    g.Root (cr3.toNat / 4096) := by
  cases active with
  | kernel => exact .inl rfl
  | process pgdir use member =>
    rw [dir_root valid member]
    exact .inr member

/-- What a switch changes besides CR3 says nothing about memory. -/
theorem Represents.switched (rep : Represents s g) (ready : List U32) (next : U32) (tss : Tss) {cr3 : U32}
    (root : g.Root (cr3.toNat / 4096)) :
    Represents { s with threadReadyList := ready, runningThread := next, cr3 := cr3, tss := tss } g := by
  obtain ⟨core, -, checked, bitmap, start, heap, nodup, owned⟩ := rep
  refine ⟨core, root, checked, fun type => ?_, fun type => ?_, heap, nodup, owned⟩
  · have old := bitmap type
    cases type <;> exact old
  · have old := start type
    cases type <;> exact old

theorem Settled.switched (settled : Settled s g) (ready : List U32) (next : U32) (tss : Tss) {cr3 : U32}
    (root : g.Root (cr3.toNat / 4096)) :
    Settled { s with threadReadyList := ready, runningThread := next, cr3 := cr3, tss := tss } g := by
  refine ⟨settled.rep.switched ready next tss root, settled.mapped, fun type => ?_⟩
  have free := settled.lock type
  cases type <;> exact free

theorem Sound.switched (sound : Sound s g role) (ready : List U32) (next : U32) (tss : Tss) {cr3 : U32}
    (root : g.Root (cr3.toNat / 4096)) :
    Sound { s with threadReadyList := ready, runningThread := next, cr3 := cr3, tss := tss } g role :=
  ⟨sound.settled.switched ready next tss root, sound.threads, sound.dirs, sound.made, sound.tables⟩

theorem PageAt.nonzero (page : PageAt g thread frame) (valid : g.Valid) : thread ≠ 0 := by
  rcases page with ⟨rfl, -⟩ | ⟨i, rfl, use, -⟩
  · decide
  · obtain ⟨inside, short⟩ := valid.heap_small use
    intro zero
    have value := heapAddr_toNat (i := i) (by omega)
    rw [zero, show (0 : U32).toNat = 0 from rfl] at value
    omega

theorem heapAddr_nonzero (valid : g.Valid) {i : Nat} (use : g.use frame = .heap i) : heapAddr i ≠ 0 := by
  obtain ⟨inside, short⟩ := valid.heap_small use
  intro zero
  have value := heapAddr_toNat (i := i) (by omega)
  rw [zero, show (0 : U32).toNat = 0 from rfl] at value
  omega

theorem processActivate_ok (rep : Represents s g) (page : PageAt g thread frame) {cr3 : U32}
    (active : Active s.phys g frame cr3) :
    ∃ tss, processActivate thread s = .ok () { s with cr3 := cr3, tss := tss } ∧
      (field s.phys frame Pcb.pgdir ≠ 0 → tss.esp0 = thread + pgSize) := by
  have valid := rep.core.valid
  have load := page.load rep (o := Pcb.pgdir) (by decide) (by decide)
  have after : Represents { s with cr3 := cr3 } g :=
    rep.switched s.threadReadyList s.runningThread s.tss (active.root valid)
  have load' : load32 (thread + Pcb.pgdir) { s with cr3 := cr3 } = _ :=
    page.load after (by decide) (by decide)
  have started : Memory.assert (decide (thread ≠ 0)) .processActivate s = .ok () s := by
    rw [decide_eq_true (page.nonzero valid)]
    exact assert_true _ s
  unfold processActivate
  rw [Program.bind_ok started]
  cases active with
  | kernel pgdir =>
    change _ = EStateM.Result.ok (field s.phys frame Pcb.pgdir) _ at load'
    rw [pgdir] at load load'
    have activated : pageDirActivate thread s = .ok () { s with cr3 := 0x100000 } := by
      unfold pageDirActivate
      rw [Program.bind_ok load]
      rfl
    refine ⟨s.tss, ?_, fun process => absurd pgdir process⟩
    rw [Program.bind_ok activated, Program.bind_ok load']
    rfl
  | @process i d pgdir use member =>
    have nonzero := heapAddr_nonzero valid use
    change _ = EStateM.Result.ok (field s.phys frame Pcb.pgdir) _ at load'
    rw [pgdir] at load load'
    have activated : pageDirActivate thread s = .ok () { s with cr3 := BitVec.ofNat 32 (4096 * d) } := by
      unfold pageDirActivate
      rw [Program.bind_ok load, if_pos nonzero, Program.bind_ok (vaddrToPaddr_heap rep use)]
      rfl
    refine ⟨{ s.tss with esp0 := thread + pgSize }, ?_, fun _ => rfl⟩
    rw [Program.bind_ok activated, Program.bind_ok load', if_pos nonzero]
    rfl

/-! One call. -/

/-- A call for user pages writes into no PCB. -/
theorem UserCall.advance (call : UserCall 32 s t g g' bits) (settled : Settled t g')
    (process : Process s.phys g role frame dir bits) : Advance 32 s t g g' role role [] where
  settled := settled
  extended := call.grown.extends role
  pcbs _ frame' pcb x same := call.data x (by rw [same]; exact pcb.page.data)
    (by rw [same]; exact process.pcb_apart pcb)
  dirs := call.grown.dirs
  pageDirs := by rw [call.same]; exact (List.append_nil _).symm
  tables := call.grown.tables
  running := by rw [call.same]
  cr3 := by rw [call.same]
  known thread member := by
    rw [call.same] at member
    exact .inl member

theorem Settled.recorded (settled : Settled s g) (granted : List U32) :
    Settled { s with granted := granted } g :=
  settled.fields ⟨rfl, rfl, fun type => by cases type <;> rfl, fun type => by cases type <;> rfl, rfl⟩ rfl rfl
    fun type => by cases type <;> rfl

/-- What the caller's switch leaves: the caller runs, on its own directory. -/
theorem switchTo_ok (sound : Sound s g role) (ready : List U32) (known : Known s.phys g role thread) :
    ∃ u, switchTo thread { s with threadReadyList := ready } = .ok () u ∧ Sound u g role ∧ u.granted = s.granted ∧
      (u.threadReadyList = ready ∧ u.threadAllList = s.threadAllList) ∧ u.runningThread = thread ∧
      ∃ frame, PcbAt g role thread frame ∧
        (KernelThread u.phys frame ∨ ∃ bits, Process u.phys g role frame u.root bits) := by
  have valid := sound.settled.rep.core.valid
  have rep : Represents { s with threadReadyList := ready } g := sound.settled.rep.switched
    ready s.runningThread s.tss sound.settled.rep.root
  obtain ⟨frame, pcb, kernel | ⟨dir, bits, process⟩⟩ := known
  · obtain ⟨tss, done, -⟩ := processActivate_ok rep pcb.page (.kernel kernel.pgdir)
    refine ⟨{ s with threadReadyList := ready, runningThread := thread, cr3 := 0x100000, tss := tss }, ?_,
      sound.switched ready thread tss (.inl rfl), rfl, ⟨rfl, rfl⟩, rfl, frame, pcb, .inl kernel⟩
    unfold switchTo
    rw [Program.bind_ok done]
    rfl
  · obtain ⟨i, pgdir, use, member⟩ := process.pgdir
    obtain ⟨tss, done, -⟩ := processActivate_ok rep pcb.page (.process pgdir use member)
    have root := dir_root valid member
    refine ⟨{ s with
      threadReadyList := ready
      runningThread := thread
      cr3 := BitVec.ofNat 32 (4096 * dir)
      tss := tss }, ?_, sound.switched ready thread tss (by rw [root]; exact .inr member), rfl, ⟨rfl, rfl⟩, rfl,
      frame, pcb, .inr ⟨bits, ?_⟩⟩
    · unfold switchTo
      rw [Program.bind_ok done]
      rfl
    · unfold Machine.root
      rw [root]
      exact process

theorem step_completed {a : Act} (stepped : step s a = some (.ok t)) :
    a.caller ∈ s.threadAllList ∧ a.run s = .ok () t := by
  unfold step at stepped
  split at stepped
  · rename_i possible
    refine ⟨possible.1, ?_⟩
    split at stepped
    · rename_i result done
      cases stepped
      exact done
    · cases stepped
  · cases stepped

theorem step_ok {caller : U32} {ready : List U32} {call : Call} (member : caller ∈ s.threadAllList)
    (listed : ready ⊆ s.threadAllList) (switched : switchTo caller { s with threadReadyList := ready } = .ok () u)
    (called : call.run u = .ok () t) : step s ⟨caller, ready, call⟩ = some (.ok t) := by
  have done : (⟨caller, ready, call⟩ : Act).run s = .ok () t := by
    unfold Act.run
    rw [Program.bind_modify, Program.bind_ok switched]
    exact called
  unfold step
  rw [if_pos ⟨member, listed⟩, done]

theorem Sound.step {a : Act} (sound : Sound s g role) (proper : Proper s a)
    (stepped : step s a = some (.ok t)) : ∃ g' role', Sound t g' role' := by
  obtain ⟨member, done⟩ := step_completed stepped
  obtain ⟨u, switched, sound₁, granted, -, running, frame, pcb, thread⟩ :=
    switchTo_ok sound a.ready (sound.threads _ member)
  have valid := sound₁.settled.rep.core.valid
  have called : a.call.run u = .ok () t := by
    unfold Act.run at done
    rw [Program.bind_modify, Program.bind_ok switched] at done
    exact done
  have successes (success : Succeeds s t) : Succeeds u t := by
    unfold Succeeds
    rw [granted]
    exact success
  unfold Proper at proper
  cases request : a.call with
  | mallocKernelPages count =>
    rw [request] at called
    obtain ⟨v, w, result, last⟩ := Program.bind_completed called
    cases last
    rcases mallocKernelPages_cases sound₁.settled result with ⟨g', took⟩ | ⟨-, rfl⟩
    · exact ⟨g', role, sound₁.advance (took.advance valid 32 role)⟩
    · exact ⟨g, role, sound₁.settled.recorded _, sound₁.threads, sound₁.dirs, sound₁.made, sound₁.tables⟩
  | mallocUserPages count =>
    rw [request] at called
    obtain ⟨v, w, result, last⟩ := Program.bind_completed called
    cases last
    rcases thread with kernel | ⟨bits, process⟩
    · obtain ⟨fault, w, stopped⟩ := mallocUserPages_kernel sound₁.settled (by rw [running]; exact pcb) kernel count
      rw [result] at stopped
      contradiction
    · obtain ⟨g', call, settled⟩ := mallocUserPages_completed sound₁.settled ⟨running, pcb, process⟩ result
      exact ⟨g', role, sound₁.advance (call.advance settled process)⟩
  | getAPage vaddr =>
    rw [request] at called proper
    obtain ⟨v, w, result, last⟩ := Program.bind_completed called
    cases last
    rcases thread with kernel | ⟨bits, process⟩
    · obtain ⟨fault, w, stopped⟩ := getAPage_kernel sound₁.settled (by rw [running]; exact pcb.page) kernel vaddr
      rw [result] at stopped
      contradiction
    · obtain ⟨g', call, settled⟩ := getAPage_completed sound₁.settled ⟨running, pcb, process⟩ proper result
      exact ⟨g', role, sound₁.advance (call.advance settled process)⟩
  | processExecute filename name =>
    rw [request] at called proper
    obtain ⟨g', role', d, advance⟩ := processExecute_completed sound₁.settled 32 role proper.1 called
      (successes (proper.2 t stepped))
    exact ⟨g', role', sound₁.advance advance⟩
  | threadStart name prio function funcArg =>
    rw [request] at called proper
    obtain ⟨v, w, result, last⟩ := Program.bind_completed called
    cases last
    obtain ⟨g', role', advance⟩ := threadStart_completed sound₁.settled 32 role proper.1 result
      (successes (proper.2 t stepped))
    exact ⟨g', role', sound₁.advance advance⟩

/-! The runs. -/

theorem threadInit_ok (settled : Settled s g) (stack : s.runningThread = 0xc009e000) :
    ∃ t, threadInit s = .ok () t ∧ Settled t g ∧ t.threadAllList = [0xc009e000] ∧
      KernelThread t.phys 0x9e ∧ t.pageDirs = s.pageDirs ∧ t.runningThread = s.runningThread ∧ t.cr3 = s.cr3 ∧
      ∀ x, x / 4096 ≠ 0x9e → t.phys x = s.phys x := by
  have page : PageAt g (0xc009e000 : U32) 0x9e := .inl ⟨rfl, rfl⟩
  have settled₁ : Settled { s with
      threadReadyList := [], threadAllList := [], mainThread := s.runningThread } g :=
    settled.fields ⟨rfl, rfl, fun type => by cases type <;> rfl, fun type => by cases type <;> rfl, rfl⟩ rfl rfl
      fun type => by cases type <;> rfl
  obtain ⟨s₂, done, written, fields⟩ := initThread_ok page settled₁.rep [0x6d, 0x61, 0x69, 0x6e] 31 (by decide)
  have settled₂ := settled₁.same written.same written.rep
  have empty : s₂.threadAllList = [] := by rw [written.same]
  have absent : (!elemFind s₂.threadAllList 0xc009e000) = true := by
    rw [empty]
    rfl
  refine ⟨{ s₂ with threadAllList := listAppend s₂.threadAllList 0xc009e000 }, ?_, ?_, ?_, fields.kernel, ?_⟩
  · unfold threadInit makeMainThread
    rw [Program.bind_modify, Program.bind_modify, Program.bind_get]
    dsimp only
    rw [stack] at done ⊢
    rw [Program.bind_ok done, Program.bind_get, absent, Program.bind_ok (assert_true _ s₂)]
    rfl
  · exact settled₂.fields ⟨rfl, rfl, fun type => by cases type <;> rfl, fun type => by cases type <;> rfl, rfl⟩ rfl
      rfl fun type => by cases type <;> rfl
  · rw [empty]
    rfl
  · refine ⟨?_, ?_, ?_, fun x other => written.other (by decide) x other⟩
    · change s₂.pageDirs = _
      rw [written.same]
    · change s₂.runningThread = _
      rw [written.same]
    · change s₂.cr3 = _
      rw [written.same]

theorem Prepared.sound {allMem gdtBase : U32} (prepared : Prepared s allMem gdtBase) :
    ∃ tail, Sound s (bootLayout (kernelPages allMem) (userPages allMem) tail) fun _ => .pcb := by
  obtain ⟨before, after, starting, stack, initialized, threads⟩ := prepared
  obtain ⟨u, tail, called, settled, -, pageDirs, running, -⟩ := memoryInit_ok starting
  rw [initialized] at called
  cases called
  obtain ⟨t, done, settled', list, kernel, kept, -⟩ := threadInit_ok settled (running.trans stack)
  rw [threads] at done
  cases done
  refine ⟨tail, settled', ?_, fun d member => (nomatch member), ?_, fun frame d p use => (nomatch use)⟩
  · rw [list]
    intro thread member
    rw [List.mem_singleton] at member
    subst member
    exact ⟨0x9e, ⟨.inl ⟨rfl, rfl⟩, fun _ _ => rfl⟩, .inl kernel⟩
  · rw [kept, pageDirs]
    exact fun a member => nomatch member

theorem calls_sound {allMem gdtBase : U32} (reached : (calls allMem gdtBase).ReachableBy Proper s) :
    ∃ g role, Sound s g role := by
  induction reached with
  | start begun =>
    obtain ⟨tail, sound⟩ := Prepared.sound begun
    exact ⟨_, _, sound⟩
  | next earlier permitted stepped ih =>
    obtain ⟨g, role, sound⟩ := ih
    exact sound.step permitted stepped

/-! What the page tables say. -/

/-- A present entry names the frame, as the one for the page of the heap, for the page table of a
    directory or for the user page of a directory. -/
inductive Names (s : Machine) : Use → Nat → Prop where
  | heap {i frame : Nat} (inside : i < 8 * s.kernelVaddr.addrBitmap.length.toNat)
      (walk : Paging.walk s.phys 0x100 (0xc0100 + i) = some frame) : Names s (.heap i) frame
  | table {a : U32} {p : Nat} (member : a ∈ s.pageDirs) (user : p < 768)
      (present : present (entry s.phys (a.toNat / 4096) p) = true) :
      Names s (.table (a.toNat / 4096) p) (frameOf (entry s.phys (a.toNat / 4096) p))
  | page {a : U32} {v frame : Nat} (member : a ∈ s.pageDirs) (user : v < 768 * 1024)
      (walk : Paging.walk s.phys (a.toNat / 4096) v = some frame) : Names s (.page (a.toNat / 4096) v) frame

/-- Frames for user pages come from `user_pool`, all others from `kernel_pool`. -/
def Use.pool : Use → PoolType
  | .page _ _ => .userPool
  | _ => .kernelPool

/-- Which frame belongs to what. -/
structure Ownership (s : Machine) : Prop where
  /-- `paddr_get_page` has handed out every frame once -/
  once : s.handed.Nodup
  /-- an entry names a frame that no other entry names -/
  single : ∀ use use' frame, Names s use frame → Names s use' frame → use = use'
  /-- the frame lies in the pool and its bit is set -/
  marked : ∀ use frame, Names s use frame → ∃ k < 8 * (s.pool use.pool).poolBitmap.length.toNat,
    4096 * frame = (s.pool use.pool).phyAddrStart.toNat + 4096 * k ∧
      bitAt s (s.pool use.pool).poolBitmap k = some true
  disjoint : ∀ i < 8 * s.kernelPool.poolBitmap.length.toNat, ∀ j < 8 * s.userPool.poolBitmap.length.toNat,
    s.kernelPool.phyAddrStart.toNat + 4096 * i ≠ s.userPool.phyAddrStart.toNat + 4096 * j

theorem Sound.dir_member (sound : Sound s g role) {a : U32} (member : a ∈ s.pageDirs) :
    a.toNat / 4096 ∈ g.dirs := by
  obtain ⟨d, isDir, rfl⟩ := sound.made a member
  rw [dir_root sound.settled.rep.core.valid isDir]
  exact isDir

theorem Represents.lengths (rep : Represents s g) :
    s.kernelVaddr.addrBitmap.length.toNat = g.kernelLength ∧
      ∀ type, (s.pool type).poolBitmap.length.toNat = g.length type ∧
        (s.pool type).phyAddrStart.toNat = 4096 * g.first type := by
  have small := rep.core.valid.pool_small
  have few : g.kernelLength ≤ 4096 := (small .kernelPool).2.2.1
  refine ⟨?_, fun type => ⟨?_, ?_⟩⟩
  · rw [rep.heap]
    dsimp only
    rw [BitVec.toNat_ofNat, Nat.mod_eq_of_lt (by omega)]
  · have bound := (small type).2.2.1
    rw [rep.bitmap]
    dsimp only
    rw [BitVec.toNat_ofNat, Nat.mod_eq_of_lt (by omega)]
  · have bound := (small type).2.2.2
    rw [rep.start, BitVec.toNat_ofNat, Nat.mod_eq_of_lt (by omega)]

theorem Sound.use_of_names (sound : Sound s g role) {use : Use} (names : Names s use frame) :
    g.use frame = use := by
  have core := sound.settled.rep.core
  have valid := core.valid
  cases names with
  | @heap i _ inside walk =>
    rw [sound.settled.rep.lengths.1] at inside
    have small := valid.heap_table inside
    have pde := valid.kernelHalf 0x100 (.inl rfl) ((256 + i) / 1024) (by omega)
    rw [show 768 + (256 + i) / 1024 = (0xc0100 + i) / 1024 by omega] at pde
    have number : (256 + i) % 1024 = (0xc0100 + i) % 1024 := by omega
    by_cases mapped : i < g.heapMapped
    · obtain ⟨target, slot, use⟩ := valid.mapped i mapped
      unfold Layout.heapSlot at slot
      rw [number] at slot
      rw [core.tables.walk pde slot (by omega)] at walk
      cases walk
      exact use
    · have slot := valid.unmapped i (by omega) inside
      unfold Layout.heapSlot at slot
      rw [number] at slot
      rw [core.tables.walk_no_page pde slot (by omega)] at walk
      cases walk
  | @table a p member user present =>
    rcases valid.userHalf _ (sound.dir_member member) p user with absent | ⟨t, slot, use⟩
    · rw [(core.tables _).absent p (by omega) absent] at present
      cases present
    · obtain ⟨entryEq, small⟩ := (core.tables _).maps p (by omega) t slot
      rw [entryEq, frameOf_mk small]
      exact use
  | @page a v _ member user walk =>
    rcases valid.userHalf _ (sound.dir_member member) (v / 1024) (by omega) with absent | ⟨t, slot, use⟩
    · rw [core.tables.walk_no_table absent (by omega)] at walk
      cases walk
    · obtain ⟨-, -, -, rows⟩ := valid.table t _ _ use
      rcases rows (v % 1024) (by omega) with absent | ⟨target, pte, page⟩
      · rw [core.tables.walk_no_page slot absent (by omega)] at walk
        cases walk
      · rw [core.tables.walk slot pte (by omega)] at walk
        cases walk
        rw [page, Nat.div_add_mod]

theorem Sound.marked (sound : Sound s g role) (type : PoolType) {k : Nat}
    (taken : frame = g.first type + k) (used : k < g.used type) (inside : k < 8 * g.length type) :
    ∃ k < 8 * (s.pool type).poolBitmap.length.toNat,
      4096 * frame = (s.pool type).phyAddrStart.toNat + 4096 * k ∧
        bitAt s (s.pool type).poolBitmap k = some true := by
  have rep := sound.settled.rep
  obtain ⟨length, start⟩ := rep.lengths.2 type
  have small := rep.core.valid.pool_small type
  refine ⟨k, by rw [length]; exact inside, by rw [start, taken]; omega, ?_⟩
  rw [rep.bitmap, bitAt_low rep _ (by omega), rep.core.bits type k inside, decide_eq_true used]

theorem Sound.ownership (sound : Sound s g role) : Ownership s := by
  have rep := sound.settled.rep
  have valid := rep.core.valid
  have kernelUsed := valid.kernelUsed
  have userUsed := valid.userUsed
  refine ⟨rep.nodup, ?_, ?_, ?_⟩
  · intro use use' frame names names'
    rw [← sound.use_of_names names, ← sound.use_of_names names']
  · intro use frame names
    have known := sound.use_of_names names
    have kernel (owned : g.InKernel frame) := sound.marked .kernelPool (k := frame - 0x200)
      (by obtain ⟨low, high⟩ := owned; change frame = 0x200 + _; omega)
      (by obtain ⟨low, high⟩ := owned; change _ < g.kernelUsed; omega)
      (by obtain ⟨low, high⟩ := owned; change _ < 8 * g.kernelLength; omega)
    cases use with
    | free => cases names
    | heap i => exact kernel (valid.heapFrame frame i known)
    | table d p => exact kernel (valid.tableFrame frame d p known)
    | page d v =>
      obtain ⟨low, high⟩ := valid.pageFrame frame d v known
      exact sound.marked .userPool (k := frame - (0x200 + g.kernelFree))
        (by change frame = 0x200 + g.kernelFree + _; omega) (by change _ < g.userUsed; omega)
        (by change _ < 8 * g.userLength; omega)
  · intro i iLess j jLess
    obtain ⟨kernelLength, kernelStart⟩ := rep.lengths.2 .kernelPool
    obtain ⟨-, userStart⟩ := rep.lengths.2 .userPool
    change s.kernelPool.poolBitmap.length.toNat = g.kernelLength at kernelLength
    change s.kernelPool.phyAddrStart.toNat = 4096 * 0x200 at kernelStart
    change s.userPool.phyAddrStart.toNat = 4096 * (0x200 + g.kernelFree) at userStart
    rw [kernelLength] at iLess
    rw [kernelStart, userStart]
    unfold Layout.kernelLength at iLess
    omega

end LiziOS.Memory
