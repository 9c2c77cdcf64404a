import LiziOS.ManagedRange
import LiziOS.SharedKernel
import LiziOS.UserPages

namespace LiziOS.Memory

open ByteMemory Paging

/-! User programs that store in their own half of the address space, between the calls of all threads. -/

/-- A call, or one byte that a user program stores. -/
inductive Work where
  | call (act : Act)
  | store (caller : U32) (ready : List U32) (a : U32) (byte : U8)

/-- The thread that stores. -/
def Work.storer : Work → Option U32
  | .call _ => none
  | .store caller _ _ _ => some caller

def storeRun (caller : U32) (ready : List U32) (a : U32) (byte : U8) : M Unit := do
  modify fun s => { s with threadReadyList := ready }
  switchTo caller
  store8 a byte

/-- Only threads run, and only threads are ready. -/
def CanStore (s : Machine) (caller : U32) (ready : List U32) : Prop :=
  caller ∈ s.threadAllList ∧ ready ⊆ s.threadAllList

theorem canStore_iff (s : Machine) (caller : U32) (ready : List U32) :
    s.threadAllList.elem caller = true ∧ ready ⊆ s.threadAllList ↔ CanStore s caller ready :=
  and_congr_left' List.elem_iff

instance (s : Machine) (caller : U32) (ready : List U32) : Decidable (CanStore s caller ready) :=
  decidable_of_iff _ (canStore_iff s caller ready)

def Work.step (s : Machine) : Work → Option (Except Fault Machine)
  | .call act => Memory.step s act
  | .store caller ready a byte =>
    if CanStore s caller ready then
      match storeRun caller ready a byte s with
      | .ok _ t => some (.ok t)
      | .error fault _ => some (.error fault)
    else none

/-- The thread has a page directory. -/
def HasSpace (s : Machine) (thread : U32) : Prop :=
  ∃ pgdir, load32 (thread + Pcb.pgdir) s = .ok pgdir s ∧ pgdir ≠ 0

/-- User programs stay below 3 GiB. -/
def Permitted (s : Machine) : Work → Prop
  | .call act => Proper s act
  | .store caller _ a _ => HasSpace s caller ∧ a.toNat < 0xc0000000

def programs (allMem gdtBase : U32) : Transition.System Machine Work Fault where
  start s := Prepared s allMem gdtBase
  step := Work.step

/-- What the thread would find at the address if it ran now. -/
def sees (s : Machine) (thread a : U32) : Option U8 :=
  match (do switchTo thread; load8 a : M U8) s with
  | .ok byte _ => some byte
  | .error _ _ => none

variable {s t u : Machine} {g g' : Layout} {role role' : Nat → Role} {thread a : U32} {byte : U8}
  {frame dir bits f n o : Nat} {m m' : ByteMemory.Memory}

/-- The process has mapped the page of the address, and its byte there has the value. -/
structure Shows (s : Machine) (g : Layout) (role : Nat → Role) (thread a : U32) (byte : U8) : Prop where
  sound : Sound s g role
  there : ∃ frame dir bits f, PcbAt g role thread frame ∧ Process s.phys g role frame dir bits ∧
    g.use f = .page dir (a.toNat / 4096) ∧ s.phys (4096 * f + a.toNat % 4096) = byte

/-! The switch to the thread. -/

theorem switchTo_phys (sound : Sound s g role) (ready : List U32) (known : Known s.phys g role thread)
    (done : switchTo thread { s with threadReadyList := ready } = .ok () u) : u.phys = s.phys := by
  have rep : Represents { s with threadReadyList := ready } g := sound.settled.rep.switched
    ready s.runningThread s.tss sound.settled.rep.root
  unfold switchTo at done
  obtain ⟨frame, pcb, kernel | ⟨dir, bits, process⟩⟩ := known
  · obtain ⟨tss, activated, -⟩ := processActivate_ok rep pcb.page (.kernel kernel.pgdir)
    rw [Program.bind_ok activated] at done
    cases done
    rfl
  · obtain ⟨i, pgdir, use, member⟩ := process.pgdir
    obtain ⟨tss, activated, -⟩ := processActivate_ok rep pcb.page (.process pgdir use member)
    rw [Program.bind_ok activated] at done
    cases done
    rfl

/-- A thread with a page directory is a process. -/
theorem HasSpace.process (space : HasSpace s thread) (sound : Sound s g role) (pcb : PcbAt g role thread frame) :
    ¬ KernelThread s.phys frame := by
  intro kernel
  obtain ⟨pgdir, loaded, some⟩ := space
  rw [pcb.page.load sound.settled.rep (by decide) (by decide), kernel.pgdir] at loaded
  cases loaded
  exact some rfl

/-- The kernel's tables tell where the page is, whatever else is known of them. -/
theorem PageAt.unique (page : PageAt g thread frame) (page' : PageAt g' thread f) (core : Core m g)
    (core' : Core m g') : f = frame := by
  have here := page.translate core (.inl rfl) (o := 0) (by decide)
  have there := page'.translate core' (.inl rfl) (o := 0) (by decide)
  rw [here, Option.some.injEq] at there
  omega

/-- The switch to a process, on the frames that are known of it. -/
theorem switchTo_process (sound : Sound s g role) (ready : List U32) (pcb : PcbAt g role thread frame)
    (process : Process s.phys g role frame dir bits) :
    ∃ u, switchTo thread { s with threadReadyList := ready } = .ok () u ∧ Sound u g role ∧ u.phys = s.phys ∧
      u.root = dir ∧ u.threadAllList = s.threadAllList := by
  obtain ⟨i, pgdir, use, member⟩ := process.pgdir
  have rep : Represents { s with threadReadyList := ready } g := sound.settled.rep.switched
    ready s.runningThread s.tss sound.settled.rep.root
  obtain ⟨tss, activated, -⟩ := processActivate_ok rep pcb.page (.process pgdir use member)
  have root := dir_root sound.settled.rep.core.valid member
  refine ⟨{ s with
    threadReadyList := ready
    runningThread := thread
    cr3 := BitVec.ofNat 32 (4096 * dir)
    tss := tss }, ?_, sound.switched ready thread tss (by rw [root]; exact .inr member), rfl, root, rfl⟩
  unfold switchTo
  rw [Program.bind_ok activated]
  rfl

/-- A process finds a byte where its tables map a page. -/
theorem Sound.page_of_walk (sound : Sound s g role) (member : dir ∈ g.dirs) (user : n < 768 * 1024)
    (walk : Paging.walk s.phys dir n = some f) : g.use f = .page dir n := by
  have root := dir_root sound.settled.rep.core.valid member
  rw [← root] at walk
  have use := sound.use_of_names (.page (sound.dirs dir member) user walk)
  rwa [root] at use

theorem Sound.translate_page (sound : Sound s g role) (use : g.use f = .page dir (a.toNat / 4096))
    (phys : u.phys = s.phys) (root : u.root = dir) : u.translate a = some (4096 * f + a.toNat % 4096) := by
  have translated := sound.settled.rep.core.translate_user use (o := a.toNat % 4096) (by omega)
  unfold Machine.translate
  rw [phys, root, ← translated, Nat.div_add_mod]

theorem shows_of_sees (sound : Sound s g role) (member : thread ∈ s.threadAllList) (space : HasSpace s thread)
    (user : a.toNat < 0xc0000000) (seen : sees s thread a = some byte) : Shows s g role thread a byte := by
  obtain ⟨frame, pcb, kernel | ⟨dir, bits, process⟩⟩ := sound.threads thread member
  · exact absurd kernel (space.process sound pcb)
  · obtain ⟨u, switched, -, phys, root, -⟩ := switchTo_process sound s.threadReadyList pcb process
    change switchTo thread s = .ok () u at switched
    unfold sees at seen
    rw [Program.bind_ok switched] at seen
    cases translated : u.translate a with
    | none =>
      rw [load8_fault translated] at seen
      contradiction
    | some p =>
      rw [load8_ok translated] at seen
      unfold Machine.translate Paging.translate at translated
      rw [phys, root, Option.map_eq_some_iff] at translated
      obtain ⟨f, walk, rfl⟩ := translated
      obtain ⟨i, -, -, dirs⟩ := process.pgdir
      have use := sound.page_of_walk dirs (by omega) walk
      rw [phys] at seen
      exact ⟨sound, frame, dir, bits, f, pcb, process, use, Option.some.inj seen⟩

theorem Shows.sees (shows' : Shows s g role thread a byte) : sees s thread a = some byte := by
  obtain ⟨frame, dir, bits, f, pcb, process, use, there⟩ := shows'.there
  obtain ⟨u, switched, -, phys, root, -⟩ := switchTo_process shows'.sound s.threadReadyList pcb process
  change switchTo thread s = .ok () u at switched
  have mapped := shows'.sound.translate_page use phys root
  unfold Memory.sees
  rw [Program.bind_ok switched, load8_ok mapped, phys]
  exact congrArg some there

/-! What the calls leave. -/

/-- The tables of a directory lie in frames of the kernel's pool. -/
theorem KernelOnly.walk (only : KernelOnly g s.phys t.phys) (core : Core s.phys g) (member : dir ∈ g.dirs)
    (use : g.use f = .page dir n) : Paging.walk t.phys dir n = some f := by
  have valid := core.valid
  obtain ⟨table, tableUse, slot⟩ := valid.page f dir n use
  obtain ⟨-, small, tableSlot, -⟩ := valid.table table dir _ tableUse
  have kernel (frame : Nat) (inside : g.InKernel frame) : ∀ x, x / 4096 = frame → t.phys x = s.phys x := by
    intro x same
    unfold Layout.InKernel at inside
    apply only
    · unfold InKernelTables InBitmaps
      omega
    · omega
  obtain ⟨i, dirUse⟩ := valid.dir dir member
  have pde := entry_congr (kernel dir (valid.heapFrame _ _ dirUse)) (show n / 1024 < 1024 by omega)
  have pte := entry_congr (kernel table (valid.tableFrame _ _ _ tableUse)) (show n % 1024 < 1024 by omega)
  obtain ⟨pdeEq, tableSmall⟩ := (core.tables dir).maps (n / 1024) (by omega) table tableSlot
  have old := core.tables.walk tableSlot slot (by omega)
  rw [← old]
  apply walk_congr pde
  intro _
  rw [pdeEq, frameOf_mk tableSmall]
  exact pte

/-- A call that takes frames of the kernel's pool. -/
theorem Shows.kernelCall {new : List Nat} (shows' : Shows s g role thread a byte) (user : a.toNat < 0xc0000000)
    (advance : Advance 32 s t g g' role role' new) (only : KernelOnly g s.phys t.phys) :
    Shows t g' role' thread a byte := by
  have sound := shows'.sound
  have sound' := sound.advance advance
  have valid := sound.settled.rep.core.valid
  obtain ⟨frame, dir, bits, f, pcb, process, use, there⟩ := shows'.there
  have process' : Process t.phys g' role' frame dir bits :=
    (process.same (advance.pcbs thread frame pcb)).keep valid advance.extended
  obtain ⟨i, -, -, member⟩ := process.pgdir
  have walk := only.walk sound.settled.rep.core member use
  refine ⟨sound', frame, dir, bits, f, pcb.keep valid sound'.settled.rep.core.valid advance.extended, process',
    sound'.page_of_walk (advance.extended.dirs dir member) (by omega) walk, ?_⟩
  have page : g.use ((4096 * f + a.toNat % 4096) / 4096) = .page dir (a.toNat / 4096) := by
    rw [show (4096 * f + a.toNat % 4096) / 4096 = f by omega]
    exact use
  obtain ⟨notTables, high⟩ := valid.page_apart page
  rw [only _ notTables (.inr high)]
  exact there

/-- A call for user pages, by whatever process. -/
theorem Shows.userCall (shows' : Shows s g role thread a byte) (advance : Advance 32 s t g g' role role [])
    (grown : UserGrown 32 g g') (same : SamePages g s.phys t.phys) : Shows t g' role thread a byte := by
  have sound' := shows'.sound.advance advance
  have valid := shows'.sound.settled.rep.core.valid
  obtain ⟨frame, dir, bits, f, pcb, process, use, there⟩ := shows'.there
  have process' : Process t.phys g' role frame dir bits :=
    (process.same (advance.pcbs thread frame pcb)).keep valid advance.extended
  have kept : g'.use f = .page dir (a.toNat / 4096) := (grown.keeps f (by rw [use]; exact nofun)).trans use
  refine ⟨sound', frame, dir, bits, f, pcb.keep valid sound'.settled.rep.core.valid advance.extended, process', kept, ?_⟩
  rw [same _ dir (a.toNat / 4096) (by rw [show (4096 * f + a.toNat % 4096) / 4096 = f by omega]; exact use)]
  exact there

theorem Shows.switched (shows' : Shows s g role thread a byte) (sound : Sound u g role) (phys : u.phys = s.phys) :
    Shows u g role thread a byte := by
  obtain ⟨frame, dir, bits, f, pcb, process, use, there⟩ := shows'.there
  exact ⟨sound, frame, dir, bits, f, pcb, phys ▸ process, use, phys ▸ there⟩

/-! What a store leaves. -/

/-- A byte of a user page is of no account for the memory system. -/
theorem Sound.storeUser (sound : Sound s g role) {d v : Nat} (use : g.use f = .page d v) (inside : o < 4096)
    (byte : U8) : Sound { s with phys := Function.update s.phys (4096 * f + o) byte } g role := by
  have rep := sound.settled.rep
  have valid := rep.core.valid
  have page : (4096 * f + o) / 4096 = f := by omega
  have core := rep.core.update (p := 4096 * f + o) (by rw [page]; exact valid.plain_page use) byte
  have settled : Settled { s with phys := Function.update s.phys (4096 * f + o) byte } g :=
    ⟨rep.write core rep.root ⟨rfl, rfl⟩ fun _ owned => owned, sound.settled.mapped, sound.settled.lock⟩
  have extended : Extends g g role role := (UserGrown.refl 32 g).extends role
  refine ⟨settled, fun thread member => ?_, sound.dirs, sound.made, sound.tables⟩
  apply (sound.threads thread member).keep valid valid extended
  intro frame pcb x same
  apply Function.update_of_ne
  rintro rfl
  have high := (valid.pageFrame f d v use).1
  have low := (pcb.page.inside valid).2
  have few := valid.kernelUsed
  unfold Layout.kernelLength at few
  omega

/-! No two processes share a directory. -/

/-- The field of the PCB. -/
def PgdirIs (s : Machine) (g : Layout) (role : Nat → Role) (thread pgdir : U32) : Prop :=
  ∃ frame, PcbAt g role thread frame ∧ field s.phys frame Pcb.pgdir = pgdir

def Separate (s : Machine) (g : Layout) (role : Nat → Role) : Prop :=
  ∀ thread ∈ s.threadAllList, ∀ other ∈ s.threadAllList, ∀ pgdir, pgdir ≠ 0 →
    PgdirIs s g role thread pgdir → PgdirIs s g role other pgdir → thread = other

/-- The field keeps its value. -/
theorem PgdirIs.back {pgdir : U32} {new : List Nat} (is : PgdirIs t g' role' thread pgdir)
    (sound : Sound s g role) (member : thread ∈ s.threadAllList) (advance : Advance 32 s t g g' role role' new) :
    PgdirIs s g role thread pgdir := by
  obtain ⟨frame', pcb', eq⟩ := is
  obtain ⟨frame, pcb, -⟩ := sound.threads thread member
  have rep' := advance.settled.rep
  have kept := pcb.keep sound.settled.rep.core.valid rep'.core.valid advance.extended
  have same := kept.page.unique pcb'.page rep'.core rep'.core
  subst same
  exact ⟨_, pcb, (field_same (by decide) (advance.pcbs thread _ pcb)).symm.trans eq⟩

/-- The directory of a thread is a page of the heap that is in use. -/
theorem PgdirIs.used {pgdir : U32} (is : PgdirIs s g role thread pgdir) (sound : Sound s g role)
    (member : thread ∈ s.threadAllList) (some : pgdir ≠ 0) : ∃ i < g.heapMapped, pgdir = heapAddr i := by
  obtain ⟨frame', pcb', eq⟩ := is
  obtain ⟨frame, pcb, kernel | ⟨dir, bits, process⟩⟩ := sound.threads thread member
  · have same := pcb.page.unique pcb'.page sound.settled.rep.core sound.settled.rep.core
    subst same
    exact absurd (eq.symm.trans kernel.pgdir) some
  · have same := pcb.page.unique pcb'.page sound.settled.rep.core sound.settled.rep.core
    subst same
    obtain ⟨i, page, use, -⟩ := process.pgdir
    exact ⟨i, (sound.settled.rep.core.valid.heap _ _ use).1, eq.symm.trans page⟩

theorem Separate.kept {new : List Nat} (separate : Separate s g role) (sound : Sound s g role)
    (advance : Advance 32 s t g g' role role' new) (all : t.threadAllList = s.threadAllList) :
    Separate t g' role' := by
  intro thread member other member' pgdir some is is'
  rw [all] at member member'
  exact separate thread member other member' pgdir some (is.back sound member advance)
    (is'.back sound member' advance)

theorem Separate.made {new : List Nat} (separate : Separate s g role) (sound : Sound s g role)
    (advance : Advance 32 s t g g' role role' new) (made : MadeThread s t g) : Separate t g' role' := by
  obtain ⟨fresh, loaded, unused⟩ := made.pgdir
  have mapped := sound.settled.mapped
  have valid := sound.settled.rep.core.valid
  have few := valid.heapMapped
  have used := valid.kernelUsed
  have small := valid.kernelFree
  unfold Layout.kernelLength at used
  -- the new thread has a directory that no other one has
  have apart (thread : U32) (member : thread ∈ s.threadAllList) (pgdir : U32) (some : pgdir ≠ 0)
      (is : PgdirIs t g' role' thread pgdir) (is' : PgdirIs t g' role' (heapAddr g.heapUsed) pgdir) : False := by
    obtain ⟨i, less, eq⟩ := (is.back sound member advance).used sound member some
    obtain ⟨frame, pcb, value⟩ := is'
    rw [pcb.page.load advance.settled.rep (by decide) (by decide)] at loaded
    cases loaded
    rcases unused with zero | ⟨j, other, low, high⟩
    · exact some (value.symm.trans zero)
    · have both := congrArg BitVec.toNat (eq.symm.trans (value.symm.trans other))
      rw [heapAddr_toNat (by omega), heapAddr_toNat (by omega)] at both
      omega
  intro thread member other member' pgdir some is is'
  rw [made.all, List.mem_append, List.mem_singleton] at member member'
  rcases member with old | rfl
  · rcases member' with old' | rfl
    · exact separate thread old other old' pgdir some (is.back sound old advance) (is'.back sound old' advance)
    · exact (apart thread old pgdir some is is').elim
  · rcases member' with old' | rfl
    · exact (apart other old' pgdir some is' is).elim
    · rfl

/-- What a step leaves of the threads and of what they have in their pages. -/
structure Keeps (s t : Machine) (g g' : Layout) (role role' : Nat → Role) : Prop where
  sound : Sound t g' role'
  separate : Separate t g' role'
  all : s.threadAllList ⊆ t.threadAllList
  bytes : ∀ thread a byte, a.toNat < 0xc0000000 → Shows s g role thread a byte → Shows t g' role' thread a byte

theorem Keeps.trans {g'' : Layout} {role'' : Nat → Role} (first : Keeps s u g g' role role')
    (second : Keeps u t g' g'' role' role'') : Keeps s t g g'' role role'' where
  sound := second.sound
  separate := second.separate
  all := fun _ member => second.all (first.all member)
  bytes thread a byte user shows' := second.bytes thread a byte user (first.bytes thread a byte user shows')

theorem Keeps.made {new : List Nat} (sound : Sound s g role) (separate : Separate s g role)
    (advance : Advance 32 s t g g' role role' new) (made : MadeThread s t g) : Keeps s t g g' role role' where
  sound := sound.advance advance
  separate := separate.made sound advance made
  all := by
    rw [made.all]
    exact List.subset_append_left _ _
  bytes _ _ _ user shows' := shows'.kernelCall user advance made.only

theorem Keeps.userCall {bits : Nat} (sound : Sound s g role) (separate : Separate s g role)
    (call : UserCall 32 s t g g' bits) (advance : Advance 32 s t g g' role role [])
    (same : SamePages g s.phys t.phys) : Keeps s t g g' role role where
  sound := sound.advance advance
  separate := separate.kept sound advance (by rw [call.same])
  all := by
    rw [call.same]
    exact List.Subset.refl _
  bytes _ _ _ _ shows' := shows'.userCall advance call.grown same

/-- Memory, the threads and the directories stay as they are. -/
theorem Keeps.still (separate : Separate s g role) (sound : Sound u g role) (phys : u.phys = s.phys)
    (all : u.threadAllList = s.threadAllList) : Keeps s u g g role role where
  sound := sound
  separate := by
    intro thread member other member' pgdir some is is'
    rw [all] at member member'
    obtain ⟨frame, pcb, value⟩ := is
    obtain ⟨frame', pcb', value'⟩ := is'
    rw [phys] at value value'
    exact separate thread member other member' pgdir some ⟨frame, pcb, value⟩ ⟨frame', pcb', value'⟩
  all := by
    rw [all]
    exact List.Subset.refl _
  bytes _ _ _ _ shows' := shows'.switched sound phys

/-- No call by any thread changes what a process has in its pages. -/
theorem call_keeps {act : Act} (sound : Sound s g role) (separate : Separate s g role) (proper : Proper s act)
    (stepped : Memory.step s act = some (.ok t)) : ∃ g' role', Keeps s t g g' role role' := by
  obtain ⟨member, done⟩ := step_completed stepped
  have known := sound.threads _ member
  obtain ⟨u, switched, sound₁, granted, lists, running, frame, pcb, caller⟩ := switchTo_ok sound act.ready known
  have still := Keeps.still separate sound₁ (switchTo_phys sound act.ready known switched) lists.2
  have separate₁ := still.separate
  have valid := sound₁.settled.rep.core.valid
  have called : act.call.run u = .ok () t := by
    unfold Act.run at done
    rw [Program.bind_modify, Program.bind_ok switched] at done
    exact done
  have successes (success : Succeeds s t) : Succeeds u t := by
    unfold Succeeds
    rw [granted]
    exact success
  unfold Proper at proper
  cases request : act.call with
  | mallocKernelPages count =>
    rw [request] at called
    obtain ⟨v, w, result, last⟩ := Program.bind_completed called
    cases last
    rcases mallocKernelPages_cases sound₁.settled result with ⟨g', took⟩ | ⟨-, rfl⟩
    · have advance := took.advance valid 32 role
      have all : t.threadAllList = u.threadAllList := by rw [took.granted]
      refine ⟨g', role, still.trans ⟨sound₁.advance advance, separate₁.kept sound₁ advance all, ?_, ?_⟩⟩
      · rw [all]
        exact List.Subset.refl _
      · exact fun _ _ _ user shows' => shows'.kernelCall user advance took.kernelOnly
    · have sound₂ : Sound { u with granted := u.granted ++ [0] } g role :=
        ⟨sound₁.settled.recorded _, sound₁.threads, sound₁.dirs, sound₁.made, sound₁.tables⟩
      exact ⟨g, role, still.trans (Keeps.still separate₁ sound₂ rfl rfl)⟩
  | mallocUserPages count =>
    rw [request] at called
    obtain ⟨v, w, result, last⟩ := Program.bind_completed called
    cases last
    rcases caller with kernel | ⟨bits, process⟩
    · obtain ⟨fault, w, stopped⟩ := mallocUserPages_kernel sound₁.settled (by rw [running]; exact pcb) kernel count
      rw [result] at stopped
      contradiction
    · obtain ⟨g', call, settled⟩ := mallocUserPages_completed sound₁.settled ⟨running, pcb, process⟩ result
      have same := mallocUserPages_samePages sound₁.settled ⟨running, pcb, process⟩ result
      exact ⟨g', role, still.trans (Keeps.userCall sound₁ separate₁ call (call.advance settled process) same)⟩
  | getAPage vaddr =>
    rw [request] at called proper
    obtain ⟨v, w, result, last⟩ := Program.bind_completed called
    cases last
    rcases caller with kernel | ⟨bits, process⟩
    · obtain ⟨fault, w, stopped⟩ := getAPage_kernel sound₁.settled (by rw [running]; exact pcb.page) kernel vaddr
      rw [result] at stopped
      contradiction
    · obtain ⟨g', call, settled⟩ := getAPage_completed sound₁.settled ⟨running, pcb, process⟩ proper result
      have same := getAPage_samePages sound₁.settled ⟨running, pcb, process⟩ proper result
      exact ⟨g', role, still.trans (Keeps.userCall sound₁ separate₁ call (call.advance settled process) same)⟩
  | processExecute filename name =>
    rw [request] at called proper
    have success := successes (proper.2 t stepped)
    obtain ⟨g', role', d, advance⟩ := processExecute_completed sound₁.settled 32 role proper.1 called success
    have made := processExecute_made sound₁.settled proper.1 called success
    exact ⟨g', role', still.trans (Keeps.made sound₁ separate₁ advance made)⟩
  | threadStart name prio function funcArg =>
    rw [request] at called proper
    obtain ⟨v, w, result, last⟩ := Program.bind_completed called
    cases last
    have success := successes (proper.2 t stepped)
    obtain ⟨g', role', advance⟩ := threadStart_completed sound₁.settled 32 role proper.1 result success
    have made := threadStart_made sound₁.settled proper.1 result success
    exact ⟨g', role', still.trans (Keeps.made sound₁ separate₁ advance made)⟩

theorem store_completed {caller : U32} {ready : List U32}
    (stepped : Work.step s (.store caller ready a byte) = some (.ok t)) :
    caller ∈ s.threadAllList ∧ storeRun caller ready a byte s = .ok () t := by
  simp only [Work.step] at stepped
  split at stepped
  · rename_i possible
    refine ⟨possible.1, ?_⟩
    split at stepped
    · rename_i result done
      cases stepped
      exact done
    · cases stepped
  · cases stepped

/-- A store below 3 GiB that completes goes to a page of the process that stores. -/
theorem store8_user (sound : Sound u g role) (member : u.root ∈ g.dirs) (user : a.toNat < 0xc0000000)
    (done : store8 a byte u = .ok () t) : ∃ f, g.use f = .page u.root (a.toNat / 4096) ∧
      t = { u with phys := Function.update u.phys (4096 * f + a.toNat % 4096) byte } := by
  cases translated : u.translate a with
  | none =>
    rw [store8_fault byte translated] at done
    contradiction
  | some p =>
    rw [store8_ok byte translated] at done
    unfold Machine.translate Paging.translate at translated
    rw [Option.map_eq_some_iff] at translated
    obtain ⟨f, walk, rfl⟩ := translated
    have use := sound.page_of_walk member (by omega) walk
    refine ⟨f, use, ?_⟩
    -- no table of a process is the one for the page of `NULL`
    obtain ⟨table, tableUse, -⟩ := sound.settled.rep.core.valid.page f _ _ use
    have above := sound.tables table _ _ tableUse
    rw [Machine.write_high u _ (by omega)] at done
    cases done
    rfl

/-- A store changes its own byte only, which the process that stores then finds there. -/
theorem store_keeps {caller : U32} {ready : List U32} (sound : Sound s g role) (separate : Separate s g role)
    (space : HasSpace s caller) (user : a.toNat < 0xc0000000)
    (stepped : Work.step s (.store caller ready a byte) = some (.ok t)) :
    Sound t g role ∧ Separate t g role ∧ t.threadAllList = s.threadAllList ∧ Shows t g role caller a byte ∧
      ∀ thread ∈ s.threadAllList, ∀ b old, (caller = thread → a ≠ b) → Shows s g role thread b old →
        Shows t g role thread b old := by
  obtain ⟨member, done⟩ := store_completed stepped
  obtain ⟨frame, pcb, kernel | ⟨dir, bits, process⟩⟩ := sound.threads caller member
  · exact absurd kernel (space.process sound pcb)
  obtain ⟨u, switched, sound₁, phys, root, all⟩ := switchTo_process sound ready pcb process
  unfold storeRun at done
  rw [Program.bind_modify, Program.bind_ok switched] at done
  obtain ⟨i, pgdir, dirUse, dirs⟩ := process.pgdir
  obtain ⟨f, use, final⟩ := store8_user sound₁ (root ▸ dirs) user done
  rw [root] at use
  have valid := sound.settled.rep.core.valid
  have sound₂ : Sound t g role := by
    rw [final]
    exact sound₁.storeUser use (by omega) byte
  have list : t.threadAllList = s.threadAllList := by
    rw [final]
    exact all
  have value : t.phys (4096 * f + a.toNat % 4096) = byte := by
    rw [final]
    exact Function.update_self _ _ _
  have other (x : Nat) (apart : x ≠ 4096 * f + a.toNat % 4096) : t.phys x = s.phys x := by
    rw [final, ← phys]
    exact Function.update_of_ne apart _ _
  -- PCBs lie in no user page
  have pcbs (thread : U32) (frame : Nat) (pcb : PcbAt g role thread frame) (x : Nat) (same : x / 4096 = frame) :
      t.phys x = s.phys x := by
    apply other
    have high := (valid.pageFrame f _ _ use).1
    have low := (pcb.page.inside valid).2
    have few := valid.kernelUsed
    unfold Layout.kernelLength at few
    omega
  have fields {thread pgdir : U32} (is : PgdirIs t g role thread pgdir) : PgdirIs s g role thread pgdir := by
    obtain ⟨frame, pcb, eq⟩ := is
    exact ⟨frame, pcb, (field_same (by decide) (pcbs thread frame pcb)).symm.trans eq⟩
  refine ⟨sound₂, ?_, list, ⟨sound₂, frame, dir, bits, f, pcb, process.same (pcbs caller frame pcb), use, value⟩, ?_⟩
  · intro thread member other member' pgdir some is is'
    rw [list] at member member'
    exact separate thread member other member' pgdir some (fields is) (fields is')
  · intro thread member' b old spared shows'
    obtain ⟨frame', dir', bits', f', pcb', process', use', there⟩ := shows'.there
    refine ⟨sound₂, frame', dir', bits', f', pcb', process'.same (pcbs thread frame' pcb'), use', ?_⟩
    rw [other _ _]
    · exact there
    · -- one frame is one page of one process
      intro same
      have frames : f' = f := by omega
      rw [frames] at use'
      have pages := use.symm.trans use'
      injection pages with directories number
      subst directories
      obtain ⟨j, pgdir', dirUse', -⟩ := process'.pgdir
      rw [dirUse] at dirUse'
      cases dirUse'
      have threads := separate thread member' caller member _ (heapAddr_nonzero valid dirUse)
        ⟨frame', pcb', pgdir'⟩ ⟨frame, pcb, pgdir⟩
      exact spared threads.symm (BitVec.eq_of_toNat_eq (by omega))

/-! Every run. -/

/-- The work is no store by the thread at the address. -/
def Spares (thread a : U32) : Work → Prop
  | .call _ => True
  | .store caller _ b _ => caller = thread → b ≠ a

theorem work_keeps {work : Work} (sound : Sound s g role) (separate : Separate s g role) (permitted : Permitted s work)
    (stepped : work.step s = some (.ok t)) : ∃ g' role', Sound t g' role' ∧ Separate t g' role' ∧
      s.threadAllList ⊆ t.threadAllList ∧ ∀ thread ∈ s.threadAllList, ∀ a byte, a.toNat < 0xc0000000 →
        Spares thread a work → Shows s g role thread a byte → Shows t g' role' thread a byte := by
  cases work with
  | call act =>
    obtain ⟨g', role', keeps⟩ := call_keeps sound separate permitted stepped
    exact ⟨g', role', keeps.sound, keeps.separate, keeps.all, fun thread _ a byte user _ => keeps.bytes thread a byte user⟩
  | store caller ready a byte =>
    obtain ⟨space, user⟩ := permitted
    obtain ⟨sound', separate', list, -, others⟩ := store_keeps sound separate space user stepped
    refine ⟨g, role, sound', separate', ?_, fun thread member b old _ spared => others thread member b old spared⟩
    rw [list]
    exact List.Subset.refl _

theorem Prepared.separate {allMem gdtBase : U32} (prepared : Prepared s allMem gdtBase) : Separate s g role := by
  obtain ⟨before, after, starting, stack, initialized, threads⟩ := prepared
  obtain ⟨u, tail, called, settled, -, -, running, -⟩ := memoryInit_ok starting
  rw [initialized] at called
  cases called
  obtain ⟨t, done, -, list, -⟩ := threadInit_ok settled (running.trans stack)
  rw [threads] at done
  cases done
  intro thread member other member' pgdir _ _ _
  rw [list, List.mem_singleton] at member member'
  rw [member, member']

theorem programs_sound {allMem gdtBase : U32} (reached : (programs allMem gdtBase).ReachableBy Permitted s) :
    ∃ g role, Sound s g role ∧ Separate s g role := by
  induction reached with
  | start begun =>
    obtain ⟨tail, sound⟩ := Prepared.sound begun
    exact ⟨_, _, sound, Prepared.separate begun⟩
  | next earlier permitted stepped ih =>
    obtain ⟨g, role, sound, separate⟩ := ih
    obtain ⟨g', role', sound', separate', -⟩ := work_keeps sound separate permitted stepped
    exact ⟨g', role', sound', separate'⟩

theorem shows_after {allMem gdtBase : U32} (separate : Separate s g role) (member : thread ∈ s.threadAllList)
    (user : a.toNat < 0xc0000000) (found : Shows s g role thread a byte)
    (later : ((programs allMem gdtBase).after s).ReachableBy (fun u work => Permitted u work ∧ Spares thread a work) t) :
    ∃ g' role', Separate t g' role' ∧ thread ∈ t.threadAllList ∧ Shows t g' role' thread a byte := by
  induction later with
  | start begun =>
    cases begun
    exact ⟨g, role, separate, member, found⟩
  | next earlier permitted stepped ih =>
    obtain ⟨g₁, role₁, separate₁, member₁, found₁⟩ := ih
    obtain ⟨g', role', -, separate', all, bytes⟩ := work_keeps found₁.sound separate₁ permitted.1 stepped
    exact ⟨g', role', separate', all member₁, bytes thread member₁ a byte user permitted.2 found₁⟩

theorem programs_of_calls {allMem gdtBase : U32} (reached : (calls allMem gdtBase).ReachableBy Proper s) :
    (programs allMem gdtBase).ReachableBy Permitted s := by
  induction reached with
  | start begun => exact .start begun
  | @next s t act earlier permitted stepped ih =>
    have proper : Permitted s (.call act) := permitted
    exact .next ih proper stepped

theorem Shows.space (found : Shows s g role thread a byte) : HasSpace s thread := by
  obtain ⟨frame, dir, bits, f, pcb, process, -⟩ := found.there
  have rep := found.sound.settled.rep
  exact ⟨_, pcb.page.load rep (by decide) (by decide), process.pgdir_ne rep.core.valid⟩

/-- The whole page is mapped. -/
theorem Shows.beside (found : Shows s g role thread a byte) {b : U32} (page : b.toNat / 4096 = a.toNat / 4096) :
    ∃ old, Shows s g role thread b old := by
  obtain ⟨frame, dir, bits, f, pcb, process, use, -⟩ := found.there
  exact ⟨_, found.sound, frame, dir, bits, f, pcb, process, page ▸ use, rfl⟩

theorem Shows.stores (found : Shows s g role thread a byte) (member : thread ∈ s.threadAllList) (new : U8) :
    ∃ t, Work.step s (.store thread [] a new) = some (.ok t) := by
  obtain ⟨frame, dir, bits, f, pcb, process, use, -⟩ := found.there
  obtain ⟨u, switched, sound, phys, root, -⟩ := switchTo_process found.sound [] pcb process
  have mapped := found.sound.translate_page use phys root
  have done : storeRun thread [] a new s = .ok () (u.write a (Function.update u.phys (4096 * f + a.toNat % 4096) new)) := by
    unfold storeRun
    rw [Program.bind_modify, Program.bind_ok switched]
    exact store8_ok new mapped
  refine ⟨u.write a (Function.update u.phys (4096 * f + a.toNat % 4096) new), ?_⟩
  simp only [Work.step]
  rw [if_pos ⟨member, List.nil_subset _⟩, done]

/-- The thread on whose directory the kernel is sees what is mapped. -/
theorem sees_of_translate (settled : Settled s g) (page : PageAt g thread frame) (active : Active s.phys g frame s.cr3)
    {p : Nat} (mapped : s.translate a = some p) : sees s thread a = some (s.phys p) := by
  obtain ⟨tss, switched⟩ := switchTo_active settled page active s.threadReadyList
  unfold sees
  rw [Program.bind_ok switched]
  generalize eq : { s with runningThread := thread, tss := tss } = u
  have same : u.translate a = some p ∧ u.phys = s.phys := by
    rw [← eq]
    exact ⟨mapped, rfl⟩
  rw [load8_ok same.1, same.2]

theorem boot_packed (tail : Bool) : Packed (bootLayout (kernelPages 0x2000000) (userPages 0x2000000) tail) 0 :=
  ⟨show kernelPages 0x2000000 / 8 = 480 by decide, show userPages 0x2000000 / 8 = 480 by decide, rfl, rfl, rfl, rfl,
    rfl, fun j less => absurd less (Nat.not_lt_zero j)⟩

/-- The process has asked for the second page of its range. -/
theorem process_page : ∃ s g role byte, (programs 0x2000000 0x903).ReachableBy Permitted s ∧
    heapAddr 0 ∈ s.threadAllList ∧ Shows s g role (heapAddr 0) 0x8049000 byte := by
  obtain ⟨u, t, tail, g₀, reached, list, -, valid, settled₀, allocated, all, -, -, -, pgdir₀, -, -⟩ := process_spawned
  have packed := (boot_packed tail).allocated allocated
  obtain ⟨g, role, sound, separate⟩ := programs_sound (programs_of_calls reached)
  have core₀ := settled₀.rep.core
  have notDirs (j : Nat) (other : j ≠ 24) : 0x200 + j ∉ (g₀.addDir (0x200 + 24)).dirs := by
    intro member
    rcases List.mem_cons.mp member with eq | old
    · omega
    · rw [packed.dirs] at old
      exact List.not_mem_nil old
  have page₀ : PageAt (g₀.addDir (0x200 + 24)) (heapAddr 0) 0x200 :=
    .inr ⟨0, rfl, packed.pages 0 (by decide), notDirs 0 (by decide)⟩
  have member : heapAddr 0 ∈ t.threadAllList := by
    rw [all]
    exact List.mem_append_right _ (List.mem_singleton_self _)
  have space : HasSpace t (heapAddr 0) := by
    refine ⟨_, page₀.load settled₀.rep (by decide) (by decide), ?_⟩
    change field t.phys 0x200 Pcb.pgdir = heapAddr 24 at pgdir₀
    rw [pgdir₀]
    decide
  rcases sound.threads _ member with ⟨frame, pcb, kernel | ⟨dir, bits, process⟩⟩
  · exact absurd kernel (space.process sound pcb)
  have frameEq := page₀.unique pcb.page core₀ sound.settled.rep.core
  subst frameEq
  obtain ⟨i, pgdir, dirUse, dirs⟩ := process.pgdir
  obtain ⟨tss, switched⟩ := switchTo_active sound.settled pcb.page (.process pgdir dirUse dirs) []
  obtain ⟨v, eq⟩ : ∃ v : Machine, v = { t with
    threadReadyList := [], runningThread := heapAddr 0, cr3 := BitVec.ofNat 32 (4096 * dir), tss := tss } := ⟨_, rfl⟩
  rw [← eq] at switched
  have root : v.root = dir := by
    rw [eq]
    exact dir_root sound.settled.rep.core.valid dirs
  have dirEq : dir = 0x200 + 24 := by
    have here := sound.settled.rep.heap_page dirUse (o := 0) (by decide)
    have there := settled₀.rep.heap_page (packed.pages 24 (by decide)) (o := 0) (by decide)
    rw [pgdir.symm.trans pgdir₀] at here
    have both := here.symm.trans there
    rw [Option.some.injEq] at both
    omega
  subst dirEq
  have sound₁ : Sound v g role := by
    rw [eq]
    exact sound.switched [] (heapAddr 0) tss (by
      rw [dir_root sound.settled.rep.core.valid dirs]
      exact .inr dirs)
  have settled₁ : Settled v (g₀.addDir (0x200 + 24)) := by
    rw [eq]
    exact settled₀.switched [] (heapAddr 0) tss (by
      rw [dir_root sound.settled.rep.core.valid dirs]
      exact .inr List.mem_cons_self)
  have phys : v.phys = t.phys := by rw [eq]
  have running : v.runningThread = heapAddr 0 := by rw [eq]
  have site : Site v g role v.runningThread 0x200 bits := by
    rw [running]
    exact ⟨running, pcb, by rw [root, phys]; exact process⟩
  have room (type : PoolType) : FreeFrame v type := by
    apply FreeFrame.of_room settled₁.rep
    cases type
    · have used : g₀.kernelUsed = 0 + 25 := packed.kernelUsed
      have length : g₀.kernelLength = 480 := packed.kernelLength
      change g₀.kernelUsed < 8 * g₀.kernelLength
      omega
    · have used : g₀.userUsed = 0 := packed.userUsed
      have length : g₀.userLength = 480 := packed.userLength
      change g₀.userUsed < 8 * g₀.userLength
      omega
  have unmapped : Paging.walk v.phys v.root ((0x8049000 : U32).toNat / 4096) = none := by
    apply settled₁.rep.core.tables.walk_no_table _ (by decide)
    rw [root]
    exact dirRow_low (by decide)
  have start : field v.phys 0x200 Pcb.addrStart = userVaddrStart := site.process.addrStart
  have length : field v.phys 0x200 Pcb.bitmapLength = 94199 := site.process.bitmapLength
  have aligned : (0x8049000 : U32).toNat % 4096 = 0 := by decide
  obtain ⟨w, done, present, -⟩ := getAPage_served sound₁.settled (.process site) room aligned unmapped
    (by unfold InRange; rw [start, length]; dsimp only; decide) (by unfold bitIndex; rw [start]; dsimp only; decide)
  have managed : Managed 0x8049000 := by
    unfold Managed
    decide
  obtain ⟨g₁, call, settled₂⟩ := getAPage_completed sound₁.settled site managed done
  have called : (Call.getAPage 0x8049000).run v = .ok () w := Program.bind_ok done
  have stepped : (programs 0x2000000 0x903).step t (.call ⟨heapAddr 0, [], .getAPage 0x8049000⟩) = some (.ok w) :=
    step_ok member (List.nil_subset _) switched called
  have permitted : Permitted t (.call ⟨heapAddr 0, [], .getAPage 0x8049000⟩) := managed
  obtain ⟨g', role', sound', separate', list', -⟩ := work_keeps sound separate permitted stepped
  -- the switch back to the process finds the page
  have extended := call.grown.extends role
  have cr3 : w.cr3 = BitVec.ofNat 32 (4096 * (0x200 + 24)) := by rw [call.same, eq]
  have pgdir₁ : field w.phys 0x200 Pcb.pgdir = heapAddr i := by
    rw [← pgdir, ← phys]
    apply field_same (by decide)
    intro x here
    apply call.data x
    · rw [here]
      exact pcb.page.data
    · rw [here]
      exact site.process.pcb_apart pcb
  have page := pcb.page.keep extended
  have active : Active w.phys g₁ 0x200 w.cr3 := by
    rw [cr3]
    exact .process pgdir₁ (extended.heap _ _ dirUse) (extended.dirs _ dirs)
  obtain ⟨p, mapped⟩ := Option.isSome_iff_exists.mp present
  have seen := sees_of_translate settled₂ page active mapped
  have member' := list' member
  have space' : HasSpace w (heapAddr 0) := by
    refine ⟨_, page.load settled₂.rep (by decide) (by decide), ?_⟩
    rw [pgdir₁]
    exact heapAddr_nonzero sound.settled.rep.core.valid dirUse
  exact ⟨w, g', role', _, (programs_of_calls reached).next permitted stepped, member',
    shows_of_sees sound' member' space' (by decide) seen⟩

theorem Core.low_writable (core : Core m g) {r : Nat} (root : g.Root r) (inside : n < 256) :
    Writable m r (0xc0000 + n) n := by
  apply core.tables.writable (t := 0x101)
  · rw [show (0xc0000 + n) / 1024 = 768 + 0 by omega]
    exact core.valid.kernelHalf r root 0 (by omega)
  · rw [show (0xc0000 + n) % 1024 = n by omega]
    exact core.valid.low n inside
  · omega

theorem Layout.Valid.heap_inside (valid : g.Valid) {i : Nat} (use : g.use f = .heap i) : i < 8 * g.kernelLength := by
  have mapped := (valid.heap f i use).1
  have used := valid.heapMapped
  have length := valid.kernelUsed
  omega

theorem Core.heap_writable (core : Core m g) {r i : Nat} (root : g.Root r) (use : g.use f = .heap i) :
    Writable m r (0xc0100 + i) f := by
  have slot := (core.valid.heap f i use).2
  have small := core.valid.heap_table (core.valid.heap_inside use)
  apply core.tables.writable (t := 0x101 + (256 + i) / 1024)
  · rw [show (0xc0100 + i) / 1024 = 768 + (256 + i) / 1024 by omega]
    exact core.valid.kernelHalf r root _ (by omega)
  · rw [show (0xc0100 + i) % 1024 = (256 + i) % 1024 by omega]
    exact slot
  · omega

/-- A directory is a page of its own space. -/
theorem Core.directory_writable (core : Core m g) {r : Nat} (root : g.Root r) : Writable m r 0xfffff r :=
  core.tables.writable (core.valid.window r root) (core.valid.window r root) (by decide)

theorem Core.pcb_writable (core : Core m g) {r : Nat} (root : g.Root r) (page : PageAt g thread f) :
    Writable m r (thread.toNat / 4096) f := by
  rcases page with ⟨rfl, rfl⟩ | ⟨i, rfl, use, -⟩
  · exact core.low_writable root (n := 0x9e) (by decide)
  · have small := core.valid.kernelFree
    have inside := core.valid.heap_inside use
    unfold Layout.kernelLength at inside
    rw [heapAddr_toNat (by omega), show (0xc0100000 + 4096 * i) / 4096 = 0xc0100 + i by omega]
    exact core.heap_writable root use

end LiziOS.Memory
