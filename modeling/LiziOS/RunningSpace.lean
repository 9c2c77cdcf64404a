import LiziOS.ProcessAtomicity

namespace LiziOS.Memory

open ByteMemory Paging

/-! `schedule` and its callers, on the PCBs in memory: the address space that a thread runs in. What
`switch_to` does with the stacks is left out but for the stack pointer, which it stores. -/

/-- `switch_to`: the stack pointer `esp` of the thread that stops goes into its PCB. -/
def contextSwitch (cur next esp : U32) : M Unit := do
  store32 (cur + Pcb.selfKstack) esp
  modify fun s => { s with runningThread := next }

/-- The first half of `schedule`: a running thread goes to the end of the ready list. -/
def deschedule (cur : U32) : M Unit := do
  if (← load32 (cur + Pcb.status)) = 0 then
    assert (!elemFind (← get).threadReadyList cur) .schedule
    modify fun s => { s with threadReadyList := listAppend s.threadReadyList cur }
    store8 (cur + Pcb.ticks) (← load8 (cur + Pcb.priority))
    store32 (cur + Pcb.status) 1
  else return

/-- The second half. -/
def dispatch (cur esp : U32) : M Unit := do
  assert (!listEmpty (← get).threadReadyList) .schedule
  match listPop (← get).threadReadyList with
  | none => panic .schedule
  | some (next, rest) =>
    modify fun s => { s with threadReadyList := rest }
    store32 (next + Pcb.status) 0
    processActivate next
    contextSwitch cur next esp

def schedule (esp : U32) : M Unit := do
  let cur := (← get).runningThread
  deschedule cur
  dispatch cur esp

def clockInterruptHandler (esp : U32) : M Unit := do
  let curThread := (← get).runningThread
  assert ((← load32 (curThread + Pcb.stackMagic)) = 0x19870916) .clockInterruptHandler
  let ticks ← load8 (curThread + Pcb.ticks)
  if ticks = 0 then schedule esp
  else store8 (curThread + Pcb.ticks) (ticks - 1)

def threadBlock (status esp : U32) : M Unit := do
  assert (status = 2 ∨ status = 3 ∨ status = 4) .threadBlock
  let curThread := (← get).runningThread
  store32 (curThread + Pcb.status) status
  schedule esp

/-- What happens to the running thread, with its stack pointer where it may be switched away. -/
inductive Event where
  | clock (esp : U32)
  | block (status esp : U32)
  | unblock (pthread : U32)

def Event.run : Event → M Unit
  | .clock esp => clockInterruptHandler esp
  | .block status esp => threadBlock status esp
  | .unblock pthread => threadUnblock pthread

/-- Only threads are woken. -/
def Event.Possible (s : Machine) : Event → Prop
  | .unblock pthread => pthread ∈ s.threadAllList
  | _ => True

theorem Event.unblock_possible (s : Machine) (pthread : U32) :
    s.threadAllList.elem pthread = true ↔ (Event.unblock pthread).Possible s := List.elem_iff

instance (s : Machine) : (e : Event) → Decidable (e.Possible s)
  | .clock _ => inferInstanceAs (Decidable True)
  | .block _ _ => inferInstanceAs (Decidable True)
  | .unblock pthread => decidable_of_iff (s.threadAllList.elem pthread = true) (Event.unblock_possible s pthread)

def Event.step (e : Event) (s : Machine) : Option (Except Fault Machine) :=
  if e.Possible s then
    match e.run s with
    | .ok _ t => some (.ok t)
    | .error fault _ => some (.error fault)
  else none

/-- The main thread runs under the boot directory. Before, any threads have made any calls: there are
    kernel threads and processes, of which some are ready. -/
def SchedulerStart (allMem gdtBase : U32) (s : Machine) : Prop :=
  s.cr3 = 0x100000 ∧ s.runningThread = 0xc009e000 ∧ Calling allMem gdtBase s

def scheduler (allMem gdtBase : U32) : Transition.System Machine Event Fault where
  start := SchedulerStart allMem gdtBase
  step s e := e.step s

/-- CR3 and the stack for interrupts are those of the running thread. -/
def SpaceAgrees (s : Machine) : Prop :=
  ∃ pgdir, load32 (s.runningThread + Pcb.pgdir) s = .ok pgdir s ∧
    (pgdir = 0 → s.cr3 = 0x100000) ∧
    (pgdir ≠ 0 → s.translate pgdir = some s.cr3.toNat ∧ s.tss.esp0 = s.runningThread + 4096)

variable {s t u : Machine} {g : Layout} {role : Nat → Role} {allMem gdtBase thread cur esp : U32}
  {frame dir bits low high : Nat}

/-! Stores into the first fields of a PCB, or into the stack above it. -/

theorem descriptor_kept (written : Written s t g frame low high) (apart : high ≤ 44 ∨ 64 ≤ low ∧ high ≤ 4096) {o : U32}
    (above : 44 ≤ o.toNat) (inside : o.toNat + 4 ≤ 64) (f : Nat) : field t.phys f o = field s.phys f o := by
  apply word_congr
  intro x after before
  apply written.outside
  omega

theorem KernelThread.written {f : Nat} (kernel : KernelThread s.phys f) (written : Written s t g frame low high)
    (apart : high ≤ 44 ∨ 64 ≤ low ∧ high ≤ 4096) : KernelThread t.phys f where
  pgdir := by
    rw [descriptor_kept written apart (by decide) (by decide)]
    exact kernel.pgdir
  bitmapLength := by
    rw [descriptor_kept written apart (by decide) (by decide)]
    exact kernel.bitmapLength

theorem Process.written {f : Nat} (process : Process s.phys g role f dir bits)
    (written : Written s t g frame low high) (apart : high ≤ 44 ∨ 64 ≤ low ∧ high ≤ 4096) : Process t.phys g role f dir bits where
  pgdir := by
    rw [descriptor_kept written apart (by decide) (by decide)]
    exact process.pgdir
  bitmapLength := by
    rw [descriptor_kept written apart (by decide) (by decide)]
    exact process.bitmapLength
  addrStart := by
    rw [descriptor_kept written apart (by decide) (by decide)]
    exact process.addrStart
  bitmapBits := by
    rw [descriptor_kept written apart (by decide) (by decide)]
    exact process.bitmapBits

theorem Sound.written (sound : Sound s g role) (written : Written s t g frame low high)
    (apart : high ≤ 44 ∨ 64 ≤ low ∧ high ≤ 4096) : Sound t g role := by
  have same := written.same
  unfold Same at same
  have all : t.threadAllList = s.threadAllList := by rw [same]
  refine ⟨sound.settled.same written.same written.rep, ?_, ?_, ?_, sound.tables⟩
  · intro thread member
    rw [all] at member
    obtain ⟨f, pcb, kernel | ⟨dir, bits, process⟩⟩ := sound.threads thread member
    · exact ⟨f, pcb, .inl (kernel.written written apart)⟩
    · exact ⟨f, pcb, .inr ⟨dir, bits, process.written written apart⟩⟩
  · rw [same]
    exact sound.dirs
  · rw [same]
    exact sound.made

/-! The invariant. -/

/-- The address space of the thread whose PCB lies in the frame is the active one. -/
def OwnSpace (s : Machine) (g : Layout) (role : Nat → Role) (thread : U32) (frame : Nat) : Prop :=
  (KernelThread s.phys frame ∧ s.cr3 = 0x100000) ∨ ∃ dir bits, Process s.phys g role frame dir bits ∧
    s.cr3 = BitVec.ofNat 32 (4096 * dir) ∧ s.tss.esp0 = thread + pgSize

/-- Between two events. -/
structure Running (s : Machine) (g : Layout) (role : Nat → Role) : Prop where
  sound : Sound s g role
  ready : s.threadReadyList ⊆ s.threadAllList
  member : s.runningThread ∈ s.threadAllList
  own : ∃ frame, PcbAt g role s.runningThread frame ∧ OwnSpace s g role s.runningThread frame

theorem OwnSpace.written {f : Nat} (own : OwnSpace s g role thread f) (written : Written s t g frame low high)
    (apart : high ≤ 44 ∨ 64 ≤ low ∧ high ≤ 4096) : OwnSpace t g role thread f := by
  have same := written.same
  unfold Same at same
  rcases own with ⟨kernel, cr3⟩ | ⟨dir, bits, process, cr3, esp0⟩
  · refine .inl ⟨kernel.written written apart, ?_⟩
    rw [same]
    exact cr3
  · refine .inr ⟨dir, bits, process.written written apart, ?_, ?_⟩
    · rw [same]
      exact cr3
    · rw [same]
      exact esp0

theorem Running.written (run : Running s g role) (written : Written s t g frame low high)
    (apart : high ≤ 44 ∨ 64 ≤ low ∧ high ≤ 4096) : Running t g role := by
  obtain ⟨f, pcb, own⟩ := run.own
  have same := written.same
  unfold Same at same
  refine ⟨run.sound.written written apart, ?_, ?_, f, ?_, ?_⟩
  · rw [same]
    exact run.ready
  · rw [same]
    exact run.member
  · rw [same]
    exact pcb
  · have thread : t.runningThread = s.runningThread := by rw [same]
    rw [thread]
    exact own.written written apart

/-- The directory's address is translated by the active directory, whatever it is. -/
theorem Running.agrees (run : Running s g role) : SpaceAgrees s := by
  obtain ⟨frame, pcb, own⟩ := run.own
  have rep := run.sound.settled.rep
  refine ⟨_, pcb.page.load rep (o := Pcb.pgdir) (by decide) (by decide), ?_, ?_⟩
  · intro null
    rcases own with ⟨-, cr3⟩ | ⟨dir, bits, process, -⟩
    · exact cr3
    · exact absurd null (process.pgdir_ne rep.core.valid)
  · intro some
    rcases own with ⟨kernel, -⟩ | ⟨dir, bits, process, cr3, esp0⟩
    · exact absurd kernel.pgdir some
    · obtain ⟨i, pgdir, use, member⟩ := process.pgdir
      have small := rep.core.valid.dir_small member
      have mapped := rep.heap_page use (o := 0) (by decide)
      rw [show heapAddr i + BitVec.ofNat 32 0 = heapAddr i from BitVec.add_zero _, Nat.add_zero] at mapped
      change s.translate (field s.phys frame Pcb.pgdir) = _ ∧ _
      rw [pgdir, mapped, cr3, BitVec.toNat_ofNat, Nat.mod_eq_of_lt (by omega)]
      exact ⟨rfl, esp0⟩

/-! One event. -/

theorem Represents.checked_assert (rep : Represents s g) {c : Bool} {site : LiziOS.Site}
    (done : Memory.assert c site s = .ok () t) : c = true ∧ t = s := by
  refine ⟨?_, assert_completed done⟩
  cases c with
  | true => rfl
  | false =>
    rw [assert_false _ rep.checked] at done
    contradiction

/-- A thread that is on the list of all threads may be put on the ready list. -/
theorem Running.readied (run : Running s g role) {ready : List U32} (subset : ready ⊆ s.threadAllList) :
    Running { s with threadReadyList := ready } g role := by
  refine ⟨?_, subset, run.member, run.own⟩
  exact run.sound.switched ready s.runningThread s.tss run.sound.settled.rep.root

theorem PageAt.loadByte (page : PageAt g thread frame) (rep : Represents s g) {o : U32}
    (inside : o.toNat < 4096) : ∃ byte, load8 (thread + o) s = .ok byte s :=
  ⟨_, load8_ok (page.translated rep inside)⟩

theorem deschedule_completed (run : Running s g role) (done : deschedule s.runningThread s = .ok () t) :
    Running t g role ∧ t.runningThread = s.runningThread := by
  obtain ⟨frame, pcb, -⟩ := run.own
  have rep := run.sound.settled.rep
  unfold deschedule at done
  rw [Program.bind_ok (pcb.page.load rep (by decide) (by decide))] at done
  split at done
  · rw [Program.bind_get] at done
    obtain ⟨_, s₁, checked, rest⟩ := Program.bind_completed done
    obtain ⟨-, rfl⟩ := rep.checked_assert checked
    rw [Program.bind_modify] at rest
    have run₁ : Running { s₁ with threadReadyList := listAppend s₁.threadReadyList s₁.runningThread } g role :=
      run.readied fun thread member => by
        rcases List.mem_append.mp member with old | new
        · exact run.ready old
        · rw [List.mem_singleton.mp new]
          exact run.member
    obtain ⟨byte, s₂, loaded, rest₂⟩ := Program.bind_completed rest
    obtain ⟨b, load⟩ := pcb.page.loadByte run₁.sound.settled.rep (o := Pcb.priority) (by decide)
    rw [load] at loaded
    cases loaded
    obtain ⟨s₃, stored, w₃⟩ := pcb.page.writeByte run₁.sound.settled.rep Pcb.ticks byte (by decide)
    rw [Program.bind_ok stored] at rest₂
    have run₃ := run₁.written w₃ (by decide)
    obtain ⟨s₄, stored₄, w₄, -⟩ := pcb.page.writeWord run₃.sound.settled.rep Pcb.status 1 (by decide)
      (by decide)
    rw [stored₄] at rest₂
    cases rest₂
    refine ⟨run₃.written w₄ (by decide), ?_⟩
    have same := w₃.same.trans w₄.same
    rw [same]
  · cases done
    exact ⟨run, rfl⟩

/-- The PCBs keep their directories, and those of other threads their stack pointers. -/
structure PcbsKept (s t : Machine) (g : Layout) (role : Nat → Role) : Prop where
  pgdir : ∀ f, field t.phys f Pcb.pgdir = field s.phys f Pcb.pgdir
  selfKstack : ∀ f, ¬ PcbAt g role s.runningThread f → field t.phys f Pcb.selfKstack = field s.phys f Pcb.selfKstack

theorem status_kstack (written : Written s t g frame Pcb.status.toNat (Pcb.status.toNat + 4)) (f : Nat) :
    field t.phys f Pcb.selfKstack = field s.phys f Pcb.selfKstack := by
  have status : Pcb.status.toNat = 4 := rfl
  have kstack : Pcb.selfKstack.toNat = 0 := rfl
  apply word_congr
  intro x above below
  exact written.outside x (by omega)

/-- The first ready thread runs, in its own address space. -/
theorem dispatch_ok (run : Running s g role) {next : U32} {rest : List U32}
    (list : s.threadReadyList = next :: rest) :
    ∃ t, dispatch s.runningThread esp s = .ok () t ∧ (Running t g role ∧ PcbsKept s t g role) ∧
      t.runningThread = next := by
  obtain ⟨frame, pcb, -⟩ := run.own
  have subset : next ∈ s.threadAllList ∧ rest ⊆ s.threadAllList := by
    rw [← List.cons_subset, ← list]
    exact run.ready
  have run₁ := run.readied subset.2
  obtain ⟨f, known, thread⟩ := run₁.sound.threads next subset.1
  obtain ⟨s₂, stored, w₂, -⟩ := known.page.writeWord run₁.sound.settled.rep Pcb.status 0 (by decide) (by decide)
  have run₂ := run₁.written w₂ (by decide)
  have rep₂ := run₂.sound.settled.rep
  have valid := rep₂.core.valid
  have all₂ : s₂.threadAllList = s.threadAllList := by rw [w₂.same]
  have ready₂ : s₂.threadReadyList = rest := by rw [w₂.same]
  -- CR3 and the tss are set for the next thread under the directory of the last one
  obtain ⟨cr3, tss, activated, root, own₃⟩ : ∃ cr3 tss, processActivate next s₂ =
      .ok () { s₂ with cr3 := cr3, tss := tss } ∧ g.Root (cr3.toNat / 4096) ∧
        OwnSpace { s₂ with cr3 := cr3, tss := tss } g role next f := by
    rcases thread with kernel | ⟨dir, bits, process⟩
    · have kernel₂ := kernel.written w₂ (by decide)
      obtain ⟨tss, activated, -⟩ := processActivate_ok rep₂ known.page (.kernel kernel₂.pgdir)
      exact ⟨_, tss, activated, .inl rfl, .inl ⟨kernel₂, rfl⟩⟩
    · have process₂ := process.written w₂ (by decide)
      obtain ⟨i, pgdir, use, member⟩ := process₂.pgdir
      obtain ⟨tss, activated, esp0⟩ := processActivate_ok rep₂ known.page (.process pgdir use member)
      refine ⟨_, tss, activated, ?_, .inr ⟨dir, bits, process₂, rfl, esp0 (process₂.pgdir_ne valid)⟩⟩
      rw [dir_root valid member]
      exact .inr member
  have sound₃ := run₂.sound.switched s₂.threadReadyList s₂.runningThread tss root
  obtain ⟨s₄, saved, w₄, -⟩ := pcb.page.writeWord sound₃.settled.rep Pcb.selfKstack esp (by decide) (by decide)
  have sound₄ := sound₃.written w₄ (by decide)
  have own₄ := own₃.written w₄ (by decide)
  have all₄ : s₄.threadAllList = s.threadAllList := by rw [w₄.same, ← all₂]
  have ready₄ : s₄.threadReadyList = rest := by rw [w₄.same, ← ready₂]
  refine ⟨{ s₄ with runningThread := next }, ?_,
    ⟨⟨sound₄.switched s₄.threadReadyList next s₄.tss sound₄.settled.rep.root, ?_, ?_, f, known, own₄⟩, ?_⟩, rfl⟩
  · unfold dispatch contextSwitch
    rw [Program.bind_get, list, show (!listEmpty (next :: rest)) = true from rfl,
      Program.bind_ok (assert_true _ s), Program.bind_get, list]
    dsimp only [listPop]
    rw [Program.bind_modify, Program.bind_ok stored, Program.bind_ok activated, Program.bind_ok saved]
    rfl
  · change s₄.threadReadyList ⊆ s₄.threadAllList
    rw [ready₄, all₄]
    exact subset.2
  · change next ∈ s₄.threadAllList
    rw [all₄]
    exact subset.1
  · constructor
    · intro f
      change field s₄.phys f Pcb.pgdir = _
      rw [descriptor_kept w₄ (by decide) (by decide) (by decide)]
      exact descriptor_kept w₂ (by decide) (by decide) (by decide) f
    · intro f other
      have apart : f ≠ frame := fun same => other (same ▸ pcb)
      change field s₄.phys f Pcb.selfKstack = _
      have saved : field s₄.phys f Pcb.selfKstack = field s₂.phys f Pcb.selfKstack :=
        field_same (by decide) fun x same => w₄.other (by decide) x (by omega)
      rw [saved]
      exact status_kstack w₂ f

theorem dispatch_completed (run : Running s g role) (done : dispatch s.runningThread esp s = .ok () t) :
    Running t g role := by
  cases list : s.threadReadyList with
  | nil =>
    unfold dispatch at done
    rw [Program.bind_get, list, show (!listEmpty ([] : List U32)) = false from rfl,
      Program.bind_error (assert_false _ run.sound.settled.rep.checked)] at done
    contradiction
  | cons next rest =>
    obtain ⟨u, called, ⟨run', -⟩, -⟩ := @dispatch_ok s g role esp run next rest list
    rw [done] at called
    cases called
    exact run'

theorem schedule_completed (run : Running s g role) (done : schedule esp s = .ok () t) : Running t g role := by
  unfold schedule at done
  rw [Program.bind_get] at done
  obtain ⟨_, u, first, second⟩ := Program.bind_completed done
  obtain ⟨run', same⟩ := deschedule_completed run first
  rw [← same] at second
  exact dispatch_completed run' second

theorem clockInterruptHandler_completed (run : Running s g role)
    (done : clockInterruptHandler esp s = .ok () t) : Running t g role := by
  obtain ⟨frame, pcb, -⟩ := run.own
  have rep := run.sound.settled.rep
  unfold clockInterruptHandler at done
  rw [Program.bind_get, Program.bind_ok (pcb.page.load rep (by decide) (by decide))] at done
  obtain ⟨_, s₁, checked, rest⟩ := Program.bind_completed done
  obtain ⟨-, rfl⟩ := rep.checked_assert checked
  obtain ⟨ticks, load⟩ := pcb.page.loadByte rep (o := Pcb.ticks) (by decide)
  rw [Program.bind_ok load] at rest
  split at rest
  · exact schedule_completed run rest
  · obtain ⟨u, stored, written⟩ := pcb.page.writeByte rep Pcb.ticks (ticks - 1) (by decide)
    rw [stored] at rest
    cases rest
    exact run.written written (by decide)

theorem threadBlock_completed (run : Running s g role) {status : U32}
    (done : threadBlock status esp s = .ok () t) : Running t g role := by
  obtain ⟨frame, pcb, -⟩ := run.own
  unfold threadBlock at done
  obtain ⟨_, s₁, checked, rest⟩ := Program.bind_completed done
  obtain ⟨-, rfl⟩ := run.sound.settled.rep.checked_assert checked
  obtain ⟨u, stored, written, -⟩ := pcb.page.writeWord run.sound.settled.rep Pcb.status status (by decide)
    (by decide)
  rw [Program.bind_get, Program.bind_ok stored] at rest
  exact schedule_completed (run.written written (by decide)) rest

/-- A thread that blocks is followed by the first ready one. -/
theorem threadBlock_ok (run : Running s g role) {status next : U32} {rest : List U32}
    (asleep : status = 2 ∨ status = 3 ∨ status = 4) (list : s.threadReadyList = next :: rest) :
    ∃ t, threadBlock status esp s = .ok () t ∧ (Running t g role ∧ PcbsKept s t g role) ∧
      t.runningThread = next := by
  obtain ⟨frame, pcb, -⟩ := run.own
  obtain ⟨u, stored, written, value⟩ := pcb.page.writeWord run.sound.settled.rep Pcb.status status (by decide)
    (by decide)
  have run' := run.written written (by decide)
  have same : u.runningThread = s.runningThread := by rw [written.same]
  have waits : u.threadReadyList = next :: rest := by rw [written.same, ← list]
  have load := pcb.page.load run'.sound.settled.rep (o := Pcb.status) (by decide) (by decide)
  have stays : deschedule u.runningThread u = .ok () u := by
    unfold deschedule
    rw [same, Program.bind_ok load, value, if_neg (by rcases asleep with rfl | rfl | rfl <;> decide)]
    rfl
  obtain ⟨t, dispatched, ⟨run'', kept⟩, first⟩ := @dispatch_ok u g role esp run' _ _ waits
  have kept' : PcbsKept s t g role := by
    constructor
    · intro f
      rw [kept.pgdir f, descriptor_kept written (by decide) (by decide) (by decide)]
    · intro f other
      rw [kept.selfKstack f (same ▸ other)]
      exact status_kstack written f
  refine ⟨t, ?_, ⟨run'', kept'⟩, first⟩
  unfold threadBlock
  rw [decide_eq_true asleep, Program.bind_ok (assert_true _ s), Program.bind_get, Program.bind_ok stored]
  unfold schedule
  rw [Program.bind_get, Program.bind_ok stays]
  exact dispatched

theorem threadUnblock_runs (run : Running s g role) (member : thread ∈ s.threadAllList)
    (done : threadUnblock thread s = .ok () t) : Running t g role := by
  obtain ⟨frame, pcb, -⟩ := run.sound.threads thread member
  have rep := run.sound.settled.rep
  unfold threadUnblock at done
  rw [Program.bind_ok (pcb.page.load rep (by decide) (by decide))] at done
  obtain ⟨_, s₁, checked, rest⟩ := Program.bind_completed done
  obtain ⟨-, rfl⟩ := rep.checked_assert checked
  rw [Program.bind_get] at rest
  split at rest
  · contradiction
  · rw [Program.bind_modify] at rest
    have pushed := run.readied (List.cons_subset.mpr ⟨member, run.ready⟩)
    obtain ⟨u, stored, written, -⟩ := pcb.page.writeWord pushed.sound.settled.rep Pcb.status 1 (by decide)
      (by decide)
    have same := stored.symm.trans rest
    cases same
    exact pushed.written written (by decide)

theorem Running.step {e : Event} (run : Running s g role)
    (stepped : (scheduler allMem gdtBase).step s e = some (.ok t)) : Running t g role := by
  change e.step s = _ at stepped
  unfold Event.step at stepped
  split at stepped
  · rename_i possible
    split at stepped
    · rename_i result done
      cases stepped
      cases e with
      | clock esp => exact clockInterruptHandler_completed run done
      | block status esp => exact threadBlock_completed run done
      | unblock pthread => exact threadUnblock_runs run possible done
    · cases stepped
  · cases stepped

/-! Every run. -/

theorem SchedulerStart.running (start : SchedulerStart allMem gdtBase s) : ∃ g role, Running s g role := by
  obtain ⟨cr3, -, calling⟩ := start
  obtain ⟨g, role, sound, ready, member, frame, pcb, kernel | ⟨bits, process⟩⟩ := calling.sound
  · exact ⟨g, role, sound, ready, member, frame, pcb, .inl ⟨kernel, cr3⟩⟩
  · -- the boot directory is no page of the heap
    obtain ⟨i, -, use, -⟩ := process.pgdir
    have above := (sound.settled.rep.core.valid.heapFrame _ i use).1
    unfold Machine.root at above
    rw [cr3, show (0x100000 : U32).toNat / 4096 = 0x100 by decide] at above
    omega

theorem scheduler_running (reached : (scheduler allMem gdtBase).Reachable s) : ∃ g role, Running s g role := by
  induction reached with
  | start begun => exact SchedulerStart.running begun
  | next earlier permitted stepped ih =>
    obtain ⟨g, role, run⟩ := ih
    exact ⟨g, role, run.step stepped⟩

/-- Under any clock interrupts, blocks and unblocks of any kernel threads and processes, CR3 holds the
    directory of the thread that runs, and a process that runs has its stack in the tss. -/
theorem running_space (reached : (scheduler allMem gdtBase).Reachable s) : SpaceAgrees s := by
  obtain ⟨g, role, run⟩ := scheduler_running reached
  exact run.agrees

/-- The main thread blocks, and the process that it has started runs. -/
theorem running_space_process : ∃ s, (scheduler 0x2000000 0x903).Reachable s ∧ s.runningThread = heapAddr 0 ∧
    SpaceAgrees s := by
  obtain ⟨t, reached, -, list, kernel⟩ := process_started
  obtain ⟨g, role, sound⟩ := calls_sound reached
  have member : (0xc009e000 : U32) ∈ t.threadAllList := by
    rw [list]
    exact List.mem_cons_self
  have ready : [heapAddr 0] ⊆ t.threadAllList := by
    rw [list]
    exact List.subset_cons_self _ _
  obtain ⟨tss, switched⟩ := switchTo_main sound.settled [heapAddr 0] kernel
  obtain ⟨v, eq⟩ : ∃ v : Machine, v = { t with
    threadReadyList := [heapAddr 0], runningThread := 0xc009e000, cr3 := 0x100000, tss := tss } := ⟨_, rfl⟩
  rw [← eq] at switched
  have start : SchedulerStart 0x2000000 0x903 v :=
    ⟨by rw [eq], by rw [eq], t, _, _, reached, member, ready, switched⟩
  obtain ⟨g', role', run⟩ := start.running
  obtain ⟨w, done, -, next⟩ := @threadBlock_ok v g' role' 0 run 2 (heapAddr 0) [] (.inl rfl) (by rw [eq])
  have stepped : (scheduler 0x2000000 0x903).step v (.block 2 0) = some (.ok w) := by
    have ran : (Event.block 2 0).run v = .ok () w := done
    change Event.step (.block 2 0) v = some (.ok w)
    unfold Event.step
    rw [if_pos (show Event.Possible v (.block 2 0) from True.intro), ran]
  have both : (scheduler 0x2000000 0x903).Reachable w := .next (.start start) True.intro stepped
  exact ⟨w, both, next, running_space both⟩

end LiziOS.Memory
