import LiziOS.DescriptorTables
import LiziOS.ManagedRange
import Mathlib.Data.Nat.Count

namespace LiziOS.Memory

open ByteMemory Paging

/-! `process_execute` when one of its allocations fails. -/

variable {s t u : Machine} {g g' : Layout} {role : Nat → Role} {allMem gdtBase thread filename : U32}
  {name : List U8} {frame : Nat}

/-- The call, from a state in which the trace of stores through `NULL` is clear, has put a process on
    both lists whose allocations have all succeeded, or it has changed neither list and has stored
    nothing through `NULL`. -/
def Atomic (s : Machine) (filename : U32) (name : List U8) : Prop :=
  (∃ thread bits pgdir t, processExecute filename name { s with nullStored := false } = .ok () t ∧
    t.granted = s.granted ++ [thread, bits, pgdir] ∧ 0 ∉ [thread, bits, pgdir] ∧
    t.threadReadyList = s.threadReadyList ++ [thread] ∧ t.threadAllList = s.threadAllList ++ [thread]) ∨
  Quiet { s with nullStored := false }
    (Program.finish (processExecute filename name { s with nullStored := false }))

/-- How many pages of the heap's bitmap are free. -/
def freeHeapPages (s : Machine) : Nat :=
  Nat.count (fun i => bitAt s s.kernelVaddr.addrBitmap i = some false)
    (8 * s.kernelVaddr.addrBitmap.length.toNat)

/-- The page of the PCB is left, with a frame, and another page, but not 23 for the bitmap. The search
    also reads the bit behind the heap's bitmap. -/
structure NoBitmapRoom (s : Machine) : Prop where
  frame : FreeFrame s .kernelPool
  page : 2 ≤ freeHeapPages s
  short : freeHeapPages s < 23 ∨ (freeHeapPages s = 23 ∧
    bitAt s s.kernelVaddr.addrBitmap (8 * s.kernelVaddr.addrBitmap.length.toNat) = some true)

/-! The condition, as the layout says it. -/

theorem heap_bit (rep : Represents s g) (i : Nat) (inside : i ≤ 8 * g.kernelLength) :
    bitAt s s.kernelVaddr.addrBitmap i = some (bit s.phys g.heapBase i) := by
  have top := rep.core.valid.bitmaps_end
  rw [rep.heap]
  exact bitAt_low rep _ (by omega)

theorem freeHeapPages_eq (rep : Represents s g) : freeHeapPages s = 8 * g.kernelLength - g.heapUsed := by
  have count (n : Nat) (inside : n ≤ 8 * g.kernelLength) :
      Nat.count (fun i => bitAt s s.kernelVaddr.addrBitmap i = some false) n = n - g.heapUsed := by
    induction n with
    | zero => rw [Nat.count_zero, Nat.zero_sub]
    | succ n ih =>
      rw [Nat.count_succ, ih (by omega), heap_bit rep n (by omega), rep.core.heapBits n (by omega)]
      by_cases used : n < g.heapUsed
      · rw [decide_eq_true used, if_neg (by simp)]
        omega
      · rw [decide_eq_false used, if_pos rfl]
        omega
  unfold freeHeapPages
  rw [rep.lengths.1]
  exact count _ le_rfl

theorem noBitmapRoom_iff (rep : Represents s g) : NoBitmapRoom s ↔
    g.kernelUsed < 8 * g.kernelLength ∧ g.heapUsed + 2 ≤ 8 * g.kernelLength ∧ ¬ (g.takeHeap 1).Fits 23 := by
  have free := freeHeapPages_eq rep
  have behind := heap_bit rep _ le_rfl
  rw [rep.core.tailBit] at behind
  have frames : FreeFrame s .kernelPool ↔ g.kernelUsed < 8 * g.kernelLength := by
    constructor
    · intro some
      obtain ⟨k, less, clear⟩ := some.clear rep
      rw [rep.core.bits .kernelPool k less] at clear
      have above := of_decide_eq_false clear
      change ¬ k < g.kernelUsed at above
      change k < 8 * g.kernelLength at less
      omega
    · exact fun room => @FreeFrame.of_room s g rep .kernelPool room
  have fits : (g.takeHeap 1).Fits 23 ↔ g.heapUsed + 24 ≤ 8 * g.kernelLength ∨
      (g.heapUsed + 24 = 8 * g.kernelLength + 1 ∧ g.tail = false) := Iff.rfl
  rw [fits]
  constructor
  · rintro ⟨some, page, short⟩
    refine ⟨frames.mp some, by omega, ?_⟩
    rintro (room | ⟨exact_, clear⟩)
    · omega
    · rcases short with few | ⟨-, set⟩
      · omega
      · rw [rep.lengths.1, behind, clear, decide_eq_false (by omega)] at set
        simp at set
  · rintro ⟨some, page, short⟩
    refine ⟨frames.mpr some, by omega, ?_⟩
    rw [not_or, not_and] at short
    by_cases few : freeHeapPages s < 23
    · exact .inl few
    · have tail := short.2 (by omega)
      rw [Bool.not_eq_false] at tail
      rw [rep.lengths.1, behind, tail]
      exact .inr ⟨by omega, rfl⟩

/-! The end of the call, behind `create_user_vaddr_bitmap`. -/

def processEnd (thread function filename : U32) : M Unit := do
  threadCreate thread function filename
  let pgdir ← createPageDir
  store32 (thread + Pcb.pgdir) pgdir
  enlist thread .processExecute

theorem Made.quiet {results dirs : List U32} (made : Made s t results dirs) : Quiet s t := by
  unfold Made at made
  rw [made]
  exact ⟨rfl, rfl, rfl⟩

theorem Made.granted {results dirs : List U32} (made : Made s t results dirs) :
    t.granted = s.granted ++ results := by
  rw [made]

/-- A single page fails to be there only when all are taken. -/
theorem mallocKernelPages_one (settled : Settled s g) (short : ¬ g.kernelUsed + 1 ≤ 8 * g.kernelLength) :
    Stops (mallocKernelPages 1) s := by
  refine @mallocKernelPages_short s g 1 settled Nat.one_pos (by decide) ?_
  by_cases full : 8 * g.kernelLength ≤ g.heapUsed
  · exact .inl full
  · exact .inr ⟨.inl (by omega), by omega⟩

/-- The thread has come to the end of both lists, and nothing was stored through `NULL`. -/
structure Listed (s : Machine) (thread : U32) (t : Machine) : Prop where
  ready : t.threadReadyList = s.threadReadyList ++ [thread]
  all : t.threadAllList = s.threadAllList ++ [thread]
  nullStored : t.nullStored = s.nullStored

theorem processEnd_cases (settled : Settled s g) (page : PageAt g thread frame)
    (stack : field s.phys frame Pcb.selfKstack = thread + pgSize) (function filename : U32)
    (unready : elemFind s.threadReadyList thread = false) (unknown : elemFind s.threadAllList thread = false) :
    Stops (processEnd thread function filename) s ∨ ∃ t d, processEnd thread function filename s = .ok () t ∧
      t.granted = s.granted ++ [d] ∧ d ≠ 0 ∧ Listed s thread t := by
  obtain ⟨s₁, created, same₁, rep₁, -⟩ := threadCreate_ok page settled.rep stack function filename
  have settled₁ := settled.same same₁ rep₁
  unfold processEnd
  by_cases room : g.kernelUsed + 1 ≤ 8 * g.kernelLength
  · right
    obtain ⟨s₂, g₂, directory, made₂, settled₂, allocated, -⟩ := createPageDir_ok settled₁ room
    have page₂ := page.keep (allocated.extends_dir settled₁.rep.core.valid fun _ => .pcb)
    obtain ⟨s₃, stored, w₃, -⟩ := page₂.writeWord settled₂.rep Pcb.pgdir (heapAddr g.heapUsed) (by decide)
      (by decide)
    have made := (same₁.made.trans made₂).trans w₃.same.made
    have quiet := made.quiet
    have listed := @enlist_ok s₃ thread .processExecute (by rw [quiet.readyList]; exact unready)
      (by rw [quiet.allList]; exact unknown)
    have nonzero := heapAddr_nonzero settled₂.rep.core.valid
      (show (g₂.addDir (0x200 + g.kernelUsed)).use _ = _ from (allocated.pages 0 Nat.one_pos).1)
    rw [Nat.add_zero, settled₁.mapped] at nonzero
    refine ⟨{ s₃ with
      threadReadyList := listAppend s₃.threadReadyList thread
      threadAllList := listAppend s₃.threadAllList thread }, heapAddr g.heapUsed, ?_, made.granted, nonzero, ?_⟩
    · rw [Program.bind_ok created, Program.bind_ok directory, Program.bind_ok stored]
      exact listed
    · exact ⟨congrArg (· ++ [thread]) quiet.readyList, congrArg (· ++ [thread]) quiet.allList, quiet.nullStored⟩
  · left
    refine Stops.second created same₁.quiet (Stops.first ?_)
    exact (mallocKernelPages_one settled₁ room).first

/-! The bitmap at `NULL`. -/

theorem bitmapEnd_null (rep : Represents s g) (page : PageAt g thread frame) :
    ∃ t, Same s t ∧ Represents t g ∧ field t.phys frame Pcb.selfKstack = field s.phys frame Pcb.selfKstack ∧
      bitmapEnd thread 0 s = memset 0 0 94199 t := by
  obtain ⟨s₁, bits, w₁, bitsField⟩ := page.writeWord rep Pcb.bitmapBits 0 (by decide) (by decide)
  obtain ⟨t, length, w₂, lengthField⟩ := page.writeWord w₁.rep Pcb.bitmapLength
    ((0xc0000000 - userVaddrStart) / pgSize / 8) (by decide) (by decide)
  have bitmap := userBitmap_ok w₂.rep page
  rw [lengthField, w₂.field (.inr (by decide)), bitsField] at bitmap
  refine ⟨t, w₁.same.trans w₂.same, w₂.rep, ?_, ?_⟩
  · rw [w₂.field (.inl (by decide)), w₁.field (.inl (by decide))]
  · unfold bitmapEnd
    rw [Program.bind_ok bits, Program.bind_ok length, Program.bind_ok bitmap]
    rfl

/-- Under the boot directory the first 4 KiB are mapped: the stores go through. -/
theorem memset_null (settled : Settled s g) (boot : s.root = 0x100) (count : Nat) (positive : 0 < count)
    (below : count ≤ 0x9a000) :
    ∃ t, memset 0 0 count s = .ok () t ∧ Settled t g ∧ t.granted = s.granted ∧
      t.threadReadyList = s.threadReadyList ∧ t.threadAllList = s.threadAllList ∧ t.nullStored = true ∧
      ∀ x, count ≤ x → t.phys x = s.phys x := by
  have length : (List.replicate count (0 : U8)).length = count := List.length_replicate
  have region : Region (fun m => Core m g) s.root (0 : U32).toNat
      (List.replicate count (0 : U8)).length id := by
    rw [length, boot]
    refine ⟨fun m i core inside => ?_, fun m i byte core inside => ?_, fun i j _ _ same => same⟩
    · rw [show (0 : U32).toNat + i = i from Nat.zero_add i]
      exact core.translate_identity (by omega)
    · refine core.update (core.valid.plain_low ?_ (.inl ?_)) byte
      · rw [id]
        omega
      · rw [id]
        omega
  obtain ⟨m, done, core, -, miss⟩ := storeBytes_any _ region (by
    rw [length, show (0 : U32).toNat = 0 from rfl]
    omega) settled.rep.core
  have nonempty : List.replicate count (0 : U8) ≠ [] := by
    rw [Ne, List.replicate_eq_nil_iff]
    omega
  rw [decide_eq_true ⟨show (0 : U32).toNat < 4096 by decide, nonempty⟩, Bool.or_true] at done
  have stored : Settled { s with phys := m } g :=
    ⟨settled.rep.write core settled.rep.root ⟨rfl, rfl⟩ fun _ owned => owned, settled.mapped, settled.lock⟩
  refine ⟨{ s with phys := m, nullStored := true }, ?_, ?_, rfl, rfl, rfl, rfl, fun x above => ?_⟩
  · rw [memset_eq]
    exact done
  · exact stored.fields ⟨rfl, rfl, fun type => by cases type <;> rfl, fun type => by cases type <;> rfl, rfl⟩ rfl
      rfl fun type => by cases type <;> rfl
  · refine miss x fun i inside => ?_
    rw [length] at inside
    rw [id]
    omega

/-- The directories of processes do not map the first page: the first store faults. -/
theorem memset_null_fault (absent : s.translate 0 = none) (count : Nat) (positive : 0 < count) :
    Stops (memset 0 0 count) s := by
  obtain ⟨n, rfl⟩ := Nat.exists_eq_succ_of_ne_zero (Nat.ne_of_gt positive)
  exact ⟨_, s, Program.bind_error (store8_fault 0 absent), Quiet.refl s⟩

/-! The whole call. -/

/-- The page of the PCB is there, and the process waits for its bitmap. -/
structure FirstPage (s : Machine) (g : Layout) (name : List U8) (filename : U32) (t : Machine)
    (g' : Layout) : Prop where
  made : Made s t [heapAddr g.heapUsed] []
  settled : Settled t g'
  allocated : Allocated g 1 g'
  page : PageAt g' (heapAddr g.heapUsed) (0x200 + g.kernelUsed)
  room : g.kernelUsed < 8 * g.kernelLength
  inside : g.heapUsed < 8 * g.kernelLength
  nonzero : heapAddr g.heapUsed ≠ 0
  stack : field t.phys (0x200 + g.kernelUsed) Pcb.selfKstack = heapAddr g.heapUsed + pgSize
  call : processExecute filename name s = (createUserVaddrBitmap (heapAddr g.heapUsed) >>= fun _ =>
    get >>= fun u => processEnd (heapAddr g.heapUsed) u.symbols.startProcess filename) t

theorem processExecute_first (settled : Settled s g) (fits : name.length < 16)
    (room : g.kernelUsed + 1 ≤ 8 * g.kernelLength) : ∃ t g', FirstPage s g name filename t g' := by
  obtain ⟨s₁, g₁, called, took⟩ := mallocKernelPages_took settled Nat.one_pos (show 1 < 3840 by decide) room
  have page := took.page
  obtain ⟨t, initialized, written, fields⟩ := initThread_ok page took.settled.rep name 31 fits
  have use := (took.allocated.pages 0 Nat.one_pos).1
  have length : g₁.kernelLength = g.kernelLength := congrArg (· / 8) took.allocated.grown.lengths.1
  have small := (took.settled.rep.core.valid.heap_small use).1
  rw [length, took.mapped] at small
  refine ⟨t, g₁, ?_, took.settled.same written.same written.rep, took.allocated, page, room, small, took.nonzero,
    fields.selfKstack, ?_⟩
  · exact took.granted.made.trans written.same.made
  · unfold processExecute
    rw [show (1 : U32) = BitVec.ofNat 32 1 from rfl, Program.bind_ok called, Program.bind_ok initialized]
    rfl

theorem FirstPage.lengths (first : FirstPage s g name filename t g') :
    g'.kernelUsed = g.kernelUsed + 1 ∧ g'.heapUsed = g.heapUsed + 1 ∧ g'.kernelLength = g.kernelLength ∧
      (g'.Fits 23 ↔ (g.takeHeap 1).Fits 23) := by
  have grown := first.allocated.grown
  have length : g'.kernelLength = g.kernelLength := congrArg (· / 8) grown.lengths.1
  refine ⟨grown.kernelUsed, grown.heapUsed, length, ?_⟩
  unfold Layout.Fits
  rw [grown.heapUsed, grown.tail, length]
  rfl

/-- The thread is in neither list before. -/
def Fresh (s : Machine) (g : Layout) : Prop := g.heapUsed < 8 * g.kernelLength →
  elemFind s.threadReadyList (heapAddr g.heapUsed) = false ∧
    elemFind s.threadAllList (heapAddr g.heapUsed) = false

/-- The layout in which the PCB gets its page, and the request for the bitmap returns `NULL`. -/
structure Torn (g : Layout) : Prop where
  frame : g.kernelUsed < 8 * g.kernelLength
  page : g.heapUsed + 2 ≤ 8 * g.kernelLength
  unfit : ¬ (g.takeHeap 1).Fits 23

/-- Both requests have been made, and the second has returned `NULL`. -/
theorem FirstPage.null (first : FirstPage s g name filename t g') (torn : Torn g) :
    ∃ u, Made s u [heapAddr g.heapUsed, 0] [] ∧ Settled u g' ∧
      field u.phys (0x200 + g.kernelUsed) Pcb.selfKstack = heapAddr g.heapUsed + pgSize ∧
      processExecute filename name s = (memset 0 0 94199 >>= fun _ =>
        get >>= fun w => processEnd (heapAddr g.heapUsed) w.symbols.startProcess filename) u := by
  obtain ⟨used, heap, length, fits⟩ := first.lengths
  obtain ⟨s₁, same₁, settled₁, stack₁, call, -⟩ := createUserVaddrBitmap_took first.settled first.page
  have page := torn.page
  have refused := mallocKernelPages_null settled₁ (show 0 < 23 by decide) (by decide) (by omega)
    (fun fit => torn.unfit (fits.mp fit))
  have settled₂ := settled₁.recorded (s₁.granted ++ [0])
  obtain ⟨u, same₂, rep₂, stack₂, ended⟩ := bitmapEnd_null settled₂.rep first.page
  have made₂ : Made s₁ u [0] [] := by
    unfold Made
    unfold Same at same₂
    rw [same₂]
    simp
  refine ⟨u, (first.made.trans same₁.made).trans made₂, settled₂.same same₂ rep₂,
    (stack₂.trans stack₁).trans first.stack, ?_⟩
  rw [Program.bind_ok refused, ended] at call
  rw [first.call]
  exact Program.bind_same call

/-- The request for the bitmap panics or succeeds. -/
theorem FirstPage.bitmap (first : FirstPage s g name filename t g') (whole : ¬ Torn g) :
    Stops (createUserVaddrBitmap (heapAddr g.heapUsed)) t ∨ ∃ u k,
      createUserVaddrBitmap (heapAddr g.heapUsed) t = .ok () u ∧
        UserBitmap t g' (0x200 + g.kernelUsed) u k ∧ heapAddr g'.heapUsed ≠ 0 := by
  obtain ⟨used, heap, length, fit⟩ := first.lengths
  have room := first.room
  obtain ⟨s₁, same₁, settled₁, -, call, ending⟩ := createUserVaddrBitmap_took first.settled first.page
  have stopped (stops : Stops (mallocKernelPages (BitVec.ofNat 32 23)) s₁) :
      Stops (createUserVaddrBitmap (heapAddr g.heapUsed)) t := by
    obtain ⟨fault, w, eq, quiet⟩ := stops
    exact ⟨fault, w, call.trans (Program.bind_error eq), same₁.quiet.trans quiet⟩
  by_cases full : 8 * g'.kernelLength ≤ g'.heapUsed
  case pos => exact .inl (stopped (mallocKernelPages_short settled₁ (by decide) (by decide) (.inl full)))
  have fitting : g'.Fits 23 := by
    by_contra unfit
    exact whole ⟨by omega, by omega, fun possible => unfit (fit.mpr possible)⟩
  by_cases more : g'.kernelUsed + 23 ≤ 8 * g'.kernelLength
  · right
    obtain ⟨w, k, called, took⟩ := mallocKernelPages_took settled₁ (show 0 < 23 by decide) (by decide) more
    obtain ⟨u, ended, bitmap⟩ := ending _ _ _ took
    refine ⟨u, k, ?_, bitmap, took.nonzero⟩
    rw [call, Program.bind_ok called]
    exact ended
  · exact .inl (stopped (mallocKernelPages_short settled₁ (by decide) (by decide) (.inr ⟨fitting, by omega⟩)))

theorem processExecute_ends (settled : Settled s g) (fits : name.length < 16) (fresh : Fresh s g)
    (tables : ∀ frame d p, g.use frame = .table d p → 32 ≤ p) (whole : Torn g → s.root ≠ 0x100) :
    Stops (processExecute filename name) s ∨ ∃ thread bits pgdir t,
      processExecute filename name s = .ok () t ∧ t.granted = s.granted ++ [thread, bits, pgdir] ∧
      0 ∉ [thread, bits, pgdir] ∧ Listed s thread t := by
  by_cases room : g.kernelUsed + 1 ≤ 8 * g.kernelLength
  case neg => exact .inl (mallocKernelPages_one settled room).first
  obtain ⟨s₁, g₁, first⟩ := @processExecute_first s g filename name settled fits room
  have quiet₁ := first.made.quiet
  obtain ⟨unready, unknown⟩ := fresh first.inside
  by_cases torn : Torn g
  · -- the store faults: the directory is one of a process
    left
    obtain ⟨u, made, settled₂, -, call⟩ := first.null torn
    have root : u.root = s.root := by
      unfold Machine.root
      rw [made]
    have member : u.root ∈ g₁.dirs := by
      rcases settled₂.rep.root with boot | member
      · exact absurd (root.symm.trans boot) (whole torn)
      · exact member
    have absent : u.translate 0 = none := settled₂.low_absent
      (fun frame d p use => tables frame d p (first.allocated.old_table use)) member (by decide)
    obtain ⟨fault, w, stopped, quiet⟩ := memset_null_fault absent 94199 (by decide)
    exact ⟨fault, w, call.trans (Program.bind_error stopped), made.quiet.trans quiet⟩
  rcases first.bitmap torn with stops | ⟨s₃, g₂, done, bitmap, nonzero⟩
  · left
    obtain ⟨fault, w, stopped, quiet⟩ := stops
    exact ⟨fault, w, first.call.trans (Program.bind_error stopped), quiet₁.trans quiet⟩
  have made₃ := first.made.trans bitmap.made
  have quiet₃ := made₃.quiet
  have extended : Extends g₁ g₂ (fun _ => .pcb) fun _ => .pcb :=
    bitmap.allocated.extends first.settled.rep.core.valid fun _ _ => rfl
  have call₃ : processExecute filename name s =
      processEnd (heapAddr g.heapUsed) s₃.symbols.startProcess filename s₃ := by
    rw [first.call, Program.bind_ok done, Program.bind_get]
  rcases processEnd_cases bitmap.settled (first.page.keep extended) (bitmap.selfKstack.trans first.stack)
    s₃.symbols.startProcess filename (by rw [quiet₃.readyList]; exact unready)
    (by rw [quiet₃.allList]; exact unknown) with stops | ⟨t, d, ended, granted, last, listed⟩
  · left
    obtain ⟨fault, w, stopped, quiet⟩ := stops
    exact ⟨fault, w, call₃.trans stopped, quiet₃.trans quiet⟩
  · right
    refine ⟨heapAddr g.heapUsed, heapAddr g₁.heapUsed, d, t, call₃.trans ended, ?_, ?_, ?_⟩
    · rw [granted, made₃.granted, List.append_assoc]
      rfl
    · simp only [List.mem_cons, List.not_mem_nil, or_false, not_or]
      exact ⟨first.nonzero.symm, nonzero.symm, last.symm⟩
    · refine ⟨?_, ?_, listed.nullStored.trans quiet₃.nullStored⟩
      · rw [listed.ready, quiet₃.readyList]
      · rw [listed.all, quiet₃.allList]

/-- Under the boot directory the bitmap is cleared at `NULL`, and the call goes on. -/
theorem processExecute_torn (settled : Settled s g) (fits : name.length < 16) (fresh : Fresh s g)
    (torn : Torn g) (boot : s.root = 0x100) :
    (Program.finish (processExecute filename name s)).nullStored = true ∧
      ∀ t, processExecute filename name s = .ok () t →
        ∃ pgdir, t.granted = s.granted ++ [heapAddr g.heapUsed, 0, pgdir] := by
  obtain ⟨s₁, g₁, first⟩ := @processExecute_first s g filename name settled fits torn.frame
  obtain ⟨unready, unknown⟩ := fresh first.inside
  obtain ⟨u, made, settled₂, stack, call⟩ := first.null torn
  have quiet := made.quiet
  have root : u.root = 0x100 := by
    rw [← boot]
    unfold Machine.root
    rw [made]
  obtain ⟨w, cleared, settled₃, granted, ready, all, stored, outside⟩ :=
    memset_null settled₂ root 94199 (by decide) (by decide)
  have valid := settled₂.rep.core.valid
  have apart := (first.page.inside valid).1
  have stack₃ : field w.phys (0x200 + g.kernelUsed) Pcb.selfKstack = heapAddr g.heapUsed + pgSize := by
    rw [← stack]
    exact field_same (by decide) fun x same => outside x (by omega)
  rw [Program.bind_ok cleared, Program.bind_get] at call
  rcases processEnd_cases settled₃ first.page stack₃ w.symbols.startProcess filename
    (by rw [ready, quiet.readyList]; exact unready) (by rw [all, quiet.allList]; exact unknown) with
    stops | ⟨t, d, ended, granted', -, listed⟩
  · obtain ⟨fault, v, stopped, quiet'⟩ := stops
    rw [call, stopped]
    exact ⟨quiet'.nullStored.trans stored, fun t done => nomatch done⟩
  · rw [call, ended]
    refine ⟨listed.nullStored.trans stored, fun t' done => ⟨d, ?_⟩⟩
    cases done
    rw [granted', granted, made.granted, List.append_assoc]
    rfl

theorem Settled.atomic_iff (settled : Settled s g) (fits : name.length < 16) (fresh : Fresh s g)
    (tables : ∀ frame d p, g.use frame = .table d p → 32 ≤ p) :
    Atomic s filename name ↔ ¬ (s.root = 0x100 ∧ NoBitmapRoom s) := by
  have cleared : Settled { s with nullStored := false } g :=
    settled.fields ⟨rfl, rfl, fun type => by cases type <;> rfl, fun type => by cases type <;> rfl, rfl⟩ rfl rfl
      fun type => by cases type <;> rfl
  have condition : NoBitmapRoom s ↔ Torn g := (noBitmapRoom_iff settled.rep).trans
    ⟨fun ⟨frame, page, unfit⟩ => ⟨frame, page, unfit⟩, fun ⟨frame, page, unfit⟩ => ⟨frame, page, unfit⟩⟩
  rw [condition]
  constructor
  · rintro atomic ⟨boot, torn⟩
    obtain ⟨stored, ends⟩ := @processExecute_torn _ _ filename name cleared fits fresh torn boot
    rcases atomic with ⟨thread, bits, pgdir, t, done, granted, nonzero, -⟩ | quiet
    · obtain ⟨pgdir', granted'⟩ := ends t done
      have same := List.append_cancel_left (granted.symm.trans granted')
      injection same with first rest
      injection rest with second
      exact nonzero (by simp [second])
    · rw [quiet.nullStored] at stored
      contradiction
  · intro good
    rcases @processExecute_ends _ _ filename name cleared fits fresh tables
      (fun torn boot => good ⟨boot, torn⟩) with stops | ⟨thread, bits, pgdir, t, done, granted, nonzero, listed⟩
    · obtain ⟨fault, t, stopped, quiet⟩ := stops
      right
      rw [stopped]
      exact quiet
    · exact .inl ⟨thread, bits, pgdir, t, done, granted, nonzero, listed.ready, listed.all⟩

/-! Every run. -/

/-- The PCB of a thread lies in a page that the heap has given away. -/
theorem Known.old {m : ByteMemory.Memory} (known : Known m g role thread) (valid : g.Valid)
    (mapped : g.heapMapped = g.heapUsed) (inside : g.heapUsed < 8 * g.kernelLength) :
    thread ≠ heapAddr g.heapUsed := by
  have small := valid.kernelFree
  have short : 8 * g.kernelLength < 2 ^ 15 := by
    unfold Layout.kernelLength
    omega
  have next := heapAddr_toNat (i := g.heapUsed) (by omega)
  obtain ⟨frame, pcb, -⟩ := known
  intro same
  rcases pcb.page with ⟨main, -⟩ | ⟨i, eq, use, -⟩
  · rw [← same, main, show (0xc009e000 : U32).toNat = 0xc009e000 from rfl] at next
    omega
  · have below := (valid.heap _ _ use).1
    have value := heapAddr_toNat (i := i) (by omega)
    rw [← eq, same, next] at value
    omega

theorem Sound.fresh (sound : Sound s g role) (ready : s.threadReadyList ⊆ s.threadAllList) : Fresh s g := by
  intro inside
  have unknown : heapAddr g.heapUsed ∉ s.threadAllList := fun member =>
    (sound.threads _ member).old sound.settled.rep.core.valid sound.settled.mapped inside rfl
  exact ⟨decide_eq_false fun member => unknown (ready member), decide_eq_false unknown⟩

/-- In some run of calls by any threads, the thread that calls next has been switched to. -/
def Calling (allMem gdtBase : U32) (u : Machine) : Prop :=
  ∃ s caller ready, (calls allMem gdtBase).ReachableBy Proper s ∧ caller ∈ s.threadAllList ∧
    ready ⊆ s.threadAllList ∧ switchTo caller { s with threadReadyList := ready } = .ok () u

theorem Calling.sound (calling : Calling allMem gdtBase u) :
    ∃ g role, Sound u g role ∧ u.threadReadyList ⊆ u.threadAllList ∧ u.runningThread ∈ u.threadAllList ∧
      ∃ frame, PcbAt g role u.runningThread frame ∧
        (KernelThread u.phys frame ∨ ∃ bits, Process u.phys g role frame u.root bits) := by
  obtain ⟨s, caller, ready, reached, member, subset, switched⟩ := calling
  obtain ⟨g, role, sound⟩ := calls_sound reached
  obtain ⟨w, done, sound', -, ⟨readyList, allList⟩, running, thread⟩ :=
    switchTo_ok sound ready (sound.threads _ member)
  rw [switched] at done
  cases done
  rw [readyList, allList, running]
  exact ⟨g, role, sound', subset, member, thread⟩

/-- On a machine of 32 MiB the main thread has taken 3830 of the 3840 pages of the heap. -/
theorem heap_nearly_full : ∃ u, Calling 0x2000000 0x903 u ∧ u.root = 0x100 ∧ NoBitmapRoom u := by
  obtain ⟨s, prepared, list, kernel⟩ := main_prepared
  have member : (0xc009e000 : U32) ∈ s.threadAllList := by
    rw [list]
    exact List.mem_singleton_self _
  obtain ⟨tail, sound⟩ := prepared.sound
  obtain ⟨tss, switched⟩ := switchTo_main sound.settled [] kernel
  have boot (g : Layout) : g.Root ((0x100000 : U32).toNat / 4096) := .inl rfl
  have sound₁ := sound.switched [] 0xc009e000 tss (boot _)
  obtain ⟨t, g', called, took⟩ := mallocKernelPages_took sound₁.settled (show 0 < 3830 by decide) (by decide)
    (show 0 + 3830 ≤ 8 * (kernelPages 0x2000000 / 8) by decide)
  have valid := sound₁.settled.rep.core.valid
  have advance := took.advance valid 32 fun _ => .pcb
  have sound₂ := sound₁.advance advance
  have stepped : (calls 0x2000000 0x903).step s ⟨0xc009e000, [], .mallocKernelPages 3830⟩ = some (.ok t) :=
    step_ok member (List.nil_subset _) switched (Program.bind_ok called)
  have main : PcbAt (bootLayout (kernelPages 0x2000000) (userPages 0x2000000) tail) (fun _ => .pcb)
    0xc009e000 0x9e := ⟨.inl ⟨rfl, rfl⟩, fun _ _ => rfl⟩
  have kernel₂ : KernelThread t.phys 0x9e := kernel.same (advance.pcbs _ _ main)
  obtain ⟨tss', switched'⟩ := switchTo_main sound₂.settled [] kernel₂
  have sound₃ := sound₂.switched [] 0xc009e000 tss' (boot _)
  have all : t.threadAllList = s.threadAllList := by rw [took.granted]
  have proper : Proper s ⟨0xc009e000, [], .mallocKernelPages 3830⟩ := True.intro
  have reached := Transition.System.ReachableBy.next (.start prepared) proper stepped
  refine ⟨_, ⟨t, _, [], reached, ?_, List.nil_subset _, switched'⟩, ?_, ?_⟩
  · rw [all]
    exact member
  · unfold Machine.root
    exact show (0x100000 : U32).toNat / 4096 = 0x100 by decide
  · rw [noBitmapRoom_iff sound₃.settled.rep]
    have grown := took.allocated.grown
    have used : g'.kernelUsed = 3830 := grown.kernelUsed
    have heap : g'.heapUsed = 3830 := grown.heapUsed
    have length : g'.kernelLength = kernelPages 0x2000000 / 8 := congrArg (· / 8) grown.lengths.1
    rw [show kernelPages 0x2000000 / 8 = 480 by decide] at length
    refine ⟨by omega, by omega, ?_⟩
    rintro (room | ⟨same, -⟩)
    · change g'.heapUsed + 1 + 23 ≤ 8 * g'.kernelLength at room
      omega
    · change g'.heapUsed + 1 + 23 = 8 * g'.kernelLength + 1 at same
      omega

end LiziOS.Memory
