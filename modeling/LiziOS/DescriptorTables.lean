import LiziOS.FrameOwnership

namespace LiziOS.Memory

open ByteMemory Paging

/-! The table of descriptors under the directories of the processes. -/

variable {s t u : Machine} {g g' : Layout} {role : Nat → Role} {allMem gdtBase thread : U32} {frame : Nat}

theorem Settled.low_absent (settled : Settled s g) (tables : ∀ frame d p, g.use frame = .table d p → 32 ≤ p)
    {d x : Nat} (member : d ∈ g.dirs) (low : x < 0x400000) : Paging.translate s.phys d x = none := by
  have absent : g.slot d (x / 4096 / 1024) = .absent := by
    rw [show x / 4096 / 1024 = 0 by omega]
    rcases settled.rep.core.valid.userHalf d member 0 (by decide) with absent | ⟨table, -, use⟩
    · exact absent
    · exact absurd (tables table d 0 use) (by decide)
  unfold Paging.translate
  rw [settled.rep.core.tables.walk_no_table absent (by omega)]
  rfl

/-- Every directory ever made has no entry for the first 4 MiB. -/
theorem Sound.low_absent (sound : Sound s g role) {a : U32} (process : a ∈ s.pageDirs) {x : Nat}
    (low : x < 0x400000) : Paging.translate s.phys (a.toNat / 4096) x = none := by
  obtain ⟨d, member, rfl⟩ := sound.made a process
  rw [dir_root sound.settled.rep.core.valid member]
  exact sound.settled.low_absent sound.tables member low

theorem calls_loader (reached : (calls allMem gdtBase).ReachableBy Proper s) :
    0x900 ≤ gdtBase.toNat ∧ gdtBase.toNat < 0xd00 := by
  induction reached with
  | start begun =>
    obtain ⟨before, after, starting, -⟩ := begun
    exact starting.loaded.gdtInLoader
  | next earlier permitted stepped ih => exact ih

theorem operand_base (base : U32) :
    (((8 * 7 - 1 : BitVec 64) ||| (base.setWidth 64 <<< 16)) >>> 16).setWidth 32 = base := by
  apply BitVec.eq_of_getLsbD_eq
  intro i less
  have high : (8 * 7 - 1 : BitVec 64).getLsbD (16 + i) = false := by
    rw [BitVec.getLsbD]
    exact Nat.testBit_lt_two_pow (lt_of_lt_of_le (show 55 < 2 ^ 16 by decide)
      (Nat.pow_le_pow_right (by decide) (Nat.le_add_right _ _)))
  rw [BitVec.getLsbD_setWidth, BitVec.getLsbD_ushiftRight, BitVec.getLsbD_or, high, BitVec.getLsbD_shiftLeft,
    BitVec.getLsbD_setWidth]
  have inside : 16 + i < 64 := by omega
  simp [less, inside, show i < 64 by omega]

theorem operand_limit (base : U32) :
    ((8 * 7 - 1 : BitVec 64) ||| (base.setWidth 64 <<< 16)).setWidth 16 = (55 : U16) := by
  apply BitVec.eq_of_getLsbD_eq
  intro i less
  have low : (base.setWidth 64 <<< 16).getLsbD i = false := by
    rw [BitVec.getLsbD_shiftLeft]
    simp [less]
  rw [BitVec.getLsbD_setWidth, BitVec.getLsbD_or, low, Bool.or_false, decide_eq_true less, Bool.true_and]
  have same : ((8 * 7 - 1 : BitVec 64)).toNat = (55 : U16).toNat := rfl
  rw [BitVec.getLsbD, BitVec.getLsbD, same]

/-- The address of the table that `tss_init` takes from the loader is the low one. -/
theorem tssInit_gdt (rep : Represents s g) (boot : s.root = 0x100) (done : tssInit s = .ok () t) :
    t.gdtBase = word s.phys 0xd04 ∧ t.gdtLimit = 55 := by
  have mapped : s.translate 0xd04 = some 0xd04 := by
    unfold Machine.translate
    rw [boot]
    exact rep.core.translate_identity (by decide)
  have read : load32 0xd04 { s with tss := ⟨0, (2 : U32) <<< 3, 108⟩ } =
      .ok (word s.phys 0xd04) { s with tss := ⟨0, (2 : U32) <<< 3, 108⟩ } :=
    load32_ok (by decide) mapped
  unfold tssInit at done
  rw [Program.bind_modify, Program.bind_get] at done
  obtain ⟨base, s₀, loaded, done⟩ := Program.bind_completed done
  obtain ⟨_, s₁, -, done⟩ := Program.bind_completed done
  obtain ⟨_, s₂, -, done⟩ := Program.bind_completed done
  obtain ⟨_, s₃, -, done⟩ := Program.bind_completed done
  have same : base = word s.phys 0xd04 := by
    have ok := loaded.symm.trans read
    injection ok
  cases done
  rw [← same]
  exact ⟨operand_base base, operand_limit base⟩

/-- The initialisation up to `tss_init` leaves the address of the label where the loader has put it. -/
theorem Prepared.label (prepared : Prepared s allMem gdtBase) :
    (∃ g, Represents s g) ∧ s.root = 0x100 ∧ word s.phys 0xd04 = gdtBase := by
  obtain ⟨before, after, starting, stack, initialized, threads⟩ := prepared
  obtain ⟨u, tail, called, settled, -, -, running, cr3, kept⟩ := memoryInit_ok starting
  rw [initialized] at called
  cases called
  obtain ⟨u, called, settled', -, -, -, -, same, kept'⟩ := threadInit_ok settled (running.trans stack)
  rw [threads] at called
  cases called
  refine ⟨⟨_, settled'.rep⟩, ?_, ?_⟩
  · unfold Machine.root
    rw [same, cr3, starting.cr3]
    rfl
  · rw [← starting.loaded.gdtLabel]
    apply word_congr
    intro x above below
    rw [kept' x (by omega), kept x (by unfold InBitmaps; omega)]

/-- `tss_init` runs behind `memory_init` and `thread_init`: GDTR gets the address of the label. -/
theorem Prepared.gdt (prepared : Prepared s allMem gdtBase) (done : tssInit s = .ok () t) :
    t.gdtBase = gdtBase ∧ t.gdtLimit = 55 := by
  obtain ⟨⟨g, rep⟩, boot, label⟩ := prepared.label
  rw [← label]
  exact tssInit_gdt rep boot done

/-! With room for its 25 pages, `process_execute` completes. -/

theorem Took.nonzero {n : Nat} {v : U32} (took : Took s g n v t g') : v ≠ 0 := by
  have use := (took.allocated.pages 0 took.positive).1
  rw [Nat.add_zero, took.mapped] at use
  rw [took.address]
  exact heapAddr_nonzero took.settled.rep.core.valid use

theorem Allocated.trans {g'' : Layout} {n k : Nat} (first : Allocated g n g') (second : Allocated g' k g'') :
    Allocated g (n + k) g'' := by
  obtain ⟨grown, pages⟩ := first
  obtain ⟨grown', pages'⟩ := second
  have used : g'.kernelUsed = g.kernelUsed + n := grown.kernelUsed
  have mapped : g'.heapMapped = g.heapMapped + n := grown.heapMapped
  have heap : g'.heapUsed = g.heapUsed + n := grown.heapUsed
  have use (j : Nat) (less : j < n + k) : g''.use (0x200 + g.kernelUsed + j) = .heap (g.heapMapped + j) ∧
      0x200 + g.kernelUsed + j ∉ g''.dirs := by
    by_cases old : j < n
    · have same : g''.use (0x200 + g.kernelUsed + j) = g'.use (0x200 + g.kernelUsed + j) :=
        grown'.old _ (.inl (by change _ < 0x200 + g'.kernelUsed; omega))
      have dirs : g''.dirs = g'.dirs := grown'.dirs
      rw [same, dirs]
      exact pages j old
    · have later := pages' (j - n) (by omega)
      rw [used, mapped, show 0x200 + (g.kernelUsed + n) + (j - n) = 0x200 + g.kernelUsed + j by omega,
        show g.heapMapped + n + (j - n) = g.heapMapped + j by omega] at later
      exact later
  refine ⟨?_, use⟩
  constructor
  · exact ⟨grown'.lengths.1.trans grown.lengths.1, grown'.lengths.2.trans grown.lengths.2⟩
  · exact grown'.userUsed.trans grown.userUsed
  · have total : g''.heapUsed = g'.heapUsed + k := grown'.heapUsed
    change g''.heapUsed = g.heapUsed + (n + k)
    omega
  · exact grown'.tail.trans grown.tail
  · exact grown'.dirs.trans grown.dirs
  · have total : g''.kernelUsed = g'.kernelUsed + k := grown'.kernelUsed
    change g''.kernelUsed = g.kernelUsed + (n + k)
    omega
  · have total : g''.heapMapped = g'.heapMapped + k := grown'.heapMapped
    change g''.heapMapped = g.heapMapped + (n + k)
    omega
  · intro frame apart
    change frame < 0x200 + g.kernelUsed ∨ 0x200 + g.kernelUsed + (n + k) ≤ frame at apart
    have same : g''.use frame = g'.use frame := grown'.old frame (by
      change frame < 0x200 + g'.kernelUsed ∨ 0x200 + g'.kernelUsed + k ≤ frame
      omega)
    rw [same]
    exact grown.old frame (by
      change frame < 0x200 + g.kernelUsed ∨ 0x200 + g.kernelUsed + n ≤ frame
      omega)
  · exact fun j less => (use j less).1
  · intro frame apart
    have same : g''.slot frame = g'.slot frame := grown'.slot frame apart
    rw [same]
    exact grown.slot frame apart

/-- The process that `process_execute` has made: its PCB, the 23 pages of its bitmap and its directory lie in
    the next pages of the heap and in the next frames. -/
structure Spawned (s : Machine) (g : Layout) (t : Machine) (g' : Layout) : Prop where
  valid : g'.Valid
  settled : Settled t (g'.addDir (0x200 + g.kernelUsed + 24))
  allocated : Allocated g 25 g'
  all : t.threadAllList = listAppend s.threadAllList (heapAddr g.heapUsed)
  pageDirs : t.pageDirs = s.pageDirs ++ [BitVec.ofNat 32 (4096 * (0x200 + g.kernelUsed + 24))]
  cr3 : t.cr3 = s.cr3
  outside : ∀ x, ¬ InKernelTables x → x < 4096 * (0x200 + g.kernelUsed) → t.phys x = s.phys x
  pgdir : field t.phys (0x200 + g.kernelUsed) Pcb.pgdir = heapAddr (g.heapUsed + 24)
  bitmapBits : field t.phys (0x200 + g.kernelUsed) Pcb.bitmapBits = heapAddr (g.heapUsed + 1)
  addrStart : field t.phys (0x200 + g.kernelUsed) Pcb.addrStart = userVaddrStart
  selfKstack : field t.phys (0x200 + g.kernelUsed) Pcb.selfKstack = heapAddr g.heapUsed + 3664

theorem processExecute_spawned (settled : Settled s g) {filename : U32} {name : List U8}
    (fits : name.length < 16) (room : g.kernelUsed + 25 ≤ 8 * g.kernelLength)
    (unready : elemFind s.threadReadyList (heapAddr g.heapUsed) = false)
    (unknown : elemFind s.threadAllList (heapAddr g.heapUsed) = false) :
    ∃ t g', processExecute filename name s = .ok () t ∧ Succeeds s t ∧ Spawned s g t g' := by
  obtain ⟨s₁, g₁, called, took⟩ := mallocKernelPages_took settled Nat.one_pos (show 1 < 3840 by decide)
    (by omega)
  have page := took.page
  obtain ⟨s₂, initialized, written, fields⟩ := initThread_ok page took.settled.rep name 31 fits
  have settled₂ := took.settled.same written.same written.rep
  have used₁ : g₁.kernelUsed = g.kernelUsed + 1 := took.allocated.grown.kernelUsed
  have heap₁ : g₁.heapUsed = g.heapUsed + 1 := took.allocated.grown.heapUsed
  have length₁ : g₁.kernelLength = g.kernelLength :=
    congrArg (· / 8) took.allocated.grown.lengths.1
  obtain ⟨s₂', same₂, settled₂', -, call, ending⟩ := createUserVaddrBitmap_took settled₂ page
  obtain ⟨s₂'', g₂, called₂, took₂⟩ := mallocKernelPages_took settled₂' (show 0 < 23 by decide)
    (show 23 < 3840 by decide) (by omega)
  obtain ⟨s₃, ended, bitmap⟩ := ending _ _ _ took₂
  have bitmapped : createUserVaddrBitmap (heapAddr g.heapUsed) s₂ = .ok () s₃ := by
    rw [call, Program.bind_ok called₂]
    exact ended
  have used₂ : g₂.kernelUsed = g₁.kernelUsed + 23 := bitmap.allocated.grown.kernelUsed
  have heap₂ : g₂.heapUsed = g₁.heapUsed + 23 := bitmap.allocated.grown.heapUsed
  have length₂ : g₂.kernelLength = g₁.kernelLength :=
    congrArg (· / 8) bitmap.allocated.grown.lengths.1
  have valid₁ := took.settled.rep.core.valid
  have extended₂ : Extends g₁ g₂ (fun _ => .pcb) fun _ => .pcb := bitmap.allocated.extends valid₁ fun _ _ => rfl
  have page₃ := page.keep extended₂
  have stack := bitmap.selfKstack.trans fields.selfKstack
  obtain ⟨s₄, created, same₄, rep₄, other₄, kept₄, kstack₄⟩ := threadCreate_ok page₃ bitmap.settled.rep stack
    s₃.symbols.startProcess filename
  have settled₄ := bitmap.settled.same same₄ rep₄
  obtain ⟨s₅, g₃, directory, made₅, settled₅, allocated₃, outside₅, valid₃⟩ := createPageDir_ok settled₄ (by omega)
  have extended₃ := allocated₃.extends_dir settled₄.rep.core.valid fun _ => .pcb
  have page₅ := page₃.keep extended₃
  obtain ⟨s₆, stored, w₆, pgdirField⟩ := page₅.writeWord settled₅.rep Pcb.pgdir (heapAddr g₂.heapUsed) (by decide)
    (by decide)
  have settled₆ := settled₅.same w₆.same w₆.rep
  have made := ((took.granted.made.trans written.same.made).trans bitmap.made).trans
    ((same₄.made.trans made₅).trans w₆.same.made)
  have ready : s₆.threadReadyList = s.threadReadyList := by rw [made]
  have all : s₆.threadAllList = s.threadAllList := by rw [made]
  have granted : s₆.granted =
      s.granted ++ [heapAddr g.heapUsed, heapAddr g₁.heapUsed, heapAddr g₂.heapUsed] := by
    rw [made]
    rfl
  have dir : 0x200 + g₂.kernelUsed = 0x200 + g.kernelUsed + 24 := by omega
  -- the fields that the last stores leave alone
  have kept (o : U32) (above : 4 ≤ o.toNat) (below : o.toNat ≤ 3660)
      (apart : o.toNat + 4 ≤ Pcb.pgdir.toNat ∨ Pcb.pgdir.toNat + 4 ≤ o.toNat) :
      field s₆.phys (0x200 + g.kernelUsed) o = field s₃.phys (0x200 + g.kernelUsed) o := by
    rw [w₆.field apart, field_same (by omega) fun x same => outside₅ x
      (by unfold InKernelTables InBitmaps; omega) (by omega), kept₄ o above below]
  have listed := @enlist_ok s₆ (heapAddr g.heapUsed) .processExecute (by rw [ready]; exact unready)
    (by rw [all]; exact unknown)
  rw [dir] at settled₆
  refine ⟨{ s₆ with
    threadReadyList := listAppend s₆.threadReadyList (heapAddr g.heapUsed)
    threadAllList := listAppend s₆.threadAllList (heapAddr g.heapUsed) }, g₃, ?_, ?_, valid₃, ?_, ?_, ?_, ?_, ?_,
    fun x free below => ?_, ?_, ?_, ?_, ?_⟩
  · unfold processExecute
    rw [show (1 : U32) = BitVec.ofNat 32 1 from rfl, Program.bind_ok called, Program.bind_ok initialized,
      Program.bind_ok bitmapped, Program.bind_get, Program.bind_ok created, Program.bind_ok directory,
      Program.bind_ok stored]
    exact listed
  · unfold Succeeds
    dsimp only
    rw [granted, List.drop_left]
    have third := heapAddr_nonzero settled₅.rep.core.valid
      (show (g₃.addDir (0x200 + g₂.kernelUsed)).use _ = _ from (allocated₃.pages 0 Nat.one_pos).1)
    rw [Nat.add_zero, settled₄.mapped] at third
    simp only [List.mem_cons, List.not_mem_nil, or_false, not_or]
    exact ⟨took.nonzero.symm, took₂.nonzero.symm, third.symm⟩
  · exact settled₆.fields ⟨rfl, rfl, fun type => by cases type <;> rfl, fun type => by cases type <;> rfl, rfl⟩ rfl
      rfl fun type => by cases type <;> rfl
  · exact (took.allocated.trans bitmap.allocated).trans allocated₃
  · exact congrArg (listAppend · (heapAddr g.heapUsed)) all
  · change s₆.pageDirs = _
    rw [made, ← dir]
    rfl
  · change s₆.cr3 = _
    rw [made]
  · change s₆.phys x = s.phys x
    rw [w₆.other (by decide) x (by omega), outside₅ x free (by omega), other₄ x (by omega),
      bitmap.outside x free (by omega) (by omega), written.other (by decide) x (by omega),
      took.outside x free (.inl below)]
  · exact pgdirField.trans (congrArg heapAddr (by omega))
  · exact (kept _ (by decide) (by decide) (.inr (by decide))).trans
      (bitmap.bitmapBits.trans (congrArg heapAddr heap₁))
  · exact (kept _ (by decide) (by decide) (.inr (by decide))).trans bitmap.addrStart
  · change field s₆.phys (0x200 + g.kernelUsed) Pcb.selfKstack = _
    rw [w₆.field (.inl (by decide)), field_same (by decide) fun x same => outside₅ x
      (by unfold InKernelTables InBitmaps; omega) (by omega), kstack₄]

/-- Every descriptor in the table lies under the directory where it lies under the boot directory. -/
def DescriptorsMapped (s : Machine) (gdtBase a : U32) : Prop :=
  ∀ x : U32, gdtBase.toNat ≤ x.toNat → x.toNat < gdtBase.toNat + 56 →
    Paging.translate s.phys (a.toNat / 4096) x.toNat = Paging.translate s.phys 0x100 x.toNat

/-- The boot directory maps the table to itself, and no directory of a process maps a byte of it. -/
theorem Sound.descriptors (sound : Sound s g role) (loader : gdtBase.toNat < 0xd00) {a x : U32}
    (process : a ∈ s.pageDirs) (below : x.toNat < gdtBase.toNat + 56) :
    Paging.translate s.phys 0x100 x.toNat = some x.toNat ∧
      Paging.translate s.phys (a.toNat / 4096) x.toNat = none :=
  ⟨sound.settled.rep.core.translate_identity (by omega), sound.low_absent process (by omega)⟩

theorem Sound.descriptors_unmapped (sound : Sound s g role) (loader : gdtBase.toNat < 0xd00) {a : U32}
    (process : a ∈ s.pageDirs) : ¬ DescriptorsMapped s gdtBase a := by
  intro mapped
  obtain ⟨boot, none⟩ := sound.descriptors loader process (show gdtBase.toNat < gdtBase.toNat + 56 by omega)
  have same := mapped gdtBase le_rfl (by omega)
  rw [boot, none] at same
  cases same

/-- The kernel on a machine of 32 MiB, before its first call. -/
theorem main_prepared : ∃ s, Prepared s 0x2000000 0x903 ∧ s.threadAllList = [0xc009e000] ∧
    KernelThread s.phys 0x9e := by
  have starting := entryMachine_starting loadedMemory_loaded
  obtain ⟨after, tail, initialized, settled, -, -, running, -⟩ := memoryInit_ok starting
  obtain ⟨s, threads, -, list, kernel, -⟩ := threadInit_ok settled running
  exact ⟨s, ⟨_, after, starting, rfl, initialized, threads⟩, list, kernel⟩

/-- The thread whose PCB lies in the frame runs on its directory. -/
theorem switchTo_active (settled : Settled s g) {thread cr3 : U32} {frame : Nat} (page : PageAt g thread frame)
    (active : Active s.phys g frame cr3) (ready : List U32) :
    ∃ tss, switchTo thread { s with threadReadyList := ready } = .ok () { s with
      threadReadyList := ready, runningThread := thread, cr3 := cr3, tss := tss } := by
  have rep := settled.rep.switched ready s.runningThread s.tss settled.rep.root
  obtain ⟨tss, activated, -⟩ := processActivate_ok rep page active
  refine ⟨tss, ?_⟩
  unfold switchTo
  rw [Program.bind_ok activated]
  rfl

/-- The main thread runs on the boot directory. -/
theorem switchTo_main (settled : Settled s g) (ready : List U32) (kernel : KernelThread s.phys 0x9e) :
    ∃ tss, switchTo 0xc009e000 { s with threadReadyList := ready } = .ok () { s with
      threadReadyList := ready, runningThread := 0xc009e000, cr3 := 0x100000, tss := tss } :=
  switchTo_active settled (.inl ⟨rfl, rfl⟩) (.kernel kernel.pgdir) ready

theorem process_spawned : ∃ u t tail g', (calls 0x2000000 0x903).ReachableBy Proper t ∧
    u.threadAllList = [0xc009e000] ∧ KernelThread u.phys 0x9e ∧
    Spawned u (bootLayout (kernelPages 0x2000000) (userPages 0x2000000) tail) t g' := by
  obtain ⟨s, prepared, list, kernel⟩ := main_prepared
  have member : (0xc009e000 : U32) ∈ s.threadAllList := by
    rw [list]
    exact List.mem_singleton_self _
  obtain ⟨tail, sound⟩ := prepared.sound
  obtain ⟨tss, switched⟩ := switchTo_main sound.settled [] kernel
  obtain ⟨u, eq⟩ : ∃ u : Machine, u = { s with
    threadReadyList := [], runningThread := 0xc009e000, cr3 := 0x100000, tss := tss } := ⟨_, rfl⟩
  have sound' : Sound u (bootLayout (kernelPages 0x2000000) (userPages 0x2000000) tail) fun _ => .pcb := by
    rw [eq]
    exact sound.switched [] 0xc009e000 tss (.inl rfl)
  rw [← eq] at switched
  obtain ⟨t, g', called, success, spawned⟩ := @processExecute_spawned u _ sound'.settled 0 [] (by decide)
    (show 0 + 25 ≤ 8 * (kernelPages 0x2000000 / 8) by decide) (by rw [eq]; rfl)
    (by
      rw [eq]
      dsimp only
      rw [list]
      change elemFind [0xc009e000] (heapAddr 0) = false
      decide)
  have stepped : (calls 0x2000000 0x903).step s ⟨0xc009e000, [], .processExecute 0 []⟩ = some (.ok t) :=
    step_ok member (List.nil_subset _) switched called
  have record : u.granted = s.granted := by rw [eq]
  have proper : Proper s ⟨0xc009e000, [], .processExecute 0 []⟩ := by
    refine ⟨by decide, fun t' stepped' => ?_⟩
    have same : some (Except.ok t) = some (.ok t') := stepped.symm.trans stepped'
    cases same
    unfold Succeeds at success ⊢
    rw [← record]
    exact success
  refine ⟨u, t, tail, g', .next (.start prepared) proper stepped, ?_, ?_, spawned⟩
  · rw [eq]
    exact list
  · rw [eq]
    exact kernel

/-- The main thread starts a process on a machine of 32 MiB. -/
theorem process_started : ∃ t, (calls 0x2000000 0x903).ReachableBy Proper t ∧ (∃ a, a ∈ t.pageDirs) ∧
    t.threadAllList = [0xc009e000, heapAddr 0] ∧ KernelThread t.phys 0x9e := by
  obtain ⟨u, t, tail, g', reached, list, kernel, spawned⟩ := process_spawned
  have made := List.mem_append_right u.pageDirs (List.mem_singleton_self (BitVec.ofNat 32 (4096 * (0x200 + 0 + 24))))
  refine ⟨t, reached, ⟨_, spawned.pageDirs ▸ made⟩, ?_, ?_⟩
  · rw [spawned.all]
    exact congrArg (listAppend · _) list
  · apply KernelThread.same _ fun x same => spawned.outside x (by unfold InKernelTables InBitmaps; omega) (by omega)
    exact kernel

theorem descriptors_lost :
    ¬ ∀ t, (calls 0x2000000 0x903).ReachableBy Proper t → ∀ a ∈ t.pageDirs, DescriptorsMapped t 0x903 a := by
  intro mapped
  obtain ⟨t, reached, ⟨a, process⟩, -⟩ := process_started
  obtain ⟨g, role, sound⟩ := calls_sound reached
  exact sound.descriptors_unmapped (by decide) process (mapped t reached a process)

/-- `tss_init` loads the low address of the table, and in every run of calls by any threads behind it no
    byte of the table is mapped by the directory of a process. -/
theorem descriptors_under_process (reached : (calls allMem gdtBase).ReachableBy Proper s) :
    (∀ u t, Prepared u allMem gdtBase → tssInit u = .ok () t → t.gdtBase = gdtBase ∧ t.gdtLimit = 55) ∧
      ∀ a ∈ s.pageDirs, ¬ DescriptorsMapped s gdtBase a ∧
        ∀ x : U32, gdtBase.toNat ≤ x.toNat → x.toNat < gdtBase.toNat + 56 →
          Paging.translate s.phys 0x100 x.toNat = some x.toNat ∧
            Paging.translate s.phys (a.toNat / 4096) x.toNat = none := by
  obtain ⟨g, role, sound⟩ := calls_sound reached
  have loader := (calls_loader reached).2
  refine ⟨fun u t prepared done => prepared.gdt done, fun a process => ⟨?_, ?_⟩⟩
  · exact sound.descriptors_unmapped loader process
  · exact fun x _ below => sound.descriptors loader process below

theorem descriptors_under_process_first : ∃ t, (calls 0x2000000 0x903).ReachableBy Proper t ∧
    ∃ a, a ∈ t.pageDirs ∧ ¬ DescriptorsMapped t 0x903 a := by
  obtain ⟨t, reached, ⟨a, process⟩, -⟩ := process_started
  exact ⟨t, reached, a, process, ((descriptors_under_process reached).2 a process).1⟩

end LiziOS.Memory
