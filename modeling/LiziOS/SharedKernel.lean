import LiziOS.DescriptorTables

namespace LiziOS.Memory

open ByteMemory Paging

/-! The kernel's part of the address space under the directories of the processes. -/

/-- The directories that `create_page_dir` has made translate the addresses from 3 GiB up to the recursive
    window as the boot directory does. -/
def KernelShared (s : Machine) : Prop :=
  ∀ a ∈ s.pageDirs, ∀ x, 0xc0000000 ≤ x → x < 0xffc00000 →
    Paging.translate s.phys (a.toNat / 4096) x = Paging.translate s.phys 0x100 x

/-- The calls of processes and of threads that make processes, user pages being asked for anywhere below the
    kernel. -/
def Asked (s : Machine) (a : Act) : Prop :=
  match a.call with
  | .mallocKernelPages _ => True
  | .mallocUserPages _ => True
  | .getAPage vaddr => vaddr.toNat < 0xc0000000
  | .processExecute _ name => name.length < 16 ∧ ∀ t, step s a = some (.ok t) → Succeeds s t
  | .threadStart _ _ _ _ => False

variable {s t u : Machine} {g g' g'' : Layout} {role : Nat → Role} {allMem gdtBase thread : U32}
  {m : ByteMemory.Memory} {frame r d i k n : Nat}

theorem Core.kernel_shared (core : Core m g) (root : g.Root r) {x : Nat} (above : 0xc0000000 ≤ x)
    (below : x < 0xffc00000) : Paging.translate m r x = Paging.translate m 0x100 x := by
  obtain ⟨j, less, index⟩ : ∃ j < 255, x / 4096 / 1024 = 768 + j := ⟨x / 4096 / 1024 - 768, by omega⟩
  have own := ((core.tables r).maps _ (by omega) _ (core.valid.kernelHalf r root j less)).1
  have boot := ((core.tables 0x100).maps _ (by omega) _ (core.valid.kernelHalf 0x100 (.inl rfl) j less)).1
  unfold Paging.translate walk
  rw [index, own, boot]

/-- In every run of calls by any threads whose addresses lie in the callers' bitmaps, the directories have the
    kernel in common. -/
theorem kernel_half_shared (reached : (calls allMem gdtBase).ReachableBy Proper s) : KernelShared s := by
  obtain ⟨g, role, sound⟩ := calls_sound reached
  exact fun a process x => sound.settled.rep.core.kernel_shared (.inr (sound.dir_member process))

theorem kernel_half_shared_first : ∃ t, (calls 0x2000000 0x903).ReachableBy Proper t ∧ (∃ a, a ∈ t.pageDirs) ∧
    KernelShared t := by
  obtain ⟨t, reached, process, -⟩ := process_started
  exact ⟨t, reached, process, kernel_half_shared reached⟩

/-! Directories may be left out of a layout and taken back. -/

theorem Settled.forget (settled : Settled s (g.addDir d)) (valid : g.Valid) (use : g.use d = .heap i)
    (fresh : d ∉ g.dirs) (root : g.Root s.root) : Settled s g := by
  have unknown := (valid.plain_heap use fresh).2
  have tables : Holds s.phys g.slot := by
    intro frame
    by_cases same : frame = d
    · subst same
      constructor
      · intro i inside absent
        rw [unknown i inside] at absent
        cases absent
      · intro i inside target maps
        rw [unknown i inside] at maps
        cases maps
    · have row := settled.rep.core.tables frame
      rw [show (g.addDir d).slot frame = g.slot frame from Function.update_of_ne same _ _] at row
      exact row
  refine ⟨settled.rep.change ⟨rfl, rfl, fun _ => rfl, fun _ => rfl, rfl⟩ ?_ root ⟨rfl, rfl⟩ settled.rep.nodup
    settled.rep.owned, settled.mapped, settled.lock⟩
  exact settled.rep.core.retable valid tables (fun _ _ => rfl) ⟨rfl, rfl⟩ ⟨rfl, rfl, rfl, rfl⟩

theorem Settled.remember (settled : Settled s g) (use : g.use d = .heap i) (fresh : d ∉ g.dirs)
    (row : RowHolds s.phys d (Layout.dirRow d)) : Settled s (g.addDir d) := by
  have valid := settled.rep.core.valid.addDir use fresh
  refine ⟨settled.rep.change ⟨rfl, rfl, fun _ => rfl, fun _ => rfl, rfl⟩ ?_
    (settled.rep.root.imp id (List.mem_cons_of_mem d)) ⟨rfl, rfl⟩ settled.rep.nodup settled.rep.owned,
    settled.mapped, settled.lock⟩
  exact settled.rep.core.retable valid (settled.rep.core.tables.withRow row) (fun _ _ => rfl) ⟨rfl, rfl⟩
    ⟨rfl, rfl, rfl, rfl⟩

/-! A run in which the marks of two processes change a directory. -/

/-- The first `n` pages of the heap lie in the first `n` frames, and nothing is known of the directories among
    them. -/
structure Packed (g : Layout) (n : Nat) : Prop where
  kernelLength : g.kernelLength = 480
  userLength : g.userLength = 480
  kernelUsed : g.kernelUsed = n
  userUsed : g.userUsed = 0
  heapUsed : g.heapUsed = n
  heapMapped : g.heapMapped = n
  dirs : g.dirs = []
  pages : ∀ j < n, g.use (0x200 + j) = .heap j

theorem Packed.allocated (packed : Packed g n) (allocated : Allocated g k g') : Packed g' (n + k) := by
  obtain ⟨grown, pages⟩ := allocated
  have kernelUsed : g'.kernelUsed = g.kernelUsed + k := grown.kernelUsed
  have heapUsed : g'.heapUsed = g.heapUsed + k := grown.heapUsed
  have heapMapped : g'.heapMapped = g.heapMapped + k := grown.heapMapped
  have userUsed : g'.userUsed = g.userUsed := grown.userUsed
  have dirs : g'.dirs = g.dirs := grown.dirs
  refine ⟨(congrArg (· / 8) grown.lengths.1).trans packed.kernelLength,
    (congrArg (· / 8) grown.lengths.2).trans packed.userLength, by rw [kernelUsed, packed.kernelUsed],
    userUsed.trans packed.userUsed, by rw [heapUsed, packed.heapUsed], by rw [heapMapped, packed.heapMapped],
    dirs.trans packed.dirs, fun j less => ?_⟩
  by_cases old : j < n
  · have same : g'.use (0x200 + j) = g.use (0x200 + j) := grown.old _ (.inl (by
      change 0x200 + j < 0x200 + g.kernelUsed
      rw [packed.kernelUsed]
      omega))
    rw [same]
    exact packed.pages j old
  · have new := (pages (j - n) (by omega)).1
    rw [packed.kernelUsed, packed.heapMapped, show 0x200 + n + (j - n) = 0x200 + j by omega,
      show n + (j - n) = j by omega] at new
    exact new

/-- The main thread has taken the first `n` pages of the heap of a machine of 32 MiB. -/
structure Started (s : Machine) (g : Layout) (n : Nat) : Prop where
  reached : (calls 0x2000000 0x903).ReachableBy Asked s
  settled : Settled s g
  packed : Packed g n
  threads : ∀ thread ∈ s.threadAllList, thread = 0xc009e000 ∨ ∃ j < n, thread = heapAddr j
  main : 0xc009e000 ∈ s.threadAllList
  kernel : KernelThread s.phys 0x9e

theorem started_boot : ∃ s g, Started s g 0 := by
  obtain ⟨s, prepared, list, kernel⟩ := main_prepared
  obtain ⟨tail, sound⟩ := prepared.sound
  have kernelLength : kernelPages 0x2000000 / 8 = 480 := by decide
  have userLength : userPages 0x2000000 / 8 = 480 := by decide
  have packed : Packed (bootLayout (kernelPages 0x2000000) (userPages 0x2000000) tail) 0 :=
    ⟨kernelLength, userLength, rfl, rfl, rfl, rfl, rfl, fun j less => absurd less (Nat.not_lt_zero j)⟩
  refine ⟨s, _, .start prepared, sound.settled, packed, ?_, ?_, kernel⟩
  · intro thread member
    rw [list] at member
    exact .inl (List.mem_singleton.mp member)
  · rw [list]
    exact List.mem_singleton_self _

/-- What later calls of the main thread leave as it is. -/
structure Later (s t : Machine) (n : Nat) : Prop where
  outside : ∀ x, ¬ InKernelTables x → x < 4096 * (0x200 + n) → t.phys x = s.phys x
  threads : s.threadAllList ⊆ t.threadAllList
  pageDirs : s.pageDirs ⊆ t.pageDirs

/-- The process whose PCB is the page `n` of the heap, with the pages of its bitmap and its directory behind it. -/
structure Born (s : Machine) (n : Nat) : Prop where
  listed : heapAddr n ∈ s.threadAllList
  made : BitVec.ofNat 32 (4096 * (0x200 + n + 24)) ∈ s.pageDirs
  pgdir : field s.phys (0x200 + n) Pcb.pgdir = heapAddr (n + 24)
  bitmapBits : field s.phys (0x200 + n) Pcb.bitmapBits = heapAddr (n + 1)
  addrStart : field s.phys (0x200 + n) Pcb.addrStart = userVaddrStart
  row : RowHolds s.phys (0x200 + n + 24) (Layout.dirRow (0x200 + n + 24))

theorem Born.later (born : Born s i) (later : Later s t n) (below : i + 25 ≤ n) : Born t i := by
  have same (j : Nat) (less : j < 25) (x : Nat) (page : x / 4096 = 0x200 + i + j) : t.phys x = s.phys x :=
    later.outside x (by unfold InKernelTables InBitmaps; omega) (by omega)
  have pcb := same 0 (by decide)
  exact ⟨later.threads born.listed, later.pageDirs born.made, (field_same (by decide) pcb).trans born.pgdir,
    (field_same (by decide) pcb).trans born.bitmapBits, (field_same (by decide) pcb).trans born.addrStart,
    born.row.congr fun _ => same 24 (by decide)⟩

/-- The main thread is switched to, with an empty ready list. -/
theorem Started.switched (started : Started s g n) :
    ∃ u, switchTo 0xc009e000 { s with threadReadyList := [] } = .ok () u ∧ Settled u g ∧ u.root = 0x100 ∧
      u.threadReadyList = [] ∧ u.threadAllList = s.threadAllList ∧ u.pageDirs = s.pageDirs ∧
      u.granted = s.granted ∧ u.phys = s.phys := by
  obtain ⟨tss, switched⟩ := switchTo_main started.settled [] started.kernel
  have root : (0x100000 : U32).toNat / 4096 = 0x100 := by decide
  exact ⟨_, switched, started.settled.switched [] 0xc009e000 tss (.inl root), root, rfl, rfl, rfl, rfl, rfl⟩

theorem Started.kernelPages (started : Started s g n) (positive : 0 < k) (room : n + k ≤ 3839) :
    ∃ t g', Started t g' (n + k) ∧ Later s t n := by
  obtain ⟨u, switched, settled, root, -, all, dirs, -, phys⟩ := started.switched
  have room' : g.kernelUsed + k ≤ 8 * g.kernelLength := by
    rw [started.packed.kernelUsed, started.packed.kernelLength]
    omega
  obtain ⟨t, g', called, took⟩ := mallocKernelPages_took settled positive (by omega) room'
  have done : (Call.mallocKernelPages (BitVec.ofNat 32 k)).run u = .ok () t := by
    change (do let _ ← mallocKernelPages (BitVec.ofNat 32 k)) u = .ok () t
    rw [Program.bind_ok called]
    rfl
  have list : t.threadAllList = s.threadAllList := by rw [took.granted, all]
  have outside (x : Nat) (free : ¬ InKernelTables x) (below : x < 4096 * (0x200 + n)) : t.phys x = s.phys x := by
    rw [took.outside x free (.inl (by rw [started.packed.kernelUsed]; exact below)), phys]
  have asked : Asked s ⟨0xc009e000, [], .mallocKernelPages (BitVec.ofNat 32 k)⟩ := trivial
  have stepped : step s ⟨0xc009e000, [], .mallocKernelPages (BitVec.ofNat 32 k)⟩ = some (.ok t) :=
    step_ok started.main (List.nil_subset _) switched done
  have kernel : KernelThread t.phys 0x9e := started.kernel.same fun x page =>
    outside x (by unfold InKernelTables InBitmaps; omega) (by omega)
  refine ⟨t, g', ⟨.next started.reached asked stepped, took.settled, started.packed.allocated took.allocated,
    ?_, ?_, kernel⟩, outside, ?_, ?_⟩
  · intro thread member
    rw [list] at member
    exact (started.threads thread member).imp_right fun ⟨j, less, eq⟩ => ⟨j, by omega, eq⟩
  · rw [list]
    exact started.main
  · rw [list]
    exact List.Subset.refl _
  · rw [took.granted, dirs]
    exact List.Subset.refl _

theorem Started.process (started : Started s g n) (room : n + 25 ≤ 3839) :
    ∃ t g', Started t g' (n + 25) ∧ Later s t n ∧ Born t n := by
  obtain ⟨u, switched, settled, root, ready, all, dirs, record, phys⟩ := started.switched
  have room' : g.kernelUsed + 25 ≤ 8 * g.kernelLength := by
    rw [started.packed.kernelUsed, started.packed.kernelLength]
    omega
  have unknown : elemFind u.threadAllList (heapAddr n) = false := by
    rw [all, ← Bool.not_eq_true, elemFind_iff]
    intro member
    have value := heapAddr_toNat (i := n) (by omega)
    rcases started.threads _ member with eq | ⟨j, less, eq⟩
    · rw [eq, show (0xc009e000 : U32).toNat = 0xc009e000 from rfl] at value
      omega
    · rw [eq, heapAddr_toNat (by omega)] at value
      omega
  obtain ⟨t, g', called, success, spawned⟩ := @processExecute_spawned u g settled 0 [] (by decide) room'
    (by rw [ready]; rfl) (by rw [started.packed.heapUsed]; exact unknown)
  obtain ⟨valid, settled', allocated, list, pageDirs, cr3, outside, pgdir, bitmapBits, addrStart⟩ := spawned
  rw [started.packed.kernelUsed] at settled' pageDirs outside pgdir bitmapBits addrStart
  rw [started.packed.heapUsed] at list pgdir bitmapBits
  rw [all] at list
  rw [dirs] at pageDirs
  rw [phys] at outside
  have packed := started.packed.allocated allocated
  have stepped : step s ⟨0xc009e000, [], .processExecute 0 []⟩ = some (.ok t) :=
    step_ok started.main (List.nil_subset _) switched called
  have asked : Asked s ⟨0xc009e000, [], .processExecute 0 []⟩ := by
    refine ⟨by decide, fun t' stepped' => ?_⟩
    have same : some (Except.ok t) = some (.ok t') := stepped.symm.trans stepped'
    cases same
    unfold Succeeds at success ⊢
    rw [← record]
    exact success
  have use : g'.use (0x200 + n + 24) = .heap (n + 24) := packed.pages (n + 24) (by omega)
  have forgotten : Settled t g' := settled'.forget valid use (by rw [packed.dirs]; exact List.not_mem_nil) (.inl (by
    unfold Machine.root
    rw [cr3]
    exact root))
  have row := settled'.rep.core.tables (0x200 + n + 24)
  rw [show (g'.addDir (0x200 + n + 24)).slot (0x200 + n + 24) = Layout.dirRow (0x200 + n + 24) from
    Function.update_self _ _ _] at row
  have main : (0xc009e000 : U32) ∈ t.threadAllList := by
    rw [list]
    exact List.mem_append_left _ started.main
  have listed : heapAddr n ∈ t.threadAllList := by
    rw [list]
    exact List.mem_append_right _ (List.mem_singleton_self _)
  have made : BitVec.ofNat 32 (4096 * (0x200 + n + 24)) ∈ t.pageDirs := by
    rw [pageDirs]
    exact List.mem_append_right _ (List.mem_singleton_self _)
  have threads : ∀ thread ∈ t.threadAllList, thread = 0xc009e000 ∨ ∃ j < n + 25, thread = heapAddr j := by
    intro thread member
    rw [list] at member
    rcases List.mem_append.mp member with old | new
    · exact (started.threads thread old).imp_right fun ⟨j, less, eq⟩ => ⟨j, by omega, eq⟩
    · exact .inr ⟨n, by omega, List.mem_singleton.mp new⟩
  have kernel : KernelThread t.phys 0x9e := started.kernel.same fun x page =>
    outside x (by unfold InKernelTables InBitmaps; omega) (by omega)
  refine ⟨t, g', ⟨.next started.reached asked stepped, forgotten, packed, threads, main, kernel⟩,
    ⟨outside, ?_, ?_⟩, listed, made, pgdir, bitmapBits, addrStart, row⟩
  · rw [list]
    exact List.subset_append_left _ _
  · rw [pageDirs]
    exact List.subset_append_left _ _

/-- The call of a process that asks for an address outside its range: a bit is set in another page of the heap,
    and the page is taken and bound. -/
theorem getAPage_elsewhere (settled : Settled s g) (listed : thread ∈ s.threadAllList)
    (page : PageAt g thread frame) (pgdir : field s.phys frame Pcb.pgdir = heapAddr i) (dir : g.use d = .heap i)
    (member : d ∈ g.dirs) (start : field s.phys frame Pcb.addrStart = userVaddrStart) {vaddr : U32} {b f : Nat}
    (bitmapBits : field s.phys frame Pcb.bitmapBits = heapAddr b)
    (index : (vaddr - userVaddrStart) / pgSize = BitVec.ofNat 32 k) (positive : 0 < k) (small : k < 2 ^ 31)
    (use : g.use f = .heap (b + k / 8 / 4096)) (notDir : f ∉ g.dirs) (below : vaddr.toNat < 0xc0000000)
    (room : g.userUsed < 8 * g.userLength) (tableRoom : g.kernelUsed < 8 * g.kernelLength)
    (unmapped : g.slot d (vaddr.toNat / 4096 / 1024) = .absent) :
    ∃ t g', step s ⟨thread, [], .getAPage vaddr⟩ = some (.ok t) ∧ t.threadAllList = s.threadAllList ∧
      t.pageDirs = s.pageDirs ∧ Settled t g' ∧ UserGrown 0 g g' ∧ g'.kernelUsed = g.kernelUsed + 1 ∧
      g'.userUsed = g.userUsed + 1 ∧ SameData g (Function.update s.phys (4096 * f + k / 8 % 4096)
        (s.phys (4096 * f + k / 8 % 4096) ||| (1 : U8) <<< (k % 8))) t.phys := by
  have valid := settled.rep.core.valid
  have active := Active.process pgdir dir member
  obtain ⟨tss, switched⟩ := switchTo_active settled page active []
  obtain ⟨u, eq⟩ : ∃ u : Machine, u = { s with
    threadReadyList := [], runningThread := thread, cr3 := BitVec.ofNat 32 (4096 * d), tss := tss } := ⟨_, rfl⟩
  have settled₁ : Settled u g := by
    rw [eq]
    exact settled.switched [] thread tss (active.root valid)
  have root : u.root = d := by
    rw [eq]
    exact dir_root valid member
  have phys : (u.setLock .userPool (heldLock u.runningThread)).phys = s.phys := by
    rw [setLock_phys, eq]
  rw [← eq] at switched
  obtain ⟨v, marked, same, rep, set⟩ := @markPage_set (u.setLock .userPool (heldLock u.runningThread)) g frame
    (settled₁.rep.setLock .userPool _) (by rw [eq]; exact page)
    (by rw [phys, pgdir]; exact heapAddr_nonzero valid dir) (by rw [phys]; exact start) vaddr b k f (by rw [phys]; exact bitmapBits) index positive small use notDir
  obtain ⟨t, g', called, same', settled', grown, data, kernelUsed, userUsed⟩ := getAPage_completes settled₁
    (root.symm ▸ member) marked same rep (by omega) room tableRoom (by rw [root]; exact unmapped) (Nat.zero_le _)
  have done : (Call.getAPage vaddr).run u = .ok () t := by
    change (do let _ ← getAPage .userPool vaddr) u = .ok () t
    rw [Program.bind_ok called]
    rfl
  refine ⟨t, g', step_ok listed (List.nil_subset _) switched done, ?_, ?_, settled', grown, kernelUsed, userUsed,
    ?_⟩
  · rw [same', eq]
  · rw [same', eq]
  · rw [set, phys] at data
    exact data

/-- The main thread starts three processes, with pages of its own between them. -/
theorem three_processes : ∃ s g, Started s g 98 ∧ Born s 0 ∧ Born s 32 ∧ Born s 73 := by
  obtain ⟨s₀, g₀, started₀⟩ := started_boot
  obtain ⟨s₁, g₁, started₁, -, first₁⟩ := started₀.process (by decide)
  obtain ⟨s₂, g₂, started₂, later₂⟩ := started₁.kernelPages (show 0 < 7 by decide) (by decide)
  obtain ⟨s₃, g₃, started₃, later₃, second₃⟩ := started₂.process (by decide)
  obtain ⟨s₄, g₄, started₄, later₄⟩ := started₃.kernelPages (show 0 < 16 by decide) (by decide)
  obtain ⟨s₅, g₅, started₅, later₅, third₅⟩ := started₄.process (by decide)
  have first := ((first₁.later later₂ (by decide)).later later₃ (by decide)).later later₄ (by decide)
  have second := second₃.later later₄ (by decide)
  exact ⟨s₅, g₅, started₅, first.later later₅ (by decide), second.later later₅ (by decide), third₅⟩

/-- What the bit that a call has set makes of the word that it lies in. -/
theorem marked_word {m' : ByteMemory.Memory} {f o j : Nat}
    (data : SameData g (Function.update m (4096 * f + k / 8 % 4096)
      (m (4096 * f + k / 8 % 4096) ||| (1 : U8) <<< (k % 8))) m') (page : g.Data f) (inside : o + 4 ≤ 4096)
    (byte : k / 8 % 4096 = o + j / 8) (bit : k % 8 = j % 8) :
    word m' (4096 * f + o) = word m (4096 * f + o) ||| (1 : U32) <<< j := by
  rw [byte, bit, ← Nat.add_assoc] at data
  rw [← word_set m (4096 * f + o) j]
  apply word_congr
  intro x above below
  apply data
  rw [show x / 4096 = f by omega]
  exact page

theorem unmarked {m' : ByteMemory.Memory} {f x : Nat} {byte : U8}
    (data : SameData g (Function.update m (4096 * f + k / 8 % 4096) byte) m') (page : g.Data (x / 4096))
    (other : x ≠ 4096 * f + k / 8 % 4096) : m' x = m x :=
  (data x page).trans (Function.update_of_ne other _ _)

theorem dirRow_low {p : Nat} (low : p < 768) : (g.addDir d).slot d p = .absent := by
  have row : (g.addDir d).slot d = Layout.dirRow d := Function.update_self _ _ _
  rw [row]
  exact if_pos low

/-- The first process has set a bit of the second one's PCB: the second one's bitmap is then the directory of the
    third. -/
structure Diverted (s : Machine) (g : Layout) : Prop where
  reached : (calls 0x2000000 0x903).ReachableBy Asked s
  settled : Settled s g
  kernelLength : g.kernelLength = 480
  userLength : g.userLength = 480
  kernelUsed : g.kernelUsed = 99
  userUsed : g.userUsed = 1
  heapMapped : g.heapMapped = 98
  dirs : g.dirs = [0x200 + 24]
  pages : ∀ j < 98, g.use (0x200 + j) = .heap j
  listed : heapAddr 32 ∈ s.threadAllList
  pgdir : field s.phys (0x200 + 32) Pcb.pgdir = heapAddr 56
  bitmapBits : field s.phys (0x200 + 32) Pcb.bitmapBits = heapAddr 97
  addrStart : field s.phys (0x200 + 32) Pcb.addrStart = userVaddrStart
  second : RowHolds s.phys (0x200 + 56) (Layout.dirRow (0x200 + 56))
  third : RowHolds s.phys (0x200 + 97) (Layout.dirRow (0x200 + 97))
  made : BitVec.ofNat 32 (4096 * (0x200 + 97)) ∈ s.pageDirs

theorem bitmap_diverted : ∃ t g, Diverted t g := by
  obtain ⟨s, g, started, first, second, third⟩ := three_processes
  have packed := started.packed
  have nowhere (d : Nat) : d ∉ g.dirs := by
    rw [packed.dirs]
    exact List.not_mem_nil
  have settled₀ := started.settled.remember (packed.pages 24 (by decide)) (nowhere _) first.row
  have apart {j : Nat} (other : j ≠ 24) : 0x200 + j ∉ (g.addDir (0x200 + 24)).dirs := by
    intro member
    rcases List.mem_cons.mp member with eq | old
    · omega
    · exact nowhere _ old
  have isData (j : Nat) (less : j < 98) (other : j ≠ 24) : (g.addDir (0x200 + 24)).Data (0x200 + j) :=
    .inr ⟨j, packed.pages j less, apart other⟩
  obtain ⟨t, g₁, stepped, list, made, settled, grown, kernelUsed, userUsed, data⟩ :=
    @getAPage_elsewhere s (g.addDir (0x200 + 24)) (heapAddr 0) 0x200 (0x200 + 24) 24 1016242 settled₀ first.listed
      (.inr ⟨0, rfl, packed.pages 0 (by decide), @apart 0 (by decide)⟩) first.pgdir (packed.pages 24 (by decide))
      List.mem_cons_self first.addrStart (BitVec.ofNat 32 (4096 * 506)) 1 (0x200 + 32) first.bitmapBits (by decide)
      (by decide) (by decide) (packed.pages 32 (by decide)) (apart (by decide)) (by decide)
      (by change g.userUsed < 8 * g.userLength; rw [packed.userUsed, packed.userLength]; decide)
      (by change g.kernelUsed < 8 * g.kernelLength; rw [packed.kernelUsed, packed.kernelLength]; decide)
      (dirRow_low (by decide))
  have pages (j : Nat) (less : j < 98) : g₁.use (0x200 + j) = .heap j := by
    have old : (g.addDir (0x200 + 24)).use (0x200 + j) = .heap j := packed.pages j less
    rw [grown.keeps _ (by rw [old]; simp), old]
  have same (j : Nat) (less : j < 98) (other : j ≠ 24) (x : Nat) (page : x / 4096 = 0x200 + j)
      (byte : x ≠ 4096 * (0x200 + 32) + 54) : t.phys x = s.phys x :=
    unmarked data (page ▸ isData j less other) byte
  have kept (o : U32) (inside : o.toNat + 4 ≤ 4096) (other : o.toNat + 4 ≤ 54 ∨ 54 < o.toNat) :
      field t.phys (0x200 + 32) o = field s.phys (0x200 + 32) o :=
    word_congr fun x above below => same 32 (by decide) (by decide) x (by omega) (by omega)
  have bitmapBits : field t.phys (0x200 + 32) Pcb.bitmapBits = heapAddr 97 := by
    have changed := @marked_word _ _ _ _ _ 52 18 data (isData 32 (by decide) (by decide)) (by decide) (by decide)
      (by decide)
    have old := second.bitmapBits
    unfold field at old ⊢
    rw [show (Pcb.bitmapBits).toNat = 52 from rfl] at old ⊢
    rw [changed, old]
    decide
  exact ⟨t, g₁, {
    reached := .next started.reached (a := ⟨heapAddr 0, [], .getAPage (BitVec.ofNat 32 (4096 * 506))⟩)
      (show (BitVec.ofNat 32 (4096 * 506)).toNat < 0xc0000000 by decide) stepped
    settled := settled
    kernelLength := (congrArg (· / 8) grown.lengths.1).trans packed.kernelLength
    userLength := (congrArg (· / 8) grown.lengths.2).trans packed.userLength
    kernelUsed := kernelUsed.trans (congrArg (· + 1) packed.kernelUsed)
    userUsed := userUsed.trans (congrArg (· + 1) packed.userUsed)
    heapMapped := grown.heapMapped.trans packed.heapMapped
    dirs := grown.dirs.trans (congrArg (List.cons _) packed.dirs)
    pages := pages
    listed := list ▸ second.listed
    pgdir := (kept _ (by decide) (by decide)).trans second.pgdir
    bitmapBits := bitmapBits
    addrStart := (kept _ (by decide) (by decide)).trans second.addrStart
    second := second.row.congr fun _ x page => same 56 (by decide) (by decide) x page (by omega)
    third := third.row.congr fun _ x page => same 97 (by decide) (by decide) x page (by omega)
    made := made ▸ third.made }⟩

/-- The second process sets a bit of the directory: the entry for 3 GiB names the third table of the kernel. -/
theorem Diverted.directory (diverted : Diverted s g) :
    ∃ t g', (calls 0x2000000 0x903).ReachableBy Asked t ∧ Settled t g' ∧ g'.kernelLength = 480 ∧
      g'.heapMapped = 98 ∧ BitVec.ofNat 32 (4096 * (0x200 + 97)) ∈ t.pageDirs ∧
      entry t.phys (0x200 + 97) 768 = Paging.mk 0x103 := by
  have apart {j : Nat} (other : j ≠ 24 ∧ j ≠ 56) : 0x200 + j ∉ (g.addDir (0x200 + 56)).dirs := by
    intro member
    rcases List.mem_cons.mp member with eq | old
    · omega
    · rw [diverted.dirs, List.mem_singleton] at old
      omega
  have fresh : 0x200 + 56 ∉ g.dirs := by
    rw [diverted.dirs, List.mem_singleton]
    decide
  have settled₀ := diverted.settled.remember (diverted.pages 56 (by decide)) fresh diverted.second
  obtain ⟨t, g₁, stepped, -, made, settled, grown, -, -, data⟩ :=
    @getAPage_elsewhere s (g.addDir (0x200 + 56)) (heapAddr 32) (0x200 + 32) (0x200 + 56) 56 24589 settled₀
      diverted.listed (.inr ⟨32, rfl, diverted.pages 32 (by decide), apart (by decide)⟩) diverted.pgdir
      (diverted.pages 56 (by decide)) List.mem_cons_self diverted.addrStart
      (BitVec.ofNat 32 (0x8048000 + 4096 * 24589)) 97 (0x200 + 97) diverted.bitmapBits (by decide) (by decide)
      (by decide) (diverted.pages 97 (by decide)) (apart (by decide)) (by decide)
      (by change g.userUsed < 8 * g.userLength; rw [diverted.userUsed, diverted.userLength]; decide)
      (by change g.kernelUsed < 8 * g.kernelLength; rw [diverted.kernelUsed, diverted.kernelLength]; decide)
      (dirRow_low (by decide))
  have isData : (g.addDir (0x200 + 56)).Data (0x200 + 97) :=
    .inr ⟨97, diverted.pages 97 (by decide), apart (by decide)⟩
  have changed := @marked_word _ _ _ _ _ 3072 13 data isData (by decide) (by decide) (by decide)
  have old : entry s.phys (0x200 + 97) 768 = Paging.mk 0x101 := (diverted.third.maps 768 (by decide) 0x101 rfl).1
  refine ⟨t, g₁, .next diverted.reached
    (a := ⟨heapAddr 32, [], .getAPage (BitVec.ofNat 32 (0x8048000 + 4096 * 24589))⟩)
    (show (BitVec.ofNat 32 (0x8048000 + 4096 * 24589)).toNat < 0xc0000000 by decide) stepped, settled,
    (congrArg (· / 8) grown.lengths.1).trans diverted.kernelLength, grown.heapMapped.trans diverted.heapMapped,
    made ▸ diverted.made, ?_⟩
  unfold entry at old ⊢
  rw [changed, old]
  decide

/-- The third process does not see the first megabyte of memory at 3 GiB any more. -/
theorem kernel_half_lost : ¬ ∀ s, (calls 0x2000000 0x903).ReachableBy Asked s → KernelShared s := by
  intro shared
  obtain ⟨s, g, diverted⟩ := bitmap_diverted
  obtain ⟨t, g', reached, settled, length, mapped, made, changed⟩ := diverted.directory
  have core := settled.rep.core
  have root : (BitVec.ofNat 32 (4096 * (0x200 + 97))).toNat / 4096 = 0x200 + 97 := by decide
  have boot : Paging.translate t.phys 0x100 0xc0000000 = some 0 := core.translate_low (.inl rfl) (x := 0) (by decide)
  have empty : g'.slot 0x103 0 = .absent := core.valid.unmapped 1792 (by omega) (by omega)
  have absent := (core.tables 0x103).absent 0 (by decide) empty
  have lost : Paging.translate t.phys (0x200 + 97) 0xc0000000 = none := by
    unfold Paging.translate walk
    rw [show 0xc0000000 / 4096 / 1024 = 768 by decide, show 0xc0000000 / 4096 % 1024 = 0 by decide, changed]
    dsimp only
    rw [frameOf_mk (by decide), absent]
    rfl
  have same := shared t reached _ made 0xc0000000 le_rfl (by decide)
  rw [root, boot, lost] at same
  cases same

end LiziOS.Memory
