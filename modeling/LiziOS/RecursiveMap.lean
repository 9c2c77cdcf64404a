import LiziOS.FrameOwnership

namespace LiziOS.Memory

open ByteMemory Paging

/-! The recursive mapping: a directory whose last entry names the directory itself shows itself and
its tables to `pde_ptr` and `pte_ptr`. -/

variable {m : ByteMemory.Memory} {s t : Machine} {g : Layout} {root : Nat} {d : U32}

/-- The two pointers lead to the entries of every linear address under the directory. -/
structure Recursive (m : ByteMemory.Memory) (root : Nat) : Prop where
  pde : ∀ vaddr : U32, Paging.translate m root (pdePtr vaddr).toNat =
    some (4096 * root + 4 * (vaddr.toNat / 4096 / 1024))
  pte : ∀ vaddr : U32, present (entry m root (vaddr.toNat / 4096 / 1024)) = true →
    Paging.translate m root (ptePtr vaddr).toNat =
      some (4096 * frameOf (entry m root (vaddr.toNat / 4096 / 1024)) + 4 * (vaddr.toNat / 4096 % 1024))

/-- The walk to the entry in a table goes through the directory twice; for an address in the window
    the table is the directory. -/
theorem recursive_of_self (self : entry m root 1023 = mk root) (small : root < 2 ^ 20) : Recursive m root := by
  constructor
  · intro vaddr
    have bound := vaddr.isLt
    have window := walk_window self small (show 1023 < 1024 by omega)
    rw [self, present_mk, if_pos rfl, frameOf_mk small] at window
    have page : (0xfffff000 + 4 * (vaddr.toNat / 4096 / 1024)) / 4096 = 1023 * 1024 + 1023 := by omega
    rw [pdePtr_toNat, translate_some (by rw [page]; exact window)]
    congr 2
    omega
  · intro vaddr there
    have bound := vaddr.isLt
    have window := walk_window self small (show vaddr.toNat / 4096 / 1024 < 1024 by omega)
    rw [if_pos there] at window
    have page : (0xffc00000 + 4 * (vaddr.toNat / 4096)) / 4096 = 1023 * 1024 + vaddr.toNat / 4096 / 1024 := by
      omega
    rw [ptePtr_toNat, translate_some (by rw [page]; exact window)]
    congr 2
    omega

theorem setupPage_recursive (m : ByteMemory.Memory) : Recursive (Loader.setupPage m) 0x100 :=
  recursive_of_self (Loader.setupPage_dir (by omega)) (by omega)

/-- The first megabyte is found at its own addresses and from 3 GiB on. -/
theorem setupPage_low (m : ByteMemory.Memory) {a : Nat} (low : a < 0x100000) :
    Paging.translate (Loader.setupPage m) 0x100 a = some a ∧
      Paging.translate (Loader.setupPage m) 0x100 (0xc0000000 + a) = some a := by
  have table (page : Nat) (dir : page / 1024 = 0 ∨ page / 1024 = 768) (inside : page % 1024 = a / 4096) :
      walk (Loader.setupPage m) 0x100 page = some (a / 4096) := by
    apply walk_of_entries (t := 0x101)
    · rw [Loader.setupPage_dir (by omega), Loader.dirEntry, if_pos dir]
    · rw [inside]
      exact Loader.setupPage_table (by omega)
    · omega
    · omega
  constructor
  · rw [translate_some (table _ (.inl (by omega)) (by omega)), Nat.div_add_mod]
  · rw [translate_some (table _ (.inr (by omega)) (by omega))]
    congr 1
    omega

theorem Represents.recursive (rep : Represents s g) (isRoot : g.Root root) : Recursive s.phys root := by
  obtain ⟨self, small⟩ := (rep.core.tables root).maps 1023 (by omega) _ (rep.core.valid.window root isRoot)
  exact recursive_of_self self small

theorem createPageDir_recursive (settled : Settled s g) (done : createPageDir s = .ok d t) (made : d ≠ 0) :
    ∃ frame, t.translate d = some (4096 * frame) ∧ Recursive t.phys frame := by
  have room : g.kernelUsed + 1 ≤ 8 * g.kernelLength := by
    unfold createPageDir at done
    obtain ⟨v, s₁, called, rest⟩ := Program.bind_completed done
    rcases mallocKernelPages_cases settled called with ⟨g', took⟩ | ⟨rfl, -⟩
    · exact took.room
    · cases rest
      exact absurd rfl made
  obtain ⟨u, g', called, -, settled', allocated, -⟩ := createPageDir_ok settled room
  rw [done] at called
  cases called
  have use : (g'.addDir (0x200 + g.kernelUsed)).use (0x200 + g.kernelUsed) = .heap g.heapUsed := by
    rw [← settled.mapped]
    exact (allocated.pages 0 (by omega)).1
  refine ⟨0x200 + g.kernelUsed, ?_, settled'.rep.recursive (.inr List.mem_cons_self)⟩
  have page := settled'.rep.heap_page use (show 0 < 4096 by omega)
  rw [BitVec.add_zero] at page
  exact page

/-- The directory of the boot and those that `create_page_dir` has made. -/
theorem calls_recursive {allMem gdtBase : U32} (reached : (calls allMem gdtBase).ReachableBy Proper s)
    {a : U32} (member : a = 0x100000 ∨ a ∈ s.pageDirs) : Recursive s.phys (a.toNat / 4096) := by
  obtain ⟨g, role, sound⟩ := calls_sound reached
  apply sound.settled.rep.recursive
  rcases member with rfl | member
  · exact .inl rfl
  · exact .inr (sound.dir_member member)

theorem recursive_mapping :
    (∀ m : ByteMemory.Memory, Recursive (Loader.setupPage m) 0x100 ∧ ∀ a < 0x100000,
      Paging.translate (Loader.setupPage m) 0x100 a = some a ∧
        Paging.translate (Loader.setupPage m) 0x100 (0xc0000000 + a) = some a) ∧
    (∀ (s : Machine) (g : Layout), Settled s g → ∀ d t, createPageDir s = .ok d t → d ≠ 0 →
      ∃ frame, t.translate d = some (4096 * frame) ∧ Recursive t.phys frame) ∧
    ∀ (allMem gdtBase : U32) (s : Machine), (calls allMem gdtBase).ReachableBy Proper s →
      ∀ a, a = 0x100000 ∨ a ∈ s.pageDirs → Recursive s.phys (a.toNat / 4096) :=
  ⟨fun m => ⟨setupPage_recursive m, fun _ low => setupPage_low m low⟩,
    fun _ _ settled _ _ done made => createPageDir_recursive settled done made,
    fun _ _ _ reached _ member => calls_recursive reached member⟩

/-- The first directory that is made. -/
theorem recursive_mapping_first : ∃ s d t frame, createPageDir s = .ok d t ∧ d ≠ 0 ∧
    t.translate d = some (4096 * frame) ∧ Recursive t.phys frame := by
  obtain ⟨s, tail, -, settled, -⟩ := memoryInit_ok (entryMachine_starting loadedMemory_loaded)
  obtain ⟨t, g', done, -⟩ := createPageDir_ok settled (show 0 + 1 ≤ 8 * (kernelPages 0x2000000 / 8) by decide)
  have made : heapAddr 0 ≠ 0 := by decide
  obtain ⟨frame, page, recursive⟩ := recursive_mapping.2.1 s _ settled _ t done made
  exact ⟨s, _, t, frame, done, made, page, recursive⟩

end LiziOS.Memory
