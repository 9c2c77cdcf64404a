import LiziOS.ThreadCreation

namespace LiziOS.Memory

open ByteMemory Paging

/-! `create_page_dir`, `create_user_vaddr_bitmap`, `process_execute` and `thread_start`. -/

variable {s t u : Machine} {g g' : Layout} {m m' : ByteMemory.Memory} {thread a : U32} {frame n : Nat}

/-- Besides memory and the record of frames, only the records of `malloc_kernel_pages` and of
    `create_page_dir` have grown. -/
def Made (s t : Machine) (results dirs : List U32) : Prop :=
  t = { s with
    phys := t.phys
    handed := t.handed
    granted := s.granted ++ results
    pageDirs := s.pageDirs ++ dirs }

theorem Made.trans {results results' dirs dirs' : List U32} (first : Made s t results dirs)
    (second : Made t u results' dirs') : Made s u (results ++ results') (dirs ++ dirs') := by
  unfold Made at first second ⊢
  rw [second, first]
  simp only [List.append_assoc]

theorem Same.made (same : Same s t) : Made s t [] [] := by
  unfold Same at same
  unfold Made
  rw [same]
  simp

theorem Granted.made {v : U32} (granted : Granted s v t) : Made s t [v] [] := by
  unfold Granted at granted
  unfold Made
  rw [granted]
  simp

theorem vaddrToPaddr_heap (rep : Represents s g) {i : Nat} (use : g.use frame = .heap i) :
    vaddrToPaddr (heapAddr i) s = .ok (BitVec.ofNat 32 (4096 * frame)) s := by
  obtain ⟨mapped, slot⟩ := rep.core.valid.heap frame i use
  obtain ⟨inside, short⟩ := rep.core.valid.heap_small use
  have table := rep.core.valid.heap_table inside
  have address := heapAddr_toNat (i := i) (by omega)
  have load : load32 (ptePtr (heapAddr i)) s = .ok (entry s.phys (0x101 + (256 + i) / 1024)
      ((heapAddr i).toNat / 4096 % 1024)) s := rep.load_pte (by
    rw [address, show (0xc0100000 + 4096 * i) / 4096 / 1024 = 768 + (256 + i) / 1024 by omega]
    exact rep.core.valid.kernelHalf _ rep.root _ (by omega))
  rw [address, show (0xc0100000 + 4096 * i) / 4096 % 1024 = (256 + i) % 1024 by omega] at load
  obtain ⟨entryEq, small⟩ := (rep.core.tables _).maps _ (by omega) _ slot
  unfold vaddrToPaddr
  rw [Program.bind_ok load, entryEq]
  have value : (mk frame &&& 0xfffff000) + (heapAddr i &&& 0x00000fff) = BitVec.ofNat 32 (4096 * frame) := by
    apply BitVec.eq_of_toNat_eq
    rw [BitVec.toNat_add, page_mask, offset_mask, address, BitVec.toNat_ofNat]
    unfold mk
    rw [BitVec.toNat_ofNat]
    omega
  rw [value]
  rfl

theorem self_entry {frame : Nat} (small : frame < 2 ^ 20) :
    BitVec.ofNat 32 (4096 * frame) ||| 4 ||| 2 ||| 1 = mk frame := by
  rw [BitVec.or_assoc, BitVec.or_assoc, ← frame_or small]
  rfl

/-- The copy of the upper quarter of the active directory, behind a lower half of zeros and before
    the entry for the directory itself. -/
theorem rowHolds_dir {r d : Nat} (core : Core m g) (root : g.Root r) (small : d < 2 ^ 20)
    (zero : ∀ x, 4096 * d ≤ x → x < 4096 * d + 0xc00 → m' x = 0)
    (copy : ∀ i < 1020, m' (4096 * d + 0xc00 + i) = m (4096 * r + 0xc00 + i))
    (self : entry m' d 1023 = mk d) : RowHolds m' d (Layout.dirRow d) := by
  have upper (i : Nat) (above : 768 ≤ i) (below : i < 1023) : entry m' d i = entry m r i := by
    unfold entry word
    have part (k : Nat) (less : k < 4) : m' (4096 * d + 4 * i + k) = m (4096 * r + 4 * i + k) := by
      have byte := copy (4 * i + k - 0xc00) (by omega)
      rw [show 4096 * d + 0xc00 + (4 * i + k - 0xc00) = 4096 * d + 4 * i + k by omega,
        show 4096 * r + 0xc00 + (4 * i + k - 0xc00) = 4096 * r + 4 * i + k by omega] at byte
      exact byte
    rw [part 3 (by omega), part 2 (by omega), part 1 (by omega)]
    have first := part 0 (by omega)
    rw [Nat.add_zero, Nat.add_zero] at first
    rw [first]
  constructor
  · intro i inside absent
    by_cases low : i < 768
    · have empty : entry m' d i = 0 := word_zero fun x above below => zero x (by omega) (by omega)
      rw [empty]
      rfl
    · unfold Layout.dirRow at absent
      rw [if_neg low] at absent
      split at absent <;> contradiction
  · intro i inside target known
    unfold Layout.dirRow at known
    by_cases low : i < 768
    · rw [if_pos low] at known
      contradiction
    · rw [if_neg low] at known
      by_cases last : i < 1023
      · rw [if_pos last] at known
        have eq := Slot.maps.inj known
        have slot := core.valid.kernelHalf r root (i - 768) (by omega)
        rw [show 768 + (i - 768) = i by omega] at slot
        rw [upper i (by omega) last, ← eq]
        exact (core.tables r).maps i inside _ slot
      · rw [if_neg last] at known
        have eq := Slot.maps.inj known
        obtain rfl : i = 1023 := by omega
        rw [← eq]
        exact ⟨self, small⟩

theorem createPageDir_ok (settled : Settled s g) (room : g.kernelUsed + 1 ≤ 8 * g.kernelLength) :
    ∃ t g', createPageDir s = .ok (heapAddr g.heapUsed) t ∧
      Made s t [heapAddr g.heapUsed] [BitVec.ofNat 32 (4096 * (0x200 + g.kernelUsed))] ∧
      Settled t (g'.addDir (0x200 + g.kernelUsed)) ∧ Allocated g 1 g' ∧
      (∀ x, ¬ InKernelTables x → x / 4096 ≠ 0x200 + g.kernelUsed → t.phys x = s.phys x) ∧ g'.Valid := by
  obtain ⟨s₁, g', called, granted, settled₁, allocated, zero, outside⟩ :=
    mallocKernelPages_ok settled (n := 1) (by omega) (by omega) room
  have mapped := settled.mapped
  have rep₁ := settled₁.rep
  have valid₁ := rep₁.core.valid
  obtain ⟨use, notDir⟩ := allocated.pages 0 (by omega)
  rw [Nat.add_zero, Nat.add_zero, mapped] at use
  rw [Nat.add_zero] at notDir
  generalize dirEq : 0x200 + g.kernelUsed = d at *
  have dirHigh := (valid₁.heapFrame d _ use).1
  have dirSmall := (valid₁.handed_small (.inl (valid₁.heapFrame d _ use))).2
  have page : PageAt g' (heapAddr g.heapUsed) d := .inr ⟨_, rfl, use, notDir⟩
  have rootNe : d ≠ s₁.root := by
    rintro rfl
    rcases rep₁.root with eq | member
    · omega
    · exact notDir member
  -- the copy
  obtain ⟨region, bound, high⟩ := page.region valid₁ rep₁.root (0x300 * 4) 1024 (by decide) (by omega)
  have source (m : ByteMemory.Memory) (i : Nat) (core : Core m g') (less : i < 1024) :
      Paging.translate m s₁.root ((0xfffff000 + 0x300 * 4 : U32) + BitVec.ofNat 32 i).toNat =
        some (4096 * s₁.root + (0xc00 + i)) := by
    have address : ((0xfffff000 + 0x300 * 4 : U32) + BitVec.ofNat 32 i).toNat = 0xfffff000 + (0xc00 + i) := by
      rw [BitVec.toNat_add, BitVec.toNat_ofNat,
        show (0xfffff000 + 0x300 * 4 : U32).toNat = 0xfffffc00 from rfl]
      omega
    rw [address]
    exact core.translate_pde rep₁.root (by omega)
  obtain ⟨m₂, copied, core₂, hit, miss⟩ := memcpy_ok 1024 region bound high source
    (by intro i j _ _ same; rw [show (0x300 * 4 : U32).toNat = 0xc00 from rfl] at same; omega) rep₁.core
  rw [show (0x300 * 4 : U32).toNat = 0xc00 from rfl] at hit miss
  have rep₂ : Represents { s₁ with phys := m₂ } g' :=
    rep₁.write core₂ rep₁.root ⟨rfl, rfl⟩ fun _ owned => owned
  have physical := vaddrToPaddr_heap rep₂ use
  -- the entry for itself
  obtain ⟨s₃, stored, w₃, self⟩ := page.writeWord rep₂ (4 * 1023) (mk d) (by decide) (by decide)
  have outside₃ := w₃.outside
  rw [show (4 * 1023 : U32).toNat = 4092 from rfl] at outside₃
  change ∀ x, _ → s₃.phys x = m₂ x at outside₃
  have valid₃ := valid₁.addDir use notDir
  have row : RowHolds s₃.phys d (Layout.dirRow d) := by
    apply rowHolds_dir rep₁.core rep₁.root (by omega)
    · intro x above below
      rw [outside₃ x (by omega), miss x (by intro i less; omega)]
      exact zero x (by omega) (by omega)
    · intro i less
      rw [outside₃ _ (by omega), hit i (by omega), Nat.add_assoc]
    · unfold entry
      rw [← self]
      rfl
  have core₃ : Core s₃.phys (g'.addDir d) :=
    w₃.rep.core.retable valid₃ (w₃.rep.core.tables.withRow row) (fun _ _ => rfl) ⟨rfl, rfl⟩
      ⟨rfl, rfl, rfl, rfl⟩
  refine ⟨{ s₃ with pageDirs := s₃.pageDirs ++ [BitVec.ofNat 32 (4096 * d)] }, g', ?_, ?_, ⟨?_, ?_, ?_⟩,
    allocated, ?_, valid₁⟩
  · unfold createPageDir
    have nonzero : heapAddr g.heapUsed ≠ 0 := by
      intro zero
      have short := (valid₁.heap_small use).2
      have few := (valid₁.heap_small use).1
      have value := heapAddr_toNat (i := g.heapUsed) (by omega)
      rw [zero, show (0 : U32).toNat = 0 from rfl] at value
      omega
    rw [show (1 : U32) = BitVec.ofNat 32 1 from rfl, Program.bind_ok called, if_neg nonzero,
      Program.bind_ok copied, Program.bind_ok physical]
    rw [show BitVec.ofNat 32 1 = (1 : U32) from rfl, self_entry (by omega), Program.bind_ok stored]
    rfl
  · have first := granted.made
    have third := w₃.same
    unfold Made Same at *
    rw [third]
    dsimp only
    rw [first]
    simp
  · exact w₃.rep.change ⟨rfl, rfl, fun type => by cases type <;> rfl, fun type => by cases type <;> rfl, rfl⟩
      core₃ (w₃.rep.root.imp id (List.mem_cons_of_mem d)) ⟨rfl, rfl⟩ w₃.rep.nodup w₃.rep.owned
  · exact settled₁.mapped
  · intro type
    have third : (s₃.pool type).lock = _ := w₃.same.lock
    have first := settled₁.lock type
    cases type <;> exact third.trans first
  · intro x free apart
    change s₃.phys x = s.phys x
    rw [outside₃ x (by omega), miss x (by intro i less; omega)]
    exact outside x free (by omega)

end LiziOS.Memory
