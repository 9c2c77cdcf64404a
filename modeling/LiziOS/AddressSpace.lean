import LiziOS.Layout
import LiziOS.MemorySystem

namespace LiziOS.Memory

open ByteMemory Paging

/-! The machine's memory holds a layout: the bitmaps have the bits and the page tables the entries
that the layout says. Under a layout it is known where a linear address leads. -/

namespace Layout

variable (g : Layout)

/-- The bitmaps lie behind one another from the physical address of `MEM_BITMAP_BASE` on. -/
def userBase : Nat := 0x9a000 + g.kernelLength

def heapBase : Nat := g.userBase + g.userLength

/-- A frame that neither holds a bitmap nor anything known of a page table. -/
def Plain (frame : Nat) : Prop :=
  ¬ (0x9a ≤ frame ∧ frame < 0x9e) ∧ ∀ i < 1024, g.slot frame i = .unknown

end Layout

structure Core (m : ByteMemory.Memory) (g : Layout) : Prop where
  valid : g.Valid
  tables : Holds m g.slot
  kernelBits : ∀ i < 8 * g.kernelLength, bit m 0x9a000 i = decide (i < g.kernelUsed)
  userBits : ∀ i < 8 * g.userLength, bit m g.userBase i = decide (i < g.userUsed)
  heapBits : ∀ i < 8 * g.kernelLength, bit m g.heapBase i = decide (i < g.heapUsed)
  tailBit : bit m g.heapBase (8 * g.kernelLength) = (g.tail || decide (8 * g.kernelLength < g.heapUsed))

variable {m m' : ByteMemory.Memory} {g : Layout} {r frame i j o x : Nat}

theorem Layout.Valid.bitmaps_end (valid : g.Valid) :
    g.heapBase + g.kernelLength < 0x9e000 ∧ g.kernelLength ≤ 4095 ∧ g.userLength ≤ 4096 := by
  have kernel := valid.kernelFree
  have user := valid.userFree
  unfold Layout.heapBase Layout.userBase Layout.kernelLength Layout.userLength
  omega

theorem Core.congr (core : Core m g)
    (bitmaps : ∀ x, 0x9a000 ≤ x → x < 0x9e000 → m' x = m x)
    (tables : ∀ x, (∃ i < 1024, g.slot (x / 4096) i ≠ .unknown) → m' x = m x) : Core m' g := by
  obtain ⟨top, kernelSmall, userSmall⟩ := core.valid.bitmaps_end
  have user : g.userBase = 0x9a000 + g.kernelLength := rfl
  have heap : g.heapBase = g.userBase + g.userLength := rfl
  refine ⟨core.valid, core.tables.congr tables, ?_, ?_, ?_, ?_⟩
  · intro i inside
    rw [bit_congr (bitmaps _ (by omega) (by omega))]
    exact core.kernelBits i inside
  · intro i inside
    rw [bit_congr (bitmaps _ (by omega) (by omega))]
    exact core.userBits i inside
  · intro i inside
    rw [bit_congr (bitmaps _ (by omega) (by omega))]
    exact core.heapBits i inside
  · rw [bit_congr (bitmaps _ (by omega) (by omega))]
    exact core.tailBit

/-- Changes in plain frames are of no account. -/
theorem Core.plain (core : Core m g) (same : ∀ x, ¬ g.Plain (x / 4096) → m' x = m x) : Core m' g := by
  apply core.congr
  · intro x above below
    apply same
    rintro ⟨outside, -⟩
    exact outside (by omega)
  · rintro x ⟨i, inside, known⟩
    apply same
    rintro ⟨-, unknown⟩
    exact known (unknown i inside)

theorem Core.update (core : Core m g) {p : Nat} (plain : g.Plain (p / 4096)) (byte : U8) :
    Core (Function.update m p byte) g := by
  apply core.plain
  intro x known
  apply Function.update_of_ne
  rintro rfl
  exact known plain

theorem Core.setWord (core : Core m g) {p : Nat} (plain : g.Plain (p / 4096)) (aligned : p % 4 = 0)
    (w : U32) : Core (setWord m p w) g := by
  apply core.plain
  intro x known
  apply setWord_outside
  by_contra inside
  apply known
  rw [show x / 4096 = p / 4096 by omega]
  exact plain

/-! Frames that are plain. -/

theorem Layout.Valid.plain_low (valid : g.Valid) (low : frame < 0x100)
    (outside : frame < 0x9a ∨ 0x9e ≤ frame) : g.Plain frame := by
  refine ⟨by omega, fun i inside => ?_⟩
  by_contra known
  rcases valid.known frame i inside known with table | member | ⟨d, p, use⟩
  · omega
  · obtain ⟨j, use⟩ := valid.dir frame member
    have above := (valid.heapFrame frame j use).1
    omega
  · have above := (valid.tableFrame frame d p use).1
    omega

theorem Layout.Valid.plain_high (valid : g.Valid) (high : 0x200 ≤ frame) (notDir : frame ∉ g.dirs)
    (notTable : ∀ d p, g.use frame ≠ .table d p) : g.Plain frame := by
  refine ⟨by omega, fun i inside => ?_⟩
  by_contra known
  rcases valid.known frame i inside known with table | member | ⟨d, p, use⟩
  · omega
  · exact notDir member
  · exact notTable d p use

theorem Layout.Valid.plain_heap (valid : g.Valid) (use : g.use frame = .heap i)
    (notDir : frame ∉ g.dirs) : g.Plain frame :=
  valid.plain_high (valid.heapFrame frame i use).1 notDir fun d p other => by
    rw [use] at other
    contradiction

theorem Layout.Valid.plain_page (valid : g.Valid) {d v : Nat} (use : g.use frame = .page d v) :
    g.Plain frame := by
  have above := (valid.pageFrame frame d v use).1
  apply valid.plain_high (by omega)
  · intro member
    obtain ⟨i, other⟩ := valid.dir frame member
    rw [use] at other
    contradiction
  · intro d' p other
    rw [use] at other
    contradiction

theorem Layout.Valid.plain_free (valid : g.Valid) (use : g.use frame = .free) (high : 0x200 ≤ frame) :
    g.Plain frame := by
  apply valid.plain_high high
  · intro member
    obtain ⟨i, other⟩ := valid.dir frame member
    rw [use] at other
    contradiction
  · intro d p other
    rw [use] at other
    contradiction

/-! Where linear addresses lead. -/

theorem Core.translate_low (core : Core m g) (root : g.Root r) (inside : x < 0x100000) :
    Paging.translate m r (0xc0000000 + x) = some x := by
  have mapped : Paging.walk m r ((0xc0000000 + x) / 4096) = some (x / 4096) := by
    apply core.tables.walk (t := 0x101)
    · rw [show (0xc0000000 + x) / 4096 / 1024 = 768 + 0 by omega]
      exact core.valid.kernelHalf r root 0 (by omega)
    · rw [show (0xc0000000 + x) / 4096 % 1024 = x / 4096 by omega]
      exact core.valid.low _ (by omega)
    · omega
  rw [translate_some mapped, show 4096 * (x / 4096) + (0xc0000000 + x) % 4096 = x by omega]

theorem Core.translate_identity (core : Core m g) (inside : x < 0x100000) :
    Paging.translate m 0x100 x = some x := by
  have mapped : Paging.walk m 0x100 (x / 4096) = some (x / 4096) := by
    apply core.tables.walk (t := 0x101)
    · rw [show x / 4096 / 1024 = 0 by omega]
      exact core.valid.identity
    · rw [show x / 4096 % 1024 = x / 4096 by omega]
      exact core.valid.low _ (by omega)
    · omega
  rw [translate_some mapped, show 4096 * (x / 4096) + x % 4096 = x by omega]

theorem Core.translate_heap (core : Core m g) (root : g.Root r) (slot : g.heapSlot i = .maps frame)
    (inside : i < 8 * g.kernelLength) (offset : o < 4096) :
    Paging.translate m r (0xc0100000 + 4096 * i + o) = some (4096 * frame + o) := by
  have small := core.valid.heap_table inside
  have mapped : Paging.walk m r ((0xc0100000 + 4096 * i + o) / 4096) = some frame := by
    apply core.tables.walk (t := 0x101 + (256 + i) / 1024)
    · rw [show (0xc0100000 + 4096 * i + o) / 4096 / 1024 = 768 + (256 + i) / 1024 by omega]
      exact core.valid.kernelHalf r root _ (by omega)
    · rw [show (0xc0100000 + 4096 * i + o) / 4096 % 1024 = (256 + i) % 1024 by omega]
      exact slot
    · omega
  rw [translate_some mapped, show (0xc0100000 + 4096 * i + o) % 4096 = o by omega]

/-- The last page of the address space shows the directory itself. -/
theorem Core.translate_pde (core : Core m g) (root : g.Root r) (inside : o < 4096) :
    Paging.translate m r (0xfffff000 + o) = some (4096 * r + o) := by
  have mapped : Paging.walk m r ((0xfffff000 + o) / 4096) = some r := by
    apply core.tables.walk (t := r)
    · rw [show (0xfffff000 + o) / 4096 / 1024 = 1023 by omega]
      exact core.valid.window r root
    · rw [show (0xfffff000 + o) / 4096 % 1024 = 1023 by omega]
      exact core.valid.window r root
    · omega
  rw [translate_some mapped, show (0xfffff000 + o) % 4096 = o by omega]

/-- The window of 4 MiB at the end shows the tables in the order of the directory. -/
theorem Core.translate_pte (core : Core m g) (root : g.Root r) {p t : Nat}
    (slot : g.slot r p = .maps t) (small : p < 1024) (inside : o < 4096) :
    Paging.translate m r (0xffc00000 + 4096 * p + o) = some (4096 * t + o) := by
  have mapped : Paging.walk m r ((0xffc00000 + 4096 * p + o) / 4096) = some t := by
    apply core.tables.walk (t := r)
    · rw [show (0xffc00000 + 4096 * p + o) / 4096 / 1024 = 1023 by omega]
      exact core.valid.window r root
    · rw [show (0xffc00000 + 4096 * p + o) / 4096 % 1024 = p by omega]
      exact slot
    · omega
  rw [translate_some mapped, show (0xffc00000 + 4096 * p + o) % 4096 = o by omega]

theorem Core.translate_user (core : Core m g) {d v : Nat} (use : g.use frame = .page d v)
    (offset : o < 4096) : Paging.translate m d (4096 * v + o) = some (4096 * frame + o) := by
  obtain ⟨t, tableUse, slot⟩ := core.valid.page frame d v use
  obtain ⟨-, small, tableSlot, -⟩ := core.valid.table t d _ tableUse
  have mapped : Paging.walk m d ((4096 * v + o) / 4096) = some frame := by
    rw [show (4096 * v + o) / 4096 = v by omega]
    exact core.tables.walk tableSlot slot (by omega)
  rw [translate_some mapped, show (4096 * v + o) % 4096 = o by omega]

end LiziOS.Memory
