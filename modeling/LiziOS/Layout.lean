import LiziOS.Library.Paging
import Mathlib.Data.List.Basic

namespace LiziOS.Memory

open Paging

/-! What the memory system means: which frames are in use for what, and what the page tables map.
Nothing here speaks of bytes. -/

/-- What a frame of one of the pools is in use for: a page of the kernel heap, a page table of a
    directory's user half, or a user page. -/
inductive Use where
  | free
  | heap (page : Nat)
  | table (dir pde : Nat)
  | page (dir page : Nat)
  deriving DecidableEq

structure Layout where
  /-- the pages that `mem_pool_init` gives to each pool -/
  kernelFree : Nat
  userFree : Nat
  /-- the bits set in the two pool bitmaps and in the bitmap of the heap, and the heap pages that
      are mapped -/
  kernelUsed : Nat
  userUsed : Nat
  heapUsed : Nat
  heapMapped : Nat
  /-- the bit behind the bitmap of the heap, which a search for a run counts as one of its bits -/
  tail : Bool
  use : Nat → Use
  slot : Nat → Nat → Slot
  /-- the directories besides that of the kernel -/
  dirs : List Nat

namespace Layout

def kernelLength (g : Layout) : Nat := g.kernelFree / 8

def userLength (g : Layout) : Nat := g.userFree / 8

def heapSlot (g : Layout) (i : Nat) : Slot := g.slot (0x101 + (256 + i) / 1024) ((256 + i) % 1024)

def Root (g : Layout) (r : Nat) : Prop := r = 0x100 ∨ r ∈ g.dirs

def InKernel (g : Layout) (frame : Nat) : Prop := 0x200 ≤ frame ∧ frame < 0x200 + g.kernelUsed

def InUser (g : Layout) (frame : Nat) : Prop :=
  0x200 + g.kernelFree ≤ frame ∧ frame < 0x200 + g.kernelFree + g.userUsed

structure Valid (g : Layout) : Prop where
  kernelFree : g.kernelFree < 2 ^ 15
  userFree : g.userFree ≤ 2 ^ 15
  kernelUsed : g.kernelUsed ≤ 8 * g.kernelLength
  userUsed : g.userUsed ≤ 8 * g.userLength
  heapUsed : g.heapUsed ≤ 8 * g.kernelLength + 1
  heapMapped : g.heapMapped ≤ g.kernelUsed
  mappedUsed : g.heapMapped ≤ g.heapUsed
  /-- every directory has the kernel's tables in its upper quarter, and itself at its end -/
  kernelHalf : ∀ r, g.Root r → ∀ j < 255, g.slot r (768 + j) = .maps (0x101 + j)
  window : ∀ r, g.Root r → g.slot r 1023 = .maps r
  identity : g.slot 0x100 0 = .maps 0x101
  low : ∀ i < 256, g.slot 0x101 i = .maps i
  mapped : ∀ i < g.heapMapped, ∃ frame, g.heapSlot i = .maps frame ∧ g.use frame = .heap i
  unmapped : ∀ i, g.heapMapped ≤ i → i < 8 * g.kernelLength → g.heapSlot i = .absent
  userHalf : ∀ d ∈ g.dirs, ∀ p < 768, g.slot d p = .absent ∨
    ∃ t, g.slot d p = .maps t ∧ g.use t = .table d p
  table : ∀ t d p, g.use t = .table d p → d ∈ g.dirs ∧ p < 768 ∧ g.slot d p = .maps t ∧
    ∀ q < 1024, g.slot t q = .absent ∨ ∃ frame, g.slot t q = .maps frame ∧
      g.use frame = .page d (1024 * p + q)
  page : ∀ frame d v, g.use frame = .page d v →
    ∃ t, g.use t = .table d (v / 1024) ∧ g.slot t (v % 1024) = .maps frame
  heap : ∀ frame i, g.use frame = .heap i → i < g.heapMapped ∧ g.heapSlot i = .maps frame
  known : ∀ frame, ∀ i < 1024, g.slot frame i ≠ .unknown →
    (0x100 ≤ frame ∧ frame < 0x200) ∨ frame ∈ g.dirs ∨ ∃ d p, g.use frame = .table d p
  dir : ∀ d ∈ g.dirs, ∃ i, g.use d = .heap i
  heapFrame : ∀ frame i, g.use frame = .heap i → g.InKernel frame
  tableFrame : ∀ frame d p, g.use frame = .table d p → g.InKernel frame
  pageFrame : ∀ frame d v, g.use frame = .page d v → g.InUser frame

/-! The changes that the memory system makes. -/

def takeKernel (g : Layout) : Layout := { g with kernelUsed := g.kernelUsed + 1 }

def takeUser (g : Layout) : Layout := { g with userUsed := g.userUsed + 1 }

def takeHeap (g : Layout) (n : Nat) : Layout := { g with heapUsed := g.heapUsed + n }

def setSlot (g : Layout) (frame i : Nat) (s : Slot) : Layout :=
  { g with slot := Function.update g.slot frame (Function.update (g.slot frame) i s) }

def setUse (g : Layout) (frame : Nat) (use : Use) : Layout :=
  { g with use := Function.update g.use frame use }

/-- The next page of the heap is mapped to the frame. -/
def mapHeap (g : Layout) (frame : Nat) : Layout :=
  { (g.setSlot (0x101 + (256 + g.heapMapped) / 1024) ((256 + g.heapMapped) % 1024)
      (.maps frame)).setUse frame (.heap g.heapMapped) with heapMapped := g.heapMapped + 1 }

/-- The directory `d` gets an empty table for its entry `p`. -/
def addTable (g : Layout) (d p t : Nat) : Layout :=
  let g := (g.setSlot d p (.maps t)).setUse t (.table d p)
  { g with slot := Function.update g.slot t fun _ => .absent }

/-- The user page `v` is mapped to the frame by the table `t`. -/
def mapUser (g : Layout) (d v t frame : Nat) : Layout :=
  (g.setSlot t (v % 1024) (.maps frame)).setUse frame (.page d v)

/-- The entries of a new directory. -/
def dirRow (d i : Nat) : Slot :=
  if i < 768 then .absent else if i < 1023 then .maps (0x101 + (i - 768)) else .maps d

def addDir (g : Layout) (d : Nat) : Layout :=
  { g with slot := Function.update g.slot d (dirRow d), dirs := d :: g.dirs }

/-- Nothing is known of a directory any more. -/
def dropDir (g : Layout) (d : Nat) : Layout :=
  { g with slot := Function.update g.slot d fun _ => .unknown, dirs := g.dirs.filter (· ≠ d) }

variable {g : Layout} {d p t v frame r i j : Nat}

theorem Valid.root_frame (valid : g.Valid) (root : g.Root r) : r = 0x100 ∨ g.InKernel r := by
  rcases root with eq | member
  · exact .inl eq
  · obtain ⟨i, use⟩ := valid.dir r member
    exact .inr (valid.heapFrame r i use)

theorem Valid.next_kernel (valid : g.Valid) (room : g.kernelUsed < 8 * g.kernelLength) :
    g.use (0x200 + g.kernelUsed) = .free := by
  have less := valid.kernelFree
  cases use : g.use (0x200 + g.kernelUsed) with
  | free => rfl
  | heap i =>
    have inside := valid.heapFrame _ i use
    simp [InKernel] at inside
  | table d p =>
    have inside := valid.tableFrame _ d p use
    simp [InKernel] at inside
  | page d v =>
    have inside := (valid.pageFrame _ d v use).1
    unfold kernelLength at room
    omega

theorem Valid.next_user (valid : g.Valid) : g.use (0x200 + g.kernelFree + g.userUsed) = .free := by
  have few := valid.kernelUsed
  unfold kernelLength at few
  cases use : g.use (0x200 + g.kernelFree + g.userUsed) with
  | free => rfl
  | heap i =>
    have inside := (valid.heapFrame _ i use).2
    omega
  | table d p =>
    have inside := (valid.tableFrame _ d p use).2
    omega
  | page d v =>
    have inside := (valid.pageFrame _ d v use).2
    omega

theorem Valid.takeKernel (valid : g.Valid) (room : g.kernelUsed < 8 * g.kernelLength) :
    g.takeKernel.Valid :=
  { valid with
    kernelUsed := room
    heapMapped := Nat.le_succ_of_le valid.heapMapped
    heapFrame := fun frame i use =>
      ⟨(valid.heapFrame frame i use).1, Nat.lt_succ_of_lt (valid.heapFrame frame i use).2⟩
    tableFrame := fun frame d p use =>
      ⟨(valid.tableFrame frame d p use).1, Nat.lt_succ_of_lt (valid.tableFrame frame d p use).2⟩ }

theorem Valid.takeUser (valid : g.Valid) (room : g.userUsed < 8 * g.userLength) : g.takeUser.Valid :=
  { valid with
    userUsed := room
    pageFrame := fun frame d v use =>
      ⟨(valid.pageFrame frame d v use).1, Nat.lt_succ_of_lt (valid.pageFrame frame d v use).2⟩ }

theorem Valid.takeHeap (valid : g.Valid) {n : Nat} (room : g.heapUsed + n ≤ 8 * g.kernelLength + 1) :
    (g.takeHeap n).Valid :=
  { valid with
    heapUsed := room
    mappedUsed := Nat.le_add_right_of_le valid.mappedUsed }

theorem setSlot_same (g : Layout) (f i : Nat) (s : Slot) : (g.setSlot f i s).slot f i = s := by
  simp [setSlot]

theorem setSlot_other (g : Layout) {f f' i i' : Nat} (s : Slot) (other : f' ≠ f ∨ i' ≠ i) :
    (g.setSlot f i s).slot f' i' = g.slot f' i' := by
  unfold setSlot
  by_cases frames : f' = f
  · subst f'
    have distinct : i' ≠ i := other.resolve_left (fun ne => ne rfl)
    simp [distinct]
  · simp [frames]

theorem setUse_same (g : Layout) (f : Nat) (u : Use) : (g.setUse f u).use f = u := by
  simp [setUse]

theorem setUse_other (g : Layout) {f f' : Nat} (u : Use) (other : f' ≠ f) :
    (g.setUse f u).use f' = g.use f' := by
  simp [setUse, other]

/-- A frame that was free is not one that was in use. -/
theorem ne_of_free {f f' : Nat} (free : g.use f = .free) (used : g.use f' ≠ .free) : f' ≠ f := by
  rintro rfl
  exact used free

/-- Frames in use for something else than the frame that was just taken into use. -/
theorem use_old {f f' : Nat} {u u' : Use} (use : (g.setUse f u).use f' = u') (other : u' ≠ u) :
    g.use f' = u' := by
  by_cases same : f' = f
  · rw [same, setUse_same] at use
    exact absurd use.symm other
  · rw [← setUse_other g u same]
    exact use

theorem use_new {f f' : Nat} {u u' : Use} (free : g.use f = .free) (use : g.use f' = u')
    (used : u' ≠ .free) : (g.setUse f u).use f' = u' := by
  rw [setUse_other g u (ne_of_free free (by rw [use]; exact used))]
  exact use

/-- The table of a heap page is one of those that `setup_page` has set up. -/
theorem Valid.heap_table (valid : g.Valid) (inside : i < 8 * g.kernelLength) :
    0x101 + (256 + i) / 1024 < 0x200 := by
  have less := valid.kernelFree
  unfold kernelLength at inside
  omega

theorem Valid.mapped_inside (valid : g.Valid) (mapped : i < g.heapMapped) : i < 8 * g.kernelLength := by
  have few := valid.heapMapped
  have bound := valid.kernelUsed
  omega

theorem Valid.root_ne (valid : g.Valid) (root : g.Root r) {f : Nat} (table : 0x100 < f)
    (small : f < 0x200) : r ≠ f := by
  rcases valid.root_frame root with rfl | inside
  · omega
  · have above := inside.1
    omega

theorem Valid.mapHeap (valid : g.Valid) (free : g.use frame = .free) (inside : g.InKernel frame)
    (room : g.heapMapped < g.kernelUsed) (marked : g.heapMapped < g.heapUsed) :
    (g.mapHeap frame).Valid := by
  have bound := valid.kernelUsed
  have small := valid.heap_table (i := g.heapMapped) (by omega)
  generalize tableEq : 0x101 + (256 + g.heapMapped) / 1024 = f at small
  generalize indexEq : (256 + g.heapMapped) % 1024 = n
  have shape : g.mapHeap frame = { (g.setSlot f n (.maps frame)).setUse frame (.heap g.heapMapped) with
      heapMapped := g.heapMapped + 1 } := by
    rw [Layout.mapHeap, tableEq, indexEq]
  have slotOther {f' n' : Nat} (other : f' ≠ f ∨ n' ≠ n) : (g.mapHeap frame).slot f' n' = g.slot f' n' := by
    rw [shape]
    exact setSlot_other g _ other
  have useOther {f' : Nat} (other : f' ≠ frame) : (g.mapHeap frame).use f' = g.use f' := by
    rw [shape]
    exact setUse_other _ _ other
  have useSame : (g.mapHeap frame).use frame = .heap g.heapMapped := by
    rw [shape]
    exact setUse_same _ _ _
  have rootNe {r : Nat} (root : g.Root r) : r ≠ f := valid.root_ne root (by omega) small
  have kernelNe {t : Nat} (kernel : g.InKernel t) : t ≠ f := by
    have above := kernel.1
    omega
  have heapOther {i : Nat} (other : i ≠ g.heapMapped) : (g.mapHeap frame).heapSlot i = g.heapSlot i := by
    apply slotOther
    omega
  have heapSame : (g.mapHeap frame).heapSlot g.heapMapped = .maps frame := by
    unfold heapSlot
    rw [tableEq, indexEq, shape]
    exact setSlot_same g _ _ _
  have useOld {f' : Nat} {u : Use} (use : (g.mapHeap frame).use f' = u)
      (other : u ≠ .heap g.heapMapped) : g.use f' = u := use_old (g := g) use other
  have useNew {f' : Nat} {u : Use} (use : g.use f' = u) (used : u ≠ .free) :
      (g.mapHeap frame).use f' = u := use_new free use used
  exact {
    kernelFree := valid.kernelFree
    userFree := valid.userFree
    kernelUsed := valid.kernelUsed
    userUsed := valid.userUsed
    heapUsed := valid.heapUsed
    heapMapped := room
    mappedUsed := marked
    kernelHalf := fun r root j less => by
      rw [slotOther (.inl (rootNe root))]
      exact valid.kernelHalf r root j less
    window := fun r root => by
      rw [slotOther (.inl (rootNe root))]
      exact valid.window r root
    identity := by
      rw [slotOther (.inl (by omega))]
      exact valid.identity
    low := fun i less => by
      rw [slotOther (by omega)]
      exact valid.low i less
    mapped := fun i less => by
      by_cases last : i = g.heapMapped
      · subst i
        exact ⟨frame, heapSame, useSame⟩
      · obtain ⟨fr, slot, use⟩ := valid.mapped i (Nat.lt_of_le_of_ne (Nat.le_of_lt_succ less) last)
        exact ⟨fr, by rw [heapOther last]; exact slot, useNew use (by simp)⟩
    unmapped := fun i above below => by
      have less : g.heapMapped < i := above
      rw [heapOther (by omega)]
      exact valid.unmapped i (by omega) below
    userHalf := fun d member p less => by
      rw [slotOther (.inl (rootNe (.inr member)))]
      rcases valid.userHalf d member p less with absent | ⟨t, slot, use⟩
      · exact .inl absent
      · exact .inr ⟨t, slot, useNew use (by simp)⟩
    table := fun t d p use => by
      have old := useOld use (by simp)
      obtain ⟨member, less, slot, entries⟩ := valid.table t d p old
      have notTable := kernelNe (valid.tableFrame t d p old)
      refine ⟨member, less, by rw [slotOther (.inl (rootNe (.inr member)))]; exact slot, ?_⟩
      intro q inside
      rw [slotOther (.inl notTable)]
      rcases entries q inside with absent | ⟨fr, slot, use⟩
      · exact .inl absent
      · exact .inr ⟨fr, slot, useNew use (by simp)⟩
    page := fun fr d v use => by
      obtain ⟨t, tableUse, slot⟩ := valid.page fr d v (useOld use (by simp))
      have notTable := kernelNe (valid.tableFrame t d _ tableUse)
      exact ⟨t, useNew tableUse (by simp), by rw [slotOther (.inl notTable)]; exact slot⟩
    heap := fun fr i use => by
      by_cases same : fr = frame
      · rw [same, useSame] at use
        cases use
        rw [same]
        exact ⟨Nat.lt_succ_self _, heapSame⟩
      · rw [useOther same] at use
        obtain ⟨less, slot⟩ := valid.heap fr i use
        exact ⟨Nat.lt_succ_of_lt less, by rw [heapOther (by omega)]; exact slot⟩
    known := fun fr i less known => by
      by_cases same : fr = f ∧ i = n
      · left
        omega
      · rw [slotOther (by omega)] at known
        rcases valid.known fr i less known with low | member | ⟨d, p, use⟩
        · exact .inl low
        · exact .inr (.inl member)
        · exact .inr (.inr ⟨d, p, useNew use (by simp)⟩)
    dir := fun d member => by
      obtain ⟨i, use⟩ := valid.dir d member
      exact ⟨i, useNew use (by simp)⟩
    heapFrame := fun fr i use => by
      by_cases same : fr = frame
      · rw [same]
        exact inside
      · rw [useOther same] at use
        exact valid.heapFrame fr i use
    tableFrame := fun fr d p use => valid.tableFrame fr d p (useOld use (by simp))
    pageFrame := fun fr d v use => valid.pageFrame fr d v (useOld use (by simp)) }

theorem Valid.addTable (valid : g.Valid) (member : d ∈ g.dirs) (less : p < 768)
    (absent : g.slot d p = .absent) (free : g.use t = .free) (inside : g.InKernel t) :
    (g.addTable d p t).Valid := by
  obtain ⟨dirPage, dirUse⟩ := valid.dir d member
  have dirKernel := valid.heapFrame d dirPage dirUse
  have dirNe : d ≠ t := ne_of_free free (by simp [dirUse])
  have useOld {f' : Nat} {u : Use} (use : (g.addTable d p t).use f' = u) (other : u ≠ .table d p) :
      g.use f' = u := use_old (g := g) use other
  have useNew {f' : Nat} {u : Use} (use : g.use f' = u) (used : u ≠ .free) :
      (g.addTable d p t).use f' = u := use_new free use used
  have useSame : (g.addTable d p t).use t = .table d p := setUse_same g t _
  have slotSame : (g.addTable d p t).slot d p = .maps t := by
    simp [Layout.addTable, setUse, setSlot, dirNe]
  have slotTable (q : Nat) : (g.addTable d p t).slot t q = .absent := by simp [Layout.addTable]
  have slotOther {f' n' : Nat} (notTable : f' ≠ t) (other : f' ≠ d ∨ n' ≠ p) :
      (g.addTable d p t).slot f' n' = g.slot f' n' := by
    rw [← setSlot_other g (.maps t) other]
    simp [Layout.addTable, setUse, notTable]
  have lowNe {f : Nat} (low : f < 0x200) : f ≠ t ∧ f ≠ d := by
    have above := inside.1
    have above' := dirKernel.1
    omega
  have rootNe {r : Nat} (root : g.Root r) : r ≠ t := by
    rcases root with rfl | member
    · exact (lowNe (by omega)).1
    · obtain ⟨i, use⟩ := valid.dir r member
      exact ne_of_free free (by simp [use])
  have heapSame {i : Nat} (below : i < 8 * g.kernelLength) :
      (g.addTable d p t).heapSlot i = g.heapSlot i := by
    have ne := lowNe (valid.heap_table below)
    exact slotOther ne.1 (.inl ne.2)
  exact {
    kernelFree := valid.kernelFree
    userFree := valid.userFree
    kernelUsed := valid.kernelUsed
    userUsed := valid.userUsed
    heapUsed := valid.heapUsed
    heapMapped := valid.heapMapped
    mappedUsed := valid.mappedUsed
    kernelHalf := fun r root j small => by
      rw [slotOther (rootNe root) (.inr (by omega))]
      exact valid.kernelHalf r root j small
    window := fun r root => by
      rw [slotOther (rootNe root) (.inr (by omega))]
      exact valid.window r root
    identity := by
      have ne := lowNe (f := 0x100) (by omega)
      rw [slotOther ne.1 (.inl ne.2)]
      exact valid.identity
    low := fun i small => by
      have ne := lowNe (f := 0x101) (by omega)
      rw [slotOther ne.1 (.inl ne.2)]
      exact valid.low i small
    mapped := fun i small => by
      obtain ⟨fr, slot, use⟩ := valid.mapped i small
      exact ⟨fr, by rw [heapSame (valid.mapped_inside small)]; exact slot,
        useNew use (by simp)⟩
    unmapped := fun i above below => by
      rw [heapSame below]
      exact valid.unmapped i above below
    userHalf := fun d' member' p' less' => by
      by_cases same : d' = d ∧ p' = p
      · right
        rw [same.1, same.2]
        exact ⟨t, slotSame, useSame⟩
      · rw [slotOther (rootNe (.inr member')) (by omega)]
        rcases valid.userHalf d' member' p' less' with none | ⟨t', slot, use⟩
        · exact .inl none
        · exact .inr ⟨t', slot, useNew use (by simp)⟩
    table := fun t' d' p' use => by
      by_cases same : t' = t
      · subst t'
        rw [useSame] at use
        cases use
        exact ⟨member, less, slotSame, fun q _ => .inl (slotTable q)⟩
      · have old : g.use t' = .table d' p' := by
          rw [← setUse_other g (.table d p) same]
          exact use
        obtain ⟨member', less', slot, entries⟩ := valid.table t' d' p' old
        have notDir : t' ≠ d := by
          rintro rfl
          rw [old] at dirUse
          contradiction
        refine ⟨member', less', ?_, fun q small => ?_⟩
        · by_cases entry : d' = d ∧ p' = p
          · rw [entry.1, entry.2, absent] at slot
            contradiction
          · rw [slotOther (rootNe (.inr member')) (by omega)]
            exact slot
        · rw [slotOther same (.inl notDir)]
          rcases entries q small with none | ⟨fr, slot, use⟩
          · exact .inl none
          · exact .inr ⟨fr, slot, useNew use (by simp)⟩
    page := fun fr d' v use => by
      obtain ⟨t', tableUse, slot⟩ := valid.page fr d' v (useOld use (by simp))
      have notTable : t' ≠ t := ne_of_free free (by simp [tableUse])
      have notDir : t' ≠ d := by
        rintro rfl
        rw [tableUse] at dirUse
        contradiction
      exact ⟨t', useNew tableUse (by simp), by rw [slotOther notTable (.inl notDir)]; exact slot⟩
    heap := fun fr i use => by
      obtain ⟨small, slot⟩ := valid.heap fr i (useOld use (by simp))
      exact ⟨small, by rw [heapSame (valid.mapped_inside small)]; exact slot⟩
    known := fun fr i small known => by
      by_cases same : fr = t
      · rw [same]
        exact .inr (.inr ⟨d, p, useSame⟩)
      · by_cases entry : fr = d ∧ i = p
        · rw [entry.1]
          exact .inr (.inl member)
        · rw [slotOther same (by omega)] at known
          rcases valid.known fr i small known with low | member' | ⟨d', p', use⟩
          · exact .inl low
          · exact .inr (.inl member')
          · exact .inr (.inr ⟨d', p', useNew use (by simp)⟩)
    dir := fun d' member' => by
      obtain ⟨i, use⟩ := valid.dir d' member'
      exact ⟨i, useNew use (by simp)⟩
    heapFrame := fun fr i use => valid.heapFrame fr i (useOld use (by simp))
    tableFrame := fun fr d' p' use => by
      by_cases same : fr = t
      · rw [same]
        exact inside
      · apply valid.tableFrame fr d' p'
        rw [← setUse_other g (.table d p) same]
        exact use
    pageFrame := fun fr d' v use => valid.pageFrame fr d' v (useOld use (by simp)) }

theorem Valid.mapUser (valid : g.Valid) (table : g.use t = .table d (v / 1024))
    (absent : g.slot t (v % 1024) = .absent) (free : g.use frame = .free) (inside : g.InUser frame) :
    (g.mapUser d v t frame).Valid := by
  have tableKernel := valid.tableFrame t d _ table
  have useOld {f' : Nat} {u : Use} (use : (g.mapUser d v t frame).use f' = u) (other : u ≠ .page d v) :
      g.use f' = u := use_old (g := g) use other
  have useNew {f' : Nat} {u : Use} (use : g.use f' = u) (used : u ≠ .free) :
      (g.mapUser d v t frame).use f' = u := use_new free use used
  have useSame : (g.mapUser d v t frame).use frame = .page d v := setUse_same g frame _
  have slotSame : (g.mapUser d v t frame).slot t (v % 1024) = .maps frame := setSlot_same g _ _ _
  have slotOther {f' n' : Nat} (other : f' ≠ t ∨ n' ≠ v % 1024) :
      (g.mapUser d v t frame).slot f' n' = g.slot f' n' := setSlot_other g _ other
  have lowNe {f : Nat} (low : f < 0x200) : f ≠ t := by
    have above := tableKernel.1
    omega
  have rootNe {r : Nat} (root : g.Root r) : r ≠ t := by
    rcases root with rfl | member
    · exact lowNe (by omega)
    · obtain ⟨i, use⟩ := valid.dir r member
      rintro rfl
      rw [use] at table
      contradiction
  have heapSame {i : Nat} (below : i < 8 * g.kernelLength) :
      (g.mapUser d v t frame).heapSlot i = g.heapSlot i :=
    slotOther (.inl (lowNe (valid.heap_table below)))
  exact {
    kernelFree := valid.kernelFree
    userFree := valid.userFree
    kernelUsed := valid.kernelUsed
    userUsed := valid.userUsed
    heapUsed := valid.heapUsed
    heapMapped := valid.heapMapped
    mappedUsed := valid.mappedUsed
    kernelHalf := fun r root j small => by
      rw [slotOther (.inl (rootNe root))]
      exact valid.kernelHalf r root j small
    window := fun r root => by
      rw [slotOther (.inl (rootNe root))]
      exact valid.window r root
    identity := by
      rw [slotOther (.inl (lowNe (by omega)))]
      exact valid.identity
    low := fun i small => by
      rw [slotOther (.inl (lowNe (by omega)))]
      exact valid.low i small
    mapped := fun i small => by
      obtain ⟨fr, slot, use⟩ := valid.mapped i small
      exact ⟨fr, by rw [heapSame (valid.mapped_inside small)]; exact slot,
        useNew use (by simp)⟩
    unmapped := fun i above below => by
      rw [heapSame below]
      exact valid.unmapped i above below
    userHalf := fun d' member p less => by
      rw [slotOther (.inl (rootNe (.inr member)))]
      rcases valid.userHalf d' member p less with none | ⟨t', slot, use⟩
      · exact .inl none
      · exact .inr ⟨t', slot, useNew use (by simp)⟩
    table := fun t' d' p use => by
      have old := useOld use (by simp)
      obtain ⟨member, less, slot, entries⟩ := valid.table t' d' p old
      refine ⟨member, less, by rw [slotOther (.inl (rootNe (.inr member)))]; exact slot, ?_⟩
      intro q small
      by_cases same : t' = t ∧ q = v % 1024
      · obtain ⟨rfl, rfl⟩ := same
        rw [table] at old
        cases old
        right
        refine ⟨frame, slotSame, ?_⟩
        rw [Nat.div_add_mod]
        exact useSame
      · rw [slotOther (by omega)]
        rcases entries q small with none | ⟨fr, slot, use⟩
        · exact .inl none
        · exact .inr ⟨fr, slot, useNew use (by simp)⟩
    page := fun fr d' v' use => by
      by_cases same : fr = frame
      · subst fr
        rw [useSame] at use
        cases use
        exact ⟨t, useNew table (by simp), slotSame⟩
      · have old : g.use fr = .page d' v' := by
          rw [← setUse_other g (.page d v) same]
          exact use
        obtain ⟨t', tableUse, slot⟩ := valid.page fr d' v' old
        refine ⟨t', useNew tableUse (by simp), ?_⟩
        by_cases entry : t' = t ∧ v' % 1024 = v % 1024
        · rw [entry.1, entry.2, absent] at slot
          contradiction
        · rw [slotOther (by omega)]
          exact slot
    heap := fun fr i use => by
      obtain ⟨small, slot⟩ := valid.heap fr i (useOld use (by simp))
      exact ⟨small, by rw [heapSame (valid.mapped_inside small)]; exact slot⟩
    known := fun fr i small known => by
      by_cases same : fr = t
      · rw [same]
        exact .inr (.inr ⟨d, v / 1024, useNew table (by simp)⟩)
      · rw [slotOther (.inl same)] at known
        rcases valid.known fr i small known with low | member | ⟨d', p, use⟩
        · exact .inl low
        · exact .inr (.inl member)
        · exact .inr (.inr ⟨d', p, useNew use (by simp)⟩)
    dir := fun d' member => by
      obtain ⟨i, use⟩ := valid.dir d' member
      exact ⟨i, useNew use (by simp)⟩
    heapFrame := fun fr i use => valid.heapFrame fr i (useOld use (by simp))
    tableFrame := fun fr d' p use => valid.tableFrame fr d' p (useOld use (by simp))
    pageFrame := fun fr d' v' use => by
      by_cases same : fr = frame
      · rw [same]
        exact inside
      · apply valid.pageFrame fr d' v'
        rw [← setUse_other g (.page d v) same]
        exact use }

/-- A heap page of which nothing was known becomes a directory. -/
theorem Valid.addDir (valid : g.Valid) (use : g.use d = .heap i) (fresh : d ∉ g.dirs) :
    (g.addDir d).Valid := by
  have kernel := valid.heapFrame d i use
  have slotSame : (g.addDir d).slot d = dirRow d := by simp [Layout.addDir]
  have slotOther {f' : Nat} (other : f' ≠ d) : (g.addDir d).slot f' = g.slot f' := by
    simp [Layout.addDir, other]
  have lowNe {f : Nat} (low : f < 0x200) : f ≠ d := by
    have above := kernel.1
    omega
  have oldRoot {r : Nat} (root : (g.addDir d).Root r) : r = d ∨ (g.Root r ∧ r ≠ d) := by
    by_cases same : r = d
    · exact .inl same
    · right
      rcases root with eq | member
      · exact ⟨.inl eq, same⟩
      · rcases List.mem_cons.mp member with eq | old
        · exact absurd eq same
        · exact ⟨.inr old, same⟩
  have tableNe {t' d' p' : Nat} (table : g.use t' = .table d' p') : t' ≠ d := by
    rintro rfl
    rw [use] at table
    contradiction
  have heapSame {j : Nat} (below : j < 8 * g.kernelLength) : (g.addDir d).heapSlot j = g.heapSlot j := by
    unfold heapSlot
    rw [slotOther (lowNe (valid.heap_table below))]
  exact { valid with
    kernelHalf := fun r root j small => by
      rcases oldRoot root with rfl | ⟨old, other⟩
      · rw [slotSame]
        simp [dirRow, show 768 + j < 1023 by omega]
      · rw [slotOther other]
        exact valid.kernelHalf r old j small
    window := fun r root => by
      rcases oldRoot root with rfl | ⟨old, other⟩
      · rw [slotSame]
        simp [dirRow]
      · rw [slotOther other]
        exact valid.window r old
    identity := by
      rw [slotOther (lowNe (by omega))]
      exact valid.identity
    low := fun j small => by
      rw [slotOther (lowNe (by omega))]
      exact valid.low j small
    mapped := fun j small => by
      rw [heapSame (valid.mapped_inside small)]
      exact valid.mapped j small
    unmapped := fun j above below => by
      rw [heapSame below]
      exact valid.unmapped j above below
    userHalf := fun d' member p less => by
      rcases List.mem_cons.mp member with rfl | old
      · rw [slotSame]
        simp [dirRow, less]
      · rw [slotOther (fun same => fresh (same ▸ old))]
        exact valid.userHalf d' old p less
    table := fun t' d' p use => by
      obtain ⟨member, less, slot, entries⟩ := valid.table t' d' p use
      refine ⟨List.mem_cons_of_mem d member, less, ?_, ?_⟩
      · rw [slotOther (fun same => fresh (same ▸ member))]
        exact slot
      · rw [slotOther (tableNe use)]
        exact entries
    page := fun fr d' v use => by
      obtain ⟨t', tableUse, slot⟩ := valid.page fr d' v use
      exact ⟨t', tableUse, by rw [slotOther (tableNe tableUse)]; exact slot⟩
    heap := fun fr j use => by
      obtain ⟨small, slot⟩ := valid.heap fr j use
      exact ⟨small, by rw [heapSame (valid.mapped_inside small)]; exact slot⟩
    known := fun fr j small known => by
      by_cases same : fr = d
      · rw [same]
        exact .inr (.inl List.mem_cons_self)
      · rw [slotOther same] at known
        rcases valid.known fr j small known with low | member | table
        · exact .inl low
        · exact .inr (.inl (List.mem_cons_of_mem d member))
        · exact .inr (.inr table)
    dir := fun d' member => by
      rcases List.mem_cons.mp member with rfl | old
      · exact ⟨i, use⟩
      · exact valid.dir d' old }

end Layout

end LiziOS.Memory
