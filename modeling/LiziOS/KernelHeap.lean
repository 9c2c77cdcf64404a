import LiziOS.Mapping

namespace LiziOS.Memory

open ByteMemory Paging

/-! `malloc_kernel_pages`. -/

/-- The linear address of a page of the kernel heap. -/
def heapAddr (i : Nat) : U32 := BitVec.ofNat 32 (0xc0100000 + 4096 * i)

/-- What the heap's bitmap says to a request for `n` pages. The search counts the bit behind the
    bitmap as the last of its bits. -/
def Layout.Fits (g : Layout) (n : Nat) : Prop :=
  g.heapUsed + n ≤ 8 * g.kernelLength ∨ (g.heapUsed + n = 8 * g.kernelLength + 1 ∧ g.tail = false)

variable {s t : Machine} {g g' : Layout} {m m' : ByteMemory.Memory} {n : Nat}

theorem heapAddr_toNat {i : Nat} (small : i ≤ 2 ^ 15) : (heapAddr i).toNat = 0xc0100000 + 4096 * i := by
  unfold heapAddr
  rw [BitVec.toNat_ofNat, Nat.mod_eq_of_lt (by omega)]

theorem heapAddr_succ (i : Nat) : heapAddr i + pgSize = heapAddr (i + 1) := by
  unfold heapAddr
  rw [show 0xc0100000 + 4096 * (i + 1) = 0xc0100000 + 4096 * i + 4096 by omega, BitVec.ofNat_add _ 4096]
  rfl

theorem heapAddr_start (i : Nat) : 0xc0100000 + BitVec.ofNat 32 i * pgSize = heapAddr i := by
  unfold heapAddr
  rw [BitVec.ofNat_add, BitVec.ofNat_mul, BitVec.mul_comm]
  rfl

/-- Marking the next bit of the heap's bitmap, or the bit behind it. -/
theorem Core.mark (core : Core m g) (room : g.heapUsed ≤ 8 * g.kernelLength) :
    Core (Function.update m (g.heapBase + g.heapUsed / 8)
      (m (g.heapBase + g.heapUsed / 8) ||| (1 : U8) <<< (g.heapUsed % 8))) (g.takeHeap 1) := by
  obtain ⟨top, kernelSmall, userSmall⟩ := core.valid.bitmaps_end
  have user : g.userBase = 0x9a000 + g.kernelLength := rfl
  have heap : g.heapBase = g.userBase + g.userLength := rfl
  refine ⟨core.valid.takeHeap (by omega), core.tables_bitmap (by omega) _, ?_, ?_, ?_, ?_⟩
  · intro i inside
    change i < 8 * g.kernelLength at inside
    rw [bit_congr (Function.update_of_ne (by omega) _ _)]
    exact core.kernelBits i inside
  · intro i inside
    change i < 8 * g.userLength at inside
    change bit _ g.userBase i = _
    rw [bit_congr (Function.update_of_ne (by omega) _ _)]
    exact core.userBits i inside
  · intro i inside
    change bit _ g.heapBase i = _
    rw [bit_set, core.heapBits i inside]
    exact take_bit _ _
  · change bit _ g.heapBase (8 * g.kernelLength) = (g.tail || decide (8 * g.kernelLength < g.heapUsed + 1))
    rw [bit_set, core.tailBit, Bool.or_left_comm, take_bit]

theorem markBits_heap (rep : Represents s g) (n : Nat) (room : g.heapUsed + n ≤ 8 * g.kernelLength + 1) :
    ∃ t, markBits (bitmapSetBit
        ⟨BitVec.ofNat 32 g.kernelLength, BitVec.ofNat 32 (0xc0000000 + g.heapBase)⟩ · 1)
        (BitVec.ofNat 32 g.heapUsed) (BitVec.ofNat 32 (g.heapUsed + n)) s = .ok () t ∧ Same s t ∧
      Represents t (g.takeHeap n) ∧ ∀ x, ¬ InBitmaps x → t.phys x = s.phys x := by
  obtain ⟨top, kernelSmall, userSmall⟩ := rep.core.valid.bitmaps_end
  induction n generalizing s g with
  | zero =>
    refine ⟨s, ?_, rfl, rep, fun _ _ => rfl⟩
    rw [markBits, dif_neg (by rw [BitVec.lt_def, Nat.add_zero]; omega)]
    rfl
  | succ n ih =>
    have low : 0x9a000 ≤ g.heapBase := by
      unfold Layout.heapBase Layout.userBase
      omega
    have set := rep.setBit g.heapBase g.kernelLength g.heapUsed (by omega) (by omega)
    have core := rep.core.mark (by omega)
    generalize s.phys (g.heapBase + g.heapUsed / 8) ||| (1 : U8) <<< (g.heapUsed % 8) = byte at set core
    have next := rep.write core rep.root ⟨rfl, rfl⟩ fun _ owned => owned
    obtain ⟨t, done, same, after, outside⟩ := ih (g := g.takeHeap 1) next
      (by change g.heapUsed + 1 + n ≤ 8 * g.kernelLength + 1; omega) top kernelSmall userSmall
    refine ⟨t, ?_, Same.trans (t := { s with phys := _ }) rfl same, ?_, ?_⟩
    · have less : BitVec.ofNat 32 g.heapUsed < BitVec.ofNat 32 (g.heapUsed + (n + 1)) := by
        rw [BitVec.lt_def, BitVec.toNat_ofNat, BitVec.toNat_ofNat]
        omega
      rw [markBits, dif_pos less, Program.bind_ok set]
      have step : BitVec.ofNat 32 g.heapUsed + 1 = BitVec.ofNat 32 (g.heapUsed + 1) := by
        rw [BitVec.ofNat_add]
        rfl
      rw [step, show g.heapUsed + (n + 1) = g.heapUsed + 1 + n by omega]
      exact done
    · have eq : (g.takeHeap 1).takeHeap n = g.takeHeap (n + 1) := by
        unfold Layout.takeHeap
        rw [show g.heapUsed + 1 + n = g.heapUsed + (n + 1) by omega]
      rw [← eq]
      exact after
    · intro x free
      rw [outside x free]
      apply Function.update_of_ne
      rintro rfl
      exact free ⟨by omega, by omega⟩

theorem Represents.heap_reads (rep : Represents s g) :
    Reads (fun i => peek s (BitVec.ofNat 32 (0xc0000000 + g.heapBase) + i))
      (BitVec.ofNat 32 g.kernelLength).toNat (bit s.phys g.heapBase) ∧
    (BitVec.ofNat 32 g.kernelLength).toNat = g.kernelLength ∧ 8 * g.kernelLength < 2 ^ 15 := by
  obtain ⟨top, kernelSmall, userSmall⟩ := rep.core.valid.bitmaps_end
  have value : (BitVec.ofNat 32 g.kernelLength).toNat = g.kernelLength := by
    rw [BitVec.toNat_ofNat, Nat.mod_eq_of_lt (by omega)]
  refine ⟨?_, value, by omega⟩
  rw [value]
  exact rep.reads _ _ (by omega)

theorem Represents.heap_taken (rep : Represents s g) {i : Nat} (less : i < g.heapUsed)
    (inside : i < 8 * g.kernelLength) : bit s.phys g.heapBase i = true := by
  rw [rep.core.heapBits i inside]
  simpa using less

theorem Represents.heap_clear (rep : Represents s g) {i : Nat} (above : g.heapUsed ≤ i)
    (inside : i < 8 * g.kernelLength) : bit s.phys g.heapBase i = false := by
  rw [rep.core.heapBits i inside]
  simpa using above

/-- The bits in use are the first ones, so the first run that is long enough starts behind them. -/
theorem Represents.heap_run (rep : Represents s g) (n : Nat) (room : g.heapUsed < 8 * g.kernelLength) :
    g.Fits n ↔ g.heapUsed + n ≤ 8 * g.kernelLength + 1 ∧
      ClearRun (bit s.phys g.heapBase) g.heapUsed n := by
  have tail := rep.core.tailBit
  rw [decide_eq_false (by omega), Bool.or_false] at tail
  constructor
  · rintro (inside | ⟨last, clear⟩)
    · exact ⟨by omega, fun i low high => rep.heap_clear low (by omega)⟩
    · refine ⟨by omega, fun i low high => ?_⟩
      by_cases end_ : i = 8 * g.kernelLength
      · rw [end_, tail]
        exact clear
      · exact rep.heap_clear low (by omega)
  · rintro ⟨bound, run⟩
    by_cases inside : g.heapUsed + n ≤ 8 * g.kernelLength
    · exact .inl inside
    · exact .inr ⟨by omega, by rw [← tail]; exact run _ (by omega) (by omega)⟩

theorem Represents.heap_search (rep : Represents s g) (positive : 0 < n) (small : n < 2 ^ 16)
    (room : g.heapUsed < 8 * g.kernelLength) :
    (g.Fits n ∧ bitmapRequestBits s.kernelVaddr.addrBitmap (BitVec.ofNat 32 n) s =
      .ok (BitVec.ofNat 32 g.heapUsed) s) ∨
    (¬ g.Fits n ∧ bitmapRequestBits s.kernelVaddr.addrBitmap (BitVec.ofNat 32 n) s = .ok (-1) s) := by
  obtain ⟨reads, value, short⟩ := rep.heap_reads
  have count : (BitVec.ofNat 32 n).toNat = n := by
    rw [BitVec.toNat_ofNat, Nat.mod_eq_of_lt (by omega)]
  have before (i : Nat) (less : i < g.heapUsed) := rep.heap_taken less (by omega)
  have fits := rep.heap_run n room
  rw [rep.heap, bitmapRequestBits_eq]
  by_cases one : n = 1
  · subst one
    left
    refine ⟨.inl (by omega), ?_⟩
    rw [show BitVec.ofNat 32 1 = (1 : U32) from rfl,
      requestBits_one reads (by omega) s.ndebug (by omega) (rep.heap_clear (le_refl _) room) before]
  · have search := requestBits_run reads (n := BitVec.ofNat 32 n) (by omega) (by omega) s.ndebug
      (by omega) (rep.heap_clear (le_refl _) room)
    rw [value, count] at search
    rcases search with ⟨found, result, inside, run, minimal⟩ | ⟨result, nothing⟩
    · left
      -- a run cannot start among the bits in use
      have low : g.heapUsed ≤ found := by
        by_contra less
        have taken := before found (by omega)
        rw [run found (le_refl _) (by omega)] at taken
        contradiction
      have clear : ClearRun (bit s.phys g.heapBase) g.heapUsed n := by
        intro i above below
        by_cases early : i < found
        · exact rep.heap_clear above (by omega)
        · exact run i (by omega) (by omega)
      have same : found = g.heapUsed := by
        by_contra different
        exact minimal g.heapUsed (by omega) clear
      rw [result, same]
      exact ⟨fits.mpr ⟨by omega, clear⟩, rfl⟩
    · right
      rw [result]
      exact ⟨fun fit => nothing _ (fits.mp fit).1 (fits.mp fit).2, rfl⟩

theorem vaddrGetPages_full (rep : Represents s g) (full : 8 * g.kernelLength ≤ g.heapUsed) (count : U32) :
    vaddrGetPages .kernelPool count s = .error (.panic .bitmapRequestBits) s := by
  obtain ⟨reads, value, short⟩ := rep.heap_reads
  have failed : bitmapRequestBits s.kernelVaddr.addrBitmap count s =
      .error (.panic .bitmapRequestBits) s := by
    rw [rep.heap, bitmapRequestBits_eq, rep.checked, requestBits_full reads (by omega)]
    intro i inside
    exact rep.heap_taken (by omega) (by omega)
  simp only [vaddrGetPages]
  rw [Program.bind_get, Program.bind_error failed]

theorem vaddrGetPages_null (rep : Represents s g) (positive : 0 < n) (small : n < 2 ^ 16)
    (room : g.heapUsed < 8 * g.kernelLength) (unfit : ¬ g.Fits n) :
    vaddrGetPages .kernelPool (BitVec.ofNat 32 n) s = .ok 0 s := by
  rcases rep.heap_search positive small room with ⟨fit, -⟩ | ⟨-, requested⟩
  · exact absurd fit unfit
  · simp only [vaddrGetPages]
    rw [Program.bind_get, Program.bind_ok requested, if_pos rfl]
    rfl

theorem vaddrGetPages_ok (rep : Represents s g) (positive : 0 < n) (small : n < 2 ^ 16)
    (room : g.heapUsed < 8 * g.kernelLength) (fit : g.Fits n) :
    ∃ t, vaddrGetPages .kernelPool (BitVec.ofNat 32 n) s = .ok (heapAddr g.heapUsed) t ∧ Same s t ∧
      Represents t (g.takeHeap n) ∧ ∀ x, ¬ InBitmaps x → t.phys x = s.phys x := by
  obtain ⟨reads, value, short⟩ := rep.heap_reads
  rcases rep.heap_search positive small room with ⟨-, requested⟩ | ⟨unfit, -⟩
  · have bound := ((rep.heap_run n room).mp fit).1
    obtain ⟨t, marked, same, after, outside⟩ := markBits_heap rep n bound
    refine ⟨t, ?_, same, after, outside⟩
    have found : BitVec.ofNat 32 g.heapUsed ≠ (-1 : U32) := by
      intro eq
      have numbers := congrArg BitVec.toNat eq
      rw [BitVec.toNat_ofNat, show (-1 : U32).toNat = 4294967295 from rfl] at numbers
      omega
    simp only [vaddrGetPages]
    rw [Program.bind_get, Program.bind_ok requested, if_neg found, rep.heap, ← BitVec.ofNat_add,
      Program.bind_ok marked, heapAddr_start]
    rfl
  · exact absurd fit unfit

/-- What mapping the next `n` heap pages does to a layout. -/
structure Grown (g : Layout) (n : Nat) (g' : Layout) : Prop where
  lengths : g'.kernelFree = g.kernelFree ∧ g'.userFree = g.userFree
  userUsed : g'.userUsed = g.userUsed
  heapUsed : g'.heapUsed = g.heapUsed
  tail : g'.tail = g.tail
  dirs : g'.dirs = g.dirs
  kernelUsed : g'.kernelUsed = g.kernelUsed + n
  heapMapped : g'.heapMapped = g.heapMapped + n
  old : ∀ frame, frame < 0x200 + g.kernelUsed ∨ 0x200 + g.kernelUsed + n ≤ frame →
    g'.use frame = g.use frame
  new : ∀ i < n, g'.use (0x200 + g.kernelUsed + i) = .heap (g.heapMapped + i)
  slot : ∀ frame, frame < 0x101 ∨ 0x200 ≤ frame → g'.slot frame = g.slot frame

theorem Grown.zero (g : Layout) : Grown g 0 g where
  lengths := ⟨rfl, rfl⟩
  userUsed := rfl
  heapUsed := rfl
  tail := rfl
  dirs := rfl
  kernelUsed := rfl
  heapMapped := rfl
  old _ _ := rfl
  new _ less := absurd less (Nat.not_lt_zero _)
  slot _ _ := rfl

theorem Grown.succ (table : 0x101 + (256 + g.heapMapped) / 1024 < 0x200)
    (grown : Grown (g.takeKernel.mapHeap (0x200 + g.kernelUsed)) n g') : Grown g (n + 1) g' where
  lengths := grown.lengths
  userUsed := grown.userUsed
  heapUsed := grown.heapUsed
  tail := grown.tail
  dirs := grown.dirs
  kernelUsed := by
    rw [grown.kernelUsed]
    change g.kernelUsed + 1 + n = _
    omega
  heapMapped := by
    rw [grown.heapMapped]
    change g.heapMapped + 1 + n = _
    omega
  old frame outside := by
    have apart : frame ≠ 0x200 + g.kernelUsed := by omega
    rw [grown.old frame (by change frame < 0x200 + (g.kernelUsed + 1) ∨
      0x200 + (g.kernelUsed + 1) + n ≤ frame; omega)]
    exact Function.update_of_ne apart _ _
  new i less := by
    cases i with
    | zero =>
      rw [grown.old _ (by change _ < 0x200 + (g.kernelUsed + 1) ∨ _; omega)]
      exact Function.update_self _ _ _
    | succ i =>
      have later := grown.new i (by omega)
      change g'.use (0x200 + (g.kernelUsed + 1) + i) = .heap (g.heapMapped + 1 + i) at later
      rw [show 0x200 + g.kernelUsed + (i + 1) = 0x200 + (g.kernelUsed + 1) + i by omega, later,
        show g.heapMapped + 1 + i = g.heapMapped + (i + 1) by omega]
  slot frame outside := by
    have apart : frame ≠ 0x101 + (256 + g.heapMapped) / 1024 := by omega
    rw [grown.slot frame outside]
    exact Function.update_of_ne apart _ _

/-- The bitmaps and the page tables of the kernel's quarter. -/
def InKernelTables (x : Nat) : Prop := InBitmaps x ∨ (0x101000 ≤ x ∧ x < 0x200000)

theorem Grown.keeps (grown : Grown g n g') (valid : g.Valid) {frame i : Nat}
    (use : g.use frame = .heap i) : g'.use frame = .heap i := by
  rw [grown.old frame (.inl (valid.heapFrame frame i use).2)]
  exact use

/-- One turn of the loop of `malloc_pages`: a frame is taken and becomes the next page. -/
theorem mapHeap_ok (rep : Represents s g) (marked : g.heapMapped < g.heapUsed)
    (room : g.kernelUsed < 8 * g.kernelLength) :
    ∃ u t, paddrGetPage .kernelPool s = .ok (BitVec.ofNat 32 (4096 * (0x200 + g.kernelUsed))) u ∧
      bindVaddrPaddrPage (heapAddr g.heapMapped) (BitVec.ofNat 32 (4096 * (0x200 + g.kernelUsed))) u =
        .ok () t ∧ Same s t ∧ Represents t (g.takeKernel.mapHeap (0x200 + g.kernelUsed)) ∧
      ∀ x, ¬ InKernelTables x → t.phys x = s.phys x := by
  have valid := rep.core.valid
  have kernelFree := valid.kernelFree
  have mappedFew := valid.heapMapped
  have short : 8 * g.kernelLength < 2 ^ 15 := by
    unfold Layout.kernelLength
    omega
  obtain ⟨u, taken, same, after, outside⟩ := paddrGetPage_ok rep .kernelPool room
  change paddrGetPage .kernelPool s = .ok (BitVec.ofNat 32 (4096 * (0x200 + g.kernelUsed))) u at taken
  change Represents u g.takeKernel at after
  have address := heapAddr_toNat (i := g.heapMapped) (by omega)
  have pdeIndex : (heapAddr g.heapMapped).toNat / 4096 / 1024 = 768 + (256 + g.heapMapped) / 1024 := by
    omega
  have pteIndex : (heapAddr g.heapMapped).toNat / 4096 % 1024 = (256 + g.heapMapped) % 1024 := by omega
  have table := valid.heap_table (i := g.heapMapped) (by omega)
  have pde : g.takeKernel.slot u.root ((heapAddr g.heapMapped).toNat / 4096 / 1024) =
      .maps (0x101 + (256 + g.heapMapped) / 1024) := by
    rw [pdeIndex]
    exact after.core.valid.kernelHalf u.root after.root _ (by omega)
  have pte : g.takeKernel.slot (0x101 + (256 + g.heapMapped) / 1024)
      ((heapAddr g.heapMapped).toNat / 4096 % 1024) = .absent := by
    rw [pteIndex]
    exact valid.unmapped g.heapMapped (le_refl _) (by omega)
  have bound := bind_present after (0x200 + g.kernelUsed) pde pte (by omega)
  rw [pteIndex] at bound
  have free : g.takeKernel.use (0x200 + g.kernelUsed) = .free := valid.next_kernel room
  have inside : g.takeKernel.InKernel (0x200 + g.kernelUsed) := by
    unfold Layout.InKernel Layout.takeKernel
    dsimp only
    omega
  have mapped := after.core.valid.mapHeap free inside (Nat.lt_succ_of_le mappedFew) marked
  have core := after.core.retable mapped
    (after.core.tables.set (0x101 + (256 + g.heapMapped) / 1024) ((256 + g.heapMapped) % 1024)
      (0x200 + g.kernelUsed) (by omega) (by omega))
    (fun x bitmap => setWord_outside _ (by unfold InBitmaps at bitmap; omega)) ⟨rfl, rfl⟩
    ⟨rfl, rfl, rfl, rfl⟩
  have rep' := after.write core after.root ⟨rfl, rfl⟩ fun _ owned => owned
  refine ⟨u, _, taken, bound, Same.trans same (t := u) rfl, rep', ?_⟩
  intro x free
  rw [← outside x fun bitmap => free (.inl bitmap)]
  apply setWord_outside
  by_contra entry
  exact free (.inr (by omega))

theorem mapPages_kernel (rep : Represents s g) (n : Nat) (marked : g.heapMapped + n ≤ g.heapUsed)
    (room : g.kernelUsed + n ≤ 8 * g.kernelLength) :
    ∃ t g', mapPages .kernelPool (heapAddr g.heapMapped) n s = .ok true t ∧ Same s t ∧
      Represents t g' ∧ Grown g n g' ∧ ∀ x, ¬ InKernelTables x → t.phys x = s.phys x := by
  induction n generalizing s g with
  | zero => exact ⟨s, g, rfl, rfl, rep, Grown.zero g, fun _ _ => rfl⟩
  | succ n ih =>
    have kernelFree := rep.core.valid.kernelFree
    have mappedFew := rep.core.valid.heapMapped
    have table := rep.core.valid.heap_table (i := g.heapMapped) (by omega)
    obtain ⟨u, v, taken, bound, same, after, outside⟩ := mapHeap_ok rep (by omega) (by omega)
    obtain ⟨t, g', done, same', after', grown, outside'⟩ := ih after
      (by change g.heapMapped + 1 + n ≤ g.heapUsed; omega)
      (by change g.kernelUsed + 1 + n ≤ 8 * g.kernelLength; omega)
    refine ⟨t, g', ?_, same.trans same', after', Grown.succ table grown, ?_⟩
    · have nonzero := frame_nonzero (0x200 + g.kernelUsed) (by omega)
        (by unfold Layout.kernelLength at room; omega)
      rw [mapPages, Program.bind_ok taken, if_neg nonzero, Program.bind_ok bound, heapAddr_succ]
      exact done
    · intro x free
      rw [outside' x free, outside x free]

/-- Without enough frames the loop stops at the search for one. -/
theorem mapPages_kernel_full (rep : Represents s g) (n : Nat) (marked : g.heapMapped + n ≤ g.heapUsed)
    (short : 8 * g.kernelLength < g.kernelUsed + n) :
    ∃ t, mapPages .kernelPool (heapAddr g.heapMapped) n s = .error (.panic .bitmapRequestBits) t ∧
      Same s t := by
  induction n generalizing s g with
  | zero =>
    have few := rep.core.valid.kernelUsed
    omega
  | succ n ih =>
    by_cases room : g.kernelUsed < 8 * g.kernelLength
    · obtain ⟨u, v, taken, bound, same, after, -⟩ := mapHeap_ok rep (by omega) room
      obtain ⟨t, done, same'⟩ := ih after
        (by change g.heapMapped + 1 + n ≤ g.heapUsed; omega)
        (by change 8 * g.kernelLength < g.kernelUsed + 1 + n; omega)
      refine ⟨t, ?_, same.trans same'⟩
      have kernelFree := rep.core.valid.kernelFree
      have nonzero := frame_nonzero (0x200 + g.kernelUsed) (by omega)
        (by unfold Layout.kernelLength at room; omega)
      rw [mapPages, Program.bind_ok taken, if_neg nonzero, Program.bind_ok bound, heapAddr_succ]
      exact done
    · refine ⟨s, ?_, rfl⟩
      have full : 8 * g.length .kernelPool ≤ g.used .kernelPool := Nat.not_lt.mp room
      rw [mapPages, Program.bind_error (paddrGetPage_full rep .kernelPool full)]

/-- Heap pages in frames behind one another, none of them a directory, can be written. -/
theorem Layout.Valid.heap_region (valid : g.Valid) {r first i : Nat} (root : g.Root r)
    (pages : ∀ j < n, g.use (first + j) = .heap (i + j) ∧ first + j ∉ g.dirs) :
    Region (fun m => Core m g) r (0xc0100000 + 4096 * i) (4096 * n) fun j => 4096 * first + j where
  mapped m j core inside := by
    obtain ⟨use, -⟩ := pages (j / 4096) (by omega)
    obtain ⟨mapped, slot⟩ := valid.heap _ _ use
    have translated := core.translate_heap root slot (o := j % 4096) (valid.mapped_inside mapped) (by omega)
    rw [show 0xc0100000 + 4096 * i + j = 0xc0100000 + 4096 * (i + j / 4096) + j % 4096 by omega, translated]
    congr 1
    omega
  kept m j byte core inside := by
    obtain ⟨use, notDir⟩ := pages (j / 4096) (by omega)
    apply core.update
    rw [show (4096 * first + j) / 4096 = first + j / 4096 by omega]
    exact valid.plain_heap use notDir
  apart j k _ _ same := by omega

theorem storeBytes_heap (rep : Represents s g) {first i : Nat} {a : U32} (bytes : List U8)
    (pages : ∀ j < n, g.use (first + j) = .heap (i + j) ∧ first + j ∉ g.dirs)
    {o : Nat} (address : a.toNat = 0xc0100000 + 4096 * i + o) (inside : o + bytes.length ≤ 4096 * n) :
    ∃ t, storeBytes a bytes s = .ok () t ∧ Same s t ∧ Represents t g ∧
      (∀ j (less : j < bytes.length), t.phys (4096 * first + o + j) = bytes[j]) ∧
      ∀ x, x < 4096 * first + o ∨ 4096 * first + o + bytes.length ≤ x → t.phys x = s.phys x := by
  by_cases empty : bytes = []
  · subst empty
    exact ⟨s, rfl, rfl, rep, fun j less => absurd less (Nat.not_lt_zero j), fun _ _ => rfl⟩
  have whole := rep.core.valid.heap_region rep.root pages
  have nonempty := List.length_pos_iff.mpr empty
  have last := (pages ((o + bytes.length - 1) / 4096) (by omega)).1
  have mapped := rep.core.valid.mapped_inside (rep.core.valid.heap _ _ last).1
  have kernelFree := rep.core.valid.kernelFree
  unfold Layout.kernelLength at mapped
  have region : Region (fun m => Core m g) s.root a.toNat bytes.length fun j => 4096 * first + o + j := by
    constructor
    · intro m j core less
      have part := whole.mapped m (o + j) core (by omega)
      rw [address, show 0xc0100000 + 4096 * i + o + j = 0xc0100000 + 4096 * i + (o + j) by omega, part,
        show 4096 * first + (o + j) = 4096 * first + o + j by omega]
    · intro m j byte core less
      have part := whole.kept m (o + j) byte core (by omega)
      rw [show 4096 * first + (o + j) = 4096 * first + o + j by omega] at part
      exact part
    · intro j k _ _ same
      omega
  obtain ⟨m, done, core, hit, miss⟩ := storeBytes_ok bytes region (by omega) (by omega) rep.core
  refine ⟨{ s with phys := m }, done, rfl, rep.write core rep.root ⟨rfl, rfl⟩ fun _ owned => owned, hit, ?_⟩
  intro x outside
  apply miss
  intro j less
  omega

theorem memset_heap (rep : Represents s g) {first i : Nat}
    (pages : ∀ j < n, g.use (first + j) = .heap (i + j) ∧ first + j ∉ g.dirs)
    (small : i ≤ 2 ^ 15) (count : Nat) (inside : count ≤ 4096 * n) :
    ∃ t, memset (heapAddr i) 0 count s = .ok () t ∧ Same s t ∧ Represents t g ∧
      (∀ x, 4096 * first ≤ x → x < 4096 * first + count → t.phys x = 0) ∧
      ∀ x, x < 4096 * first ∨ 4096 * first + count ≤ x → t.phys x = s.phys x := by
  obtain ⟨t, done, same, after, hit, miss⟩ := storeBytes_heap rep (List.replicate count (0 : U8)) pages
    (o := 0) (heapAddr_toNat small) (by simpa using inside)
  rw [List.length_replicate] at miss
  refine ⟨t, by rw [memset_eq]; exact done, same, after, ?_, miss⟩
  intro x above below
  have zero := hit (x - 4096 * first) (by rw [List.length_replicate]; omega)
  rw [show 4096 * first + 0 + (x - 4096 * first) = x by omega, List.getElem_replicate] at zero
  exact zero

/-! The pools' locks, which nobody holds between two calls. -/

def heldLock (running : U32) : Lock U32 := ⟨some running, ⟨0, []⟩, 1⟩

theorem lockAcquire_free {type : PoolType} (free : (s.pool type).lock = lockInit) :
    lockAcquire type s =
      .ok () (s.setLock type (heldLock s.runningThread)) := by
  have taken : LiziOS.lockAcquire (s.pool type).lock s.runningThread =
      .ok (heldLock s.runningThread, true) := by
    rw [free, LiziOS.lockAcquire, if_pos (by simp [lockInit]), lockDowm_free ⟨rfl, rfl, rfl⟩]
    rfl
  simp only [lockAcquire, taken]

theorem lockRelease_held' {type : PoolType} (held : (s.pool type).lock = heldLock s.runningThread) :
    lockRelease type s = .ok () (s.setLock type lockInit) := by
  have freed : LiziOS.lockRelease (s.pool type).lock s.runningThread = .ok (lockInit, none) := by
    rw [held, lockRelease_held ⟨rfl, rfl, rfl⟩]
    rfl
  simp only [lockRelease, freed]

theorem setLock_configured (s : Machine) (type : PoolType) (lock : Lock U32) :
    Configured s (s.setLock type lock) := by
  cases type
  · exact ⟨rfl, rfl, fun type => by cases type <;> rfl, fun type => by cases type <;> rfl, rfl⟩
  · exact ⟨rfl, rfl, fun type => by cases type <;> rfl, fun type => by cases type <;> rfl, rfl⟩

theorem Represents.setLock (rep : Represents s g) (type : PoolType) (lock : Lock U32) :
    Represents (s.setLock type lock) g := by
  cases type
  · exact rep.change (setLock_configured s .kernelPool lock) rep.core rep.root ⟨rfl, rfl⟩ rep.nodup rep.owned
  · exact rep.change (setLock_configured s .userPool lock) rep.core rep.root ⟨rfl, rfl⟩ rep.nodup rep.owned

/-- What a call sees and leaves that has a pool's lock around its body. -/
theorem lockRelease_same {type : PoolType} (free : (s.pool type).lock = lockInit)
    (same : Same (s.setLock type (heldLock s.runningThread)) t)
    (rep : Represents t g) :
    ∃ u, lockRelease type t = .ok () u ∧ Same s u ∧ Represents u g ∧ u.phys = t.phys := by
  have held : (t.pool type).lock = heldLock t.runningThread := by
    unfold Same at same
    rw [same]
    cases type <;> rfl
  refine ⟨_, lockRelease_held' held, ?_, rep.setLock type lockInit, by cases type <;> rfl⟩
  unfold Same at same ⊢
  rw [same]
  cases type with
  | kernelPool =>
    have lock : { s.kernelPool with lock := lockInit } = s.kernelPool := by
      rw [← free]
      rfl
    simp only [Machine.setLock, Machine.setPool, Machine.pool, lock]
  | userPool =>
    have lock : { s.userPool with lock := lockInit } = s.userPool := by
      rw [← free]
      rfl
    simp only [Machine.setLock, Machine.setPool, Machine.pool, lock]

/-- The lists and the trace of stores through `NULL`. -/
structure Quiet (s t : Machine) : Prop where
  readyList : t.threadReadyList = s.threadReadyList
  allList : t.threadAllList = s.threadAllList
  nullStored : t.nullStored = s.nullStored

theorem Same.quiet (same : Same s t) : Quiet s t := by
  unfold Same at same
  rw [same]
  exact ⟨rfl, rfl, rfl⟩

theorem Quiet.refl (s : Machine) : Quiet s s := ⟨rfl, rfl, rfl⟩

theorem Quiet.trans {u : Machine} (first : Quiet s t) (second : Quiet t u) : Quiet s u :=
  ⟨second.readyList.trans first.readyList, second.allList.trans first.allList,
      second.nullStored.trans first.nullStored⟩

theorem setLock_quiet (s : Machine) (type : PoolType) (lock : Lock U32) : Quiet s (s.setLock type lock) := by
  cases type <;> exact ⟨rfl, rfl, rfl⟩

/-- Between two calls: every page that the heap's bitmap has given away is mapped, and nobody holds
    a lock. -/
structure Settled (s : Machine) (g : Layout) : Prop where
  rep : Represents s g
  mapped : g.heapMapped = g.heapUsed
  lock : ∀ type, (s.pool type).lock = lockInit

/-- The frames and pages that a successful request of `n` pages gets. -/
structure Allocated (g : Layout) (n : Nat) (g' : Layout) : Prop where
  grown : Grown (g.takeHeap n) n g'
  pages : ∀ j < n, g'.use (0x200 + g.kernelUsed + j) = .heap (g.heapMapped + j) ∧
    0x200 + g.kernelUsed + j ∉ g'.dirs

theorem Grown.allocated (valid : g.Valid) (grown : Grown (g.takeHeap n) n g') : Allocated g n g' := by
  refine ⟨grown, fun j less => ⟨grown.new j less, fun member => ?_⟩⟩
  rw [grown.dirs] at member
  obtain ⟨i, use⟩ := valid.dir _ member
  have inside := (valid.heapFrame _ i use).2
  omega

theorem mallocPages_kernel (rep : Represents s g) (mapped : g.heapMapped = g.heapUsed)
    (positive : 0 < n) (few : n < 3840) (room : g.kernelUsed + n ≤ 8 * g.kernelLength) :
    ∃ t g', mallocPages .kernelPool (BitVec.ofNat 32 n) s = .ok (heapAddr g.heapUsed) t ∧ Same s t ∧
      Represents t g' ∧ Allocated g n g' ∧
      (∀ x, 4096 * (0x200 + g.kernelUsed) ≤ x → x < 4096 * (0x200 + g.kernelUsed + n) → t.phys x = 0) ∧
      ∀ x, ¬ InKernelTables x → (x < 4096 * (0x200 + g.kernelUsed) ∨
        4096 * (0x200 + g.kernelUsed + n) ≤ x) → t.phys x = s.phys x := by
  have mappedFew := rep.core.valid.heapMapped
  have kernelFree := rep.core.valid.kernelFree
  have short : 8 * g.kernelLength < 2 ^ 15 := by
    unfold Layout.kernelLength
    omega
  obtain ⟨t₁, got, same₁, rep₁, outside₁⟩ := vaddrGetPages_ok rep positive (by omega) (by omega)
    (.inl (by omega))
  obtain ⟨t₂, g', looped, same₂, rep₂, grown, outside₂⟩ := mapPages_kernel rep₁ n
    (by change g.heapMapped + n ≤ g.heapUsed + n; omega) room
  have allocated := grown.allocated rep.core.valid
  change mapPages .kernelPool (heapAddr g.heapMapped) n t₁ = .ok true t₂ at looped
  obtain ⟨t₃, cleared, same₃, rep₃, zero, outside₃⟩ := memset_heap rep₂ allocated.pages (by omega)
    (4096 * n) (le_refl _)
  refine ⟨t₃, g', ?_, (same₁.trans same₂).trans same₃, rep₃, allocated, ?_, ?_⟩
  · have count : (BitVec.ofNat 32 n).toNat = n := by
      rw [BitVec.toNat_ofNat, Nat.mod_eq_of_lt (by omega)]
    have bytes : (BitVec.ofNat 32 n * pgSize).toNat = 4096 * n := by
      rw [BitVec.toNat_mul, count, show pgSize.toNat = 4096 from rfl]
      omega
    have argument : decide (0 < BitVec.ofNat 32 n ∧ BitVec.ofNat 32 n < 3840) = true := by
      rw [decide_eq_true_iff, BitVec.lt_def, BitVec.lt_def, count]
      exact ⟨positive, few⟩
    have nonzero : heapAddr g.heapUsed ≠ 0 := by
      intro zero
      have value := heapAddr_toNat (i := g.heapUsed) (by omega)
      rw [zero, show (0 : U32).toNat = 0 from rfl] at value
      omega
    rw [← mapped] at got nonzero ⊢
    unfold mallocPages
    rw [argument, Program.bind_ok (assert_true _ s), Program.bind_ok got, if_neg nonzero, count,
      Program.bind_ok looped, if_pos rfl, bytes, Program.bind_ok cleared]
    rfl
  · intro x above below
    exact zero x above (by omega)
  · intro x free apart
    rw [outside₃ x (by omega), outside₂ x free, outside₁ x fun bitmap => free (.inl bitmap)]

/-- `malloc_kernel_pages` has returned the page. -/
def Granted (s : Machine) (v : U32) (t : Machine) : Prop :=
  t = { s with phys := t.phys, handed := t.handed, granted := s.granted ++ [v] }

theorem mallocKernelPages_ok (settled : Settled s g) (positive : 0 < n) (few : n < 3840)
    (room : g.kernelUsed + n ≤ 8 * g.kernelLength) :
    ∃ t g', mallocKernelPages (BitVec.ofNat 32 n) s = .ok (heapAddr g.heapUsed) t ∧
      Granted s (heapAddr g.heapUsed) t ∧ Settled t g' ∧ Allocated g n g' ∧
      (∀ x, 4096 * (0x200 + g.kernelUsed) ≤ x → x < 4096 * (0x200 + g.kernelUsed + n) → t.phys x = 0) ∧
      ∀ x, ¬ InKernelTables x → (x < 4096 * (0x200 + g.kernelUsed) ∨
        4096 * (0x200 + g.kernelUsed + n) ≤ x) → t.phys x = s.phys x := by
  have free := settled.lock .kernelPool
  have locked := settled.rep.setLock .kernelPool (heldLock s.runningThread)
  obtain ⟨t₁, g', called, same, rep, allocated, zero, outside⟩ :=
    mallocPages_kernel locked settled.mapped positive few room
  obtain ⟨t₂, released, same', rep', phys⟩ := lockRelease_same free same rep
  have config : Configured t₂ { t₂ with granted := t₂.granted ++ [heapAddr g.heapUsed] } :=
    ⟨rfl, rfl, fun type => by cases type <;> rfl, fun type => by cases type <;> rfl, rfl⟩
  refine ⟨{ t₂ with granted := t₂.granted ++ [heapAddr g.heapUsed] }, g', ?_, ?_, ⟨?_, ?_, ?_⟩,
    allocated, ?_, ?_⟩
  · unfold mallocKernelPages
    rw [Program.bind_ok (lockAcquire_free free), Program.bind_ok called, Program.bind_ok released,
      Program.bind_modify]
    rfl
  · unfold Same at same'
    rw [same']
    rfl
  · exact rep'.change config rep'.core rep'.root ⟨rfl, rfl⟩ rep'.nodup rep'.owned
  · have mapped := settled.mapped
    rw [allocated.grown.heapMapped, allocated.grown.heapUsed]
    change g.heapMapped + n = g.heapUsed + n
    omega
  · intro type
    unfold Same at same'
    rw [same']
    cases type
    · exact settled.lock .kernelPool
    · exact settled.lock .userPool
  · intro x above below
    change t₂.phys x = 0
    rw [phys]
    exact zero x above below
  · intro x free apart
    change t₂.phys x = s.phys x
    rw [phys, outside x free apart]
    rfl

/-- Nothing but the record tells that a request was turned down. -/
theorem mallocKernelPages_null (settled : Settled s g) (positive : 0 < n) (few : n < 3840)
    (room : g.heapUsed < 8 * g.kernelLength) (unfit : ¬ g.Fits n) :
    mallocKernelPages (BitVec.ofNat 32 n) s = .ok 0 { s with granted := s.granted ++ [0] } := by
  have free := settled.lock .kernelPool
  have locked := settled.rep.setLock .kernelPool (heldLock s.runningThread)
  have count : (BitVec.ofNat 32 n).toNat = n := by
    rw [BitVec.toNat_ofNat, Nat.mod_eq_of_lt (by omega)]
  have argument : decide (0 < BitVec.ofNat 32 n ∧ BitVec.ofNat 32 n < 3840) = true := by
    rw [decide_eq_true_iff, BitVec.lt_def, BitVec.lt_def, count]
    exact ⟨positive, few⟩
  have got := vaddrGetPages_null locked positive (by omega) room unfit
  have called : mallocPages .kernelPool (BitVec.ofNat 32 n)
      (s.setLock .kernelPool (heldLock s.runningThread)) =
        .ok 0 (s.setLock .kernelPool (heldLock s.runningThread)) := by
    unfold mallocPages
    rw [argument, Program.bind_ok (assert_true _ _), Program.bind_ok got, if_pos rfl]
    rfl
  have held : ((s.setLock .kernelPool (heldLock s.runningThread)).pool .kernelPool).lock =
      heldLock s.runningThread := rfl
  have back : (s.setLock .kernelPool (heldLock s.runningThread)).setLock .kernelPool lockInit = s := by
    have lock : { s.kernelPool with lock := lockInit } = s.kernelPool := by
      rw [← free]
      rfl
    simp only [Machine.setLock, Machine.setPool, Machine.pool, lock]
  unfold mallocKernelPages
  rw [Program.bind_ok (lockAcquire_free free), Program.bind_ok called,
    Program.bind_ok (lockRelease_held' held), back, Program.bind_modify]
  rfl

/-- The call does not return, and has neither changed the lists nor stored anything through `NULL`. -/
def Stops {α : Type} (call : M α) (s : Machine) : Prop := ∃ fault t, call s = .error fault t ∧ Quiet s t

theorem Stops.first {α β : Type} {call : M α} {f : α → M β} (stops : Stops call s) :
    Stops (call >>= f) s := by
  obtain ⟨fault, t, failed, quiet⟩ := stops
  exact ⟨fault, t, Program.bind_error failed, quiet⟩

theorem Stops.second {α β : Type} {call : M α} {f : α → M β} {a : α} (done : call s = .ok a t)
    (quiet : Quiet s t) (stops : Stops (f a) t) : Stops (call >>= f) s := by
  obtain ⟨fault, u, failed, quiet'⟩ := stops
  exact ⟨fault, u, by rw [Program.bind_ok done]; exact failed, quiet.trans quiet'⟩

theorem mallocKernelPages_bad_count (settled : Settled s g) {count : U32}
    (bad : ¬ (0 < count.toNat ∧ count.toNat < 3840)) : Stops (mallocKernelPages count) s := by
  have free := settled.lock .kernelPool
  have argument : decide (0 < count ∧ count < 3840) = false := by
    rw [decide_eq_false_iff_not, BitVec.lt_def, BitVec.lt_def]
    exact bad
  refine ⟨.panic .mallocPages, _, ?_, setLock_quiet s .kernelPool (heldLock s.runningThread)⟩
  unfold mallocKernelPages mallocPages
  rw [Program.bind_ok (lockAcquire_free free), argument]
  exact Program.bind_error (Program.bind_error (assert_false _ settled.rep.checked))

theorem mallocKernelPages_short (settled : Settled s g) (positive : 0 < n) (few : n < 3840)
    (short : 8 * g.kernelLength ≤ g.heapUsed ∨
      (g.Fits n ∧ 8 * g.kernelLength < g.kernelUsed + n)) :
    Stops (mallocKernelPages (BitVec.ofNat 32 n)) s := by
  have free := settled.lock .kernelPool
  have locked := settled.rep.setLock .kernelPool (heldLock s.runningThread)
  have quiet := setLock_quiet s .kernelPool (heldLock s.runningThread)
  have count : (BitVec.ofNat 32 n).toNat = n := by
    rw [BitVec.toNat_ofNat, Nat.mod_eq_of_lt (by omega)]
  have argument : decide (0 < BitVec.ofNat 32 n ∧ BitVec.ofNat 32 n < 3840) = true := by
    rw [decide_eq_true_iff, BitVec.lt_def, BitVec.lt_def, count]
    exact ⟨positive, few⟩
  by_cases full : 8 * g.kernelLength ≤ g.heapUsed
  · refine ⟨.panic .bitmapRequestBits, _, ?_, quiet⟩
    unfold mallocKernelPages mallocPages
    rw [Program.bind_ok (lockAcquire_free free), argument]
    apply Program.bind_error
    rw [Program.bind_ok (assert_true _ _)]
    exact Program.bind_error (vaddrGetPages_full locked full _)
  · obtain ⟨fit, frames⟩ := short.resolve_left full
    have mapped := settled.mapped
    obtain ⟨t₁, got, same₁, rep₁, -⟩ := vaddrGetPages_ok locked positive (by omega) (by omega) fit
    obtain ⟨t₂, stopped, same₂⟩ := mapPages_kernel_full rep₁ n
      (by change g.heapMapped + n ≤ g.heapUsed + n; omega) frames
    change mapPages .kernelPool (heapAddr g.heapMapped) n t₁ = _ at stopped
    rw [mapped] at stopped
    have kernelFree := settled.rep.core.valid.kernelFree
    unfold Layout.kernelLength at full
    have nonzero : heapAddr g.heapUsed ≠ 0 := by
      intro zero
      have value := heapAddr_toNat (i := g.heapUsed) (by omega)
      rw [zero, show (0 : U32).toNat = 0 from rfl] at value
      omega
    refine ⟨.panic .bitmapRequestBits, t₂, ?_, quiet.trans (same₁.trans same₂).quiet⟩
    unfold mallocKernelPages mallocPages
    rw [Program.bind_ok (lockAcquire_free free), argument]
    apply Program.bind_error
    rw [Program.bind_ok (assert_true _ _), Program.bind_ok got, if_neg nonzero, count]
    exact Program.bind_error stopped

end LiziOS.Memory
