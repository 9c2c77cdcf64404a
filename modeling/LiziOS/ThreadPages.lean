import LiziOS.UserSpace

namespace LiziOS.Memory

open ByteMemory Paging

/-! The pages of the kernel heap that belong to threads, and the calls of a process for user
pages. -/

/-- What a page of the kernel heap was asked for. -/
inductive Role where
  | other | pcb | bits | dir
  deriving DecidableEq

/-- A word of the PCB in the frame. -/
def field (m : ByteMemory.Memory) (frame : Nat) (offset : U32) : U32 := word m (4096 * frame + offset.toNat)

/-- The page lies in the frame: the page of the main thread below 1 MiB, or a page of the kernel heap
    that is no directory. -/
def PageAt (g : Layout) (page : U32) (frame : Nat) : Prop :=
  (page = 0xc009e000 ∧ frame = 0x9e) ∨ ∃ i, page = heapAddr i ∧ g.use frame = .heap i ∧ frame ∉ g.dirs

/-- The PCB page of the thread lies in the frame. -/
structure PcbAt (g : Layout) (role : Nat → Role) (thread : U32) (frame : Nat) : Prop where
  page : PageAt g thread frame
  role : ∀ i, g.use frame = .heap i → role i = .pcb

structure KernelThread (m : ByteMemory.Memory) (frame : Nat) : Prop where
  pgdir : field m frame Pcb.pgdir = 0
  bitmapLength : field m frame Pcb.bitmapLength = 0

/-- The frames of a process: its directory, and the first of the 23 pages of its bitmap. -/
structure Process (m : ByteMemory.Memory) (g : Layout) (role : Nat → Role) (frame dir bits : Nat) : Prop where
  pgdir : ∃ i, field m frame Pcb.pgdir = heapAddr i ∧ g.use dir = .heap i ∧ dir ∈ g.dirs
  bitmapLength : field m frame Pcb.bitmapLength = 94199
  addrStart : field m frame Pcb.addrStart = userVaddrStart
  bitmapBits : ∃ b, field m frame Pcb.bitmapBits = heapAddr b ∧
    ∀ j < 23, g.use (bits + j) = .heap (b + j) ∧ role (b + j) = .bits ∧ bits + j ∉ g.dirs

variable {s t : Machine} {g g' : Layout} {m m' : ByteMemory.Memory} {role : Nat → Role}
  {thread : U32} {frame dir bits n : Nat}

theorem Layout.Valid.heap_small (valid : g.Valid) {i : Nat} (use : g.use frame = .heap i) :
    i < 8 * g.kernelLength ∧ 8 * g.kernelLength < 2 ^ 15 := by
  have kernelFree := valid.kernelFree
  refine ⟨valid.mapped_inside (valid.heap _ _ use).1, ?_⟩
  unfold Layout.kernelLength
  omega

theorem PageAt.data (page : PageAt g thread frame) : g.Data frame := by
  rcases page with ⟨-, rfl⟩ | ⟨i, -, use, notDir⟩
  · exact .inl ⟨by omega, by omega⟩
  · exact .inr ⟨i, use, notDir⟩

theorem PageAt.plain (page : PageAt g thread frame) (valid : g.Valid) : g.Plain frame := by
  rcases page with ⟨-, rfl⟩ | ⟨i, -, use, notDir⟩
  · exact valid.plain_low (by omega) (by omega)
  · exact valid.plain_heap use notDir

theorem PageAt.aligned (page : PageAt g thread frame) (valid : g.Valid) :
    thread.toNat % 4096 = 0 ∧ thread.toNat + 4096 < 0xd0000000 ∧ 0xc0000000 ≤ thread.toNat := by
  rcases page with ⟨rfl, -⟩ | ⟨i, rfl, use, -⟩
  · decide
  · obtain ⟨inside, small⟩ := valid.heap_small use
    rw [heapAddr_toNat (by omega)]
    omega

theorem PageAt.translate (page : PageAt g thread frame) (core : Core m g) {r o : Nat} (root : g.Root r)
    (inside : o < 4096) : Paging.translate m r (thread.toNat + o) = some (4096 * frame + o) := by
  rcases page with ⟨rfl, rfl⟩ | ⟨i, rfl, use, -⟩
  · have low := core.translate_low root (x := 0x9e000 + o) (by omega)
    rw [show (0xc009e000 : U32).toNat + o = 0xc0000000 + (0x9e000 + o) from by
      rw [show (0xc009e000 : U32).toNat = 0xc009e000 from rfl]; omega]
    exact low
  · obtain ⟨small, short⟩ := core.valid.heap_small use
    rw [heapAddr_toNat (by omega)]
    exact core.translate_heap root (core.valid.heap _ _ use).2 small inside

theorem PageAt.address (page : PageAt g thread frame) (valid : g.Valid) {offset : U32}
    (inside : offset.toNat < 4096) : (thread + offset).toNat = thread.toNat + offset.toNat := by
  have bound := (page.aligned valid).2.1
  rw [BitVec.toNat_add, Nat.mod_eq_of_lt (by omega)]

theorem PageAt.translated (page : PageAt g thread frame) (rep : Represents s g) {offset : U32}
    (inside : offset.toNat < 4096) :
    s.translate (thread + offset) = some (4096 * frame + offset.toNat) := by
  unfold Machine.translate
  rw [page.address rep.core.valid inside]
  exact page.translate rep.core rep.root inside

theorem PageAt.load (page : PageAt g thread frame) (rep : Represents s g) {o : U32}
    (inside : o.toNat < 4096) (aligned : o.toNat % 4 = 0) :
    load32 (thread + o) s = .ok (field s.phys frame o) s := by
  have start := (page.aligned rep.core.valid).1
  apply load32_ok _ (page.translated rep inside)
  rw [page.address rep.core.valid inside]
  omega

theorem PageAt.store (page : PageAt g thread frame) (rep : Represents s g) {offset : U32} (w : U32)
    (inside : offset.toNat < 4096) (aligned : offset.toNat % 4 = 0) :
    ∃ t, store32 (thread + offset) w s = .ok () t ∧ Same s t ∧ Represents t g ∧
      t.phys = setWord s.phys (4096 * frame + offset.toNat) w := by
  obtain ⟨start, -, high⟩ := page.aligned rep.core.valid
  have address := page.address rep.core.valid inside
  have core := rep.core.setWord (p := 4096 * frame + offset.toNat) (w := w)
    (by rw [show (4096 * frame + offset.toNat) / 4096 = frame by omega]; exact page.plain rep.core.valid)
    (by omega)
  refine ⟨{ s with phys := setWord s.phys (4096 * frame + offset.toNat) w }, ?_, rfl,
    rep.write core rep.root ⟨rfl, rfl⟩ fun _ owned => owned, rfl⟩
  rw [store32_ok w (by rw [address]; omega) (page.translated rep inside), Machine.write_high s _ (by omega)]

/-! What stays as it is while the heap and the user halves grow. -/

/-- Pages in use stay where they are, and keep the roles they have. -/
structure Extends (g g' : Layout) (role role' : Nat → Role) : Prop where
  heap : ∀ frame i, g.use frame = .heap i → g'.use frame = .heap i
  dirs : ∀ d ∈ g.dirs, d ∈ g'.dirs
  fresh : ∀ frame i, g.use frame = .heap i → frame ∈ g'.dirs → frame ∈ g.dirs
  mapped : g.heapMapped ≤ g'.heapMapped
  role : ∀ i < g.heapMapped, role' i = role i

theorem Extends.trans {g'' : Layout} {role' role'' : Nat → Role} (first : Extends g g' role role')
    (second : Extends g' g'' role' role'') : Extends g g'' role role'' where
  heap frame i use := second.heap frame i (first.heap frame i use)
  dirs d member := second.dirs d (first.dirs d member)
  fresh frame i use member := first.fresh frame i use (second.fresh frame i (first.heap frame i use) member)
  mapped := first.mapped.trans second.mapped
  role i less := (second.role i (less.trans_le first.mapped)).trans (first.role i less)

theorem UserGrown.extends {low : Nat} (grown : UserGrown low g g') (role : Nat → Role) :
    Extends g g' role role where
  heap frame i use := by rw [grown.keeps frame (by simp [use])]; exact use
  dirs d member := by rw [grown.dirs]; exact member
  fresh frame i use member := by rw [grown.dirs] at member; exact member
  mapped := Nat.le_of_eq grown.heapMapped.symm
  role _ _ := rfl

theorem Allocated.extends (allocated : Allocated g n g') (valid : g.Valid) {role' : Nat → Role}
    (roles : ∀ i < g.heapMapped, role' i = role i) : Extends g g' role role' where
  heap frame i use := by
    rw [allocated.grown.old frame (.inl (valid.heapFrame frame i use).2)]
    exact use
  dirs d member := by rw [allocated.grown.dirs]; exact member
  fresh frame i use member := by rw [allocated.grown.dirs] at member; exact member
  mapped := by rw [allocated.grown.heapMapped]; exact Nat.le_add_right _ _
  role := roles

theorem PageAt.keep {role' : Nat → Role} (page : PageAt g thread frame)
    (extended : Extends g g' role role') : PageAt g' thread frame := by
  rcases page with main | ⟨i, eq, use, notDir⟩
  · exact .inl main
  · exact .inr ⟨i, eq, extended.heap frame i use, fun member => notDir (extended.fresh frame i use member)⟩

theorem PcbAt.keep {role' : Nat → Role} (pcb : PcbAt g role thread frame) (valid : g.Valid)
    (valid' : g'.Valid) (extended : Extends g g' role role') : PcbAt g' role' thread frame := by
  refine ⟨pcb.page.keep extended, fun i use => ?_⟩
  rcases pcb.page with ⟨-, rfl⟩ | ⟨j, -, old, -⟩
  · have above := (valid'.heapFrame _ i use).1
    omega
  · have same := extended.heap frame j old
    rw [use] at same
    cases same
    rw [extended.role i (valid.heap frame i old).1]
    exact pcb.role i old

theorem Process.keep {role' : Nat → Role} (process : Process m g role frame dir bits) (valid : g.Valid)
    (extended : Extends g g' role role') : Process m g' role' frame dir bits where
  pgdir := by
    obtain ⟨i, eq, use, member⟩ := process.pgdir
    exact ⟨i, eq, extended.heap dir i use, extended.dirs dir member⟩
  bitmapLength := process.bitmapLength
  addrStart := process.addrStart
  bitmapBits := by
    obtain ⟨b, eq, pages⟩ := process.bitmapBits
    refine ⟨b, eq, fun j less => ?_⟩
    obtain ⟨use, isBits, notDir⟩ := pages j less
    refine ⟨extended.heap _ _ use, ?_, fun member => notDir (extended.fresh _ _ use member)⟩
    rw [extended.role _ (valid.heap _ _ use).1]
    exact isBits

/-! The bitmap of a process. -/

theorem Represents.page_reads (rep : Represents s g) (length : Nat) {b : Nat}
    (pages : ∀ j < n, g.use (bits + j) = .heap (b + j)) (inside : length < 4096 * n) :
    Reads (fun i => peek s (heapAddr b + i)) length (bit s.phys (4096 * bits)) := by
  intro i below
  have use := pages (i / 4096) (by omega)
  obtain ⟨small, short⟩ := rep.core.valid.heap_small use
  have address : (heapAddr b + BitVec.ofNat 32 i).toNat = 0xc0100000 + 4096 * b + i := by
    rw [BitVec.toNat_add, heapAddr_toNat (by omega), BitVec.toNat_ofNat]
    omega
  refine ⟨s.phys (4096 * bits + i), ?_, ?_⟩
  · have mapped := rep.core.translate_heap rep.root (rep.core.valid.heap _ _ use).2 small
      (o := i % 4096) (by omega)
    simp only [peek, Machine.translate, address]
    rw [show 0xc0100000 + 4096 * b + i = 0xc0100000 + 4096 * (b + i / 4096) + i % 4096 by omega, mapped]
    simp only [Except.ok.injEq]
    congr 1
    omega
  · intro j less
    unfold bit
    rw [show (8 * i + j) / 8 = i by omega, show (8 * i + j) % 8 = j by omega]

/-- Setting a bit of a bitmap that starts at the heap page `b`, in the page that it is in. -/
theorem Represents.page_set (rep : Represents s g) {b i f : Nat} (length : U32)
    (use : g.use f = .heap (b + i / 8 / 4096)) (notDir : f ∉ g.dirs) (small : i < 2 ^ 32) :
    ∃ t, bitmapSetBit ⟨length, heapAddr b⟩ (BitVec.ofNat 32 i) 1 s = .ok () t ∧ Same s t ∧ Represents t g ∧
      t.phys = Function.update s.phys (4096 * f + i / 8 % 4096)
        (s.phys (4096 * f + i / 8 % 4096) ||| (1 : U8) <<< (i % 8)) := by
  obtain ⟨mappedSmall, short⟩ := rep.core.valid.heap_small use
  have value : (BitVec.ofNat 32 i).toNat = i := by
    rw [BitVec.toNat_ofNat, Nat.mod_eq_of_lt small]
  have address : (heapAddr b + BitVec.ofNat 32 i / 8).toNat = 0xc0100000 + 4096 * b + i / 8 := by
    rw [BitVec.toNat_add, BitVec.toNat_udiv, value, heapAddr_toNat (by omega),
      show (8 : U32).toNat = 8 from rfl]
    omega
  have mapped : s.translate (heapAddr b + BitVec.ofNat 32 i / 8) = some (4096 * f + i / 8 % 4096) := by
    unfold Machine.translate
    rw [address, show 0xc0100000 + 4096 * b + i / 8 =
      0xc0100000 + 4096 * (b + i / 8 / 4096) + i / 8 % 4096 by omega]
    exact rep.core.translate_heap rep.root (rep.core.valid.heap _ _ use).2 mappedSmall (by omega)
  have set := bitmapSetBit_ok length _ _ mapped (by omega)
  rw [value] at set
  have plain : g.Plain ((4096 * f + i / 8 % 4096) / 4096) := by
    rw [show (4096 * f + i / 8 % 4096) / 4096 = f by omega]
    exact rep.core.valid.plain_heap use notDir
  exact ⟨_, set, rfl, rep.write (rep.core.update plain _) rep.root ⟨rfl, rfl⟩ fun _ owned => owned, rfl⟩

/-- The memory is as before but for the pages of the bitmap. -/
def SameBut (bits : Nat) (m m' : ByteMemory.Memory) : Prop :=
  ∀ x, ¬ (bits ≤ x / 4096 ∧ x / 4096 < bits + 23) → m' x = m x

theorem field_same {offset : U32} (inside : offset.toNat + 4 ≤ 4096)
    (same : ∀ x, x / 4096 = frame → m' x = m x) : field m' frame offset = field m frame offset := by
  apply word_congr
  intro x above below
  exact same x (by omega)

/-- A PCB is none of the pages of a bitmap. -/
theorem Process.pcb_apart (process : Process m g role frame dir bits) {frame' : Nat}
    (pcb : PcbAt g role thread frame') : ¬ (bits ≤ frame' ∧ frame' < bits + 23) := by
  obtain ⟨b, -, pages⟩ := process.bitmapBits
  rintro ⟨low, high⟩
  obtain ⟨use, isBits, -⟩ := pages (frame' - bits) (by omega)
  rw [show bits + (frame' - bits) = frame' by omega] at use
  have isPcb := pcb.role _ use
  rw [isBits] at isPcb
  contradiction

theorem Process.same (process : Process m g role frame dir bits)
    (same : ∀ x, x / 4096 = frame → m' x = m x) : Process m' g role frame dir bits where
  pgdir := by
    rw [field_same (by decide) same]
    exact process.pgdir
  bitmapLength := by
    rw [field_same (by decide) same]
    exact process.bitmapLength
  addrStart := by
    rw [field_same (by decide) same]
    exact process.addrStart
  bitmapBits := by
    rw [field_same (by decide) same]
    exact process.bitmapBits

theorem KernelThread.same (kernel : KernelThread m frame)
    (same : ∀ x, x / 4096 = frame → m' x = m x) : KernelThread m' frame where
  pgdir := by
    rw [field_same (by decide) same]
    exact kernel.pgdir
  bitmapLength := by
    rw [field_same (by decide) same]
    exact kernel.bitmapLength

/-- What the PCB of a thread says of it. -/
def Known (m : ByteMemory.Memory) (g : Layout) (role : Nat → Role) (thread : U32) : Prop :=
  ∃ frame, PcbAt g role thread frame ∧
    (KernelThread m frame ∨ ∃ dir bits, Process m g role frame dir bits)

theorem Known.keep {role' : Nat → Role} (known : Known m g role thread) (valid : g.Valid)
    (valid' : g'.Valid) (extended : Extends g g' role role')
    (same : ∀ frame, PcbAt g role thread frame → ∀ x, x / 4096 = frame → m' x = m x) :
    Known m' g' role' thread := by
  obtain ⟨frame, pcb, kernel | ⟨dir, bits, process⟩⟩ := known
  · exact ⟨frame, pcb.keep valid valid' extended, .inl (kernel.same (same frame pcb))⟩
  · exact ⟨frame, pcb.keep valid valid' extended, .inr ⟨dir, bits,
      (process.same (same frame pcb)).keep valid extended⟩⟩

theorem userBitmap_ok (rep : Represents s g) (page : PageAt g thread frame) :
    userBitmap thread s =
      .ok ⟨field s.phys frame Pcb.bitmapLength, field s.phys frame Pcb.bitmapBits⟩ s := by
  unfold userBitmap
  rw [Program.bind_ok (page.load rep (by decide) (by decide)),
    Program.bind_ok (page.load rep (by decide) (by decide))]
  rfl

theorem markBits_user (rep : Represents s g) (pcb : PcbAt g role thread frame)
    (process : Process s.phys g role frame dir bits) (i n : Nat) (inside : i + n ≤ 8 * (4096 * 23)) :
    ∃ t, markBits (fun i => do bitmapSetBit (← userBitmap thread) i 1) (BitVec.ofNat 32 i)
        (BitVec.ofNat 32 (i + n)) s = .ok () t ∧ Same s t ∧ Represents t g ∧
      Process t.phys g role frame dir bits ∧ SameBut bits s.phys t.phys := by
  induction n generalizing s i with
  | zero =>
    refine ⟨s, ?_, rfl, rep, process, fun _ _ => rfl⟩
    rw [markBits, dif_neg (by rw [BitVec.lt_def, Nat.add_zero]; omega)]
    rfl
  | succ n ih =>
    obtain ⟨b, bitsEq, pages⟩ := process.bitmapBits
    obtain ⟨use, -, notDir⟩ := pages (i / 8 / 4096) (by omega)
    obtain ⟨u, set, same, after, phys⟩ := rep.page_set (i := i) (field s.phys frame Pcb.bitmapLength)
      use notDir (by omega)
    have changed : SameBut bits s.phys u.phys := by
      intro x outside
      rw [phys]
      apply Function.update_of_ne
      rintro rfl
      exact outside ⟨by omega, by omega⟩
    have apart := process.pcb_apart pcb
    have process' := process.same fun x eq => changed x (by rw [eq]; exact apart)
    obtain ⟨t, done, same', after', process'', changed'⟩ := ih after process' (i + 1) (by omega)
    refine ⟨t, ?_, same.trans same', after', process'', ?_⟩
    · have less : BitVec.ofNat 32 i < BitVec.ofNat 32 (i + (n + 1)) := by
        rw [BitVec.lt_def, BitVec.toNat_ofNat, BitVec.toNat_ofNat]
        omega
      have step : BitVec.ofNat 32 i + 1 = BitVec.ofNat 32 (i + 1) := by
        rw [BitVec.ofNat_add]
        rfl
      have turn : (do bitmapSetBit (← userBitmap thread) (BitVec.ofNat 32 i) 1 : M Unit) s = .ok () u := by
        rw [Program.bind_ok (userBitmap_ok rep pcb.page), bitsEq]
        exact set
      rw [markBits, dif_pos less, Program.bind_ok turn, step,
        show i + (n + 1) = i + 1 + n by omega]
      exact done
    · intro x outside
      rw [changed' x outside, changed x outside]

end LiziOS.Memory
