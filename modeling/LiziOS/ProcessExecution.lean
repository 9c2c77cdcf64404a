import LiziOS.BootMemory
import LiziOS.Effects

namespace LiziOS.Memory

open ByteMemory Paging

/-! What `thread_start` and `process_execute` leave when every request for pages succeeds. -/

variable {s t u : Machine} {g g' : Layout} {count v thread : U32} {frame n : Nat}

/-! Nothing is taken from the record of `malloc_kernel_pages`. -/

abbrev Recording {α : Type} (c : M α) : Prop := Within (fun s t => s.granted <+: t.granted) c

theorem growing : Tolerant fun s t => s.granted <+: t.granted :=
  ⟨fun _ => List.prefix_refl _, fun _ _ _ => List.IsPrefix.trans, fun _ _ _ => List.prefix_refl _,
    fun _ _ => List.prefix_refl _⟩

theorem setLock_granted (s : Machine) (type : PoolType) (lock : Lock U32) :
    (s.setLock type lock).granted = s.granted := by
  cases type <;> rfl

theorem recording_enlist (thread : U32) (site : LiziOS.Site) : Recording (enlist thread site) := by
  refine within_get fun _ => (within_assert growing _ _).bind growing fun _ =>
      (within_modify ?_).bind growing fun _ =>
    within_get fun _ => (within_assert growing _ _).bind growing fun _ => within_modify ?_
  · exact fun s => List.prefix_refl _
  · exact fun s => List.prefix_refl _

theorem recording_lockAcquire (type : PoolType) : Recording (lockAcquire type) := by
  intro s a t done
  unfold lockAcquire at done
  split at done
  · contradiction
  · cases done
    exact ⟨[], by rw [List.append_nil, setLock_granted]⟩
  · contradiction

theorem recording_threadUnblock (pthread : U32) : Recording (threadUnblock pthread) := by
  refine (within_load32 growing _).bind growing fun _ =>
      (within_assert growing _ _).bind growing fun _ => within_get fun _ => ?_
  split
  · intro _ _ _ done
    cases done
  · refine (within_modify ?_).bind growing fun _ => within_store32 growing _ _
    exact fun s => List.prefix_refl _

theorem recording_lockRelease (type : PoolType) : Recording (lockRelease type) := by
  intro s a t done
  unfold lockRelease at done
  split at done
  · contradiction
  · cases done
    exact ⟨[], by rw [List.append_nil, setLock_granted]⟩
  · rw [← setLock_granted s type _]
    exact recording_threadUnblock _ _ _ _ done

theorem recording_mallocKernelPages (count : U32) : Recording (mallocKernelPages count) := by
  refine (recording_lockAcquire _).bind growing fun _ =>
      (within_mallocPages growing _ _).bind growing fun _ =>
    (recording_lockRelease _).bind growing fun _ => (within_modify ?_).bind growing fun _ =>
        within_pure growing _
  exact fun s => List.prefix_append _ _

theorem recording_createPageDir : Recording createPageDir := by
  refine (recording_mallocKernelPages _).bind growing fun v => ?_
  split
  · exact within_pure growing _
  · refine (within_memcpy growing _ _ _).bind growing fun _ =>
      ((within_load32 growing _).bind growing fun _ => within_pure growing _).bind growing
      fun _ => (within_store32 growing _ _).bind growing fun _ =>
          (within_modify ?_).bind growing fun _ => within_pure growing _
    exact fun s => List.prefix_refl _

theorem recording_createUserVaddrBitmap (thread : U32) : Recording (createUserVaddrBitmap thread) :=
  (within_store32 growing _ _).bind growing fun _ => (recording_mallocKernelPages _).bind growing fun _ =>
    (within_store32 growing _ _).bind growing fun _ => (within_store32 growing _ _).bind growing fun _ =>
      (within_userBitmap growing _).bind growing fun _ => within_memset growing _ _ _

/-! How a call of `malloc_kernel_pages` ends. -/

/-- Which pages and frames a call that has succeeded took, and what else it changed. -/
structure Took (s : Machine) (g : Layout) (n : Nat) (v : U32) (t : Machine) (g' : Layout) : Prop where
  positive : 0 < n
  few : n < 3840
  room : g.kernelUsed + n ≤ 8 * g.kernelLength
  address : v = heapAddr g.heapUsed
  granted : Granted s v t
  settled : Settled t g'
  allocated : Allocated g n g'
  zero : ∀ x, 4096 * (0x200 + g.kernelUsed) ≤ x → x < 4096 * (0x200 + g.kernelUsed + n) → t.phys x = 0
  outside : ∀ x, ¬ InKernelTables x → (x < 4096 * (0x200 + g.kernelUsed) ∨
    4096 * (0x200 + g.kernelUsed + n) ≤ x) → t.phys x = s.phys x

theorem mallocKernelPages_took (settled : Settled s g) (positive : 0 < n) (few : n < 3840)
    (room : g.kernelUsed + n ≤ 8 * g.kernelLength) :
    ∃ t g', mallocKernelPages (BitVec.ofNat 32 n) s = .ok (heapAddr g.heapUsed) t ∧
      Took s g n (heapAddr g.heapUsed) t g' := by
  obtain ⟨t, g', called, granted, settled', allocated, zero, outside⟩ :=
    mallocKernelPages_ok settled positive few room
  exact ⟨t, g', called, positive, few, room, rfl, granted, settled', allocated, zero, outside⟩

theorem mallocKernelPages_cases (settled : Settled s g) (done : mallocKernelPages count s = .ok v t) :
    (∃ g', Took s g count.toNat v t g') ∨ (v = 0 ∧ t = { s with granted := s.granted ++ [0] }) := by
  by_cases good : 0 < count.toNat ∧ count.toNat < 3840
  · obtain ⟨positive, few⟩ := good
    have same : BitVec.ofNat 32 count.toNat = count := by simp
    rw [← same] at done
    by_cases room : g.kernelUsed + count.toNat ≤ 8 * g.kernelLength
    · obtain ⟨u, g', called, took⟩ := mallocKernelPages_took settled positive few room
      rw [done] at called
      cases called
      exact .inl ⟨g', took⟩
    · right
      by_cases short : 8 * g.kernelLength ≤ g.heapUsed ∨ g.Fits count.toNat
      · obtain ⟨fault, u, stopped, -⟩ := mallocKernelPages_short settled positive few
          (short.imp id fun fit => ⟨fit, by omega⟩)
        rw [stopped] at done
        contradiction
      · rw [not_or, not_le] at short
        rw [mallocKernelPages_null settled positive few short.1 short.2] at done
        cases done
        exact ⟨rfl, rfl⟩
  · obtain ⟨fault, u, stopped, -⟩ := mallocKernelPages_bad_count settled good
    rw [stopped] at done
    contradiction

theorem Settled.same (settled : Settled s g) (same : Same s t) (rep : Represents t g) : Settled t g := by
  refine ⟨rep, settled.mapped, fun type => ?_⟩
  exact same.lock.trans (settled.lock type)

/-- Lists and fields that the memory system does not look at. -/
theorem Settled.fields (settled : Settled s g) (config : Configured s t) (phys : t.phys = s.phys)
    (handed : t.handed = s.handed) (locks : ∀ type, (t.pool type).lock = (s.pool type).lock) : Settled t g :=
  ⟨settled.rep.transfer config phys handed, settled.mapped, fun type =>
    (locks type).trans (settled.lock type)⟩

/-- Between the two states `malloc_kernel_pages` has not returned `NULL`. -/
def Succeeds (s t : Machine) : Prop := 0 ∉ t.granted.drop s.granted.length

theorem Succeeds.of_absent (absent : 0 ∉ t.granted) : Succeeds s t :=
  fun null => absent (List.mem_of_mem_drop null)

theorem Succeeds.split (success : Succeeds s t) (first : s.granted <+: u.granted)
    (second : u.granted <+: t.granted) : Succeeds s u ∧ Succeeds u t := by
  obtain ⟨a, hu⟩ := first
  obtain ⟨b, ht⟩ := second
  unfold Succeeds at *
  rw [← ht, ← hu, List.append_assoc, List.drop_left, List.mem_append, not_or] at success
  constructor
  · rw [← hu, List.drop_left]
    exact success.1
  · rw [← ht, List.drop_left]
    exact success.2

/-- A call that the record shows not to have returned `NULL`. -/
theorem mallocKernelPages_bind {β : Type} {f : U32 → M β} {b : β} (settled : Settled s g)
    (done : (mallocKernelPages count >>= f) s = .ok b t) (records : ∀ v, Recording (f v))
    (success : Succeeds s t) :
    ∃ v s₁ g', Took s g count.toNat v s₁ g' ∧ f v s₁ = .ok b t := by
  obtain ⟨v, s₁, called, rest⟩ := Program.bind_completed done
  rcases mallocKernelPages_cases settled called with ⟨g', took⟩ | ⟨-, null⟩
  · exact ⟨v, s₁, g', took, rest⟩
  · obtain ⟨later, record⟩ := records v s₁ b t rest
    refine absurd ?_ success
    rw [← record, null, List.append_assoc, List.drop_left]
    exact List.mem_cons_self

theorem PageAt.inside (page : PageAt g thread frame) (valid : g.Valid) :
    (frame = 0x9e ∨ 0x200 ≤ frame) ∧ frame < 0x200 + g.kernelUsed := by
  rcases page with ⟨-, rfl⟩ | ⟨i, -, use, -⟩
  · omega
  · have inside := valid.heapFrame frame i use
    exact ⟨.inr inside.1, inside.2⟩

theorem PageAt.took (page : PageAt g thread frame) (valid : g.Valid) (took : Took s g n v t g') :
    PageAt g' thread frame := by
  have extended : Extends g g' (fun _ => Role.other) (fun _ => Role.other) :=
    took.allocated.extends valid fun _ _ => rfl
  exact page.keep extended

theorem Took.old_page (took : Took s g n v t g') (page : PageAt g thread frame) (valid : g.Valid) :
    ∀ x, x / 4096 = frame → t.phys x = s.phys x := by
  intro x same
  have inside := page.inside valid
  apply took.outside
  · unfold InKernelTables InBitmaps
    omega
  · omega

/-- A successful request makes no page table of a user half. -/
theorem Allocated.old_table (allocated : Allocated g n g') {frame d p : Nat} (use : g'.use frame = .table d p) :
    g.use frame = .table d p := by
  by_cases new : 0x200 + g.kernelUsed ≤ frame ∧ frame < 0x200 + g.kernelUsed + n
  · obtain ⟨j, rfl⟩ : ∃ j, frame = 0x200 + g.kernelUsed + j := ⟨frame - (0x200 + g.kernelUsed), by omega⟩
    rw [(allocated.pages j (by omega)).1] at use
    contradiction
  · have apart : frame < 0x200 + g.kernelUsed ∨ 0x200 + g.kernelUsed + n ≤ frame := by omega
    have old : g'.use frame = g.use frame := allocated.grown.old frame apart
    rw [← old]
    exact use

theorem assert_completed {c : Bool} {site : LiziOS.Site} (done : Memory.assert c site s = .ok () t) :
    t = s := by
  unfold Memory.assert at done
  split at done
  · cases done
    rfl
  · contradiction

/-- The thread is appended to both lists. -/
theorem enlist_completed {site : LiziOS.Site} (done : enlist thread site s = .ok () t) :
    t = { s with
      threadReadyList := listAppend s.threadReadyList thread
      threadAllList := listAppend s.threadAllList thread } := by
  unfold enlist at done
  rw [Program.bind_get] at done
  obtain ⟨_, s₁, checked, rest⟩ := Program.bind_completed done
  obtain rfl := assert_completed checked
  rw [Program.bind_modify, Program.bind_get] at rest
  obtain ⟨_, s₂, checked₂, last⟩ := Program.bind_completed rest
  obtain rfl := assert_completed checked₂
  cases last
  rfl

theorem enlist_ok {site : LiziOS.Site} (unready : elemFind s.threadReadyList thread = false)
    (unknown : elemFind s.threadAllList thread = false) : enlist thread site s = .ok () { s with
      threadReadyList := listAppend s.threadReadyList thread
      threadAllList := listAppend s.threadAllList thread } := by
  unfold enlist
  rw [Program.bind_get, unready, Bool.not_false, Program.bind_ok (assert_true _ s), Program.bind_modify,
    Program.bind_get]
  dsimp only
  rw [unknown, Bool.not_false, Program.bind_ok (assert_true _ _)]
  rfl

/-! The parts of `process_execute`. -/

theorem Took.mapped (took : Took s g n v t g') : g.heapMapped = g.heapUsed := by
  have mapped := took.settled.mapped
  rw [took.allocated.grown.heapMapped, took.allocated.grown.heapUsed] at mapped
  exact Nat.add_right_cancel mapped

theorem Took.page (took : Took s g n v t g') : PageAt g' v (0x200 + g.kernelUsed) := by
  obtain ⟨use, notDir⟩ := took.allocated.pages 0 took.positive
  refine .inr ⟨g.heapMapped + 0, ?_, use, notDir⟩
  rw [took.address, Nat.add_zero, took.mapped]

/-- `create_user_vaddr_bitmap` has got the pages of its bitmap. -/
structure UserBitmap (s : Machine) (g : Layout) (frame : Nat) (t : Machine) (g' : Layout) : Prop where
  made : Made s t [heapAddr g.heapUsed] []
  settled : Settled t g'
  allocated : Allocated g 23 g'
  mapped : g.heapMapped = g.heapUsed
  outside : ∀ x, ¬ InKernelTables x → x / 4096 ≠ frame → x < 4096 * (0x200 + g.kernelUsed) → t.phys x = s.phys x
  selfKstack : field t.phys frame Pcb.selfKstack = field s.phys frame Pcb.selfKstack
  addrStart : field t.phys frame Pcb.addrStart = userVaddrStart
  bitmapBits : field t.phys frame Pcb.bitmapBits = heapAddr g.heapUsed
  bitmapLength : field t.phys frame Pcb.bitmapLength = 94199

/-- The end of `create_user_vaddr_bitmap`, behind the request for the pages. -/
def bitmapEnd (thread b : U32) : M Unit := do
  store32 (thread + Pcb.bitmapBits) b
  store32 (thread + Pcb.bitmapLength) ((0xc0000000 - userVaddrStart) / pgSize / 8)
  bitmapInit (← userBitmap thread)

theorem recording_bitmapEnd (thread b : U32) : Recording (bitmapEnd thread b) :=
  (within_store32 growing _ _).bind growing fun _ => (within_store32 growing _ _).bind growing fun _ =>
    (within_userBitmap growing _).bind growing fun _ => within_memset growing _ _ _

/-- Once it has got the pages, the call completes. -/
theorem createUserVaddrBitmap_took (settled : Settled s g) (page : PageAt g thread frame) :
    ∃ s₁, Same s s₁ ∧ Settled s₁ g ∧ field s₁.phys frame Pcb.selfKstack = field s.phys frame Pcb.selfKstack ∧
      createUserVaddrBitmap thread s = (mallocKernelPages (BitVec.ofNat 32 23) >>= bitmapEnd thread) s₁ ∧
      ∀ b s₂ g', Took s₁ g 23 b s₂ g' → ∃ t, bitmapEnd thread b s₂ = .ok () t ∧ UserBitmap s g frame t g' := by
  obtain ⟨s₁, stored, w₁, startField⟩ := page.writeWord settled.rep Pcb.addrStart userVaddrStart (by decide)
    (by decide)
  have settled₁ := settled.same w₁.same w₁.rep
  have valid := settled₁.rep.core.valid
  refine ⟨s₁, w₁.same, settled₁, w₁.field (.inl (by decide)), ?_, ?_⟩
  · unfold createUserVaddrBitmap
    rw [Program.bind_ok stored]
    rfl
  intro b s₂ g' took
  have page₂ := page.took valid took
  obtain ⟨s₃, bits, w₃, bitsField⟩ := page₂.writeWord took.settled.rep Pcb.bitmapBits b (by decide) (by decide)
  obtain ⟨s₄, length, w₄, lengthField⟩ := page₂.writeWord w₃.rep Pcb.bitmapLength
    ((0xc0000000 - userVaddrStart) / pgSize / 8) (by decide) (by decide)
  have bitmap := userBitmap_ok w₄.rep page₂
  rw [lengthField, w₄.field (.inr (by decide)), bitsField] at bitmap
  have pages := took.allocated.pages
  rw [took.mapped] at pages
  have small := w₄.rep.core.valid.heap_small (pages 0 (by omega)).1
  obtain ⟨t, cleared, same₅, rep₅, -, outside₅⟩ := memset_heap w₄.rep pages (by omega) 94199 (by decide)
  have done₅ : bitmapInit ⟨(0xc0000000 - userVaddrStart) / pgSize / 8, b⟩ s₄ = .ok () t := by
    rw [took.address]
    exact cleared
  have same := (w₃.same.trans w₄.same).trans same₅
  have below := (page.inside valid).2
  have kept : ∀ x, x / 4096 = frame → t.phys x = s₄.phys x := fun x eq => outside₅ x (.inl (by omega))
  refine ⟨t, ?_, ⟨?_, took.settled.same same rep₅, took.allocated, took.mapped, ?_, ?_, ?_, ?_, ?_⟩⟩
  · unfold bitmapEnd
    rw [Program.bind_ok bits, Program.bind_ok length, Program.bind_ok bitmap]
    exact done₅
  · have whole := (w₁.same.made.trans took.granted.made).trans same.made
    rw [took.address] at whole
    exact whole
  · intro x free other low
    rw [outside₅ x (.inl (by omega)), w₄.other (by decide) x other, w₃.other (by decide) x other,
      took.outside x free (.inl low), w₁.other (by decide) x other]
  · rw [field_same (by decide) kept, w₄.field (.inl (by decide)), w₃.field (.inl (by decide)),
      field_same (by decide) (took.old_page page valid), w₁.field (.inl (by decide))]
  · rw [field_same (by decide) kept, w₄.field (.inr (by decide)), w₃.field (.inr (by decide)),
      field_same (by decide) (took.old_page page valid)]
    exact startField
  · rw [field_same (by decide) kept, w₄.field (.inr (by decide)), bitsField, took.address]
  · rw [field_same (by decide) kept, lengthField]
    rfl

theorem createUserVaddrBitmap_completed (settled : Settled s g) (page : PageAt g thread frame)
    (done : createUserVaddrBitmap thread s = .ok () t) (success : Succeeds s t) :
    ∃ g', UserBitmap s g frame t g' := by
  obtain ⟨s₁, same₁, settled₁, -, call, ending⟩ := createUserVaddrBitmap_took settled page
  rw [call] at done
  have success₁ : Succeeds s₁ t := by
    have record : s₁.granted = s.granted := by rw [same₁]
    unfold Succeeds
    rw [record]
    exact success
  obtain ⟨b, s₂, g', took, rest⟩ := mallocKernelPages_bind settled₁ done (recording_bitmapEnd thread) success₁
  obtain ⟨u, ended, bitmap⟩ := ending b s₂ g' took
  rw [rest] at ended
  cases ended
  exact ⟨g', bitmap⟩

theorem createPageDir_completed (settled : Settled s g) {d : U32} (done : createPageDir s = .ok d t)
    (success : Succeeds s t) :
    ∃ g', d = heapAddr g.heapUsed ∧
      Made s t [heapAddr g.heapUsed] [BitVec.ofNat 32 (4096 * (0x200 + g.kernelUsed))] ∧
      Settled t (g'.addDir (0x200 + g.kernelUsed)) ∧ Allocated g 1 g' ∧
      ∀ x, ¬ InKernelTables x → x / 4096 ≠ 0x200 + g.kernelUsed → t.phys x = s.phys x := by
  by_cases room : g.kernelUsed + 1 ≤ 8 * g.kernelLength
  · obtain ⟨u, g', called, made, settled', allocated, outside, -⟩ := createPageDir_ok settled room
    rw [done] at called
    cases called
    exact ⟨g', rfl, made, settled', allocated, outside⟩
  · unfold createPageDir at done
    obtain ⟨v, s₁, called, rest⟩ := Program.bind_completed done
    rcases mallocKernelPages_cases settled called with ⟨g', took⟩ | ⟨rfl, null⟩
    · exact absurd took.room room
    · cases rest
      refine absurd ?_ success
      rw [null, List.drop_left]
      exact List.mem_cons_self

/-! Whole calls. -/

/-- What a completed call leaves of the pages in use, of the threads and of the directories. New
    tables of user halves are for directory entries from `low` on. -/
structure Advance (low : Nat) (s t : Machine) (g g' : Layout) (role role' : Nat → Role)
    (new : List Nat) : Prop where
  settled : Settled t g'
  extended : Extends g g' role role'
  pcbs : ∀ thread frame, PcbAt g role thread frame → ∀ x, x / 4096 = frame → t.phys x = s.phys x
  dirs : g'.dirs = new ++ g.dirs
  pageDirs : t.pageDirs = s.pageDirs ++ new.map fun d => BitVec.ofNat 32 (4096 * d)
  tables : ∀ frame d p, g'.use frame = .table d p → g.use frame = .table d p ∨ low ≤ p
  running : t.runningThread = s.runningThread
  cr3 : t.cr3 = s.cr3
  known : ∀ thread ∈ t.threadAllList, thread ∈ s.threadAllList ∨ Known t.phys g' role' thread

variable {role : Nat → Role}

/-- No PCB is written by what leaves the pages in use alone. -/
theorem PcbAt.untouched (pcb : PcbAt g role thread frame) (valid : g.Valid)
    (outside : ∀ x, ¬ InKernelTables x → x < 4096 * (0x200 + g.kernelUsed) → t.phys x = s.phys x) :
    ∀ x, x / 4096 = frame → t.phys x = s.phys x := by
  intro x same
  have inside := pcb.page.inside valid
  apply outside
  · unfold InKernelTables InBitmaps
    omega
  · omega

theorem Settled.enlisted (settled : Settled s g) {site : LiziOS.Site} (done : enlist thread site s = .ok () t) :
    Settled t g := by
  rw [enlist_completed done]
  exact settled.fields ⟨rfl, rfl, fun type => by cases type <;> rfl, fun type => by cases type <;> rfl, rfl⟩ rfl rfl
    fun type => by cases type <;> rfl

theorem Took.advance (took : Took s g n v t g') (valid : g.Valid) (low : Nat) (role : Nat → Role) :
    Advance low s t g g' role role [] where
  settled := took.settled
  extended := took.allocated.extends valid fun _ _ => rfl
  pcbs _ _ pcb := pcb.untouched valid fun x free below => took.outside x free (.inl below)
  dirs := took.allocated.grown.dirs
  pageDirs := by rw [took.granted]; exact (List.append_nil _).symm
  tables _ _ _ use := .inl (took.allocated.old_table use)
  running := by rw [took.granted]
  cr3 := by rw [took.granted]
  known thread member := by
    rw [took.granted] at member
    exact .inl member

theorem threadStart_completed (settled : Settled s g) (low : Nat) (role : Nat → Role) {name : List U8}
    {prio function funcArg : U32} (fits : name.length < 16)
    (done : threadStart name prio function funcArg s = .ok thread t) (success : Succeeds s t) :
    ∃ g' role', Advance low s t g g' role role' [] := by
  unfold threadStart at done
  obtain ⟨v, s₁, g', took, rest⟩ := mallocKernelPages_bind settled done (fun v =>
    (within_initThread growing _ _ _).bind growing fun _ =>
      (within_threadCreate growing _ _ _).bind growing fun _ =>
        (recording_enlist _ _).bind growing fun _ => within_pure growing _) success
  have valid := settled.rep.core.valid
  have page := took.page
  obtain ⟨s₂, initialized, written, fields⟩ := initThread_ok page took.settled.rep name prio fits
  obtain ⟨s₃, created, same₃, rep₃, other₃, kept₃, -⟩ := threadCreate_ok page written.rep fields.selfKstack
    function funcArg
  rw [Program.bind_ok initialized, Program.bind_ok created] at rest
  obtain ⟨_, s₄, listed, last⟩ := Program.bind_completed rest
  cases last
  have settled₃ := (took.settled.same written.same written.rep).same same₃ rep₃
  have same : Same s₁ s₃ := written.same.trans same₃
  have lists := enlist_completed listed
  have phys : t.phys = s₃.phys := by rw [lists]
  have outside (x : Nat) (free : ¬ InKernelTables x) (below : x < 4096 * (0x200 + g.kernelUsed)) :
      t.phys x = s.phys x := by
    rw [phys, other₃ x (by omega), written.other (by decide) x (by omega), took.outside x free (.inl below)]
  have rest : s₃.pageDirs = s.pageDirs ∧ s₃.runningThread = s.runningThread ∧ s₃.cr3 = s.cr3 ∧
      s₃.threadAllList = s.threadAllList := by
    rw [same, took.granted]
    exact ⟨rfl, rfl, rfl, rfl⟩
  refine ⟨g', Function.update role g.heapMapped .pcb, ⟨settled₃.enlisted listed, ?_, ?_, ?_, ?_, ?_, ?_, ?_, ?_⟩⟩
  · exact took.allocated.extends valid fun i less => Function.update_of_ne (by omega) _ _
  · exact fun _ _ pcb => pcb.untouched valid outside
  · exact took.allocated.grown.dirs
  · rw [lists, List.map_nil, List.append_nil]
    exact rest.1
  · exact fun _ _ _ use => .inl (took.allocated.old_table use)
  · rw [lists]
    exact rest.2.1
  · rw [lists]
    exact rest.2.2.1
  · intro th member
    rw [lists] at member
    change th ∈ s₃.threadAllList ++ [thread] at member
    rw [rest.2.2.2, List.mem_append, List.mem_singleton] at member
    rcases member with old | rfl
    · exact .inl old
    · right
      refine ⟨0x200 + g.kernelUsed, ⟨page, fun i use => ?_⟩, .inl ⟨?_, ?_⟩⟩
      · have mine := (took.allocated.pages 0 took.positive).1
        rw [Nat.add_zero, use] at mine
        cases mine
        exact Function.update_self _ _ _
      · rw [phys, kept₃ _ (by decide) (by decide)]
        exact fields.kernel.pgdir
      · rw [phys, kept₃ _ (by decide) (by decide)]
        exact fields.kernel.bitmapLength

theorem recording_ending (thread function filename : U32) : Recording (do
    threadCreate thread function filename
    let pgdir ← createPageDir
    store32 (thread + Pcb.pgdir) pgdir
    enlist thread .processExecute) :=
  (within_threadCreate growing _ _ _).bind growing fun _ => recording_createPageDir.bind growing fun _ =>
    (within_store32 growing _ _).bind growing fun _ => recording_enlist _ _

/-- The new directory is a page of the heap that was not in use. -/
theorem Allocated.extends_dir (allocated : Allocated g 1 g') (valid : g.Valid) (role : Nat → Role) :
    Extends g (g'.addDir (0x200 + g.kernelUsed)) role role := by
  have extended : Extends g g' role role := allocated.extends valid fun _ _ => rfl
  refine ⟨extended.heap, fun d member => List.mem_cons_of_mem _ (extended.dirs d member), ?_,
    extended.mapped, extended.role⟩
  intro frame i use member
  rcases List.mem_cons.mp member with same | old
  · have inside := (valid.heapFrame frame i use).2
    omega
  · exact extended.fresh frame i use old

/-- What the pages of the heap from `first` on are for, when `process_execute` has asked for them. -/
def processRole (role : Nat → Role) (first i : Nat) : Role :=
  if i < first then role i else if i = first then .pcb else if i < first + 24 then .bits else .dir

theorem processRole_old {first i : Nat} (less : i < first) : processRole role first i = role i := if_pos less

theorem processRole_pcb (first : Nat) : processRole role first first = .pcb := by
  unfold processRole
  rw [if_neg (by omega), if_pos rfl]

theorem processRole_bits {first j : Nat} (less : j < 23) : processRole role first (first + 1 + j) = .bits := by
  unfold processRole
  rw [if_neg (by omega), if_neg (by omega), if_pos (by omega)]

theorem processExecute_completed (settled : Settled s g) (low : Nat) (role : Nat → Role) {filename : U32}
    {name : List U8} (fits : name.length < 16) (done : processExecute filename name s = .ok () t)
    (success : Succeeds s t) : ∃ g' role' d, Advance low s t g g' role role' [d] := by
  unfold processExecute at done
  obtain ⟨v, s₁, g₁, took, rest⟩ := mallocKernelPages_bind settled done (fun v =>
    (within_initThread growing _ _ _).bind growing fun _ =>
      (recording_createUserVaddrBitmap _).bind growing fun _ => within_get fun _ => recording_ending _ _ _) success
  obtain ⟨success₀, success₁⟩ := success.split (u := s₁) (by rw [took.granted]; exact List.prefix_append _ _)
    (((within_initThread growing _ _ _).bind growing fun _ =>
      (recording_createUserVaddrBitmap _).bind growing fun _ => within_get fun _ => recording_ending _ _ _)
        _ _ _ rest)
  have valid := settled.rep.core.valid
  have page := took.page
  obtain ⟨s₂, initialized, written, fields⟩ := initThread_ok page took.settled.rep name 31 fits
  have settled₂ := took.settled.same written.same written.rep
  rw [Program.bind_ok initialized] at rest
  obtain ⟨_, s₃, bitmapped, rest₃⟩ := Program.bind_completed rest
  rw [Program.bind_get] at rest₃
  have success₂ : Succeeds s₂ t := by
    have record : s₂.granted = s₁.granted := by rw [written.same]
    unfold Succeeds
    rw [record]
    exact success₁
  obtain ⟨success₃, success₄⟩ := success₂.split (recording_createUserVaddrBitmap _ _ _ _ bitmapped)
    (recording_ending _ _ _ _ _ _ rest₃)
  obtain ⟨g₂, bitmap⟩ := createUserVaddrBitmap_completed settled₂ page bitmapped success₃
  have extended₁ : Extends g g₁ role (processRole role g.heapMapped) :=
    took.allocated.extends valid fun i less => processRole_old less
  have valid₁ := took.settled.rep.core.valid
  have extended₂ : Extends g₁ g₂ (processRole role g.heapMapped) (processRole role g.heapMapped) :=
    bitmap.allocated.extends valid₁ fun _ _ => rfl
  have page₃ := page.keep extended₂
  have stack := bitmap.selfKstack.trans fields.selfKstack
  obtain ⟨s₄, created, same₄, rep₄, other₄, kept₄, -⟩ := threadCreate_ok page₃ bitmap.settled.rep stack
    s₃.symbols.startProcess filename
  rw [Program.bind_ok created] at rest₃
  have settled₄ := bitmap.settled.same same₄ rep₄
  obtain ⟨dirAddr, s₅, directory, rest₅⟩ := Program.bind_completed rest₃
  have success₅ : Succeeds s₄ t := by
    have record : s₄.granted = s₃.granted := by rw [same₄]
    unfold Succeeds
    rw [record]
    exact success₄
  have last := ((within_store32 growing _ _).bind growing fun _ => recording_enlist _ _) _ _ _ rest₅
  obtain ⟨g₃, address, made₅, settled₅, allocated₃, outside₅⟩ := createPageDir_completed settled₄ directory
    (success₅.split (recording_createPageDir _ _ _ directory) last).1
  have valid₂ := settled₄.rep.core.valid
  have extended₃ := allocated₃.extends_dir valid₂ (processRole role g.heapMapped)
  have page₅ := page₃.keep extended₃
  obtain ⟨s₆, stored, w₆, pgdirField⟩ := page₅.writeWord settled₅.rep Pcb.pgdir dirAddr (by decide) (by decide)
  rw [Program.bind_ok stored] at rest₅
  have settled₆ := settled₅.same w₆.same w₆.rep
  have lists := enlist_completed rest₅
  have phys : t.phys = s₆.phys := by rw [lists]
  -- the frames that the call takes, one behind the other
  have used₁ : g₁.kernelUsed = g.kernelUsed + 1 := took.allocated.grown.kernelUsed
  have used₂ : g₂.kernelUsed = g₁.kernelUsed + 23 := bitmap.allocated.grown.kernelUsed
  have heap₁ : g₁.heapMapped = g.heapMapped + 1 := took.allocated.grown.heapMapped
  have outside (x : Nat) (free : ¬ InKernelTables x) (below : x < 4096 * (0x200 + g.kernelUsed)) :
      t.phys x = s.phys x := by
    rw [phys, w₆.other (by decide) x (by omega), outside₅ x free (by omega), other₄ x (by omega),
      bitmap.outside x free (by omega) (by omega), written.other (by decide) x (by omega),
      took.outside x free (.inl below)]
  have kept (o : U32) (above : 4 ≤ o.toNat) (below : o.toNat ≤ 3660)
      (apart : o.toNat + 4 ≤ Pcb.pgdir.toNat ∨ Pcb.pgdir.toNat + 4 ≤ o.toNat) :
      field t.phys (0x200 + g.kernelUsed) o = field s₃.phys (0x200 + g.kernelUsed) o := by
    rw [phys, w₆.field apart, field_same (by omega) fun x same => outside₅ x
      (by unfold InKernelTables InBitmaps; omega) (by omega), kept₄ o above below]
  have made := ((took.granted.made.trans written.same.made).trans bitmap.made).trans
    ((same₄.made.trans made₅).trans w₆.same.made)
  have extended := (extended₁.trans extended₂).trans extended₃
  have pcb : PcbAt (g₃.addDir (0x200 + g₂.kernelUsed)) (processRole role g.heapMapped) v
      (0x200 + g.kernelUsed) := by
    refine ⟨page₅, fun i use => ?_⟩
    have mine := (extended₂.trans extended₃).heap _ _ (took.allocated.pages 0 took.positive).1
    rw [Nat.add_zero, use] at mine
    cases mine
    exact processRole_pcb _
  have process : Process t.phys (g₃.addDir (0x200 + g₂.kernelUsed)) (processRole role g.heapMapped)
      (0x200 + g.kernelUsed) (0x200 + g₂.kernelUsed) (0x200 + g₁.kernelUsed) := by
    refine ⟨⟨g₂.heapUsed, ?_, ?_, List.mem_cons_self⟩, ?_, ?_, ⟨g₁.heapUsed, ?_, fun j less => ?_⟩⟩
    · rw [phys, pgdirField, address]
    · have mine := (allocated₃.pages 0 (by omega)).1
      rw [Nat.add_zero, Nat.add_zero, settled₄.mapped] at mine
      exact mine
    · rw [kept _ (by decide) (by decide) (.inr (by decide)), bitmap.bitmapLength]
    · rw [kept _ (by decide) (by decide) (.inr (by decide)), bitmap.addrStart]
    · rw [kept _ (by decide) (by decide) (.inr (by decide)), bitmap.bitmapBits]
    · obtain ⟨use, notDir⟩ := bitmap.allocated.pages j less
      rw [bitmap.mapped] at use
      refine ⟨extended₃.heap _ _ use, ?_, fun member => notDir (extended₃.fresh _ _ use member)⟩
      rw [← bitmap.mapped, heap₁]
      exact processRole_bits less
  refine ⟨_, processRole role g.heapMapped, 0x200 + g₂.kernelUsed, settled₆.enlisted rest₅, extended, ?_, ?_,
    ?_, ?_, ?_, ?_, ?_⟩
  · exact fun _ _ old => old.untouched valid outside
  · exact congrArg (List.cons _) (allocated₃.grown.dirs.trans (bitmap.allocated.grown.dirs.trans
      took.allocated.grown.dirs))
  · rw [lists]
    change s₆.pageDirs = _
    rw [made]
    rfl
  · intro frame d p use
    exact .inl (took.allocated.old_table (bitmap.allocated.old_table (allocated₃.old_table use)))
  · rw [lists]
    change s₆.runningThread = _
    rw [made]
  · rw [lists]
    change s₆.cr3 = _
    rw [made]
  · intro th member
    rw [lists] at member
    change th ∈ s₆.threadAllList ++ [v] at member
    rw [made, List.mem_append, List.mem_singleton] at member
    rcases member with old | rfl
    · exact .inl old
    · exact .inr ⟨_, pcb, .inr ⟨_, _, process⟩⟩

end LiziOS.Memory
