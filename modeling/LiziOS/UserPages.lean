import LiziOS.RunningSpace

namespace LiziOS.Memory

open ByteMemory Paging

/-! No call writes into a user page that is mapped when it begins. -/

/-- The bytes of the user pages of the layout are as they were. -/
def SamePages (g : Layout) (m m' : ByteMemory.Memory) : Prop :=
  ∀ x d v, g.use (x / 4096) = .page d v → m' x = m x

variable {s t u : Machine} {g g' : Layout} {m m' m'' : ByteMemory.Memory} {role role' : Nat → Role}
  {thread vaddr v : U32} {frame dir bits n low : Nat}

theorem SamePages.trans (first : SamePages g m m') (second : SamePages g' m' m'')
    (grown : UserGrown low g g') : SamePages g m m'' := by
  intro x d v use
  have kept : g'.use (x / 4096) = .page d v := (grown.keeps _ (by rw [use]; exact nofun)).trans use
  exact (second x d v kept).trans (first x d v use)

theorem store32_completed {a w : U32} {p : Nat} (aligned : a.toNat % 4 = 0) (mapped : s.translate a = some p)
    (high : 4096 ≤ a.toNat) (done : store32 a w s = .ok () t) : t = { s with phys := setWord s.phys p w } := by
  rw [store32_ok w aligned mapped, Machine.write_high s _ high] at done
  cases done
  rfl

/-- The frames that a call for a user page writes in are none of the user pages. -/
theorem Layout.Valid.page_apart (valid : g.Valid) {x d : Nat} {v : Nat} (use : g.use (x / 4096) = .page d v) :
    ¬ InKernelTables x ∧ 4096 * (0x200 + g.kernelFree) ≤ x := by
  have inside := (valid.pageFrame _ _ _ use).1
  unfold InKernelTables InBitmaps
  omega

/-- The call makes a table: it writes in the directory, in the bitmaps and in the frame that becomes the table. -/
theorem bindUser_newTable (rep : Represents s g) (number : vaddr.toNat / 4096 = n) (small : n < 768 * 1024)
    (absent : g.slot s.root (n / 1024) = .absent)
    (completed : bindVaddrPaddrPage vaddr (BitVec.ofNat 32 (4096 * frame)) s = .ok () t) :
    g.kernelUsed < 8 * g.kernelLength ∧ ∀ x, x / 4096 ≠ s.root → x / 4096 ≠ 0x200 + g.kernelUsed →
      ¬ InBitmaps x → t.phys x = s.phys x := by
  have valid := rep.core.valid
  have clear := rep.absent_mask (by omega) absent
  unfold bindVaddrPaddrPage at completed
  rw [Program.bind_ok (rep.load_pde vaddr), number, if_neg (by simpa using clear)] at completed
  by_cases room : g.kernelUsed < 8 * g.kernelLength
  case neg =>
    rw [Program.bind_error (paddrGetPage_full rep .kernelPool (Nat.not_lt.mp room))] at completed
    contradiction
  obtain ⟨u, taken, same, repU, outside⟩ := paddrGetPage_ok rep .kernelPool room
  change paddrGetPage .kernelPool s = .ok (BitVec.ofNat 32 (4096 * (0x200 + g.kernelUsed))) u at taken
  have rootEq : u.root = s.root := Represents.root_eq same.configured
  have kernelFree := valid.kernelFree
  refine ⟨room, ?_⟩
  unfold Layout.kernelLength at room
  generalize tableEq : 0x200 + g.kernelUsed = table at taken ⊢
  have tableSmall : table < 2 ^ 20 := by omega
  have rootApart : s.root ≠ table := by
    rcases valid.root_frame rep.root with boot | inside
    · omega
    · unfold Layout.InKernel at inside
      omega
  -- the entry of the directory
  have mapped := repU.translate_pdePtr vaddr
  rw [rootEq, number] at mapped
  rw [Program.bind_ok taken, frame_or tableSmall] at completed
  obtain ⟨⟨⟩, s₁, stored, rest⟩ := Program.bind_completed completed
  have first := store32_completed (by rw [pdePtr_toNat]; omega) mapped (by rw [pdePtr_toNat]; omega) stored
  -- the table is cleared through the window
  have window : entry s₁.phys s.root 1023 = mk s.root ∧ s.root < 2 ^ 20 := by
    have slot := repU.core.valid.window s.root (rootEq ▸ repU.root)
    obtain ⟨self, bound⟩ := (repU.core.tables s.root).maps 1023 (by omega) s.root slot
    rw [first]
    exact ⟨(entry_setWord_other _ (by omega) (by omega) (.inr (by omega))).trans self, bound⟩
  have pdeEntry : entry s₁.phys s.root (n / 1024) = mk table := by
    rw [first]
    exact entry_setWord_same _ _ _ _
  have region := window_region window.1 pdeEntry window.2 tableSmall (by omega) rootApart
  have pteAddress := ptePtr_toNat vaddr
  rw [number] at pteAddress
  have pageAddress : (ptePtr vaddr &&& (0xfffff000 : U32)).toNat = 0xffc00000 + 4096 * (n / 1024) := by
    rw [page_mask, pteAddress]
    omega
  have rootEq₁ : s₁.root = s.root := by
    rw [first]
    exact rootEq
  obtain ⟨phys₂, cleared, same₂, -, miss⟩ := @memset_ok s₁ (ptePtr vaddr &&& (0xfffff000 : U32)) _ _ 0 4096
    (by rw [rootEq₁, pageAddress]; exact region) (by omega) (by omega) (fun _ _ => rfl)
  rw [Program.bind_ok cleared] at rest
  -- the entry of the table
  obtain ⟨pte, s₃, loaded, rest₃⟩ := Program.bind_completed rest
  have translated : Machine.translate { s₁ with phys := phys₂ } (ptePtr vaddr) =
      some (4096 * table + 4 * (n % 1024)) := by
    have place := region.mapped phys₂ (4 * (n % 1024)) same₂ (by omega)
    unfold Machine.translate
    change Paging.translate phys₂ s₁.root _ = _
    rw [rootEq₁, pteAddress, show 0xffc00000 + 4 * n = 0xffc00000 + 4096 * (n / 1024) + 4 * (n % 1024) by omega]
    exact place
  rw [load32_ok (by omega) translated] at loaded
  cases loaded
  obtain ⟨⟨⟩, s₄, asserted, last⟩ := Program.bind_completed rest₃
  rw [assert_completed asserted] at last
  have final := store32_completed (by omega) translated (by omega) last
  intro x notRoot notTable notBitmap
  rw [final]
  change setWord phys₂ _ _ x = _
  rw [setWord_outside _ (by omega), miss x (by intro j less; omega), first]
  change setWord u.phys _ _ x = _
  rw [setWord_outside _ (by omega)]
  exact outside x notBitmap

theorem bindUser_samePages (rep : Represents s g) (number : vaddr.toNat / 4096 = n) (small : n < 768 * 1024)
    (member : s.root ∈ g.dirs) (inside : g.InUser frame)
    (completed : bindVaddrPaddrPage vaddr (BitVec.ofNat 32 (4096 * frame)) s = .ok () t) :
    SamePages g s.phys t.phys := by
  have valid := rep.core.valid
  have frameSmall := valid.handed_small (.inr inside)
  intro x d v use
  obtain ⟨notTables, high⟩ := valid.page_apart use
  have notBitmap : ¬ InBitmaps x := fun bitmap => notTables (.inl bitmap)
  obtain ⟨rootPage, rootUse⟩ := valid.dir s.root member
  have notRoot : x / 4096 ≠ s.root := by
    intro same
    rw [same, rootUse] at use
    cases use
  rcases valid.userHalf s.root member (n / 1024) (by omega) with absent | ⟨table, pde, tableUse⟩
  · obtain ⟨room, kept⟩ := bindUser_newTable rep number small absent completed
    unfold Layout.kernelLength at room
    exact kept x notRoot (by omega) notBitmap
  · have notTable : x / 4096 ≠ table := by
      intro same
      rw [same, tableUse] at use
      cases use
    obtain ⟨-, -, -, entries⟩ := valid.table table _ _ tableUse
    rcases entries (n % 1024) (by omega) with absent | ⟨other, pte, -⟩
    · rw [bind_present rep frame (by rw [number]; exact pde) (by rw [number]; exact absent) (by omega)] at completed
      cases completed
      exact setWord_outside _ (by omega)
    · rw [bind_repeated rep (by rw [number]; exact pde) (by rw [number]; exact pte)] at completed
      contradiction

theorem takeUser_samePages (rep : Represents s g) {a : U32} (taken : paddrGetPage .userPool s = .ok a u) :
    SamePages g s.phys u.phys := by
  intro x d v use
  have notTables := (rep.core.valid.page_apart use).1
  by_cases room : g.userUsed < 8 * g.userLength
  · obtain ⟨w, called, -, -, outside⟩ := paddrGetPage_ok rep .userPool room
    rw [taken] at called
    cases called
    exact outside x fun bitmap => notTables (.inl bitmap)
  · rw [paddrGetPage_full rep .userPool (Nat.not_lt.mp room)] at taken
    contradiction

theorem mapPages_samePages (rep : Represents s g) (member : s.root ∈ g.dirs) (v n : Nat)
    (bound : v + n ≤ 768 * 1024 + 1) {mapped : Bool}
    (completed : mapPages .userPool (pageAddr v) n s = .ok mapped t) : SamePages g s.phys t.phys := by
  induction n generalizing s g v with
  | zero =>
    cases completed
    exact fun _ _ _ _ => rfl
  | succ n ih =>
    rw [mapPages] at completed
    by_cases room : g.userUsed < 8 * g.userLength
    · obtain ⟨u, taken, same, after, -, free, inside, taking, nonzero⟩ := takeUser_ok 0 rep room
      have rootEq : u.root = s.root := Represents.root_eq same.configured
      rw [Program.bind_ok taken, if_neg nonzero] at completed
      obtain ⟨⟨⟩, w, bind, rest⟩ := Program.bind_completed completed
      have number : (pageAddr v).toNat / 4096 = v := by
        rw [pageAddr_toNat (by omega)]
        omega
      have memberU : u.root ∈ g.takeUser.dirs := rootEq ▸ member
      obtain ⟨g₁, same₁, rep₁, mapped₁, -, less⟩ :=
        bindUser_completed after number (by omega) memberU free inside (Nat.zero_le _) bind
      have rootEq₁ : w.root = s.root := (Represents.root_eq same₁.configured).trans rootEq
      rw [pageAddr_succ] at rest
      have later := ih rep₁ (by rw [rootEq₁, mapped₁.grown.dirs]; exact member) (v + 1) (by omega) rest
      have first := (takeUser_samePages rep taken).trans
        (bindUser_samePages after number less memberU inside bind) taking
      exact first.trans later (taking.trans mapped₁.grown)
    · rw [Program.bind_error (paddrGetPage_full rep .userPool (Nat.not_lt.mp room))] at completed
      contradiction

/-- Clearing pages that lie behind one another writes nowhere else. -/
theorem memset_elsewhere (rep : Represents s g) (first v n : Nat)
    (pages : ∀ j < n, g.use (first + j) = .page s.root (v + j)) (positive : 0 < v)
    (bound : v + n ≤ 768 * 1024) (done : memset (pageAddr v) 0 (4096 * n) s = .ok () t) {x : Nat}
    (outside : x < 4096 * first ∨ 4096 * (first + n) ≤ x) : t.phys x = s.phys x := by
  have valid := rep.core.valid
  have address := pageAddr_toNat (v := v) (by omega)
  have region : Region (fun m => Core m g) s.root (pageAddr v).toNat (4096 * n) fun j => 4096 * first + j := by
    constructor
    · intro m j core inside
      have translated := core.translate_user (pages (j / 4096) (by omega)) (o := j % 4096) (by omega)
      rw [address, show 4096 * v + j = 4096 * (v + j / 4096) + j % 4096 by omega, translated]
      congr 1
      omega
    · intro m j byte core inside
      apply core.update
      rw [show (4096 * first + j) / 4096 = first + j / 4096 by omega]
      exact valid.plain_page (pages (j / 4096) (by omega))
    · intro j k _ _ same
      omega
  obtain ⟨m, called, -, -, miss⟩ := memset_ok 0 (4096 * n) region (by omega) (by omega) rep.core
  rw [done] at called
  cases called
  exact miss x fun j inside => by omega

theorem mark_samePages (process : Process m g role frame dir bits)
    (changed : SameBut bits m m') : SamePages g m m' := by
  intro x d v use
  obtain ⟨b, -, pages⟩ := process.bitmapBits
  apply changed
  rintro ⟨low, high⟩
  have heap := (pages (x / 4096 - bits) (by omega)).1
  rw [show bits + (x / 4096 - bits) = x / 4096 by omega, use] at heap
  cases heap

theorem vaddrGetPages_samePages (rep : Represents s g) (site : Site s g role thread frame bits) {count : U32}
    (positive : 0 < count.toNat) (completed : vaddrGetPages .userPool count s = .ok v t) :
    SamePages g s.phys t.phys := by
  simp only [vaddrGetPages] at completed
  rw [Program.bind_get, site.running, Program.bind_ok (userBitmap_ok rep site.pcb.page)] at completed
  obtain ⟨r, u, requested, rest⟩ := Program.bind_completed completed
  obtain ⟨rfl, none | ⟨found, rfl, fits, inside⟩⟩ := user_search rep site positive requested
  · rw [if_pos none] at rest
    cases rest
    exact fun _ _ _ _ => rfl
  · have some_ : BitVec.ofNat 32 found ≠ (-1 : U32) := by
      intro eq
      have numbers := congrArg BitVec.toNat eq
      rw [BitVec.toNat_ofNat, show (-1 : U32).toNat = 4294967295 from rfl] at numbers
      omega
    obtain ⟨w, marked, -, after, -, changed⟩ := markBits_user rep site.pcb site.process found count.toNat (by omega)
    have bound : BitVec.ofNat 32 found + count = BitVec.ofNat 32 (found + count.toNat) := by
      rw [BitVec.ofNat_add]
      simp
    rw [if_neg some_, bound, Program.bind_ok marked,
      Program.bind_ok (site.pcb.page.load after (by decide) (by decide))] at rest
    obtain ⟨⟨⟩, x, asserted, returned⟩ := Program.bind_completed rest
    cases returned
    rw [assert_completed asserted]
    exact mark_samePages site.process changed

theorem mallocPages_samePages (rep : Represents s g) (site : Site s g role thread frame bits) {count : U32}
    (completed : mallocPages .userPool count s = .ok v t) : SamePages g s.phys t.phys := by
  unfold mallocPages at completed
  obtain ⟨⟨⟩, u, asserted, checked⟩ := Program.bind_completed completed
  obtain ⟨argument, rfl⟩ := rep.checked_assert asserted
  obtain ⟨positive, few⟩ := of_decide_eq_true argument
  have count_positive : 0 < count.toNat := positive
  obtain ⟨vaddr, w, got, rest⟩ := Program.bind_completed checked
  have marked := vaddrGetPages_samePages rep site count_positive got
  rcases vaddrGetPages_user rep site count_positive got with ⟨rfl, rfl⟩ | ⟨found, rfl, fits, inside, call⟩
  · rw [if_pos rfl] at rest
    cases rest
    exact marked
  · have nonzero : pageAddr (0x8048 + found) ≠ 0 := by
      intro zero
      have value := pageAddr_toNat (v := 0x8048 + found) (by omega)
      rw [zero, show (0 : U32).toNat = 0 from rfl] at value
      omega
    rw [if_neg nonzero] at rest
    obtain ⟨mapped, x, looped, rest'⟩ := Program.bind_completed rest
    have rootEq := Site.root_same call.same
    have member : w.root ∈ g.dirs := rootEq ▸ site.member
    obtain ⟨g', rfl, same, rep', grown, -, pages, top⟩ := mapPages_user 32 call.rep member (0x8048 + found)
      count.toNat (by omega) (by omega) looped
    have mapping := mapPages_samePages call.rep member (0x8048 + found) count.toNat (by omega) looped
    have rootEq' := Site.root_same same
    have bytes : (count * pgSize).toNat = 4096 * count.toNat := by
      have small : count.toNat < 3840 := few
      rw [BitVec.toNat_mul, show pgSize.toNat = 4096 from rfl]
      omega
    rw [if_pos rfl, bytes] at rest'
    obtain ⟨⟨⟩, y, cleared, last⟩ := Program.bind_completed rest'
    cases last
    intro z d v use
    have old := (call.rep.core.valid.pageFrame _ _ _ use).2
    rw [← rootEq'] at pages
    rw [memset_elsewhere rep' _ (0x8048 + found) count.toNat pages (by omega) (top count_positive) cleared (.inl (by omega))]
    exact (mapping z d v use).trans (marked z d v use)

theorem mallocUserPages_samePages (settled : Settled s g) (site : Site s g role thread frame bits) {count : U32}
    (completed : mallocUserPages count s = .ok v t) : SamePages g s.phys t.phys := by
  have free := settled.lock .userPool
  unfold mallocUserPages at completed
  rw [Program.bind_ok (lockAcquire_free free)] at completed
  obtain ⟨vaddr, u, body, rest⟩ := Program.bind_completed completed
  have rep := settled.rep.setLock .userPool (heldLock s.runningThread)
  have same := mallocPages_samePages rep (site.setLock .userPool _) body
  obtain ⟨g', call⟩ := mallocPages_user rep (site.setLock .userPool _) body
  obtain ⟨w, released, -, -, phys⟩ := lockRelease_same free call.same call.rep
  rw [Program.bind_ok released] at rest
  cases rest
  rw [phys]
  exact same

theorem markPage_samePages (rep : Represents s g) (site : Site s g role thread frame bits)
    (managed : Managed vaddr) (completed : markPage .userPool vaddr s = .ok () t) : SamePages g s.phys t.phys := by
  obtain ⟨index, inside⟩ := managed.index
  have page : PageAt g s.runningThread frame := site.running ▸ site.pcb.page
  obtain ⟨b, bitsEq, pages⟩ := site.process.bitmapBits
  have nonzero := site.process.pgdir_ne rep.core.valid
  by_cases first : vaddr.toNat / 4096 - 0x8048 = 0
  · unfold markPage at completed
    rw [Program.bind_get, Program.bind_ok (page.load rep (by decide) (by decide)), if_pos ⟨nonzero, rfl⟩,
      Program.bind_ok (page.load rep (by decide) (by decide)), site.process.addrStart, index, first,
      show BitVec.slt 0 (BitVec.ofNat 32 0) = false from rfl,
      Program.bind_error (assert_false _ rep.checked)] at completed
    contradiction
  · obtain ⟨use, -, notDir⟩ := pages ((vaddr.toNat / 4096 - 0x8048) / 8 / 4096) (by omega)
    obtain ⟨u, marked, -, -, phys⟩ := markPage_set rep page nonzero site.process.addrStart bitsEq
      index (by omega) (by omega) use notDir
    rw [marked] at completed
    cases completed
    apply mark_samePages site.process
    intro x outside
    rw [phys]
    apply Function.update_of_ne
    rintro rfl
    exact outside ⟨by omega, by omega⟩

theorem getAPage_samePages (settled : Settled s g) (site : Site s g role thread frame bits)
    (managed : Managed vaddr) (completed : getAPage .userPool vaddr s = .ok v t) : SamePages g s.phys t.phys := by
  have free := settled.lock .userPool
  have inside := managed
  unfold Managed at inside
  rw [show userVaddrStart.toNat = 0x8048000 from rfl] at inside
  have rep := settled.rep.setLock .userPool (heldLock s.runningThread)
  have site' := site.setLock .userPool (heldLock s.runningThread)
  unfold getAPage at completed
  rw [Program.bind_ok (lockAcquire_free free)] at completed
  obtain ⟨⟨⟩, u, marked, rest⟩ := Program.bind_completed completed
  have call := markPage_user 32 rep site' managed marked
  have mark := markPage_samePages rep site' managed marked
  by_cases room : g.userUsed < 8 * g.userLength
  · obtain ⟨w, taken, same, after, -, frameFree, frameIn, taking, nonzero⟩ := takeUser_ok 32 call.rep room
    have rootEq : w.root = s.root := by
      rw [Site.root_same same, Site.root_same call.same]
      rfl
    have member : w.root ∈ g.takeUser.dirs := rootEq ▸ site.member
    rw [Program.bind_ok taken, if_neg nonzero] at rest
    obtain ⟨⟨⟩, x, bound, last⟩ := Program.bind_completed rest
    obtain ⟨g', same', rep', -, -, -⟩ := bindUser_completed after rfl (by omega) member frameFree frameIn
      (show 32 ≤ _ by omega) bound
    have body := (takeUser_samePages call.rep taken).trans
      (bindUser_samePages after rfl (by omega) member frameIn bound) taking
    obtain ⟨y, released, -, -, phys⟩ := lockRelease_same free ((call.same.trans same).trans same') rep'
    rw [Program.bind_ok released] at last
    cases last
    rw [phys]
    exact mark.trans body (UserGrown.refl 32 g)
  · rw [Program.bind_error (paddrGetPage_full call.rep .userPool (Nat.not_lt.mp room))] at rest
    contradiction

/-! The calls that make threads and processes use frames of the kernel's pool only. -/

/-- Behind the bitmaps and the kernel's tables, only frames of the kernel's pool that were free are written. -/
def KernelOnly (g : Layout) (m m' : ByteMemory.Memory) : Prop :=
  ∀ x, ¬ InKernelTables x → x < 4096 * (0x200 + g.kernelUsed) ∨ 4096 * (0x200 + g.kernelFree) ≤ x → m' x = m x

theorem KernelOnly.trans (first : KernelOnly g m m') (second : KernelOnly g' m' m'')
    (free : g'.kernelFree = g.kernelFree) (used : g.kernelUsed ≤ g'.kernelUsed) : KernelOnly g m m'' := by
  intro x notTables outside
  rw [second x notTables (by omega), first x notTables outside]

theorem Took.kernelOnly (took : Took s g n v t g') : KernelOnly g s.phys t.phys := by
  have room := took.room
  unfold Layout.kernelLength at room
  exact fun x notTables outside => took.outside x notTables (by omega)

/-- Writing a page of the heap that was free before. -/
theorem KernelOnly.of_frame (fresh : 0x200 + g.kernelUsed ≤ frame) (inside : frame < 0x200 + g.kernelFree)
    (other : ∀ x, x / 4096 ≠ frame → m' x = m x) : KernelOnly g m m' := by
  intro x _ outside
  exact other x (by omega)

/-- What a call leaves that makes a thread: its PCB is the next page of the heap, and its directory, if it has
    one, a page that was free. -/
structure MadeThread (s t : Machine) (g : Layout) : Prop where
  only : KernelOnly g s.phys t.phys
  all : t.threadAllList = s.threadAllList ++ [heapAddr g.heapUsed]
  pgdir : ∃ pgdir, load32 (heapAddr g.heapUsed + Pcb.pgdir) t = .ok pgdir t ∧
    (pgdir = 0 ∨ ∃ i, pgdir = heapAddr i ∧ g.heapUsed ≤ i ∧ i < 2 ^ 15)

theorem threadStart_made (settled : Settled s g) {name : List U8} {prio function funcArg : U32}
    (fits : name.length < 16) (done : threadStart name prio function funcArg s = .ok thread t)
    (success : Succeeds s t) : MadeThread s t g := by
  unfold threadStart at done
  obtain ⟨v, s₁, g', took, rest⟩ := mallocKernelPages_bind settled done (fun v =>
    (within_initThread growing _ _ _).bind growing fun _ =>
      (within_threadCreate growing _ _ _).bind growing fun _ =>
        (recording_enlist _ _).bind growing fun _ => within_pure growing _) success
  have page := took.page
  obtain ⟨s₂, initialized, written, fields⟩ := initThread_ok page took.settled.rep name prio fits
  obtain ⟨s₃, created, same₃, rep₃, other₃, kept₃, -⟩ := threadCreate_ok page written.rep fields.selfKstack
    function funcArg
  rw [Program.bind_ok initialized, Program.bind_ok created] at rest
  obtain ⟨_, s₄, listed, last⟩ := Program.bind_completed rest
  cases last
  have lists := enlist_completed listed
  have phys : t.phys = s₃.phys := by rw [lists]
  have room := took.room
  have positive := took.positive
  unfold Layout.kernelLength at room
  constructor
  · rw [phys]
    apply @KernelOnly.trans g g s.phys s₁.phys s₃.phys took.kernelOnly _ rfl le_rfl
    apply KernelOnly.of_frame le_rfl (by omega)
    intro x elsewhere
    rw [other₃ x elsewhere, written.other (by decide) x elsewhere]
  · rw [lists]
    change s₃.threadAllList ++ [thread] = _
    rw [same₃, written.same, took.granted, took.address]
  · have settled₃ := (took.settled.same written.same written.rep).same same₃ rep₃
    have loaded := page.load (settled₃.enlisted listed).rep (o := Pcb.pgdir) (by decide) (by decide)
    rw [phys, kept₃ _ (by decide) (by decide), fields.kernel.pgdir, took.address] at loaded
    exact ⟨0, loaded, .inl rfl⟩

theorem createUserVaddrBitmap_elsewhere (settled : Settled s g) (page : PageAt g thread frame)
    (done : createUserVaddrBitmap thread s = .ok () t) (success : Succeeds s t) {x : Nat}
    (notTables : ¬ InKernelTables x) (elsewhere : x / 4096 ≠ frame)
    (outside : x < 4096 * (0x200 + g.kernelUsed) ∨ 4096 * (0x200 + g.kernelFree) ≤ x) : t.phys x = s.phys x := by
  obtain ⟨s₁, stored, w₁, -⟩ := page.writeWord settled.rep Pcb.addrStart userVaddrStart (by decide) (by decide)
  have settled₁ := settled.same w₁.same w₁.rep
  have call : createUserVaddrBitmap thread s = (mallocKernelPages (BitVec.ofNat 32 23) >>= bitmapEnd thread) s₁ := by
    unfold createUserVaddrBitmap
    rw [Program.bind_ok stored]
    rfl
  rw [call] at done
  have success₁ : Succeeds s₁ t := by
    have record : s₁.granted = s.granted := by rw [w₁.same]
    unfold Succeeds
    rw [record]
    exact success
  obtain ⟨b, s₂, g', took, rest⟩ := mallocKernelPages_bind settled₁ done (recording_bitmapEnd thread) success₁
  have page₂ := page.took settled₁.rep.core.valid took
  obtain ⟨s₃, bits, w₃, bitsField⟩ := page₂.writeWord took.settled.rep Pcb.bitmapBits b (by decide) (by decide)
  obtain ⟨s₄, length, w₄, lengthField⟩ := page₂.writeWord w₃.rep Pcb.bitmapLength
    ((0xc0000000 - userVaddrStart) / pgSize / 8) (by decide) (by decide)
  have bitmap := userBitmap_ok w₄.rep page₂
  rw [lengthField, w₄.field (.inr (by decide)), bitsField] at bitmap
  have pages := took.allocated.pages
  rw [took.mapped] at pages
  have twenty : (BitVec.ofNat 32 23 : U32).toNat = 23 := rfl
  rw [twenty] at pages
  have small := w₄.rep.core.valid.heap_small (pages 0 (by omega)).1
  obtain ⟨u, cleared, -, -, -, outside₅⟩ := memset_heap w₄.rep pages (by omega) 94199 (by decide)
  unfold bitmapEnd at rest
  rw [Program.bind_ok bits, Program.bind_ok length, Program.bind_ok bitmap] at rest
  have done₅ : bitmapInit ⟨(0xc0000000 - userVaddrStart) / pgSize / 8, b⟩ s₄ = .ok () u := by
    rw [took.address]
    exact cleared
  rw [done₅] at rest
  cases rest
  have room := took.room
  unfold Layout.kernelLength at room
  rw [outside₅ x (by omega), w₄.other (by decide) x elsewhere, w₃.other (by decide) x elsewhere,
    took.outside x notTables (by omega), w₁.other (by decide) x elsewhere]

theorem processExecute_made (settled : Settled s g) {filename : U32} {name : List U8}
    (fits : name.length < 16) (done : processExecute filename name s = .ok () t) (success : Succeeds s t) :
    MadeThread s t g := by
  unfold processExecute at done
  obtain ⟨v, s₁, g₁, took, rest⟩ := mallocKernelPages_bind settled done (fun v =>
    (within_initThread growing _ _ _).bind growing fun _ =>
      (recording_createUserVaddrBitmap _).bind growing fun _ => within_get fun _ => recording_ending _ _ _) success
  obtain ⟨success₀, success₁⟩ := success.split (u := s₁) (by rw [took.granted]; exact List.prefix_append _ _)
    (((within_initThread growing _ _ _).bind growing fun _ =>
      (recording_createUserVaddrBitmap _).bind growing fun _ => within_get fun _ => recording_ending _ _ _)
        _ _ _ rest)
  have page := took.page
  obtain ⟨s₂, initialized, written, fields⟩ := initThread_ok page took.settled.rep name 31 fits
  have settled₂ := took.settled.same written.same written.rep
  rw [Program.bind_ok initialized] at rest
  obtain ⟨_, s₃, bitmapped, rest₃⟩ := Program.bind_completed rest
  rw [Program.bind_get] at rest₃
  have success₂ : Succeeds s₂ t := by
    have record : s₂.granted = s₁.granted := by rw [written.same]
    unfold Succeeds
    rw [record]
    exact success₁
  obtain ⟨success₃, success₄⟩ := success₂.split (recording_createUserVaddrBitmap _ _ _ _ bitmapped)
    (recording_ending _ _ _ _ _ _ rest₃)
  obtain ⟨g₂, bitmap⟩ := createUserVaddrBitmap_completed settled₂ page bitmapped success₃
  have extended₂ : Extends g₁ g₂ (fun _ => .other) (fun _ => .other) :=
    bitmap.allocated.extends took.settled.rep.core.valid fun _ _ => rfl
  have page₃ := page.keep extended₂
  have stack := bitmap.selfKstack.trans fields.selfKstack
  obtain ⟨s₄, created, same₄, rep₄, other₄, kept₄, -⟩ := threadCreate_ok page₃ bitmap.settled.rep stack
    s₃.symbols.startProcess filename
  rw [Program.bind_ok created] at rest₃
  have settled₄ := bitmap.settled.same same₄ rep₄
  obtain ⟨dirAddr, s₅, directory, rest₅⟩ := Program.bind_completed rest₃
  have success₅ : Succeeds s₄ t := by
    have record : s₄.granted = s₃.granted := by rw [same₄]
    unfold Succeeds
    rw [record]
    exact success₄
  have last := ((within_store32 growing _ _).bind growing fun _ => recording_enlist _ _) _ _ _ rest₅
  obtain ⟨g₃, address, made₅, settled₅, allocated₃, outside₅⟩ := createPageDir_completed settled₄ directory
    (success₅.split (recording_createPageDir _ _ _ directory) last).1
  have page₅ := page₃.keep (allocated₃.extends_dir settled₄.rep.core.valid fun _ => .other)
  obtain ⟨s₆, stored, w₆, pgdirField⟩ := page₅.writeWord settled₅.rep Pcb.pgdir dirAddr (by decide) (by decide)
  rw [Program.bind_ok stored] at rest₅
  have lists := enlist_completed rest₅
  have phys : t.phys = s₆.phys := by rw [lists]
  have used₁ : g₁.kernelUsed = g.kernelUsed + 1 := took.allocated.grown.kernelUsed
  have used₂ : g₂.kernelUsed = g₁.kernelUsed + 23 := bitmap.allocated.grown.kernelUsed
  have used₃ : g₃.kernelUsed = g₂.kernelUsed + 1 := allocated₃.grown.kernelUsed
  have free₁ : g₁.kernelFree = g.kernelFree := took.allocated.grown.lengths.1
  have free₂ : g₂.kernelFree = g₁.kernelFree := bitmap.allocated.grown.lengths.1
  have free₃ : g₃.kernelFree = g₂.kernelFree := allocated₃.grown.lengths.1
  have room : g₃.kernelUsed ≤ 8 * g₃.kernelLength := settled₅.rep.core.valid.kernelUsed
  unfold Layout.kernelLength at room
  constructor
  · intro x notTables outside
    rw [phys, w₆.other (by decide) x (by omega), outside₅ x notTables (by omega), other₄ x (by omega),
      createUserVaddrBitmap_elsewhere settled₂ page bitmapped success₃ notTables (by omega) (by omega),
      written.other (by decide) x (by omega), took.kernelOnly x notTables outside]
  · have made := ((took.granted.made.trans written.same.made).trans bitmap.made).trans
      ((same₄.made.trans made₅).trans w₆.same.made)
    rw [lists]
    change s₆.threadAllList ++ [v] = _
    rw [made, took.address]
  · have heap₁ : g₁.heapUsed = g.heapUsed + 1 := took.allocated.grown.heapUsed
    have heap₂ : g₂.heapUsed = g₁.heapUsed + 23 := bitmap.allocated.grown.heapUsed
    have mapped : g₃.heapMapped = g₃.heapUsed := settled₅.mapped
    have heap₃ : g₃.heapUsed = g₂.heapUsed + 1 := allocated₃.grown.heapUsed
    have few : g₃.heapMapped ≤ g₃.kernelUsed := settled₅.rep.core.valid.heapMapped
    have small : g₃.kernelFree < 2 ^ 15 := settled₅.rep.core.valid.kernelFree
    have settled₆ := settled₅.same w₆.same w₆.rep
    have loaded := page₅.load (settled₆.enlisted rest₅).rep (o := Pcb.pgdir) (by decide) (by decide)
    rw [phys, pgdirField, address, took.address] at loaded
    exact ⟨_, loaded, .inr ⟨g₂.heapUsed, rfl, by omega, by omega⟩⟩

end LiziOS.Memory
