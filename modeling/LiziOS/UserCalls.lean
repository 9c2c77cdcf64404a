import LiziOS.ThreadPages

namespace LiziOS.Memory

open ByteMemory Paging

/-! `malloc_user_pages` and `get_a_page`, called by a process on its own directory. -/

variable {s t : Machine} {g g' : Layout} {m m' : ByteMemory.Memory} {role : Nat → Role}
  {thread : U32} {frame dir bits n low : Nat}

/-- What such a call leaves: data pages change only where the caller's bitmap is. -/
structure UserCall (low : Nat) (s t : Machine) (g g' : Layout) (bits : Nat) : Prop where
  same : Same s t
  rep : Represents t g'
  grown : UserGrown low g g'
  data : ∀ x, g.Data (x / 4096) → ¬ (bits ≤ x / 4096 ∧ x / 4096 < bits + 23) → t.phys x = s.phys x

theorem UserCall.of_mark (same : Same s t) (rep : Represents t g) (changed : SameBut bits s.phys t.phys) :
    UserCall low s t g g bits := ⟨same, rep, UserGrown.refl low g, fun x _ outside => changed x outside⟩

theorem UserCall.after {u : Machine} (first : UserCall low s t g g bits) (same : Same t u)
    (rep : Represents u g') (grown : UserGrown low g g') (data : SameData g t.phys u.phys) :
    UserCall low s u g g' bits :=
  ⟨first.same.trans same, rep, grown, fun x isData outside =>
    (data x isData).trans (first.data x isData outside)⟩

/-- The thread that runs is the process, and the active directory is its own. -/
structure Site (s : Machine) (g : Layout) (role : Nat → Role) (thread : U32) (frame bits : Nat) : Prop where
  running : s.runningThread = thread
  pcb : PcbAt g role thread frame
  process : Process s.phys g role frame s.root bits

theorem Site.member (site : Site s g role thread frame bits) : s.root ∈ g.dirs := by
  obtain ⟨i, -, -, member⟩ := site.process.pgdir
  exact member

theorem Site.root_same (same : Same s t) : t.root = s.root := Represents.root_eq same.configured

/-- A bitmap of 94199 bytes covers the user half from `USER_VADDR_START` on, and the bit behind it. -/
theorem user_search (rep : Represents s g) (site : Site s g role thread frame bits) {count : U32}
    (positive : 0 < count.toNat) {r : U32}
    (requested : bitmapRequestBits
      ⟨field s.phys frame Pcb.bitmapLength, field s.phys frame Pcb.bitmapBits⟩ count s = .ok r t) :
    t = s ∧ (r = -1 ∨ ∃ found, r = BitVec.ofNat 32 found ∧ found + count.toNat ≤ 753593 ∧
        found < 753592) := by
  obtain ⟨b, bitsEq, pages⟩ := site.process.bitmapBits
  have reads := rep.page_reads 94199 (fun j less => (pages j less).1) (by omega)
  have length : (94199 : U32).toNat = 94199 := rfl
  rw [← length] at reads
  rw [site.process.bitmapLength, bitsEq, bitmapRequestBits_eq, rep.checked] at requested
  have outcome : requestBits false (fun i => peek s (heapAddr b + i)) 94199 count = .ok r ∧ t = s := by
    split at requested
    · rename_i start searched
      cases requested
      exact ⟨searched, rfl⟩
    · contradiction
  refine ⟨outcome.2, ?_⟩
  rcases requestBits_first reads (by rw [length]; omega) with ⟨-, full⟩ | ⟨first, inside, clear, -, search⟩
  · rw [full] at outcome
    simp at outcome
  · by_cases one : count = 1
    · right
      rw [search, if_pos one] at outcome
      refine ⟨first, (Except.ok.inj outcome.1).symm, ?_, by omega⟩
      rw [one, show (1 : U32).toNat = 1 from rfl]
      omega
    · have several : 1 < count.toNat := by
        by_contra few
        apply one
        apply BitVec.eq_of_toNat_eq
        rw [show (1 : U32).toNat = 1 from rfl]
        omega
      rcases requestBits_run reads (by rw [length]; omega) several false inside clear with
        ⟨found, result, fits, -, -⟩ | ⟨result, -⟩
      · right
        rw [result] at outcome
        exact ⟨found, (Except.ok.inj outcome.1).symm, by omega, by omega⟩
      · left
        rw [result] at outcome
        exact (Except.ok.inj outcome.1).symm

theorem vaddrGetPages_user (rep : Represents s g) (site : Site s g role thread frame bits) {count v : U32}
    (positive : 0 < count.toNat) (completed : vaddrGetPages .userPool count s = .ok v t) :
    (v = 0 ∧ t = s) ∨ ∃ found, v = pageAddr (0x8048 + found) ∧ found + count.toNat ≤ 753593 ∧
      found < 753592 ∧ UserCall 32 s t g g bits := by
  simp only [vaddrGetPages] at completed
  rw [Program.bind_get, site.running, Program.bind_ok (userBitmap_ok rep site.pcb.page)] at completed
  obtain ⟨r, u, requested, rest⟩ := Program.bind_completed completed
  obtain ⟨rfl, none | ⟨found, rfl, fits, inside⟩⟩ := user_search rep site positive requested
  · left
    rw [if_pos none] at rest
    cases rest
    exact ⟨rfl, rfl⟩
  · right
    have some_ : BitVec.ofNat 32 found ≠ (-1 : U32) := by
      intro eq
      have numbers := congrArg BitVec.toNat eq
      rw [BitVec.toNat_ofNat, show (-1 : U32).toNat = 4294967295 from rfl] at numbers
      omega
    obtain ⟨w, marked, same, after, process, changed⟩ :=
      markBits_user rep site.pcb site.process found count.toNat (by omega)
    have bound : BitVec.ofNat 32 found + count = BitVec.ofNat 32 (found + count.toNat) := by
      rw [BitVec.ofNat_add]
      simp
    rw [if_neg some_, bound, Program.bind_ok marked,
      Program.bind_ok (site.pcb.page.load after (by decide) (by decide)), process.addrStart] at rest
    obtain ⟨⟨⟩, x, asserted, returned⟩ := Program.bind_completed rest
    have unchanged : x = w := by
      unfold Memory.assert at asserted
      split at asserted
      · cases asserted
        rfl
      · contradiction
    cases returned
    subst unchanged
    refine ⟨found, ?_, fits, inside, UserCall.of_mark same after changed⟩
    unfold pageAddr userVaddrStart
    rw [Nat.mul_add, BitVec.ofNat_add, BitVec.ofNat_mul, BitVec.ofNat_mul 4096 found,
        BitVec.mul_comm _ pgSize]
    rfl

theorem mallocPages_user (rep : Represents s g) (site : Site s g role thread frame bits) {count v : U32}
    (completed : mallocPages .userPool count s = .ok v t) : ∃ g', UserCall 32 s t g g' bits := by
  unfold mallocPages at completed
  obtain ⟨⟨⟩, u, asserted, checked⟩ := Program.bind_completed completed
  have argument : u = s ∧ 0 < count.toNat ∧ count.toNat < 3840 := by
    unfold Memory.assert at asserted
    split at asserted
    · rename_i inside
      cases asserted
      rw [rep.checked, Bool.false_or, decide_eq_true_iff, BitVec.lt_def, BitVec.lt_def] at inside
      exact ⟨rfl, inside⟩
    · contradiction
  obtain ⟨rfl, positive, few⟩ := argument
  obtain ⟨vaddr, w, got, rest⟩ := Program.bind_completed checked
  rcases vaddrGetPages_user rep site positive got with ⟨rfl, rfl⟩ | ⟨found, rfl, fits, inside, call⟩
  · rw [if_pos rfl] at rest
    cases rest
    exact ⟨g, UserCall.of_mark rfl rep fun _ _ => rfl⟩
  · have nonzero : pageAddr (0x8048 + found) ≠ 0 := by
      intro zero
      have value := pageAddr_toNat (v := 0x8048 + found) (by omega)
      rw [zero, show (0 : U32).toNat = 0 from rfl] at value
      omega
    rw [if_neg nonzero] at rest
    obtain ⟨mapped, x, looped, rest'⟩ := Program.bind_completed rest
    have rootEq := Site.root_same call.same
    obtain ⟨g', rfl, same, rep', grown, data, pages, top⟩ := mapPages_user 32 call.rep
      (by rw [rootEq]; exact site.member) (0x8048 + found) count.toNat (by omega)
      (by omega) looped
    have rootEq' := Site.root_same same
    obtain ⟨y, cleared, same', rep'', data'⟩ := memset_user rep'
      (0x200 + g.kernelFree + g.userUsed) (0x8048 + found) count.toNat
      (by rw [rootEq']; exact pages) (by omega) (top positive)
    have bytes : (count * pgSize).toNat = 4096 * count.toNat := by
      rw [BitVec.toNat_mul, show pgSize.toNat = 4096 from rfl]
      omega
    rw [if_pos rfl, bytes, Program.bind_ok cleared] at rest'
    cases rest'
    exact ⟨g', call.after (same.trans same') rep'' grown (data.trans data' fun _ => grown.data)⟩

theorem Same.lock {type : PoolType} (same : Same s t) : (t.pool type).lock = (s.pool type).lock := by
  unfold Same at same
  rw [same]
  cases type <;> rfl

theorem Settled.after (settled : Settled s g) (same : Same s t) (rep : Represents t g')
    (grown : UserGrown low g g') : Settled t g' where
  rep := rep
  mapped := by rw [grown.heapMapped, grown.heapUsed, settled.mapped]
  lock type := by rw [same.lock, settled.lock]

theorem Site.setLock (site : Site s g role thread frame bits) (type : PoolType) (lock : Lock U32) :
    Site (s.setLock type lock) g role thread frame bits := by
  cases type <;> exact ⟨site.running, site.pcb, site.process⟩

theorem setLock_phys (s : Machine) (type : PoolType) (lock : Lock U32) :
    (s.setLock type lock).phys = s.phys := by
  cases type <;> rfl

/-- The locked body of a call, and the call. -/
theorem UserCall.unlock {type : PoolType} (free : (s.pool type).lock = lockInit)
    (call : UserCall low (s.setLock type (heldLock s.runningThread)) t g g' bits) :
    ∃ u, lockRelease type t = .ok () u ∧ UserCall low s u g g' bits := by
  obtain ⟨u, released, same, rep, phys⟩ := lockRelease_same free call.same call.rep
  refine ⟨u, released, same, rep, call.grown, fun x data outside => ?_⟩
  rw [phys, call.data x data outside, setLock_phys]

theorem mallocUserPages_completed (settled : Settled s g) (site : Site s g role thread frame bits)
    {count v : U32} (completed : mallocUserPages count s = .ok v t) :
    ∃ g', UserCall 32 s t g g' bits ∧ Settled t g' := by
  have free := settled.lock .userPool
  unfold mallocUserPages at completed
  rw [Program.bind_ok (lockAcquire_free free)] at completed
  obtain ⟨vaddr, u, body, rest⟩ := Program.bind_completed completed
  obtain ⟨g', call⟩ := mallocPages_user (settled.rep.setLock .userPool _) (site.setLock .userPool _) body
  obtain ⟨w, released, call'⟩ := call.unlock free
  rw [Program.bind_ok released] at rest
  cases rest
  exact ⟨g', call', settled.after call'.same call'.rep call'.grown⟩

/-- A kernel thread has no bitmap to search. -/
theorem mallocUserPages_kernel (settled : Settled s g) (pcb : PcbAt g role s.runningThread frame)
    (kernel : KernelThread s.phys frame) (count : U32) : ∃ fault t, mallocUserPages count s =
        .error fault t := by
  have free := settled.lock .userPool
  have locked := settled.rep.setLock .userPool (heldLock s.runningThread)
  cases result : mallocUserPages count s with
  | error fault t => exact ⟨fault, t, rfl⟩
  | ok v t =>
    unfold mallocUserPages mallocPages at result
    rw [Program.bind_ok (lockAcquire_free free)] at result
    obtain ⟨vaddr, u, body, -⟩ := Program.bind_completed result
    obtain ⟨⟨⟩, w, asserted, rest⟩ := Program.bind_completed body
    have unchanged : w = s.setLock .userPool (heldLock s.runningThread) := by
      unfold Memory.assert at asserted
      split at asserted
      · cases asserted
        rfl
      · contradiction
    subst unchanged
    obtain ⟨start, x, got, -⟩ := Program.bind_completed rest
    simp only [vaddrGetPages] at got
    rw [Program.bind_get] at got
    have bitmap := userBitmap_ok locked pcb.page
    rw [show (s.setLock .userPool (heldLock s.runningThread)).runningThread = s.runningThread from rfl,
      Program.bind_ok bitmap] at got
    obtain ⟨r, y, requested, -⟩ := Program.bind_completed got
    rw [setLock_phys, kernel.bitmapLength, bitmapRequestBits_eq, locked.checked] at requested
    have empty (read : U32 → Except Fault U8) : ∃ fault, requestBits false read 0 count = .error fault := by
      unfold requestBits
      rw [skipFull]
      cases read 0 with
      | error fault => exact ⟨fault, rfl⟩
      | ok byte =>
        simp only [bind, Except.bind]
        rw [dif_neg (by rw [BitVec.lt_def]; omega)]
        exact ⟨.panic .bitmapRequestBits, rfl⟩
    obtain ⟨fault, failed⟩ := empty fun i => peek (s.setLock .userPool (heldLock s.runningThread))
      (field s.phys frame Pcb.bitmapBits + i)
    rw [failed] at requested
    contradiction

/-! `get_a_page`. -/

/-- The mark, wherever the caller's bitmap and the address put it. -/
theorem markPage_set (rep : Represents s g) (page : PageAt g s.runningThread frame)
    (process : field s.phys frame Pcb.pgdir ≠ 0)
    (start : field s.phys frame Pcb.addrStart = userVaddrStart) {vaddr : U32} {b i f : Nat}
    (bitmapBits : field s.phys frame Pcb.bitmapBits = heapAddr b)
    (index : (vaddr - userVaddrStart) / pgSize = BitVec.ofNat 32 i) (positive : 0 < i) (small : i < 2 ^ 31)
    (use : g.use f = .heap (b + i / 8 / 4096)) (notDir : f ∉ g.dirs) :
    ∃ t, markPage .userPool vaddr s = .ok () t ∧ Same s t ∧ Represents t g ∧
      t.phys = Function.update s.phys (4096 * f + i / 8 % 4096)
        (s.phys (4096 * f + i / 8 % 4096) ||| (1 : U8) <<< (i % 8)) := by
  obtain ⟨t, set, same, after, phys⟩ := rep.page_set (field s.phys frame Pcb.bitmapLength) use notDir
    (by omega)
  refine ⟨t, ?_, same, after, phys⟩
  have inside : BitVec.slt 0 (BitVec.ofNat 32 i) = true := by
    rw [BitVec.slt_iff_toInt_lt, BitVec.toInt_ofNat', Int.bmod_eq_of_le (by omega) (by omega)]
    simpa using positive
  unfold markPage
  rw [Program.bind_get, Program.bind_ok (page.load rep (by decide) (by decide)), if_pos ⟨process, rfl⟩,
    Program.bind_ok (page.load rep (by decide) (by decide)), start, index, inside,
    Program.bind_ok (assert_true _ s), Program.bind_ok (userBitmap_ok rep page), bitmapBits]
  exact set

theorem Process.pgdir_ne (process : Process m g role frame dir bits) (valid : g.Valid) :
    field m frame Pcb.pgdir ≠ 0 := by
  obtain ⟨i, eq, use, -⟩ := process.pgdir
  obtain ⟨inside, short⟩ := valid.heap_small use
  intro zero
  have value := heapAddr_toNat (i := i) (by omega)
  rw [← eq, zero, show (0 : U32).toNat = 0 from rfl] at value
  omega

/-- An address of the part of the user half that the bitmap is for. -/
def Managed (vaddr : U32) : Prop := userVaddrStart.toNat ≤ vaddr.toNat ∧ vaddr.toNat < 0xc0000000

theorem Managed.index {vaddr : U32} (managed : Managed vaddr) :
    (vaddr - userVaddrStart) / pgSize = BitVec.ofNat 32 (vaddr.toNat / 4096 - 0x8048) ∧
      vaddr.toNat / 4096 - 0x8048 < 753592 := by
  obtain ⟨above, below⟩ := managed
  rw [show userVaddrStart.toNat = 0x8048000 from rfl] at above
  refine ⟨BitVec.eq_of_toNat_eq ?_, by omega⟩
  rw [BitVec.toNat_udiv, BitVec.toNat_sub_of_le (by rw [BitVec.le_def]; exact above), BitVec.toNat_ofNat,
    show pgSize.toNat = 4096 from rfl, show userVaddrStart.toNat = 0x8048000 from rfl]
  omega

theorem markPage_user (low : Nat) (rep : Represents s g)
    (site : Site s g role thread frame bits) {vaddr : U32}
    (managed : Managed vaddr) (completed : markPage .userPool vaddr s = .ok () t) :
    UserCall low s t g g bits := by
  obtain ⟨index, inside⟩ := managed.index
  have page : PageAt g s.runningThread frame := by
    rw [site.running]
    exact site.pcb.page
  obtain ⟨b, bitsEq, pages⟩ := site.process.bitmapBits
  have nonzero := site.process.pgdir_ne rep.core.valid
  by_cases first : vaddr.toNat / 4096 - 0x8048 = 0
  · unfold markPage at completed
    rw [Program.bind_get, Program.bind_ok (page.load rep (by decide) (by decide)), if_pos ⟨nonzero, rfl⟩,
      Program.bind_ok (page.load rep (by decide) (by decide)), site.process.addrStart, index, first,
      show BitVec.slt 0 (BitVec.ofNat 32 0) = false from rfl,
      Program.bind_error (assert_false _ rep.checked)] at completed
    contradiction
  · obtain ⟨use, -, notDir⟩ := pages ((vaddr.toNat / 4096 - 0x8048) / 8 / 4096) (by omega)
    obtain ⟨u, marked, same, after, phys⟩ := markPage_set rep page nonzero site.process.addrStart bitsEq
      index (by omega) (by omega) use notDir
    rw [marked] at completed
    cases completed
    refine UserCall.of_mark same after fun x outside => ?_
    rw [phys]
    apply Function.update_of_ne
    rintro rfl
    exact outside ⟨by omega, by omega⟩

theorem getAPage_marked (settled : Settled s g) (member : s.root ∈ g.dirs) {vaddr : U32} {u : Machine}
    (marked : markPage .userPool vaddr (s.setLock .userPool (heldLock s.runningThread)) = .ok () u)
    (call : UserCall low (s.setLock .userPool (heldLock s.runningThread)) u g g bits)
    (small : vaddr.toNat / 4096 < 768 * 1024) (above : low ≤ vaddr.toNat / 4096 / 1024) {v : U32}
        (completed : getAPage .userPool vaddr s = .ok v t) :
    ∃ g', UserCall low s t g g' bits ∧ Settled t g' := by
  have free := settled.lock .userPool
  unfold getAPage at completed
  rw [Program.bind_ok (lockAcquire_free free), Program.bind_ok marked] at completed
  by_cases room : g.userUsed < 8 * g.userLength
  · obtain ⟨w, taken, same, after, data, frameFree, inside, taking, nonzero⟩ := takeUser_ok low call.rep room
    have rootEq : w.root = s.root := by
      rw [Site.root_same same, Site.root_same call.same]
      rfl
    rw [Program.bind_ok taken, if_neg nonzero] at completed
    obtain ⟨⟨⟩, x, bound, rest⟩ := Program.bind_completed completed
    obtain ⟨g', same', rep', mapped, data', -⟩ := bindUser_completed after rfl (by omega)
      (by rw [rootEq]; exact member) frameFree inside above bound
    have grown := taking.trans mapped.grown
    have whole := call.after (same.trans same') rep' grown (data.trans data' fun _ => taking.data)
    obtain ⟨y, released, call'⟩ := whole.unlock free
    rw [Program.bind_ok released] at rest
    cases rest
    exact ⟨g', call', settled.after call'.same call'.rep call'.grown⟩
  · rw [Program.bind_error (paddrGetPage_full call.rep .userPool (Nat.not_lt.mp room))] at completed
    contradiction

theorem getAPage_completed (settled : Settled s g) (site : Site s g role thread frame bits) {vaddr v : U32}
    (managed : Managed vaddr) (completed : getAPage .userPool vaddr s = .ok v t) :
    ∃ g', UserCall 32 s t g g' bits ∧ Settled t g' := by
  have free := settled.lock .userPool
  have inside := managed
  unfold Managed at inside
  rw [show userVaddrStart.toNat = 0x8048000 from rfl] at inside
  cases marked : markPage .userPool vaddr (s.setLock .userPool (heldLock s.runningThread)) with
  | error fault u =>
    unfold getAPage at completed
    rw [Program.bind_ok (lockAcquire_free free), Program.bind_error marked] at completed
    contradiction
  | ok result u =>
    have call := markPage_user 32 (settled.rep.setLock .userPool _) (site.setLock .userPool _) managed
      marked
    exact getAPage_marked settled site.member marked call (by omega) (by omega) completed

/-- A kernel thread may not ask for a user page. -/
theorem getAPage_kernel (settled : Settled s g) (page : PageAt g s.runningThread frame)
    (kernel : KernelThread s.phys frame) (vaddr : U32) :
    ∃ fault t, getAPage .userPool vaddr s = .error fault t := by
  have locked := settled.rep.setLock .userPool (heldLock s.runningThread)
  have load := page.load locked (o := Pcb.pgdir) (by decide) (by decide)
  rw [setLock_phys, kernel.pgdir] at load
  refine ⟨.panic .getAPage, s.setLock .userPool (heldLock s.runningThread), ?_⟩
  unfold getAPage markPage
  rw [Program.bind_ok (lockAcquire_free (settled.lock .userPool))]
  apply Program.bind_error
  rw [Program.bind_get]
  exact Program.bind_ok load

/-- With a frame for the page and one for its table, the call completes. -/
theorem getAPage_completes (settled : Settled s g) (member : s.root ∈ g.dirs) {vaddr : U32} {u : Machine}
    (marked : markPage .userPool vaddr (s.setLock .userPool (heldLock s.runningThread)) = .ok () u)
    (same : Same (s.setLock .userPool (heldLock s.runningThread)) u) (rep : Represents u g)
    (small : vaddr.toNat / 4096 < 768 * 1024) (room : g.userUsed < 8 * g.userLength)
    (tableRoom : g.kernelUsed < 8 * g.kernelLength)
    (unmapped : g.slot s.root (vaddr.toNat / 4096 / 1024) = .absent)
    (above : low ≤ vaddr.toNat / 4096 / 1024) :
    ∃ t g', getAPage .userPool vaddr s = .ok vaddr t ∧ Same s t ∧ Settled t g' ∧ UserGrown low g g' ∧
      SameData g u.phys t.phys ∧ g'.kernelUsed = g.kernelUsed + 1 ∧ g'.userUsed = g.userUsed + 1 := by
  have free := settled.lock .userPool
  obtain ⟨w, taken, same₁, after, data, frameFree, inside, taking, nonzero⟩ := takeUser_ok low rep room
  have rootEq : w.root = s.root := by
    rw [Site.root_same same₁, Site.root_same same]
    rfl
  obtain ⟨x, g', bound, same₂, rep₂, mapped, data₂, used⟩ := bindUser_new after rfl small
    (by rw [rootEq]; exact member) frameFree inside (by rw [rootEq]; exact unmapped) tableRoom
    above
  obtain ⟨y, released, same₃, rep₃, phys⟩ := lockRelease_same free ((same.trans same₁).trans same₂) rep₂
  have grown := taking.trans mapped.grown
  refine ⟨y, g', ?_, same₃, settled.after same₃ rep₃ grown, grown, fun x isData => ?_, used, mapped.userUsed⟩
  · unfold getAPage
    rw [Program.bind_ok (lockAcquire_free free), Program.bind_ok marked, Program.bind_ok taken,
      if_neg nonzero, Program.bind_ok bound, Program.bind_ok released]
    rfl
  · rw [phys, data₂ x (taking.data isData), data x isData]

end LiziOS.Memory
