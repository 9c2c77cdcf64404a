import LiziOS.Memory
import LiziOS.Library.Transition
import Mathlib.Data.List.Nodup

namespace LiziOS.Preemption

open Memory (pgSize)
open ByteMemory (bit bit_set)

/-! A thread in `malloc_kernel_pages` and another one, a process, in `malloc_user_pages` or `get_a_page`,
with a clock interrupt between any two steps. A step is a lock operation, a search or a change of a
bitmap, or the statements up to the next one of these. -/

/-- The bytes of a bitmap, and of what lies behind it. -/
structure Bits where
  length : U32
  bytes : Nat → U8

def bitmapRequestBits (bitmap : Bits) (n : U32) : Except Fault U32 :=
  requestBits false (fun i => .ok (bitmap.bytes i.toNat)) bitmap.length n

/-- `bitmap_set_bit` for the value 1. -/
def bitmapSetBit (bitmap : Bits) (bitIndex : U32) : Bits :=
  { bitmap with
    bytes := Function.update bitmap.bytes (bitIndex.toNat / 8)
      (bitmap.bytes (bitIndex.toNat / 8) ||| (1 : U8) <<< (bitIndex.toNat % 8)) }

inductive Thread where
  | kernel | user
  deriving DecidableEq

/-- The pool whose lock the thread takes. -/
def Thread.pool : Thread → PoolType
  | .kernel => .kernelPool
  | .user => .userPool

structure Pool where
  phyAddrStart : U32
  poolBitmap : Bits
  lock : Lock Thread

structure VirtualAddr where
  addrStart : U32
  addrBitmap : Bits

inductive Call where
  | mallocPages (count : U32)
  | getAPage (vaddr : U32)

/-- What is left of a call: the next page, `cnt`, and whether the call is `get_a_page`. -/
structure Rest where
  vaddr : U32
  cnt : U32
  single : Bool

inductive Pc where
  | idle
  | acquire (call : Call)
  | request (count : U32)
  | markPages (bitIndexStart i count : U32)
  | markPage (vaddr : U32)
  /-- in `paddr_get_page` of the thread's own pool: before the search, and before the mark -/
  | search (rest : Rest)
  | mark (rest : Rest) (bitIdx : U32)
  | bind (rest : Rest) (pagePhyaddr : U32)
  /-- in the `paddr_get_page` of `bind_vaddr_paddr_page`, for a page table -/
  | tableSearch (rest : Rest) (pagePhyaddr : U32)
  | tableMark (rest : Rest) (pagePhyaddr bitIdx : U32)
  | release

structure State where
  pool : PoolType → Pool
  vaddr : Thread → VirtualAddr
  /-- present directory entries and present pages: of the kernel half (`none`) and of each user half -/
  pde : Option Thread → Nat → Bool
  pte : Option Thread → Nat → Bool
  pc : Thread → Pc
  /-- the frames that `paddr_get_page` has returned -/
  handed : List (PoolType × U32)

namespace State

def goto (s : State) (w : Thread) (pc : Pc) : State := { s with pc := Function.update s.pc w pc }

def setPool (s : State) (type : PoolType) (pool : Pool) : State :=
  { s with pool := Function.update s.pool type pool }

def half (w : Thread) (vaddr : U32) : Option Thread := if vaddr < 0xc0000000 then some w else none

/-- The frame of a bit of a pool's bitmap. -/
def frame (s : State) (type : PoolType) (bitIdx : U32) : U32 :=
  (s.pool type).phyAddrStart + pgSize * bitIdx

/-- The end of `paddr_get_page`: the bit is set and the frame returned. -/
def take (s : State) (type : PoolType) (bitIdx : U32) : State :=
  { s.setPool type { s.pool type with poolBitmap := bitmapSetBit (s.pool type).poolBitmap bitIdx } with
    handed := s.handed ++ [(type, s.frame type bitIdx)] }

/-- The thread goes on behind the page that it has mapped. -/
def nextPage (rest : Rest) : Pc :=
  if rest.single then .release else .search { rest with vaddr := rest.vaddr + pgSize, cnt := rest.cnt - 1 }

/-- A call that has got no frame. Only `malloc_pages` returns to a caller that releases the lock. -/
def noFrame (rest : Rest) : Pc := if rest.single then .idle else .release

def setPte (s : State) (w : Thread) (vaddr : U32) : State :=
  { s with
    pte := Function.update s.pte (half w vaddr)
      (Function.update (s.pte (half w vaddr)) (vaddr.toNat / 4096) true) }

/-- The new page table is cleared and gets its first entry. -/
def setPde (s : State) (w : Thread) (vaddr : U32) : State :=
  let cleared : State := { s with
    pde := Function.update s.pde (half w vaddr)
      (Function.update (s.pde (half w vaddr)) (vaddr.toNat / 4194304) true)
    pte := Function.update s.pte (half w vaddr) fun page =>
      if page / 1024 = vaddr.toNat / 4194304 then false else s.pte (half w vaddr) page }
  cleared.setPte w vaddr

def step (s : State) (w : Thread) : Option (Except Fault State) :=
  match s.pc w with
  | .idle => none
  | .acquire call => some <| do
    let (lock, taken) ← lockAcquire (s.pool w.pool).lock w
    let s := s.setPool w.pool { s.pool w.pool with lock := lock }
    -- each thread takes the lock of its own pool, which no other one takes
    if !taken then .error .asleep
    else match call with
      | .mallocPages count =>
        if 0 < count ∧ count < 3840 then return s.goto w (.request count) else .error (.panic .mallocPages)
      | .getAPage vaddr => return s.goto w (.markPage vaddr)
  | .request count => some <| do
    let bitIndexStart ← bitmapRequestBits (s.vaddr w).addrBitmap count
    if bitIndexStart = -1 then return s.goto w .release
    else return s.goto w (.markPages bitIndexStart bitIndexStart count)
  | .markPages bitIndexStart i count => some <|
    if i < bitIndexStart + count then
      let marked := { s.vaddr w with addrBitmap := bitmapSetBit (s.vaddr w).addrBitmap i }
      .ok ({ s with vaddr := Function.update s.vaddr w marked }.goto w (.markPages bitIndexStart (i + 1) count))
    else
      let vaddrStart := (s.vaddr w).addrStart + bitIndexStart * pgSize
      if w = .user ∧ ¬ vaddrStart < 0xc0000000 - pgSize then .error (.panic .vaddrGetPages)
      else if vaddrStart = 0 then .ok (s.goto w .release)
      else .ok (s.goto w (.search ⟨vaddrStart, count, false⟩))
  | .markPage vaddr => some <|
    let bitIdx := (vaddr - (s.vaddr w).addrStart) / pgSize
    if BitVec.slt 0 bitIdx then
      let marked := { s.vaddr w with addrBitmap := bitmapSetBit (s.vaddr w).addrBitmap bitIdx }
      .ok ({ s with vaddr := Function.update s.vaddr w marked }.goto w (.search ⟨vaddr, 1, true⟩))
    else .error (.panic .getAPage)
  | .search rest => some <|
    if rest.cnt = 0 then .ok (s.goto w .release)
    else do
      let bitIdx ← bitmapRequestBits (s.pool w.pool).poolBitmap 1
      if bitIdx = -1 then return s.goto w (noFrame rest)
      else return s.goto w (.mark rest bitIdx)
  | .mark rest bitIdx => some <|
    let pagePhyaddr := s.frame w.pool bitIdx
    .ok ((s.take w.pool bitIdx).goto w (if pagePhyaddr = 0 then noFrame rest else .bind rest pagePhyaddr))
  | .bind rest pagePhyaddr => some <|
    if s.pde (half w rest.vaddr) (rest.vaddr.toNat / 4194304) then
      if s.pte (half w rest.vaddr) (rest.vaddr.toNat / 4096) then .error (.panic .bindVaddrPaddrPage)
      else .ok ((s.setPte w rest.vaddr).goto w (nextPage rest))
    else .ok (s.goto w (.tableSearch rest pagePhyaddr))
  | .tableSearch rest pagePhyaddr => some <| do
    let bitIdx ← bitmapRequestBits (s.pool .kernelPool).poolBitmap 1
    if bitIdx = -1 then return (s.setPde w rest.vaddr).goto w (nextPage rest)
    else return s.goto w (.tableMark rest pagePhyaddr bitIdx)
  | .tableMark rest _ bitIdx => some <|
    .ok (((s.take .kernelPool bitIdx).setPde w rest.vaddr).goto w (nextPage rest))
  | .release => some <| do
    let (lock, _) ← lockRelease (s.pool w.pool).lock w
    return (s.setPool w.pool { s.pool w.pool with lock := lock }).goto w .idle

end State

/-- The next statement of a thread, or a new call. -/
inductive Act where
  | step (w : Thread)
  | call (w : Thread) (call : Call)

/-- `malloc_kernel_pages` is the only call of the kernel thread. -/
def Call.Offered : Thread → Call → Prop
  | .kernel, .getAPage _ => False
  | _, _ => True

instance (w : Thread) (c : Call) : Decidable (c.Offered w) := by
  cases w <;> cases c <;> unfold Call.Offered <;> infer_instance

def State.act (s : State) : Act → Option (Except Fault State)
  | .step w => s.step w
  | .call w call =>
    match s.pc w with
    | .idle => if call.Offered w then some (.ok (s.goto w (.acquire call))) else none
    | _ => none

/-- No call is under way. How many frames and pages are in use, and which tables are there, is left open. -/
structure Start (s : State) : Prop where
  idle : ∀ w, s.pc w = .idle
  free : ∀ type, (s.pool type).lock = lockInit
  fits : ∀ type, (s.pool type).poolBitmap.length.toNat ≤ 4096 ∧
    (s.pool type).phyAddrStart.toNat + 4096 * (8 * (s.pool type).poolBitmap.length.toNat) ≤ 2 ^ 32
  handed : s.handed = []

def system : Transition.System State Act Fault where
  start := Start
  step := State.act

/-- The pool that the next statement of the thread searches for a frame. -/
def Pc.searches (w : Thread) : Pc → Option PoolType
  | .search rest => if rest.cnt = 0 then none else some w.pool
  | .tableSearch _ _ => some .kernelPool
  | _ => none

/-- The pool in which the thread has found a frame that it has not marked. -/
def Pc.pending (w : Thread) : Pc → Option (PoolType × U32)
  | .mark _ bitIdx => some (w.pool, bitIdx)
  | .tableMark _ _ bitIdx => some (.kernelPool, bitIdx)
  | _ => none

/-- A pool is not searched while another thread is between search and mark in it. -/
def Apart (s : State) : Act → Prop
  | .step w => ∀ type, (s.pc w).searches w = some type → ∀ other ≠ w, ∀ bitIdx,
      (s.pc other).pending other ≠ some (type, bitIdx)
  | .call _ _ => True

variable {s t : State} {w : Thread} {type : PoolType} {bitIdx : U32}

/-! What one statement does to the pools. -/

/-- The pools' bitmaps and starts. -/
def SamePools (s t : State) : Prop := ∀ type, (t.pool type).poolBitmap = (s.pool type).poolBitmap ∧
  (t.pool type).phyAddrStart = (s.pool type).phyAddrStart

inductive Effect (s : State) (w : Thread) (t : State) : Prop where
  | quiet (pc : Pc) (pools : SamePools s t) (handed : t.handed = s.handed)
    (moved : t.pc = Function.update s.pc w pc) (pending : pc.pending w = none)
  | found (type : PoolType) (bitIdx : U32) (pc : Pc) (searches : (s.pc w).searches w = some type)
    (search : bitmapRequestBits (s.pool type).poolBitmap 1 = .ok bitIdx) (some_ : bitIdx ≠ -1)
    (pools : SamePools s t) (handed : t.handed = s.handed)
    (moved : t.pc = Function.update s.pc w pc) (pending : pc.pending w = some (type, bitIdx))
  | taken (type : PoolType) (bitIdx : U32) (pc : Pc) (was : (s.pc w).pending w = some (type, bitIdx))
    (pools : SamePools (s.take type bitIdx) t) (handed : t.handed = s.handed ++ [(type, s.frame type bitIdx)])
    (moved : t.pc = Function.update s.pc w pc) (pending : pc.pending w = none)

theorem SamePools.refl (s : State) : SamePools s s := fun _ => ⟨rfl, rfl⟩

theorem samePools_setLock (s : State) (type : PoolType) (lock : Lock Thread) :
    SamePools s (s.setPool type { s.pool type with lock := lock }) := by
  intro other
  unfold State.setPool
  by_cases same : other = type
  · subst same
    dsimp only
    rw [Function.update_self]
    exact ⟨rfl, rfl⟩
  · dsimp only
    rw [Function.update_of_ne same]
    exact ⟨rfl, rfl⟩

theorem noFrame_pending (w : Thread) (rest : Rest) : (State.noFrame rest).pending w = none := by
  unfold State.noFrame
  split <;> rfl

theorem nextPage_pending (w : Thread) (rest : Rest) : (State.nextPage rest).pending w = none := by
  unfold State.nextPage
  split <;> rfl

theorem step_effect (stepped : s.step w = some (.ok t)) : Effect s w t := by
  unfold State.step at stepped
  cases here : s.pc w with
  | idle =>
    simp only [here] at stepped
    contradiction
  | acquire call =>
    simp only [here] at stepped
    cases acquired : lockAcquire (s.pool w.pool).lock w with
    | error fault =>
      rw [acquired] at stepped
      cases stepped
    | ok result =>
      obtain ⟨lock, taken⟩ := result
      rw [acquired] at stepped
      cases taken with
      | false => cases stepped
      | true =>
        cases call with
        | mallocPages count =>
          change some (if 0 < count ∧ count < 3840 then _ else _) = _ at stepped
          split at stepped
          · cases stepped
            exact .quiet (.request count) (samePools_setLock s _ lock) rfl rfl rfl
          · cases stepped
        | getAPage vaddr =>
          cases stepped
          exact .quiet (.markPage vaddr) (samePools_setLock s _ lock) rfl rfl rfl
  | request count =>
    simp only [here] at stepped
    cases requested : bitmapRequestBits (s.vaddr w).addrBitmap count with
    | error fault =>
      rw [requested] at stepped
      cases stepped
    | ok start =>
      rw [requested] at stepped
      change some (if start = -1 then _ else _) = _ at stepped
      split at stepped
      · cases stepped
        exact .quiet .release (.refl s) rfl rfl rfl
      · cases stepped
        exact .quiet (.markPages start start count) (.refl s) rfl rfl rfl
  | markPages start i count =>
    simp only [here] at stepped
    split at stepped
    · cases stepped
      exact .quiet (.markPages start (i + 1) count) (.refl s) rfl rfl rfl
    · split at stepped
      · cases stepped
      · split at stepped
        · cases stepped
          exact .quiet .release (.refl s) rfl rfl rfl
        · cases stepped
          exact .quiet (.search ⟨_, count, false⟩) (.refl s) rfl rfl rfl
  | markPage vaddr =>
    simp only [here] at stepped
    split at stepped
    · cases stepped
      exact .quiet (.search ⟨vaddr, 1, true⟩) (.refl s) rfl rfl rfl
    · cases stepped
  | search rest =>
    simp only [here] at stepped
    split at stepped
    · cases stepped
      exact .quiet .release (.refl s) rfl rfl rfl
    · rename_i more
      cases requested : bitmapRequestBits (s.pool w.pool).poolBitmap 1 with
      | error fault =>
        rw [requested] at stepped
        cases stepped
      | ok bitIdx =>
        rw [requested] at stepped
        change some (if bitIdx = -1 then _ else _) = _ at stepped
        split at stepped
        · cases stepped
          exact .quiet (State.noFrame rest) (.refl s) rfl rfl (noFrame_pending w rest)
        · rename_i some_
          cases stepped
          refine .found w.pool bitIdx (.mark rest bitIdx) ?_ requested some_ (.refl s) rfl rfl rfl
          rw [here]
          exact if_neg more
  | mark rest bitIdx =>
    simp only [here] at stepped
    cases stepped
    refine .taken w.pool bitIdx _ (by rw [here]; rfl) (.refl _) rfl rfl ?_
    split
    · exact noFrame_pending w rest
    · rfl
  | bind rest page =>
    simp only [here] at stepped
    split at stepped
    · split at stepped
      · cases stepped
      · cases stepped
        exact .quiet (State.nextPage rest) (.refl s) rfl rfl (nextPage_pending w rest)
    · cases stepped
      exact .quiet (.tableSearch rest page) (.refl s) rfl rfl rfl
  | tableSearch rest page =>
    simp only [here] at stepped
    cases requested : bitmapRequestBits (s.pool .kernelPool).poolBitmap 1 with
    | error fault =>
      rw [requested] at stepped
      cases stepped
    | ok bitIdx =>
      rw [requested] at stepped
      change some (if bitIdx = -1 then _ else _) = _ at stepped
      split at stepped
      · cases stepped
        exact .quiet (State.nextPage rest) (.refl s) rfl rfl (nextPage_pending w rest)
      · rename_i some_
        cases stepped
        exact .found .kernelPool bitIdx (.tableMark rest page bitIdx) (by rw [here]; rfl) requested some_
          (.refl s) rfl rfl rfl
  | tableMark rest page bitIdx =>
    simp only [here] at stepped
    cases stepped
    exact .taken .kernelPool bitIdx (State.nextPage rest) (by rw [here]; rfl) (.refl _) rfl rfl
      (nextPage_pending w rest)
  | release =>
    simp only [here] at stepped
    cases released : lockRelease (s.pool w.pool).lock w with
    | error fault =>
      rw [released] at stepped
      cases stepped
    | ok result =>
      obtain ⟨lock, woken⟩ := result
      rw [released] at stepped
      cases stepped
      exact .quiet .idle (samePools_setLock s _ lock) rfl rfl rfl

/-! The bitmap of a pool. -/

theorem bitmapSetBit_bit (bitmap : Bits) (bitIndex : U32) (i : Nat) :
    bit (bitmapSetBit bitmap bitIndex).bytes 0 i = (decide (i = bitIndex.toNat) || bit bitmap.bytes 0 i) := by
  have set := @bit_set i 0 bitIndex.toNat bitmap.bytes
  rw [Nat.zero_add] at set
  exact set

theorem bitmap_reads (bitmap : Bits) :
    Reads (fun i => .ok (bitmap.bytes i.toNat)) bitmap.length.toNat (bit bitmap.bytes 0) := by
  intro i inside
  have bound := bitmap.length.isLt
  refine ⟨bitmap.bytes i, ?_, fun j less => ?_⟩
  · dsimp only
    rw [BitVec.toNat_ofNat, Nat.mod_eq_of_lt (by omega)]
  · unfold bit
    rw [show 0 + (8 * i + j) / 8 = i by omega, show (8 * i + j) % 8 = j by omega]

/-- The first clear bit of a bitmap. -/
structure FirstClear (bitmap : Bits) (bitIdx : U32) : Prop where
  inside : bitIdx.toNat < 8 * bitmap.length.toNat
  clear : bit bitmap.bytes 0 bitIdx.toNat = false
  before : ∀ i < bitIdx.toNat, bit bitmap.bytes 0 i = true

theorem request_first {bitmap : Bits} (small : bitmap.length.toNat ≤ 4096)
    (requested : bitmapRequestBits bitmap 1 = .ok bitIdx) : FirstClear bitmap bitIdx := by
  unfold bitmapRequestBits at requested
  rcases requestBits_first (bitmap_reads bitmap) (by omega) with
    ⟨-, full⟩ | ⟨first, inside, clear, before, found⟩
  · rw [full] at requested
    contradiction
  · rw [found, if_pos rfl] at requested
    injection requested with same
    have value : bitIdx.toNat = first := by
      rw [← same, BitVec.toNat_ofNat, Nat.mod_eq_of_lt (by omega)]
    exact ⟨by omega, by rw [value]; exact clear, by rw [value]; exact before⟩

theorem FirstClear.unique {bitmap : Bits} {a b : U32} (first : FirstClear bitmap a)
    (second : FirstClear bitmap b) : a = b := by
  apply BitVec.eq_of_toNat_eq
  rcases Nat.lt_trichotomy a.toNat b.toNat with less | same | greater
  · have set := second.before _ less
    rw [first.clear] at set
    contradiction
  · exact same
  · have set := first.before _ greater
    rw [second.clear] at set
    contradiction

/-! The invariant. -/

structure Safe (s : State) : Prop where
  fits : ∀ type, (s.pool type).poolBitmap.length.toNat ≤ 4096 ∧
    (s.pool type).phyAddrStart.toNat + 4096 * (8 * (s.pool type).poolBitmap.length.toNat) ≤ 2 ^ 32
  once : s.handed.Nodup
  marked : ∀ type page, (type, page) ∈ s.handed → ∃ bitIdx, page = s.frame type bitIdx ∧
    bitIdx.toNat < 8 * (s.pool type).poolBitmap.length.toNat ∧
    bit (s.pool type).poolBitmap.bytes 0 bitIdx.toNat = true
  pending : ∀ w type bitIdx, (s.pc w).pending w = some (type, bitIdx) →
    FirstClear (s.pool type).poolBitmap bitIdx
  single : ∀ w other type a b, (s.pc w).pending w = some (type, a) →
    (s.pc other).pending other = some (type, b) → w = other

theorem Safe.frame_inj (safe : Safe s) {a b : U32}
    (insideA : a.toNat < 8 * (s.pool type).poolBitmap.length.toNat)
    (insideB : b.toNat < 8 * (s.pool type).poolBitmap.length.toNat)
    (same : s.frame type a = s.frame type b) : a = b := by
  have fits := (safe.fits type).2
  have value (c : U32) (inside : c.toNat < 8 * (s.pool type).poolBitmap.length.toNat) :
      (s.frame type c).toNat = (s.pool type).phyAddrStart.toNat + 4096 * c.toNat := by
    unfold State.frame
    rw [BitVec.toNat_add, BitVec.toNat_mul, show pgSize.toNat = 4096 from rfl]
    rw [Nat.mod_eq_of_lt (by omega : 4096 * c.toNat < 2 ^ 32), Nat.mod_eq_of_lt (by omega)]
  have numbers := congrArg BitVec.toNat same
  rw [value a insideA, value b insideB] at numbers
  apply BitVec.eq_of_toNat_eq
  omega

theorem moved_pending {pc : Pc} (moved : t.pc = Function.update s.pc w pc) (other : Thread) :
    (t.pc other).pending other = if other = w then pc.pending w else (s.pc other).pending other := by
  rw [moved]
  by_cases same : other = w
  · subst same
    rw [Function.update_self, if_pos rfl]
  · rw [Function.update_of_ne same, if_neg same]

/-- What the pools say carries over. -/
theorem Safe.carry (safe : Safe s) (pools : SamePools s t) (handed : t.handed = s.handed)
    (pending : ∀ w type bitIdx, (t.pc w).pending w = some (type, bitIdx) →
      FirstClear (s.pool type).poolBitmap bitIdx)
    (single : ∀ w other type a b, (t.pc w).pending w = some (type, a) →
      (t.pc other).pending other = some (type, b) → w = other) : Safe t := by
  have frames (type : PoolType) (bitIdx : U32) : t.frame type bitIdx = s.frame type bitIdx := by
    unfold State.frame
    rw [(pools type).2]
  refine ⟨fun type => ?_, ?_, ?_, ?_, single⟩
  · rw [(pools type).1, (pools type).2]
    exact safe.fits type
  · rw [handed]
    exact safe.once
  · rw [handed]
    intro type page member
    obtain ⟨bitIdx, same, inside, set⟩ := safe.marked type page member
    rw [(pools type).1]
    exact ⟨bitIdx, same.trans (frames type bitIdx).symm, inside, set⟩
  · intro w type bitIdx found
    rw [(pools type).1]
    exact pending w type bitIdx found

theorem Safe.quiet (safe : Safe s) {pc : Pc} (pools : SamePools s t) (handed : t.handed = s.handed)
    (moved : t.pc = Function.update s.pc w pc) (none : pc.pending w = none) : Safe t := by
  have old (other : Thread) {found : PoolType × U32} (pending : (t.pc other).pending other = some found) :
      (s.pc other).pending other = some found := by
    rw [moved_pending moved] at pending
    split at pending
    · rw [none] at pending
      contradiction
    · exact pending
  exact safe.carry pools handed (fun w type bitIdx found => safe.pending w type bitIdx (old w found))
    fun w other type a b first second => safe.single w other type a b (old w first) (old other second)

/-- A thread that finds a frame while no other one has found one in the pool. -/
theorem Safe.found (safe : Safe s) {pc : Pc} (pools : SamePools s t) (handed : t.handed = s.handed)
    (moved : t.pc = Function.update s.pc w pc) (pending : pc.pending w = some (type, bitIdx))
    (search : bitmapRequestBits (s.pool type).poolBitmap 1 = .ok bitIdx)
    (alone : ∀ other ≠ w, ∀ found, (s.pc other).pending other ≠ some (type, found)) : Safe t := by
  have cases (other : Thread) {kind : PoolType} {found : U32}
      (now : (t.pc other).pending other = some (kind, found)) :
      (other = w ∧ kind = type ∧ found = bitIdx) ∨
        (other ≠ w ∧ (s.pc other).pending other = some (kind, found)) := by
    rw [moved_pending moved] at now
    split at now
    · rename_i same
      rw [pending] at now
      injection now with pair
      injection pair with first second
      exact .inl ⟨same, first.symm, second.symm⟩
    · rename_i different
      exact .inr ⟨different, now⟩
  refine safe.carry pools handed ?_ ?_
  · intro other kind found now
    rcases cases other now with ⟨-, rfl, rfl⟩ | ⟨-, before⟩
    · exact request_first (safe.fits kind).1 search
    · exact safe.pending other kind found before
  · intro first second kind a b now now'
    rcases cases first now with ⟨rfl, rfl, -⟩ | ⟨different, before⟩
    · rcases cases second now' with ⟨same, -⟩ | ⟨different, before⟩
      · exact same.symm
      · exact absurd before (alone second different b)
    · rcases cases second now' with ⟨rfl, rfl, -⟩ | ⟨-, before'⟩
      · exact absurd before (alone first different a)
      · exact safe.single first second kind a b before before'

theorem take_bits (s : State) (type other : PoolType) (bitIdx : U32) :
    ((s.take type bitIdx).pool other).phyAddrStart = (s.pool other).phyAddrStart ∧
      ((s.take type bitIdx).pool other).poolBitmap =
        if other = type then bitmapSetBit (s.pool type).poolBitmap bitIdx else (s.pool other).poolBitmap := by
  unfold State.take State.setPool
  dsimp only
  by_cases same : other = type
  · subst same
    rw [Function.update_self, if_pos rfl]
    exact ⟨rfl, rfl⟩
  · rw [Function.update_of_ne same, if_neg same]
    exact ⟨rfl, rfl⟩

/-- A thread that marks the frame it has found. -/
theorem Safe.taken (safe : Safe s) {pc : Pc} (was : (s.pc w).pending w = some (type, bitIdx))
    (pools : SamePools (s.take type bitIdx) t) (handed : t.handed = s.handed ++ [(type, s.frame type bitIdx)])
    (moved : t.pc = Function.update s.pc w pc) (none : pc.pending w = none) : Safe t := by
  have first := safe.pending w type bitIdx was
  have bitmap (other : PoolType) : (t.pool other).poolBitmap =
      if other = type then bitmapSetBit (s.pool type).poolBitmap bitIdx else (s.pool other).poolBitmap :=
    (pools other).1.trans (take_bits s type other bitIdx).2
  have start (other : PoolType) : (t.pool other).phyAddrStart = (s.pool other).phyAddrStart :=
    (pools other).2.trans (take_bits s type other bitIdx).1
  have length (other : PoolType) : (t.pool other).poolBitmap.length = (s.pool other).poolBitmap.length := by
    rw [bitmap other]
    split
    · rename_i same
      rw [same]
      rfl
    · rfl
  have grows (other : PoolType) (i : Nat) (set : bit (s.pool other).poolBitmap.bytes 0 i = true) :
      bit (t.pool other).poolBitmap.bytes 0 i = true := by
    rw [bitmap other]
    split
    · rename_i same
      rw [bitmapSetBit_bit, ← same, set, Bool.or_true]
    · exact set
  have frames (other : PoolType) (number : U32) : t.frame other number = s.frame other number := by
    unfold State.frame
    rw [start]
  have old (other : Thread) {kind : PoolType} {found : U32}
      (now : (t.pc other).pending other = some (kind, found)) :
      kind ≠ type ∧ (s.pc other).pending other = some (kind, found) := by
    rw [moved_pending moved] at now
    split at now
    · rw [none] at now
      contradiction
    · rename_i different
      refine ⟨?_, now⟩
      rintro rfl
      exact different (safe.single other w kind found bitIdx now was)
  refine ⟨fun other => ?_, ?_, ?_, ?_, ?_⟩
  · rw [length, start]
    exact safe.fits other
  · rw [handed, List.nodup_append]
    refine ⟨safe.once, List.nodup_singleton _, ?_⟩
    rintro entry member _ last rfl
    rw [List.mem_singleton.mp last] at member
    obtain ⟨number, same, inside, set⟩ := safe.marked type _ member
    have eq := safe.frame_inj first.inside inside same
    rw [← eq, first.clear] at set
    contradiction
  · intro kind page member
    rw [handed, List.mem_append, List.mem_singleton] at member
    rcases member with before | new
    · obtain ⟨number, same, inside, set⟩ := safe.marked kind page before
      exact ⟨number, same.trans (frames kind number).symm, by rw [length]; exact inside, grows kind _ set⟩
    · cases new
      refine ⟨bitIdx, (frames type bitIdx).symm, by rw [length]; exact first.inside, ?_⟩
      rw [bitmap, if_pos rfl, bitmapSetBit_bit, decide_eq_true rfl, Bool.true_or]
  · intro other kind found now
    obtain ⟨different, before⟩ := old other now
    rw [bitmap, if_neg different]
    exact safe.pending other kind found before
  · intro a b kind x y now now'
    exact safe.single a b kind x y (old a now).2 (old b now').2

theorem Start.safe (start : Start s) : Safe s := by
  have nothing (w : Thread) {found : PoolType × U32} : (s.pc w).pending w ≠ some found := by
    rw [start.idle w]
    exact fun impossible => nomatch impossible
  refine ⟨start.fits, ?_, ?_, fun w type bitIdx pending => absurd pending (nothing w),
    fun w other type a b pending _ => absurd pending (nothing w)⟩
  · rw [start.handed]
    exact List.nodup_nil
  · rw [start.handed]
    exact fun type page member => nomatch member

theorem Safe.act {a : Act} (safe : Safe s) (apart : Apart s a) (stepped : s.act a = some (.ok t)) : Safe t := by
  cases a with
  | call w call =>
    unfold State.act at stepped
    cases here : s.pc w <;> simp only [here] at stepped
    case idle =>
      split at stepped
      · cases stepped
        exact safe.quiet (.refl s) rfl rfl rfl
      · contradiction
    all_goals contradiction
  | step w =>
    cases step_effect stepped with
    | quiet pc pools handed moved pending => exact safe.quiet pools handed moved pending
    | found type bitIdx pc searches search some_ pools handed moved pending =>
      exact safe.found pools handed moved pending search fun other different found =>
        apart type searches other different found
    | taken type bitIdx pc was pools handed moved pending => exact safe.taken was pools handed moved pending

theorem system_safe (reached : system.ReachableBy Apart s) : Safe s :=
  reached.invariant (fun _ start => start.safe) fun _ _ _ _ safe apart stepped => safe.act apart stepped

/-! A search while another thread is between search and mark in the pool. -/

theorem FirstClear.request {bitmap : Bits} (first : FirstClear bitmap bitIdx)
    (small : bitmap.length.toNat ≤ 4096) : bitmapRequestBits bitmap 1 = .ok bitIdx := by
  unfold bitmapRequestBits
  rw [requestBits_one (bitmap_reads bitmap) (by omega) false first.inside first.clear first.before,
    BitVec.ofNat_toNat, BitVec.setWidth_eq]

theorem FirstClear.found {bitmap : Bits} (first : FirstClear bitmap bitIdx)
    (small : bitmap.length.toNat ≤ 4096) : bitIdx ≠ -1 := by
  rintro rfl
  have inside := first.inside
  rw [show (-1 : U32).toNat = 4294967295 from rfl] at inside
  omega

theorem search_ok {rest : Rest} (here : s.pc w = .search rest) (more : rest.cnt ≠ 0)
    (found : bitmapRequestBits (s.pool w.pool).poolBitmap 1 = .ok bitIdx) (some_ : bitIdx ≠ -1) :
    s.step w = some (.ok (s.goto w (.mark rest bitIdx))) := by
  unfold State.step
  simp only [here]
  rw [if_neg more, found]
  change some (if bitIdx = -1 then _ else _) = _
  rw [if_neg some_]
  rfl

theorem tableSearch_ok {rest : Rest} {page : U32} (here : s.pc w = .tableSearch rest page)
    (found : bitmapRequestBits (s.pool .kernelPool).poolBitmap 1 = .ok bitIdx) (some_ : bitIdx ≠ -1) :
    s.step w = some (.ok (s.goto w (.tableMark rest page bitIdx))) := by
  unfold State.step
  simp only [here]
  rw [found]
  change some (if bitIdx = -1 then _ else _) = _
  rw [if_neg some_]
  rfl

/-- A thread that searches finds what another one has found and not marked. -/
theorem searches_ok (searches : (s.pc w).searches w = some type)
    (found : bitmapRequestBits (s.pool type).poolBitmap 1 = .ok bitIdx) (some_ : bitIdx ≠ -1) :
    ∃ pc : Pc, s.step w = some (.ok (s.goto w pc)) ∧ pc.pending w = some (type, bitIdx) := by
  cases here : s.pc w with
  | search rest =>
    rw [here] at searches
    unfold Pc.searches at searches
    dsimp only at searches
    split at searches
    · contradiction
    · rename_i more
      cases searches
      exact ⟨.mark rest bitIdx, search_ok here more found some_, rfl⟩
  | tableSearch rest page =>
    rw [here] at searches
    cases searches
    exact ⟨.tableMark rest page bitIdx, tableSearch_ok here found some_, rfl⟩
  | _ =>
    rw [here] at searches
    contradiction

theorem pending_ok (pending : (s.pc w).pending w = some (type, bitIdx)) : ∃ t, s.step w = some (.ok t) ∧
    t.handed = s.handed ++ [(type, s.frame type bitIdx)] ∧ (∀ other ≠ w, t.pc other = s.pc other) ∧
      t.frame type bitIdx = s.frame type bitIdx := by
  cases here : s.pc w with
  | mark rest found =>
    rw [here] at pending
    cases pending
    refine ⟨_, by unfold State.step; simp only [here]; rfl, rfl, fun other different => ?_, ?_⟩
    · exact Function.update_of_ne different _ _
    · exact congrArg (· + pgSize * bitIdx) (take_bits s w.pool w.pool bitIdx).1
  | tableMark rest page found =>
    rw [here] at pending
    cases pending
    refine ⟨_, by unfold State.step; simp only [here]; rfl, rfl, fun other different => ?_, ?_⟩
    · exact Function.update_of_ne different _ _
    · exact congrArg (· + pgSize * bitIdx) (take_bits s .kernelPool .kernelPool bitIdx).1
  | _ =>
    rw [here] at pending
    contradiction

/-- The frame is handed out twice as soon as both threads have marked it. -/
theorem Safe.overlap (safe : Safe s) {other : Thread} (searches : (s.pc w).searches w = some type)
    (different : other ≠ w) (pending : (s.pc other).pending other = some (type, bitIdx)) :
    ∃ t u v, s.act (.step w) = some (.ok t) ∧ t.act (.step w) = some (.ok u) ∧
      u.act (.step other) = some (.ok v) ∧ ¬ v.handed.Nodup := by
  have first := safe.pending other type bitIdx pending
  have small := (safe.fits type).1
  obtain ⟨pc, searched, now⟩ := searches_ok searches (first.request small) (first.found small)
  have here : ((s.goto w pc).pc w).pending w = some (type, bitIdx) := by
    change (Function.update s.pc w pc w).pending w = _
    rw [Function.update_self]
    exact now
  obtain ⟨u, marked, handed, pcs, frames⟩ := pending_ok here
  have there : (u.pc other).pending other = some (type, bitIdx) := by
    rw [pcs other different]
    change (Function.update s.pc w pc other).pending other = _
    rw [Function.update_of_ne different]
    exact pending
  obtain ⟨v, marked', handed', -, -⟩ := pending_ok there
  refine ⟨_, u, v, searched, marked, marked', ?_⟩
  rw [handed', handed, frames]
  intro once
  rw [List.nodup_append] at once
  exact once.2.2 _ (List.mem_append_right _ (List.mem_singleton_self _)) _ (List.mem_singleton_self _) rfl

/-- Pools of eight frames, none in use, and a process without page tables. -/
def smallState : State where
  pool type := ⟨if type = .kernelPool then 0x200000 else 0x208000, ⟨1, fun _ => 0⟩, lockInit⟩
  vaddr w := ⟨if w = .kernel then 0xc0100000 else 0x8048000, ⟨1, fun _ => 0⟩⟩
  pde half _ := half = none
  pte _ _ := false
  pc _ := .idle
  handed := []

theorem smallState_start : Start smallState where
  idle _ := rfl
  free _ := rfl
  fits type := by cases type <;> decide
  handed := rfl

theorem request_zero : bitmapRequestBits ⟨1, fun _ => 0⟩ 1 = .ok 0 := by
  have first : FirstClear ⟨1, fun _ => 0⟩ 0 :=
    ⟨by decide, by decide, fun i less => absurd less (Nat.not_lt_zero i)⟩
  exact first.request (by decide)

theorem request_ok {count start : U32} (here : s.pc w = .request count)
    (found : bitmapRequestBits (s.vaddr w).addrBitmap count = .ok start) (some_ : start ≠ -1) :
    s.step w = some (.ok (s.goto w (.markPages start start count))) := by
  unfold State.step
  simp only [here]
  rw [found]
  change some (if start = -1 then _ else _) = _
  rw [if_neg some_]
  rfl

theorem apart_silent (silent : (s.pc w).searches w = none) : Apart s (.step w) := by
  intro type searches
  rw [silent] at searches
  contradiction

theorem apart_idle (idle : ∀ other ≠ w, (s.pc other).pending other = none) : Apart s (.step w) := by
  intro type _ other different bitIdx pending
  rw [idle other different] at pending
  contradiction

theorem reached_act (reached : system.Reachable s) {a : Act} (stepped : s.act a = some (.ok t)) :
    system.Reachable t :=
  reached.next True.intro stepped

theorem reached_call (reached : system.ReachableBy Apart s) (call : Call)
    (stepped : s.act (.call w call) = some (.ok t)) : system.ReachableBy Apart t :=
  reached.next (a := Act.call w call) True.intro stepped

theorem reached_step (reached : system.ReachableBy Apart s) (silent : (s.pc w).searches w = none)
    (stepped : s.step w = some (.ok t)) : system.ReachableBy Apart t :=
  reached.next (a := Act.step w) (apart_silent silent) stepped

theorem reached_search (reached : system.ReachableBy Apart s) {rest : Rest} (here : s.pc w = .search rest)
    (more : rest.cnt ≠ 0) (idle : ∀ other ≠ w, (s.pc other).pending other = none)
    (empty : (s.pool w.pool).poolBitmap = ⟨1, fun _ => 0⟩) :
    system.ReachableBy Apart (s.goto w (.mark rest 0)) :=
  reached.next (a := Act.step w) (apart_idle idle)
    (search_ok here more (by rw [empty]; exact request_zero) (by decide))

/-- The kernel thread has found the first frame of `kernel_pool`, and the process needs a page table. -/
theorem crossing : ∃ s, system.ReachableBy Apart s ∧ ¬ Apart s (.step .user) := by
  have begun : system.ReachableBy Apart smallState := .start smallState_start
  -- the process gets a frame of its own pool
  have called := @reached_call _ _ .user begun (.getAPage 0x8049000) rfl
  have locked := @reached_step _ _ .user called rfl rfl
  have placed := @reached_step _ _ .user locked rfl rfl
  have searched := @reached_search _ .user placed _ rfl (by decide) (fun other different => by
    cases other
    · rfl
    · contradiction) rfl
  have taken := @reached_step _ _ .user searched rfl rfl
  have bound := @reached_step _ _ .user taken rfl rfl
  -- the kernel thread searches while the process is about to
  have called' := @reached_call _ _ .kernel bound (.mallocPages 1) rfl
  have locked' := @reached_step _ _ .kernel called' rfl rfl
  have requested := @reached_step _ _ .kernel locked' rfl (request_ok rfl request_zero (by decide))
  have marked := @reached_step _ _ .kernel requested rfl rfl
  have placed' := @reached_step _ _ .kernel marked rfl rfl
  have searched' := @reached_search _ .kernel placed' _ rfl (by decide) (fun other different => by
    cases other
    · contradiction
    · rfl) rfl
  exact ⟨_, searched', fun apart => apart .kernelPool rfl .kernel (by decide) 0 rfl⟩

end LiziOS.Preemption
