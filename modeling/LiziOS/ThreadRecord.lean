import LiziOS.Memory
import LiziOS.Strings

namespace LiziOS.ThreadRecord

open Recorded Strings ByteMemory
open Memory (pgSize)
open Memory.Pcb

/-! `init_thread` and `thread_create`, with the name where its pointer says it is. -/

/-- What `init_thread` sets behind the name. -/
def setFields (mainThread pthread prio : U32) : Recorded.Code 32 Unit := do
  storeWord (pthread + status) (if pthread = mainThread then 0 else 1)
  storeWord (pthread + selfKstack) (pthread + pgSize)
  store (pthread + priority) (prio.setWidth 8)
  store (pthread + ticks) (prio.setWidth 8)
  storeWord (pthread + pgdir) 0
  storeWord (pthread + stackMagic) 0x19870916

def initThread (mainThread pthread name prio : U32) (turns : Nat) : Recorded.Code 32 Unit := do
  memset pthread 0 size
  let _ ← strcpy (pthread + Memory.Pcb.name) name turns
  setFields mainThread pthread prio

def setStack (kernelThread kthreadStack function funcArg : U32) : Recorded.Code 32 Unit := do
  storeWord (kthreadStack + 8) 0
  storeWord (kthreadStack + 12) 0
  storeWord (kthreadStack + 4) 0
  storeWord kthreadStack 0
  storeWord (kthreadStack + 16) kernelThread
  storeWord (kthreadStack + 24) function
  storeWord (kthreadStack + 28) funcArg

/-- The two sizes are counted in words, since `self_kstack` is a pointer to `u32`. -/
def threadCreate (kernelThread pthread function funcArg : U32) : Recorded.Code 32 Unit := do
  let selfKstack' ← loadWord (pthread + selfKstack)
  storeWord (pthread + selfKstack) (selfKstack' - 4 * 76)
  let selfKstack' ← loadWord (pthread + selfKstack)
  storeWord (pthread + selfKstack) (selfKstack' - 4 * 32)
  let kthreadStack ← loadWord (pthread + selfKstack)
  setStack kernelThread kthreadStack function funcArg

/-- As `thread_start` calls them. -/
def start (mainThread kernelThread pthread name prio function funcArg : U32) (turns : Nat) :
    Recorded.Code 32 Unit := do
  initThread mainThread pthread name prio turns
  threadCreate kernelThread pthread function funcArg

variable {s t u : Ram 32} {mainThread kernelThread pthread name prio function funcArg : U32} {chars : List U8}
  {v : ByteMemory.Memory} {o : Nat}

/-- What the page holds after a store in it. -/
structure Stores (pthread : U32) (s t : Ram 32) (v : ByteMemory.Memory) : Prop where
  page : view t.bytes pthread = v
  within : Within (fun _ => True) (Range pthread 4096) s t

theorem stores_word (pthread : U32) (s : Ram 32) (o : Nat) (inside : o + 4 ≤ 4096) (w : U32) :
    Stores pthread s (s.writeWord (pthread + BitVec.ofNat 32 o) w) (setWord (view s.bytes pthread) o w) :=
  ⟨view_writeWord (by omega) w, within_writeWord w fun i less => range_index (by omega)⟩

theorem stores_byte (pthread : U32) (s : Ram 32) (o : Nat) (inside : o < 4096) (byte : U8) :
    Stores pthread s (s.write (pthread + BitVec.ofNat 32 o) byte)
      (Function.update (view s.bytes pthread) o byte) :=
  ⟨view_write (by omega) byte, within_write byte (range_index inside)⟩

theorem Stores.storeWord (stores : Stores pthread s t v) (o : Nat) (inside : o + 4 ≤ 4096) (w : U32) :
    Stores pthread s (t.writeWord (pthread + BitVec.ofNat 32 o) w) (setWord v o w) := by
  obtain ⟨page, within⟩ := stores_word pthread t o inside w
  rw [stores.page] at page
  exact ⟨page, stores.within.trans within⟩

theorem Stores.storeByte (stores : Stores pthread s t v) (o : Nat) (inside : o < 4096) (byte : U8) :
    Stores pthread s (t.write (pthread + BitVec.ofNat 32 o) byte) (Function.update v o byte) := by
  obtain ⟨page, within⟩ := stores_byte pthread t o inside byte
  rw [stores.page] at page
  exact ⟨page, stores.within.trans within⟩

theorem Stores.refl (s : Ram 32) : Stores pthread s s (view s.bytes pthread) := ⟨rfl, Within.refl s⟩

/-- The fields that `init_thread` sets behind the name has been copied. -/
def fieldsSet (mainThread pthread prio : U32) (v : ByteMemory.Memory) : ByteMemory.Memory :=
  let v := setWord v 4 (if pthread = mainThread then 0 else 1)
  let v := setWord v 0 (pthread + 4096)
  let v := Function.update v 24 (prio.setWidth 8)
  let v := Function.update v 25 (prio.setWidth 8)
  let v := setWord v 44 0
  setWord v 60 0x19870916

def stackSet (kernelThread function funcArg : U32) (v : ByteMemory.Memory) : ByteMemory.Memory :=
  let v := setWord v 3672 0
  let v := setWord v 3676 0
  let v := setWord v 3668 0
  let v := setWord v 3664 0
  let v := setWord v 3680 kernelThread
  let v := setWord v 3688 function
  setWord v 3692 funcArg

/-- What `thread_create` leaves of the page. -/
def created (kernelThread pthread function funcArg : U32) (v : ByteMemory.Memory) : ByteMemory.Memory :=
  let v := setWord v 0 (pthread + 3792)
  let v := setWord v 0 (pthread + 3664)
  stackSet kernelThread function funcArg v

theorem setFields_ends (u : Ram 32) (mainThread pthread prio : U32) : ∃ t,
    setFields mainThread pthread prio u = some ((), t) ∧
      Stores pthread u t (fieldsSet mainThread pthread prio (view u.bytes pthread)) := by
  refine ⟨_, rfl, ?_⟩
  exact ((((((Stores.refl u).storeWord 4 (by decide) _).storeWord 0 (by decide) _).storeByte 24 (by decide)
    _).storeByte 25 (by decide) _).storeWord 44 (by decide) _).storeWord 60 (by decide) _

theorem setStack_ends (stores : Stores pthread s t v) (kernelThread function funcArg : U32) : ∃ u,
    setStack kernelThread (pthread + 3664) function funcArg t = some ((), u) ∧
      Stores pthread s u (stackSet kernelThread function funcArg v) := by
  have place (i : Nat) (a : U32) (is : a = BitVec.ofNat 32 i) :
      pthread + 3664 + a = pthread + BitVec.ofNat 32 (3664 + i) := by
    rw [is, BitVec.add_assoc, BitVec.ofNat_add]
    rfl
  unfold setStack
  rw [place 8 8 rfl, place 12 12 rfl, place 4 4 rfl, place 16 16 rfl, place 24 24 rfl, place 28 28 rfl]
  refine ⟨_, rfl, ?_⟩
  exact ((((((stores.storeWord 3672 (by decide) _).storeWord 3676 (by decide) _).storeWord 3668 (by decide)
    _).storeWord 3664 (by decide) _).storeWord 3680 (by decide) _).storeWord 3688 (by decide) _).storeWord 3692
    (by decide) _

/-- A load from the page. -/
theorem Stores.loadWord (stores : Stores pthread s t v) (o : Nat) (small : o + 4 ≤ 4096) {β : Type}
    (f : U32 → Recorded.Code 32 β) : ∃ u, (Recorded.loadWord (pthread + BitVec.ofNat 32 o) >>= f) t = f (word v o) u ∧
      Stores pthread s u v := by
  have read (a : U32) (t : Ram 32) : Within (fun _ => True) (Range pthread 4096) t (t.read a) :=
    within_read True.intro
  refine ⟨t.readWord (pthread + BitVec.ofNat 32 o), ?_, stores.page, stores.within.trans
    ((((read _ t).trans (read _ _)).trans (read _ _)).trans (read _ _))⟩
  rw [bind_loadWord f (by omega), stores.page]

theorem threadCreate_ends (stores : Stores pthread s t v) (top : word v 0 = pthread + 4096)
    (kernelThread function funcArg : U32) : ∃ u,
    threadCreate kernelThread pthread function funcArg t = some ((), u) ∧
      Stores pthread s u (created kernelThread pthread function funcArg v) := by
  have first : pthread + 4096 - 4 * 76 = pthread + 3792 := by bv_omega
  have second : pthread + 3792 - 4 * 32 = pthread + 3664 := by bv_omega
  obtain ⟨t₁, loaded₁, stores₁⟩ := stores.loadWord 0 (by decide) fun selfKstack' => do
    storeWord (pthread + selfKstack) (selfKstack' - 4 * 76)
    let selfKstack' ← Recorded.loadWord (pthread + selfKstack)
    storeWord (pthread + selfKstack) (selfKstack' - 4 * 32)
    let kthreadStack ← Recorded.loadWord (pthread + selfKstack)
    setStack kernelThread kthreadStack function funcArg
  have stores₂ := stores₁.storeWord 0 (by decide) (pthread + 3792)
  obtain ⟨t₃, loaded₃, stores₃⟩ := stores₂.loadWord 0 (by decide) fun selfKstack' => do
    storeWord (pthread + selfKstack) (selfKstack' - 4 * 32)
    let kthreadStack ← Recorded.loadWord (pthread + selfKstack)
    setStack kernelThread kthreadStack function funcArg
  have stores₄ := stores₃.storeWord 0 (by decide) (pthread + 3664)
  obtain ⟨t₅, loaded₅, stores₅⟩ := stores₄.loadWord 0 (by decide) fun kthreadStack =>
    setStack kernelThread kthreadStack function funcArg
  rw [word_setWord] at loaded₃ loaded₅
  obtain ⟨u, set, stores₆⟩ := setStack_ends stores₅ kernelThread function funcArg
  refine ⟨u, ?_, stores₆⟩
  rw [top, bind_storeWord, first] at loaded₁
  rw [bind_storeWord, second] at loaded₃
  exact loaded₁.trans (loaded₃.trans (loaded₅.trans set))

/-- The page when both calls have returned. -/
def record (mainThread kernelThread pthread prio function funcArg : U32) (v : ByteMemory.Memory) :
    ByteMemory.Memory :=
  created kernelThread pthread function funcArg (fieldsSet mainThread pthread prio v)

/-- The bytes that the calls write, with a name of this length. -/
def Touched (pthread : U32) (length : Nat) (x : U32) : Prop :=
  Range pthread 4096 x ∨ Range (pthread + Memory.Pcb.name) (length + 1) x

/-! What the page holds. -/

theorem word_update (byte : U8) {a : Nat} (apart : o < a ∨ a + 4 ≤ o) :
    word (Function.update v o byte) a = word v a := by
  apply word_congr
  intro i above below
  exact Function.update_of_ne (by omega) _ _

theorem fieldsSet_top : word (fieldsSet mainThread pthread prio v) 0 = pthread + 4096 := by
  unfold fieldsSet
  rw [word_setWord_outside _ (by decide), word_setWord_outside _ (by decide), word_update _ (by decide),
    word_update _ (by decide), word_setWord]

theorem record_outside (inside : 4 ≤ o) (below : o < 3664) :
    record mainThread kernelThread pthread prio function funcArg v o = fieldsSet mainThread pthread prio v o := by
  unfold record created stackSet
  simp (disch := omega) only [setWord_outside]

/-- The bytes of the name stay as they are. -/
theorem record_name (inside : 8 ≤ o) (below : o < 24) :
    record mainThread kernelThread pthread prio function funcArg v o = v o := by
  rw [record_outside (by omega) (by omega)]
  unfold fieldsSet
  rw [setWord_outside _ (by omega), setWord_outside _ (by omega), Function.update_of_ne (by omega),
    Function.update_of_ne (by omega), setWord_outside _ (by omega), setWord_outside _ (by omega)]

theorem record_zero (zero : ∀ o, 24 ≤ o → o < 64 → v o = 0) (inside : 26 ≤ o) (below : o < 60) :
    record mainThread kernelThread pthread prio function funcArg v o = 0 := by
  rw [record_outside (by omega) (by omega)]
  unfold fieldsSet
  rw [setWord_outside _ (by omega)]
  by_cases pgdir : 44 ≤ o ∧ o < 48
  · rw [setWord, if_pos pgdir]
    simp [byteOf]
  · rw [setWord_outside _ (by omega), Function.update_of_ne (by omega), Function.update_of_ne (by omega),
      setWord_outside _ (by omega), setWord_outside _ (by omega), zero o (by omega) (by omega)]

theorem record_priority :
    record mainThread kernelThread pthread prio function funcArg v 24 = prio.setWidth 8 := by
  rw [record_outside (by decide) (by decide)]
  unfold fieldsSet
  rw [setWord_outside _ (by decide), setWord_outside _ (by decide), Function.update_of_ne (by decide),
    Function.update_self]

theorem record_ticks :
    record mainThread kernelThread pthread prio function funcArg v 25 = prio.setWidth 8 := by
  rw [record_outside (by decide) (by decide)]
  unfold fieldsSet
  rw [setWord_outside _ (by decide), setWord_outside _ (by decide), Function.update_self]

theorem record_magic :
    word (record mainThread kernelThread pthread prio function funcArg v) 60 = 0x19870916 := by
  have same : word (record mainThread kernelThread pthread prio function funcArg v) 60 =
      word (fieldsSet mainThread pthread prio v) 60 :=
    word_congr fun i above below => record_outside (by omega) (by omega)
  rw [same]
  exact word_setWord _ _ _

theorem record_stack :
    word (record mainThread kernelThread pthread prio function funcArg v) 0 = pthread + 3664 := by
  unfold record created stackSet
  simp (disch := decide) only [word_setWord_outside, word_setWord]

theorem name_place (pthread : U32) (i : Nat) :
    pthread + BitVec.ofNat 32 (8 + i) = pthread + Memory.Pcb.name + BitVec.ofNat 32 i := by
  have eight : Memory.Pcb.name = BitVec.ofNat 32 8 := rfl
  rw [BitVec.ofNat_add, eight, BitVec.add_assoc]

theorem initThread_ends (string : StringAt s.bytes name chars)
    (apart : ∀ x, Range pthread 64 x → ¬ Range name (chars.length + 1) x) (mainThread prio : U32) : ∃ u t,
    Returns (initThread mainThread pthread name prio) s () t ∧
      Stores pthread u t (fieldsSet mainThread pthread prio (view u.bytes pthread)) ∧
      StringAt u.bytes (pthread + Memory.Pcb.name) chars ∧
      (∀ o, chars.length + 8 < o → o < 64 → view u.bytes pthread o = 0) ∧
      Within (fun _ => True) (Touched pthread chars.length) s u := by
  obtain ⟨s₁, cleared, zero, within₁⟩ := memset_ends (s := s) (n := 64) pthread 0 (by decide)
  have string₁ : StringAt s₁.bytes name chars :=
    string.congr fun x inside => within₁.bytes x fun inside' => apart x inside' inside
  have place : Range pthread 64 (pthread + Memory.Pcb.name) := range_index (i := 8) (by decide)
  obtain ⟨u, copies, copied, within₂⟩ := strcpy_ends string₁ (apart _ place)
  obtain ⟨t, set, stores⟩ := setFields_ends u mainThread pthread prio
  refine ⟨u, t, ?_, stores, copied, fun o behind inside => ?_, ?_⟩
  · obtain ⟨enough, ends⟩ := copies
    refine ⟨enough, fun turns more => ?_⟩
    unfold initThread
    rw [show size = 64 from rfl, bind_ok cleared, bind_ok (ends turns more), set]
  · have outside : ¬ Range (pthread + Memory.Pcb.name) (chars.length + 1) (pthread + BitVec.ofNat 32 o) := by
      obtain ⟨i, rfl⟩ : ∃ i, o = 8 + i := ⟨o - 8, by omega⟩
      rw [name_place, range_index_iff (by omega)]
      omega
    rw [view_eq (by omega), within₂.bytes _ outside]
    exact zero _ (range_index inside)
  · exact (within₁.mono (fun _ no => no.elim) fun x inside => .inl (inside.mono (by decide))).trans
      (within₂.mono (fun _ yes => yes) fun x inside => .inr inside)

theorem start_ends (string : StringAt s.bytes name chars)
    (apart : ∀ x, Range pthread 64 x → ¬ Range name (chars.length + 1) x)
    (mainThread kernelThread prio function funcArg : U32) : ∃ u t,
    Returns (start mainThread kernelThread pthread name prio function funcArg) s () t ∧
      Stores pthread u t (record mainThread kernelThread pthread prio function funcArg (view u.bytes pthread)) ∧
      StringAt u.bytes (pthread + Memory.Pcb.name) chars ∧
      (∀ o, chars.length + 8 < o → o < 64 → view u.bytes pthread o = 0) ∧
      Within (fun _ => True) (Touched pthread chars.length) s u := by
  obtain ⟨u, t, ⟨enough, ends⟩, stores, copied, zero, within⟩ := initThread_ends string apart mainThread prio
  obtain ⟨t', creates, stores'⟩ := threadCreate_ends stores fieldsSet_top kernelThread function funcArg
  refine ⟨u, t', ⟨enough, fun turns more => ?_⟩, stores', copied, zero, within⟩
  unfold start
  rw [bind_ok (ends turns more), creates]

/-- The offsets of the list tags. -/
def generalTag : U32 := 28
def allListTag : U32 := 36

/-- The word of the PCB at the offset. -/
def field (t : Ram 32) (pthread offset : U32) : U32 := word (view t.bytes pthread) offset.toNat

/-- What `thread_start` relies on when both calls have returned. -/
structure Initialised (pthread prio : U32) (chars : List U8) (s t : Ram 32) : Prop where
  within : Within (fun _ => True) (Range pthread 4096) s t
  name : ∃ copied, StringAt t.bytes (pthread + Memory.Pcb.name) copied ∧ copied.length ≤ 15 ∧ copied <+: chars
  priority : t.bytes (pthread + Memory.Pcb.priority) = prio.setWidth 8
  ticks : t.bytes (pthread + Memory.Pcb.ticks) = prio.setWidth 8
  pgdir : field t pthread Memory.Pcb.pgdir = 0
  userprogVaddr : field t pthread bitmapLength = 0 ∧ field t pthread bitmapBits = 0 ∧ field t pthread addrStart = 0
  generalTag : field t pthread generalTag = 0 ∧ field t pthread (ThreadRecord.generalTag + 4) = 0
  allListTag : field t pthread allListTag = 0 ∧ field t pthread (ThreadRecord.allListTag + 4) = 0
  stackMagic : field t pthread Memory.Pcb.stackMagic = 0x19870916
  stack : ∀ x, Range (field t pthread selfKstack) 32 x → Range pthread 4096 x ∧ ¬ Range pthread 64 x

/-- A byte of the name, when both calls have returned. -/
theorem Stores.name_byte (stores : Stores pthread u t
    (record mainThread kernelThread pthread prio function funcArg (view u.bytes pthread))) {i : Nat} (less : i < 16) :
    t.bytes (pthread + Memory.Pcb.name + BitVec.ofNat 32 i) =
      u.bytes (pthread + Memory.Pcb.name + BitVec.ofNat 32 i) := by
  have byte := congrFun stores.page (8 + i)
  rw [record_name (by omega) (by omega), view_eq (by omega), view_eq (by omega), name_place] at byte
  exact byte

theorem Stores.initialised (stores : Stores pthread u t
    (record mainThread kernelThread pthread prio function funcArg (view u.bytes pthread)))
    (copied : StringAt u.bytes (pthread + Memory.Pcb.name) chars) (short : chars.length ≤ 15)
    (zero : ∀ o, chars.length + 8 < o → o < 64 → view u.bytes pthread o = 0)
    (within : Within (fun _ => True) (Touched pthread chars.length) s u) : Initialised pthread prio chars s t := by
  have zeros : ∀ o, 24 ≤ o → o < 64 → view u.bytes pthread o = 0 := fun o above below =>
    zero o (by omega) below
  have nothing (o : U32) (above : 26 ≤ o.toNat) (below : o.toNat + 4 ≤ 60) : field t pthread o = 0 := by
    unfold field
    rw [stores.page]
    exact word_zero fun i above' below' => record_zero zeros (by omega) (by omega)
  constructor
  case within =>
    refine (within.mono (fun _ yes => yes) fun x touched => touched.elim id fun inside => ?_).trans stores.within
    rw [Range.index _ x, ← name_place]
    unfold Range at inside
    exact range_index (by omega)
  case name =>
    refine ⟨chars, copied.congr fun x inside => ?_, short, List.prefix_refl _⟩
    rw [Range.index (pthread + Memory.Pcb.name) x]
    unfold Range at inside
    exact stores.name_byte (by omega)
  case priority =>
    have byte := congrFun stores.page 24
    rw [view_eq (by decide), record_priority] at byte
    exact byte
  case ticks =>
    have byte := congrFun stores.page 25
    rw [view_eq (by decide), record_ticks] at byte
    exact byte
  case pgdir => exact nothing _ (by decide) (by decide)
  case userprogVaddr =>
    exact ⟨nothing _ (by decide) (by decide), nothing _ (by decide) (by decide), nothing _ (by decide) (by decide)⟩
  case generalTag => exact ⟨nothing _ (by decide) (by decide), nothing _ (by decide) (by decide)⟩
  case allListTag => exact ⟨nothing _ (by decide) (by decide), nothing _ (by decide) (by decide)⟩
  case stackMagic =>
    unfold field
    rw [stores.page]
    exact record_magic
  case stack =>
    have top : field t pthread selfKstack = pthread + 3664 := by
      unfold field
      rw [stores.page]
      exact record_stack
    intro x inside
    have place : x = pthread + BitVec.ofNat 32 (3664 + (x - (pthread + 3664)).toNat) := by
      rw [BitVec.ofNat_add, ← BitVec.add_assoc]
      exact Range.index _ _
    rw [top] at inside
    unfold Range at inside
    rw [place]
    refine ⟨range_index (by omega), ?_⟩
    rw [range_index_iff (by omega)]
    omega

/-- Both calls return, and leave a PCB as `thread_start` relies on it. -/
def Starts (mainThread kernelThread pthread name prio function funcArg : U32) (chars : List U8) (s : Ram 32) : Prop :=
  ∃ t, Returns (start mainThread kernelThread pthread name prio function funcArg) s () t ∧
    Initialised pthread prio chars s t

theorem long_name_fails (string : StringAt s.bytes name chars)
    (apart : ∀ x, Range pthread 64 x → ¬ Range name (chars.length + 1) x) (long : 16 ≤ chars.length) :
    ¬ Starts mainThread kernelThread pthread name prio function funcArg chars s := by
  obtain ⟨u, t, ends, stores, copied, -, -⟩ := start_ends string apart mainThread kernelThread prio
      function funcArg
  rintro ⟨t', ends', initialised⟩
  obtain ⟨-, rfl⟩ := ends.unique ends'
  obtain ⟨name', there, short, -⟩ := initialised.name
  -- the sixteen bytes of the field hold characters
  have nul := there.nul
  have char := copied.get (i := name'.length) (by omega)
  rw [stores.name_byte (by omega), char] at nul
  exact (stringAt_iff.mp copied).2 _ (List.getElem_mem _) nul

/-- The PCB is as it should be exactly when the name and its NUL fit in the field. -/
theorem thread_record_iff (string : StringAt s.bytes name chars)
    (apart : ∀ x, Range pthread 64 x → ¬ Range name (chars.length + 1) x) :
    Starts mainThread kernelThread pthread name prio function funcArg chars s ↔ chars.length ≤ 15 := by
  constructor
  · intro starts
    by_contra long
    exact long_name_fails string apart (by omega) starts
  · intro short
    obtain ⟨u, t, ends, stores, copied, zero, within⟩ := start_ends string apart mainThread kernelThread prio
      function funcArg
    exact ⟨t, ends, stores.initialised copied short zero within⟩

theorem thread_record_ab : Starts 0xc009e000 0xc0001500 0xc0100000 0x1000 31 0 0 [0x61, 0x62] abMemory := by
  refine (thread_record_iff abMemory_string fun x inside inside' => ?_).mpr (by decide)
  change (x - 0xc0100000).toNat < 64 at inside
  change (x - 0x1000).toNat < 3 at inside'
  bv_omega

/-- The sixteen characters "aaaaaaaaaaaaaaaa" at 0x1000, and nothing else in memory. -/
def longName : Ram 32 := ⟨fun a => if (a - 0x1000).toNat < 16 then 0x61 else 0, [], []⟩

theorem long_name_unterminated :
    ¬ Starts 0xc009e000 0xc0001500 0xc0100000 0x1000 31 0 0 (List.replicate 16 0x61) longName := by
  have string : StringAt longName.bytes 0x1000 (List.replicate 16 0x61) := by
    simp only [StringAt, List.replicate]
    decide
  refine long_name_fails string (fun x inside inside' => ?_) (by decide)
  change (x - 0xc0100000).toNat < 64 at inside
  change (x - 0x1000).toNat < 17 at inside'
  bv_omega

end LiziOS.ThreadRecord
