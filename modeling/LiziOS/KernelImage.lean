import LiziOS.Types
import LiziOS.Library.ByteMemory

namespace LiziOS.Loader

open ByteMemory

/-! `kernel_init` of `loader.asm`: the segments of the kernel's ELF image are copied to where they
belong. Paging is on: `place` is where a linear address leads, in the mapped part of the address
space. The arguments and registers that are pushed and popped again are values here, so memory is
memory apart from the stack. -/

variable (place : U32 → Nat)

def kernelBinAddr : U32 := 0x70000

def byteAt (m : Memory) (a : U32) : U8 := m (place a)

def halfAt (m : Memory) (a : U32) : U16 := byteAt place m (a + 1) ++ byteAt place m a

def wordAt (m : Memory) (a : U32) : U32 :=
  byteAt place m (a + 3) ++ byteAt place m (a + 2) ++ byteAt place m (a + 1) ++ byteAt place m a

/-- `mem_cpy`: the turns of `rep movsb`. -/
def memCpy (m : Memory) (edi esi : U32) : Nat → Memory
  | 0 => m
  | ecx + 1 => memCpy (Function.update m (place edi) (m (place esi))) (edi + 1) (esi + 1) ecx

/-- The loop `.copy_each_segment`. -/
def copyEachSegment (m : Memory) (ebx edx : U32) : Nat → Memory
  | 0 => m
  | ecx + 1 =>
    let m :=
      if byteAt place m ebx = 0 then m
      else memCpy place m (wordAt place m (ebx + 8)) (wordAt place m (ebx + 4) + kernelBinAddr)
        (wordAt place m (ebx + 16)).toNat
    copyEachSegment m (ebx + edx) edx ecx

/-- `loop` decrements `ecx` before it tests it. -/
def kernelInit (m : Memory) : Memory :=
  let ebx := wordAt place m (kernelBinAddr + 28) + kernelBinAddr
  let edx : U32 := (halfAt place m (kernelBinAddr + 42)).setWidth 32
  let ecx : U32 := (halfAt place m (kernelBinAddr + 44)).setWidth 32
  copyEachSegment place m ebx edx ((ecx - 1).toNat + 1)

/-! The program headers of the image. -/

def phnum (m : Memory) : Nat := (halfAt place m (kernelBinAddr + 44)).toNat

def header (m : Memory) (k : Nat) : U32 :=
  wordAt place m (kernelBinAddr + 28) + kernelBinAddr +
    BitVec.ofNat 32 k * (halfAt place m (kernelBinAddr + 42)).setWidth 32

def pType (m : Memory) (k : Nat) : U32 := wordAt place m (header place m k)

def pOffset (m : Memory) (k : Nat) : U32 := wordAt place m (header place m k + 4)

def pVaddr (m : Memory) (k : Nat) : U32 := wordAt place m (header place m k + 8)

def pFilesz (m : Memory) (k : Nat) : Nat := (wordAt place m (header place m k + 16)).toNat

def pMemsz (m : Memory) (k : Nat) : Nat := (wordAt place m (header place m k + 20)).toNat

/-- `PT_LOAD`. -/
def Loadable (m : Memory) (k : Nat) : Prop := k < phnum place m ∧ pType place m k = 1

/-- What `kernel_init` takes for a header to copy: the low byte of its type is not zero. -/
def Copied (m : Memory) (k : Nat) : Prop := k < phnum place m ∧ byteAt place m (header place m k) ≠ 0

/-- Where byte `i` of the segment belongs, and where it is in the image. -/
def target (m : Memory) (k i : Nat) : Nat := place (pVaddr place m k + BitVec.ofNat 32 i)

def source (m : Memory) (k i : Nat) : Nat := place (pOffset place m k + kernelBinAddr + BitVec.ofNat 32 i)

def InImage (size x : Nat) : Prop := ∃ j < size, x = place (kernelBinAddr + BitVec.ofNat 32 j)

/-- An image of `size` bytes whose headers and file bytes lie in it, with loadable segments that
    overlap neither one another nor the image. -/
structure ElfImage (m : Memory) (size : Nat) : Prop where
  some_ : 1 ≤ phnum place m
  headers : ∀ k < phnum place m, ∀ b < 32,
    InImage place size (place (header place m k + BitVec.ofNat 32 b))
  files : ∀ k < phnum place m, ∀ i < pFilesz place m k, InImage place size (source place m k i)
  sizes : ∀ k, Loadable place m k → pFilesz place m k ≤ pMemsz place m k
  injective : ∀ k, Loadable place m k → ∀ i < pMemsz place m k, ∀ j < pMemsz place m k,
    target place m k i = target place m k j → i = j
  disjoint : ∀ k l, Loadable place m k → Loadable place m l → k ≠ l →
    ∀ i < pMemsz place m k, ∀ j < pMemsz place m l, target place m k i ≠ target place m l j
  apart : ∀ k, Loadable place m k → ∀ i < pMemsz place m k, ¬ InImage place size (target place m k i)

/-- What loading the image is for. -/
structure SegmentsLoaded (m after : Memory) : Prop where
  file : ∀ k, Loadable place m k → ∀ i < pFilesz place m k, after (target place m k i) =
      m (source place m k i)
  tail : ∀ k, Loadable place m k → ∀ i, pFilesz place m k ≤ i → i < pMemsz place m k →
    after (target place m k i) = 0
  rest : ∀ x, (∀ k, Loadable place m k → ∀ i < pMemsz place m k, target place m k i ≠ x) → after x = m x

/-- The headers of other types are not copied over the image. -/
def OthersApart (m : Memory) (size : Nat) : Prop :=
  ∀ k, Copied place m k → ¬ Loadable place m k → ∀ i < pFilesz place m k,
      ¬ InImage place size (target place m k i)

/-- Byte `i` of header `k` is the last that is copied to where it goes. -/
def Last (m : Memory) (k i : Nat) : Prop :=
  (∀ j < pFilesz place m k, i < j → target place m k j ≠ target place m k i) ∧
  ∀ l, Copied place m l → k < l → ∀ j < pFilesz place m l, target place m l j ≠ target place m k i

/-- The bytes that are zero at the end of a segment were zero before, and what is copied for headers
    of other types is there anyhow. -/
structure Harmless (m : Memory) : Prop where
  tails : ∀ k, Loadable place m k → ∀ i, pFilesz place m k ≤ i → i < pMemsz place m k →
    (∀ l, Copied place m l → ∀ j < pFilesz place m l, target place m l j ≠ target place m k i) →
    m (target place m k i) = 0
  others : ∀ l, Copied place m l → ¬ Loadable place m l → ∀ j < pFilesz place m l, Last place m l j →
    (∀ k, Loadable place m k → ∀ i < pFilesz place m k, target place m k i = target place m l j →
      m (source place m l j) = m (source place m k i)) ∧
    (∀ k, Loadable place m k → ∀ i, pFilesz place m k ≤ i → i < pMemsz place m k →
      target place m k i = target place m l j → m (source place m l j) = 0) ∧
    ((∀ k, Loadable place m k → ∀ i < pMemsz place m k, target place m k i ≠ target place m l j) →
      m (source place m l j) = m (target place m l j))

variable {place} {m m' : Memory} {size k l i j n x : Nat}

theorem memCpy_succ (m : Memory) (edi esi : U32) (n : Nat) :
    memCpy place m edi esi (n + 1) =
      Function.update (memCpy place m edi esi n) (place (edi + BitVec.ofNat 32 n))
        (memCpy place m edi esi n (place (esi + BitVec.ofNat 32 n))) := by
  induction n generalizing m edi esi with
  | zero => simp [memCpy]
  | succ n ih =>
    have next (a : U32) : a + 1 + BitVec.ofNat 32 n = a + BitVec.ofNat 32 (n + 1) := by
      rw [Nat.add_comm n 1, BitVec.ofNat_add, BitVec.add_assoc]
      rfl
    rw [memCpy, ih, next, next]
    rfl

/-- A copy whose source is not written meanwhile. -/
theorem memCpy_spec (place : U32 → Nat) (m : Memory) (edi esi : U32) (n : Nat)
    (apart : ∀ i < n, ∀ j < n, place (edi + BitVec.ofNat 32 i) ≠ place (esi + BitVec.ofNat 32 j)) :
    (∀ i < n, (∀ j < n, i < j → place (edi + BitVec.ofNat 32 j) ≠ place (edi + BitVec.ofNat 32 i)) →
      memCpy place m edi esi n (place (edi + BitVec.ofNat 32 i)) = m (place (esi + BitVec.ofNat 32 i))) ∧
    ∀ x, (∀ i < n, place (edi + BitVec.ofNat 32 i) ≠ x) → memCpy place m edi esi n x = m x := by
  induction n with
  | zero => exact ⟨fun i less => absurd less (Nat.not_lt_zero i), fun x _ => rfl⟩
  | succ n ih =>
    obtain ⟨hit, miss⟩ := ih fun i less j less' => apart i (by omega) j (by omega)
    have read : memCpy place m edi esi n (place (esi + BitVec.ofNat 32 n)) =
        m (place (esi + BitVec.ofNat 32 n)) :=
      miss _ fun i less => apart i (by omega) n (by omega)
    rw [memCpy_succ, read]
    constructor
    · intro i less last
      by_cases final : i = n
      · rw [final, Function.update_self]
      · rw [Function.update_of_ne (last n (by omega) (by omega)).symm]
        exact hit i (by omega) fun j less' later => last j (by omega) later
    · intro x outside
      rw [Function.update_of_ne (outside n (by omega)).symm]
      exact miss x fun i less => outside i (by omega)

/-- Where the image is unchanged, its headers and its file bytes are. -/
def SameImage (place : U32 → Nat) (size : Nat) (m m' : Memory) : Prop := ∀ x,
    InImage place size x → m' x = m x

theorem ElfImage.byte (image : ElfImage place m size) (same : SameImage place size m m')
    (less : k < phnum place m) {b : U32} (inside : b.toNat < 32) :
    byteAt place m' (header place m k + b) = byteAt place m (header place m k + b) := by
  have part := image.headers k less b.toNat inside
  rw [BitVec.ofNat_toNat, BitVec.setWidth_eq] at part
  exact same _ part

theorem ElfImage.word (image : ElfImage place m size) (same : SameImage place size m m')
    (less : k < phnum place m) {b : U32} (inside : b.toNat + 3 < 32) :
    wordAt place m' (header place m k + b) = wordAt place m (header place m k + b) := by
  have part (c : U32) (small : c.toNat ≤ 3) : byteAt place m' (header place m k + b + c) =
      byteAt place m (header place m k + b + c) := by
    rw [BitVec.add_assoc]
    apply image.byte same less
    rw [BitVec.toNat_add]
    omega
  unfold wordAt
  rw [part 3 (by decide), part 2 (by decide), part 1 (by decide)]
  have first := part 0 (by decide)
  rw [show header place m k + b + 0 = header place m k + b from BitVec.add_zero _] at first
  rw [first]

/-- What the first `n` headers have put into memory. -/
structure Loading (m after : Memory) (n : Nat) (place : U32 → Nat) (size : Nat) : Prop where
  image : SameImage place size m after
  copied : ∀ k < n, Copied place m k → ∀ i < pFilesz place m k,
    (∀ j < pFilesz place m k, i < j → target place m k j ≠ target place m k i) →
    (∀ l < n, Copied place m l → k < l → ∀ j < pFilesz place m l, target place m l j ≠ target place m k i) →
    after (target place m k i) = m (source place m k i)
  outside : ∀ x, (∀ k < n, Copied place m k → ∀ i < pFilesz place m k, target place m k i ≠ x) → after x = m x

theorem Loading.skip {after : Memory} (loading : Loading m after n place size)
    (skipped : ¬ Copied place m n) :
    Loading m after (n + 1) place size where
  image := loading.image
  copied k less isCopied i inside last later := by
    have before : k ≠ n := by
      rintro rfl
      exact skipped isCopied
    exact loading.copied k (by omega) isCopied i inside last fun l less' => later l (by omega)
  outside x none := loading.outside x fun k less => none k (by omega)

theorem Loading.copy {after : Memory} (loading : Loading m after n place size) (image : ElfImage place m size)
    (copied : Copied place m n)
    (apart : ∀ i < pFilesz place m n, ¬ InImage place size (target place m n i)) :
    Loading m (memCpy place after (pVaddr place m n) (pOffset place m n + kernelBinAddr) (pFilesz place m n))
      (n + 1) place size := by
  have files := image.files n copied.1
  obtain ⟨hit, miss⟩ := memCpy_spec place after (pVaddr place m n)
    (pOffset place m n + kernelBinAddr) (pFilesz place m n) fun i less j less' same =>
      apart i less (by
        unfold target
        rw [same]
        exact files j less')
  change ∀ i < pFilesz place m n, (∀ j < pFilesz place m n, i < j → target place m n j ≠ target place m n i) →
    memCpy place after _ _ _ (target place m n i) = after (source place m n i) at hit
  change ∀ x, (∀ i < pFilesz place m n, target place m n i ≠ x) → memCpy place after _ _ _ x = after x at miss
  refine ⟨?_, ?_, ?_⟩
  · intro x inside
    rw [miss x (by
      rintro i less rfl
      exact apart i less inside)]
    exact loading.image x inside
  · intro k less isCopied i inside last later
    by_cases this : k = n
    · subst k
      rw [hit i inside last]
      exact loading.image _ (files i inside)
    · rw [miss _ fun j less' => later n (by omega) copied (by omega) j less']
      exact loading.copied k (by omega) isCopied i inside last fun l less' => later l (by omega)
  · intro x none
    rw [miss x (none n (by omega) copied)]
    exact loading.outside x fun k less => none k (by omega)

theorem header_succ (m : Memory) (k : Nat) :
    header place m k + (halfAt place m (kernelBinAddr + 42)).setWidth 32 = header place m (k + 1) := by
  unfold header
  rw [BitVec.ofNat_add, BitVec.add_mul, BitVec.add_assoc]
  congr 2
  exact (BitVec.one_mul _).symm

theorem copyEachSegment_loading (image : ElfImage place m size)
    (apart : ∀ k, Copied place m k → ∀ i < pFilesz place m k, ¬ InImage place size (target place m k i))
    {after : Memory} (loading : Loading m after n place size) (left : Nat)
        (total : n + left = phnum place m) :
    Loading m (copyEachSegment place after (header place m n)
      ((halfAt place m (kernelBinAddr + 42)).setWidth 32) left) (phnum place m) place size := by
  induction left generalizing n after with
  | zero =>
    rw [← total]
    exact loading
  | succ left ih =>
    have less : n < phnum place m := by omega
    have type := image.byte loading.image less (b := 0) (by decide)
    rw [show header place m n + 0 = header place m n from BitVec.add_zero _] at type
    have offset := image.word loading.image less (b := 4) (by decide)
    have vaddr := image.word loading.image less (b := 8) (by decide)
    have filesz := image.word loading.image less (b := 16) (by decide)
    rw [copyEachSegment, type, offset, vaddr, filesz, header_succ]
    by_cases null : byteAt place m (header place m n) = 0
    · rw [if_pos null]
      exact ih (loading.skip fun copied => copied.2 null) (by omega)
    · rw [if_neg null]
      exact ih (loading.copy image ⟨less, null⟩ (apart n ⟨less, null⟩)) (by omega)

theorem append_low {n : Nat} (high : BitVec n) (low : U8) : (high ++ low).setWidth 8 = low := by
  apply BitVec.eq_of_getLsbD_eq
  intro b less
  rw [BitVec.getLsbD_setWidth, BitVec.getLsbD_append, if_pos less, decide_eq_true less, Bool.true_and]

theorem wordAt_low (place : U32 → Nat) (m : Memory) (a : U32) : (wordAt place m a).setWidth 8 =
    byteAt place m a :=
  append_low _ _

theorem Loadable.copied (loadable : Loadable place m k) : Copied place m k := by
  refine ⟨loadable.1, ?_⟩
  have low := wordAt_low place m (header place m k)
  rw [show wordAt place m (header place m k) = 1 from loadable.2] at low
  rw [← low]
  decide

theorem Copied.apart (image : ElfImage place m size) (others : OthersApart place m size)
    (copied : Copied place m k) : ∀ i < pFilesz place m k, ¬ InImage place size (target place m k i) := by
  intro i less
  by_cases loadable : Loadable place m k
  · exact image.apart k loadable i (by have := image.sizes k loadable; omega)
  · exact others k copied loadable i less

theorem kernelInit_loading (image : ElfImage place m size) (others : OthersApart place m size) :
    Loading m (kernelInit place m) (phnum place m) place size := by
  have start : Loading m m 0 place size :=
    ⟨fun _ _ => rfl, fun k less => absurd less (Nat.not_lt_zero k), fun _ _ => rfl⟩
  have count : ((halfAt place m (kernelBinAddr + 44)).setWidth 32 - (1 : U32)).toNat + 1 = phnum place m := by
    have some_ := image.some_
    unfold phnum at some_ ⊢
    generalize halfAt place m (kernelBinAddr + 44) = half at some_
    have bound := half.isLt
    simp only [BitVec.toNat_sub, BitVec.toNat_setWidth, BitVec.ofNat_eq_ofNat, BitVec.toNat_ofNat]
    omega
  have first : wordAt place m (kernelBinAddr + 28) + kernelBinAddr = header place m 0 := by
    simp [header]
  unfold kernelInit
  simp only [count, first]
  exact copyEachSegment_loading image (fun k copied => copied.apart image others) start _ (Nat.zero_add _)

theorem exists_last {P : Nat → Prop} {b n : Nat} (bound : ∀ k, P k → k < b) (holds : P n) :
    ∃ k, P k ∧ ∀ l, k < l → ¬ P l := by
  classical
  exact ⟨Nat.findGreatest P b, Nat.findGreatest_spec (bound n holds).le holds,
    fun l later holds' => Nat.findGreatest_is_greatest later (bound l holds').le holds'⟩

/-- A byte is never written or some byte of some header is the last to go there. -/
theorem written_or_not (place : U32 → Nat) (m : Memory) (x : Nat) :
    (∀ l, Copied place m l → ∀ j < pFilesz place m l, target place m l j ≠ x) ∨
    ∃ l j, Copied place m l ∧ j < pFilesz place m l ∧ Last place m l j ∧ target place m l j = x := by
  by_cases hit : ∃ l, Copied place m l ∧ ∃ j < pFilesz place m l, target place m l j = x
  · right
    obtain ⟨l, some_⟩ := hit
    obtain ⟨l, ⟨copied, j, some_⟩, noLater⟩ := exists_last (b := phnum place m)
      (P := fun l => Copied place m l ∧ ∃ j < pFilesz place m l, target place m l j = x)
      (fun k holds => holds.1.1) some_
    obtain ⟨j, ⟨less, same⟩, last⟩ := exists_last (b := pFilesz place m l)
      (P := fun j => j < pFilesz place m l ∧ target place m l j = x) (fun k holds => holds.1) some_
    refine ⟨l, j, copied, less, ⟨?_, ?_⟩, same⟩
    · intro j' less' later clash
      exact last j' later ⟨less', clash.trans same⟩
    · intro l' copied' later j' less' clash
      exact noLater l' later ⟨copied', j', less', clash.trans same⟩
  · left
    intro l copied j less same
    exact hit ⟨l, copied, j, less, same⟩

theorem Loading.last {after : Memory} (loading : Loading m after (phnum place m) place size)
    (copied : Copied place m l) (less : j < pFilesz place m l) (last : Last place m l j) :
    after (target place m l j) = m (source place m l j) :=
  loading.copied l copied.1 copied j less last.1 fun l' _ copied' later => last.2 l' copied' later

theorem Loading.harmless {after : Memory} (loading : Loading m after (phnum place m) place size)
    (loaded : SegmentsLoaded place m after) : Harmless place m where
  tails k loadable i past inside untouched := by
    rw [← loading.outside _ fun l _ copied => untouched l copied]
    exact loaded.tail k loadable i past inside
  others l copied notLoadable j less last := by
    have written := loading.last copied less last
    refine ⟨?_, ?_, ?_⟩
    · intro k loadable i inside same
      rw [← written, ← same]
      exact loaded.file k loadable i inside
    · intro k loadable i past inside same
      rw [← written, ← same]
      exact loaded.tail k loadable i past inside
    · intro outside
      rw [← written]
      exact loaded.rest _ outside

theorem Loading.loaded {after : Memory} (loading : Loading m after (phnum place m) place size)
    (image : ElfImage place m size) (harmless : Harmless place m) : SegmentsLoaded place m after where
  file k loadable i inside := by
    have within := image.sizes k loadable
    rcases written_or_not place m (target place m k i) with untouched | written
    · exact absurd rfl (untouched k loadable.copied i inside)
    · obtain ⟨l, j, copied, less, last, same⟩ := written
      rw [← same, loading.last copied less last]
      by_cases other : Loadable place m l
      · have within' := image.sizes l other
        have header : l = k := by
          by_contra different
          exact image.disjoint l k other loadable different j (by omega) i (by omega) same
        subst l
        have byte : j = i := image.injective k loadable j (by omega) i (by omega) same
        rw [byte]
      · exact (harmless.others l copied other j less last).1 k loadable i inside same.symm
  tail k loadable i past inside := by
    rcases written_or_not place m (target place m k i) with untouched | written
    · rw [loading.outside _ fun l _ copied => untouched l copied]
      exact harmless.tails k loadable i past inside untouched
    · obtain ⟨l, j, copied, less, last, same⟩ := written
      rw [← same, loading.last copied less last]
      by_cases other : Loadable place m l
      · exfalso
        have within' := image.sizes l other
        have header : l = k := by
          by_contra different
          exact image.disjoint l k other loadable different j (by omega) i inside same
        subst l
        have byte : j = i := image.injective k loadable j (by omega) i inside same
        omega
      · exact (harmless.others l copied other j less last).2.1 k loadable i past inside same.symm
  rest x outside := by
    rcases written_or_not place m x with untouched | written
    · exact loading.outside x fun l _ copied => untouched l copied
    · obtain ⟨l, j, copied, less, last, same⟩ := written
      by_cases other : Loadable place m l
      · exact absurd same (outside l other j (by have := image.sizes l other; omega))
      · rw [← same, loading.last copied less last]
        refine (harmless.others l copied other j less last).2.2 ?_
        rw [same]
        exact outside

/-- Where the boot page tables lead: the low memory is mapped at 0 and at the kernel's base. -/
def lowMemory (a : U32) : Nat := a.toNat % 0xc0000000

/-- An image with one loadable segment, two bytes of file and four of memory at `0xc0001500`; all other
    memory holds `rest`. -/
def oneSegment (rest : U8) : Memory := fun x =>
  if x < 0x70000 ∨ 0x70056 ≤ x then rest
  else if x = 0x7001c then 52
  else if x = 0x7002a then 32
  else if x = 0x7002c then 1
  else if x = 0x70034 then 1
  else if x = 0x70038 then 84
  else if x = 0x7003d then 0x15
  else if x = 0x7003f then 0xc0
  else if x = 0x70044 then 2
  else if x = 0x70048 then 4
  else if x = 0x70054 then 0xab
  else if x = 0x70055 then 0xcd
  else 0

theorem oneSegment_at (rest : U8) {a : U32} (inside : 0x70000 ≤ lowMemory a ∧ lowMemory a < 0x70056) :
    byteAt lowMemory (oneSegment rest) a = byteAt lowMemory (oneSegment 0) a := by
  simp only [byteAt, oneSegment]
  rw [if_neg (show ¬ (lowMemory a < 0x70000 ∨ 0x70056 ≤ lowMemory a) by omega),
    if_neg (show ¬ (lowMemory a < 0x70000 ∨ 0x70056 ≤ lowMemory a) by omega)]

theorem oneSegment_word (rest : U8) {a : U32} (inside : 0x70000 ≤ a.toNat ∧ a.toNat + 3 < 0x70056) :
    wordAt lowMemory (oneSegment rest) a = wordAt lowMemory (oneSegment 0) a := by
  have part (b : U32) (small : b.toNat ≤ 3) : byteAt lowMemory (oneSegment rest) (a + b) =
      byteAt lowMemory (oneSegment 0) (a + b) := by
    apply oneSegment_at
    rw [lowMemory, BitVec.toNat_add]
    omega
  have first := part 0 (by decide)
  rw [show a + 0 = a from BitVec.add_zero _] at first
  unfold wordAt
  rw [part 3 (by decide), part 2 (by decide), part 1 (by decide), first]

theorem oneSegment_phnum (rest : U8) : phnum lowMemory (oneSegment rest) = 1 := by
  unfold phnum halfAt
  rw [oneSegment_at rest (by decide), oneSegment_at rest (by decide)]
  decide

theorem oneSegment_header (rest : U8) : header lowMemory (oneSegment rest) 0 = 0x70034 := by
  unfold header halfAt
  rw [oneSegment_word rest (by decide), oneSegment_at rest (by decide), oneSegment_at rest (by decide)]
  decide

theorem oneSegment_type (rest : U8) : pType lowMemory (oneSegment rest) 0 = 1 := by
  rw [pType, oneSegment_header, oneSegment_word rest (by decide)]
  decide

theorem oneSegment_offset (rest : U8) : pOffset lowMemory (oneSegment rest) 0 = 84 := by
  rw [pOffset, oneSegment_header, oneSegment_word rest (by decide)]
  decide

theorem oneSegment_vaddr (rest : U8) : pVaddr lowMemory (oneSegment rest) 0 = 0xc0001500 := by
  rw [pVaddr, oneSegment_header, oneSegment_word rest (by decide)]
  decide

theorem oneSegment_filesz (rest : U8) : pFilesz lowMemory (oneSegment rest) 0 = 2 := by
  rw [pFilesz, oneSegment_header, oneSegment_word rest (by decide)]
  decide

theorem oneSegment_memsz (rest : U8) : pMemsz lowMemory (oneSegment rest) 0 = 4 := by
  rw [pMemsz, oneSegment_header, oneSegment_word rest (by decide)]
  decide

theorem oneSegment_loadable (rest : U8) : Loadable lowMemory (oneSegment rest) 0 := by
  refine ⟨?_, oneSegment_type rest⟩
  rw [oneSegment_phnum]
  decide

theorem oneSegment_only (rest : U8) (less : k < phnum lowMemory (oneSegment rest)) : k = 0 := by
  rw [oneSegment_phnum] at less
  omega

theorem oneSegment_target (rest : U8) (less : i < 4) :
    target lowMemory (oneSegment rest) 0 i = 0x1500 + i := by
  rw [target, oneSegment_vaddr]
  simp only [lowMemory, BitVec.toNat_add, BitVec.ofNat_eq_ofNat, BitVec.toNat_ofNat]
  omega

theorem oneSegment_inImage (less : i < 86) : InImage lowMemory 86 (0x70000 + i) := by
  refine ⟨i, less, ?_⟩
  simp only [lowMemory, kernelBinAddr, BitVec.toNat_add, BitVec.ofNat_eq_ofNat, BitVec.toNat_ofNat]
  omega

theorem oneSegment_image (rest : U8) : ElfImage lowMemory (oneSegment rest) 86 := by
  have filesz := oneSegment_filesz rest
  have memsz := oneSegment_memsz rest
  refine ⟨?_, ?_, ?_, ?_, ?_, ?_, ?_⟩
  · rw [oneSegment_phnum]
  · intro k less b inside
    rw [oneSegment_only rest less, oneSegment_header]
    have at_ : lowMemory (0x70034 + BitVec.ofNat 32 b) = 0x70000 + (0x34 + b) := by
      simp only [lowMemory, BitVec.toNat_add, BitVec.ofNat_eq_ofNat, BitVec.toNat_ofNat]
      omega
    rw [at_]
    exact oneSegment_inImage (by omega)
  · intro k less i inside
    rw [oneSegment_only rest less] at inside ⊢
    rw [filesz] at inside
    have at_ : source lowMemory (oneSegment rest) 0 i = 0x70000 + (84 + i) := by
      rw [source, oneSegment_offset]
      simp only [lowMemory, kernelBinAddr, BitVec.toNat_add, BitVec.ofNat_eq_ofNat, BitVec.toNat_ofNat]
      omega
    rw [at_]
    exact oneSegment_inImage (by omega)
  · intro k loadable
    rw [oneSegment_only rest loadable.1, filesz, memsz]
    omega
  · intro k loadable i less j less' same
    rw [oneSegment_only rest loadable.1] at less less' same
    rw [memsz] at less less'
    rw [oneSegment_target rest less, oneSegment_target rest less'] at same
    omega
  · intro k l loadable loadable' different
    exact absurd ((oneSegment_only rest loadable.1).trans (oneSegment_only rest loadable'.1).symm) different
  · rintro k loadable i less ⟨j, less', same⟩
    rw [oneSegment_only rest loadable.1] at less same
    rw [memsz] at less
    rw [oneSegment_target rest less] at same
    simp only [lowMemory, kernelBinAddr, BitVec.toNat_add, BitVec.ofNat_eq_ofNat, BitVec.toNat_ofNat] at same
    omega

theorem oneSegment_others (rest : U8) : OthersApart lowMemory (oneSegment rest) 86 := by
  intro k copied notLoadable
  rw [oneSegment_only rest copied.1] at notLoadable
  exact absurd (oneSegment_loadable rest) notLoadable

end LiziOS.Loader
