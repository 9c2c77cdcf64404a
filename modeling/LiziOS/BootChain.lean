import LiziOS.DiskLoading

namespace LiziOS.Loader

open ByteMemory AtaPio

/-! From the files that the Makefile puts on the disk to the kernel in memory. -/

/-- `dd if=input of=img bs=512 count=count seek=seek conv=notrunc`. -/
def dd (input : List U8) (count seek : Nat) (img : Memory) : Memory := fun x =>
  if 512 * seek ≤ x ∧ x < 512 * seek + min input.length (512 * count) then input.getD (x - 512 * seek) 0
  else img x

def masterImg (boot loader kernel : List U8) : Memory :=
  dd kernel 200 9 (dd loader 2 2 (dd boot 1 0 fun _ => 0))

/-- What `boot.asm` and `loader.asm` do with the disk, the page tables and the kernel's image. -/
def bootKernel (polls : Nat) : D Unit := do
  readDisk16 polls 0x900 2 2
  readDisk32 polls 0x70000 9 200
  modify fun s => { s with mem := setupPage s.mem }
  modify fun s => { s with mem := kernelInit lowMemory s.mem }

/-- A file, alone in memory where the loader reads the kernel to. -/
def fileAt (kernel : List U8) : Memory := fun x => if 0x70000 ≤ x then kernel.getD (x - 0x70000) 0 else 0

/-- The file is an ELF image, and no header but those of its loadable segments has file bytes. -/
structure Bootable (kernel : List U8) : Prop where
  ehdr : 52 ≤ kernel.length
  fits : kernel.length ≤ 512 * 200
  image : ElfImage lowMemory (fileAt kernel) kernel.length
  others : ∀ k, Copied lowMemory (fileAt kernel) k → ¬ Loadable lowMemory (fileAt kernel) k →
    pFilesz lowMemory (fileAt kernel) k = 0

variable {s t : Disk} {m m' : Memory} {polls size k i x : Nat} {boot loader kernel : List U8} {place : U32 → Nat}

/-! An image depends on nothing but its own bytes. -/

section Same

variable (same : SameImage place size m m') (ehdr : 52 ≤ size)
include same ehdr

theorem byteAt_same {j : U32} (inside : j.toNat < 52) :
    byteAt place m' (kernelBinAddr + j) = byteAt place m (kernelBinAddr + j) := by
  apply same
  refine ⟨j.toNat, by omega, ?_⟩
  rw [BitVec.ofNat_toNat, BitVec.setWidth_eq]

theorem halfAt_same {j : U32} (first : j.toNat < 52) (second : (j + 1).toNat < 52) :
    halfAt place m' (kernelBinAddr + j) = halfAt place m (kernelBinAddr + j) := by
  unfold halfAt
  rw [BitVec.add_assoc, byteAt_same same ehdr first, byteAt_same same ehdr second]

theorem phnum_same : phnum place m' = phnum place m := by
  unfold phnum
  rw [halfAt_same same ehdr (by decide) (by decide)]

theorem header_same : header place m' k = header place m k := by
  have phoff : wordAt place m' (kernelBinAddr + 28) = wordAt place m (kernelBinAddr + 28) := by
    unfold wordAt
    rw [BitVec.add_assoc, BitVec.add_assoc, BitVec.add_assoc, byteAt_same same ehdr (j := 28) (by decide),
      byteAt_same same ehdr (j := 28 + 1) (by decide), byteAt_same same ehdr (j := 28 + 2) (by decide),
      byteAt_same same ehdr (j := 28 + 3) (by decide)]
  unfold header
  rw [phoff, halfAt_same same ehdr (by decide) (by decide)]

variable (image : ElfImage place m size)
include image

theorem word_same (less : k < phnum place m) {b : U32} (inside : b.toNat + 3 < 32) :
    wordAt place m' (header place m' k + b) = wordAt place m (header place m k + b) := by
  rw [header_same same ehdr]
  exact image.word same less inside

theorem pType_same (less : k < phnum place m) : pType place m' k = pType place m k := by
  have word := word_same same ehdr image less (b := 0) (by decide)
  rwa [show header place m' k + 0 = header place m' k from BitVec.add_zero _,
    show header place m k + 0 = header place m k from BitVec.add_zero _] at word

theorem pFilesz_same (less : k < phnum place m) : pFilesz place m' k = pFilesz place m k :=
  congrArg BitVec.toNat (word_same same ehdr image less (by decide))

theorem pMemsz_same (less : k < phnum place m) : pMemsz place m' k = pMemsz place m k :=
  congrArg BitVec.toNat (word_same same ehdr image less (by decide))

theorem target_same (less : k < phnum place m) : target place m' k i = target place m k i := by
  have vaddr : pVaddr place m' k = pVaddr place m k := word_same same ehdr image less (by decide)
  unfold target
  rw [vaddr]

theorem source_same (less : k < phnum place m) : source place m' k i = source place m k i := by
  have offset : pOffset place m' k = pOffset place m k := word_same same ehdr image less (by decide)
  unfold source
  rw [offset]

theorem loadable_same : Loadable place m' k ↔ Loadable place m k := by
  unfold Loadable
  rw [phnum_same same ehdr]
  constructor
  · rintro ⟨less, type⟩
    rw [pType_same same ehdr image less] at type
    exact ⟨less, type⟩
  · rintro ⟨less, type⟩
    rw [← pType_same same ehdr image less] at type
    exact ⟨less, type⟩

theorem copied_same : Copied place m' k ↔ Copied place m k := by
  unfold Copied
  rw [phnum_same same ehdr, header_same same ehdr]
  constructor
  · rintro ⟨less, type⟩
    have byte := image.byte same less (b := 0) (by decide)
    rw [show header place m k + 0 = header place m k from BitVec.add_zero _] at byte
    exact ⟨less, byte ▸ type⟩
  · rintro ⟨less, type⟩
    have byte := image.byte same less (b := 0) (by decide)
    rw [show header place m k + 0 = header place m k from BitVec.add_zero _] at byte
    exact ⟨less, byte ▸ type⟩

theorem ElfImage.congr : ElfImage place m' size where
  some_ := by
    rw [phnum_same same ehdr]
    exact image.some_
  headers k less b inside := by
    rw [phnum_same same ehdr] at less
    rw [header_same same ehdr]
    exact image.headers k less b inside
  files k less i inside := by
    rw [phnum_same same ehdr] at less
    rw [pFilesz_same same ehdr image less] at inside
    rw [source_same same ehdr image less]
    exact image.files k less i inside
  sizes k loadable := by
    have old := (loadable_same same ehdr image).mp loadable
    rw [pFilesz_same same ehdr image old.1, pMemsz_same same ehdr image old.1]
    exact image.sizes k old
  injective k loadable i inside j inside' equal := by
    have old := (loadable_same same ehdr image).mp loadable
    rw [pMemsz_same same ehdr image old.1] at inside inside'
    rw [target_same same ehdr image old.1, target_same same ehdr image old.1] at equal
    exact image.injective k old i inside j inside' equal
  disjoint k l loadable loadable' different i inside j inside' := by
    have old := (loadable_same same ehdr image).mp loadable
    have old' := (loadable_same same ehdr image).mp loadable'
    rw [pMemsz_same same ehdr image old.1] at inside
    rw [pMemsz_same same ehdr image old'.1] at inside'
    rw [target_same same ehdr image old.1, target_same same ehdr image old'.1]
    exact image.disjoint k l old old' different i inside j inside'
  apart k loadable i inside := by
    have old := (loadable_same same ehdr image).mp loadable
    rw [pMemsz_same same ehdr image old.1] at inside
    rw [target_same same ehdr image old.1]
    exact image.apart k old i inside

end Same

/-- The segments get the file's bytes, and nothing else is written. -/
theorem Bootable.loaded (bootable : Bootable kernel) (same : SameImage lowMemory kernel.length (fileAt kernel) m) :
    (∀ k, Loadable lowMemory (fileAt kernel) k → ∀ i < pFilesz lowMemory (fileAt kernel) k,
      kernelInit lowMemory m (target lowMemory (fileAt kernel) k i) = fileAt kernel (source lowMemory (fileAt kernel) k i)) ∧
    ∀ x, (∀ k, Loadable lowMemory (fileAt kernel) k → ∀ i < pFilesz lowMemory (fileAt kernel) k,
      target lowMemory (fileAt kernel) k i ≠ x) → kernelInit lowMemory m x = m x := by
  have image := bootable.image
  have ehdr := bootable.ehdr
  have image' := image.congr same ehdr
  -- a header of another type copies nothing
  have empty {k : Nat} (copied : Copied lowMemory m k) (other : ¬ Loadable lowMemory m k) : pFilesz lowMemory m k = 0 := by
    have old := (copied_same same ehdr image).mp copied
    rw [pFilesz_same same ehdr image old.1]
    exact bootable.others k old fun loadable => other ((loadable_same same ehdr image).mpr loadable)
  have others : OthersApart lowMemory m kernel.length := by
    intro k copied other i less
    rw [empty copied other] at less
    exact absurd less (Nat.not_lt_zero i)
  have loading := kernelInit_loading image' others
  constructor
  · intro k loadable i less
    have loadable' := (loadable_same same ehdr image).mpr loadable
    have less' : i < pFilesz lowMemory m k := by
      rw [pFilesz_same same ehdr image loadable.1]
      exact less
    have size := image'.sizes k loadable'
    have written := loading.copied k loadable'.1 loadable'.copied i less'
      (fun j inside later clash => by
        have equal := image'.injective k loadable' j (by omega) i (by omega) clash
        omega)
      (fun l _ copied later j inside clash => by
        by_cases other : Loadable lowMemory m l
        · have size' := image'.sizes l other
          exact image'.disjoint l k other loadable' (by omega) j (by omega) i (by omega) clash
        · rw [empty copied other] at inside
          exact absurd inside (Nat.not_lt_zero j))
    rw [target_same same ehdr image loadable.1, source_same same ehdr image loadable.1] at written
    rw [written]
    exact same _ (image.files k loadable.1 i less)
  · intro x outside
    apply loading.outside x
    intro k _ copied i less
    by_cases loadable' : Loadable lowMemory m k
    · have loadable := (loadable_same same ehdr image).mp loadable'
      rw [pFilesz_same same ehdr image loadable.1] at less
      rw [target_same same ehdr image loadable.1]
      exact outside k loadable i less
    · rw [empty copied loadable'] at less
      exact absurd less (Nat.not_lt_zero i)

/-! The disk. -/

theorem masterImg_kernel (less : i < 512 * 200) :
    masterImg boot loader kernel (512 * 9 + i) = kernel.getD i 0 := by
  unfold masterImg dd
  by_cases inside : i < kernel.length
  · rw [if_pos (by omega), Nat.add_sub_cancel_left]
  · rw [if_neg (by omega), if_neg (by omega), if_neg (by omega), List.getD_eq_getElem?_getD,
      List.getElem?_eq_none (by omega)]
    rfl

theorem lowMemory_image {j : Nat} (less : j < 512 * 200) : lowMemory (kernelBinAddr + BitVec.ofNat 32 j) = 0x70000 + j := by
  unfold lowMemory kernelBinAddr
  rw [BitVec.toNat_add, BitVec.toNat_ofNat, show (0x70000 : U32).toNat = 0x70000 from rfl]
  omega

/-- The file of an image with one segment of two bytes. -/
def oneSegmentFile : List U8 := (List.range 86).map fun i => oneSegment 0 (0x70000 + i)

theorem oneSegmentFile_at : fileAt oneSegmentFile = oneSegment 0 := by
  funext x
  unfold fileAt oneSegmentFile
  rw [List.getD_eq_getElem?_getD, List.getElem?_map]
  by_cases inside : 0x70000 ≤ x ∧ x < 0x70056
  · rw [if_pos inside.1, List.getElem?_range (by omega), Option.map_some, Nat.add_sub_cancel' inside.1]
    rfl
  · have outside : oneSegment 0 x = 0 := by
      unfold oneSegment
      rw [if_pos (by omega)]
    rw [outside]
    split
    · rw [List.getElem?_eq_none (by rw [List.length_range]; omega)]
      rfl
    · rfl

theorem oneSegmentFile_bootable : Bootable oneSegmentFile := by
  have length : oneSegmentFile.length = 86 := by
    unfold oneSegmentFile
    rw [List.length_map, List.length_range]
  refine ⟨by rw [length]; decide, by rw [length]; decide, ?_, ?_⟩
  · rw [oneSegmentFile_at, length]
    exact oneSegment_image 0
  · rw [oneSegmentFile_at]
    intro k copied other
    rw [oneSegment_only 0 copied.1] at other
    exact absurd (oneSegment_loadable 0) other

/-- The disk with the file on it, in a drive that is always ready. -/
def oneSegmentDisk : Disk :=
  ⟨⟨fun lba i => masterImg [] [] oneSegmentFile (512 * lba + i), fun _ => 0, 0, 0, 0, 0, 0, .idle⟩, fun _ => 0⟩

end LiziOS.Loader
