import LiziOS.BootPages
import LiziOS.ProcessCreation

namespace LiziOS.Memory

open ByteMemory Paging Loader

/-! What memory means when the initialisation in `main` has come to its end. -/

/-- The tables of the kernel; nothing is known of the entries behind the heap. -/
def kernelSlot (pages frame i : Nat) : Slot :=
  if frame = 0x100 then
    if i = 0 then .maps 0x101
    else if i < 768 then .absent
    else if i < 1023 then .maps (0x101 + (i - 768))
    else .maps 0x100
  else if frame < 0x101 ∨ 0x200 ≤ frame then .unknown
  else if frame = 0x101 ∧ i < 256 then .maps i
  else if 1024 * (frame - 0x101) + i < 256 + pages ∧ i < 1024 then .absent
  else .unknown

def bootLayout (kernelFree userFree : Nat) (tail : Bool) : Layout where
  kernelFree := kernelFree
  userFree := userFree
  kernelUsed := 0
  userUsed := 0
  heapUsed := 0
  heapMapped := 0
  tail := tail
  use := fun _ => .free
  slot := kernelSlot (8 * (kernelFree / 8))
  dirs := []

variable {s t : Machine} {m m' : ByteMemory.Memory} {pages kernelFree userFree frame i : Nat} {tail : Bool}

theorem kernelSlot_dir (inside : i < 1023) (above : 768 ≤ i) :
    kernelSlot pages 0x100 i = .maps (0x101 + (i - 768)) := by
  rw [kernelSlot, if_pos rfl, if_neg (by omega), if_neg (by omega), if_pos inside]

theorem kernelSlot_low (inside : i < 256) : kernelSlot pages 0x101 i = .maps i := by
  rw [kernelSlot, if_neg (by omega), if_neg (by omega), if_pos ⟨rfl, inside⟩]

theorem kernelSlot_heap (inside : i < pages) (small : pages < 2 ^ 15) :
    kernelSlot pages (0x101 + (256 + i) / 1024) ((256 + i) % 1024) = .absent := by
  rw [kernelSlot, if_neg (by omega), if_neg (by omega), if_neg (by omega), if_pos (by omega)]

theorem bootLayout_valid (kernelSmall : kernelFree < 2 ^ 15) (userSmall : userFree ≤ 2 ^ 15) :
    (bootLayout kernelFree userFree tail).Valid := by
  have root {r : Nat} (root : (bootLayout kernelFree userFree tail).Root r) : r = 0x100 := by
    rcases root with rfl | member
    · rfl
    · cases member
  refine
    { kernelFree := kernelSmall
      userFree := userSmall
      kernelUsed := Nat.zero_le _
      userUsed := Nat.zero_le _
      heapUsed := Nat.zero_le _
      heapMapped := Nat.zero_le _
      mappedUsed := Nat.zero_le _
      kernelHalf := ?_
      window := ?_
      identity := rfl
      low := fun i inside => kernelSlot_low inside
      mapped := fun i less => absurd less (Nat.not_lt_zero i)
      unmapped := fun i _ inside => by
        have small : 8 * (kernelFree / 8) < 2 ^ 15 := by omega
        exact kernelSlot_heap inside small
      userHalf := fun d member => nomatch member
      table := fun t d p use => nomatch use
      page := fun frame d v use => nomatch use
      heap := fun frame i use => nomatch use
      known := ?_
      dir := fun d member => nomatch member
      heapFrame := fun frame i use => nomatch use
      tableFrame := fun frame d p use => nomatch use
      pageFrame := fun frame d v use => nomatch use }
  · intro r isRoot j less
    rw [root isRoot]
    have entry : kernelSlot (8 * (kernelFree / 8)) 0x100 (768 + j) = .maps (0x101 + (768 + j - 768)) :=
      kernelSlot_dir (by omega) (by omega)
    rw [Nat.add_sub_cancel_left] at entry
    exact entry
  · intro r isRoot
    rw [root isRoot]
    rfl
  · intro frame i inside known
    left
    by_contra outside
    refine known ?_
    change kernelSlot _ frame i = .unknown
    rw [kernelSlot, if_neg (by omega), if_pos (by omega)]

theorem kernelSlot_absent (inside : i < 1024) (absent : kernelSlot pages frame i = .absent) :
    (frame = 0x100 ∧ 0 < i ∧ i < 768) ∨ (0x101 ≤ frame ∧ frame < 0x200 ∧ ¬ (frame = 0x101 ∧ i < 256) ∧
      1024 * (frame - 0x101) + i < 256 + pages) := by
  unfold kernelSlot at absent
  split at absent
  · split at absent
    · contradiction
    · split at absent
      · omega
      · split at absent <;> contradiction
  · split at absent
    · contradiction
    · split at absent
      · contradiction
      · split at absent
        · omega
        · contradiction

theorem kernelSlot_maps {target : Nat} (inside : i < 1024)
    (known : kernelSlot pages frame i = .maps target) :
    (frame = 0x100 ∧ dirEntry i = mk target ∧ target < 0x200) ∨ (frame = 0x101 ∧ i < 256 ∧ target = i) := by
  unfold kernelSlot at known
  split at known
  · left
    split at known
    · rename_i first
      rw [← Slot.maps.inj known, dirEntry, if_pos (.inl first)]
      exact ⟨by assumption, rfl, by decide⟩
    · split at known
      · contradiction
      · split at known
        · rw [← Slot.maps.inj known]
          refine ⟨by assumption, ?_, by omega⟩
          by_cases first : i = 768
          · rw [dirEntry, if_pos (.inr first), first]
          · rw [dirEntry, if_neg (by omega), if_neg (by omega), if_pos (by omega)]
        · rw [← Slot.maps.inj known, dirEntry, if_neg (by omega), if_pos (by omega)]
          exact ⟨by assumption, rfl, by decide⟩
  · split at known
    · contradiction
    · split at known
      · rename_i low
        exact .inr ⟨low.1, low.2, (Slot.maps.inj known).symm⟩
      · split at known <;> contradiction

theorem setupPage_holds {allMem gdtBase : U32} (loaded : Loaded m allMem gdtBase) :
    Holds m (kernelSlot (heapPages allMem)) := by
  obtain ⟨before, same⟩ := loaded.tables
  have entries (t i : Nat) (high : 0x100 ≤ t) : entry m t i = entry (setupPage before) t i :=
    word_congr fun x above below => same x (by omega)
  intro frame
  constructor
  · intro i inside absent
    rcases kernelSlot_absent inside absent with ⟨rfl, above, below⟩ | ⟨above, below, notLow, heap⟩
    · rw [entries _ _ (by omega), setupPage_dir inside, dirEntry, if_neg (by omega), if_neg (by omega),
        if_neg (by omega)]
      rfl
    · have clear := loaded.heapClear (1024 * (frame - 0x101) + i - 256) (by omega)
      unfold heapEntry at clear
      rw [show 0x101 + (256 + (1024 * (frame - 0x101) + i - 256)) / 1024 = frame by omega,
        show (256 + (1024 * (frame - 0x101) + i - 256)) % 1024 = i by omega] at clear
      exact clear
  · intro i inside target known
    rcases kernelSlot_maps inside known with ⟨rfl, same, small⟩ | ⟨rfl, below, rfl⟩
    · rw [entries _ _ (by omega), setupPage_dir inside, same]
      exact ⟨rfl, by omega⟩
    · rw [entries _ _ (by omega), setupPage_table below]
      exact ⟨rfl, by omega⟩

/-- The bitmaps lie in frames of which the tables say nothing. -/
theorem kernelSlot_bitmaps (low : frame < 0x100) : kernelSlot pages frame i = .unknown := by
  rw [kernelSlot, if_neg (by omega), if_pos (by omega)]

theorem bitmapInit_ok (holds : Holds s.phys (kernelSlot pages)) (root : s.root = 0x100) (base length : Nat)
    (inside : base + length ≤ 0x100000) :
    ∃ m, bitmapInit ⟨BitVec.ofNat 32 length, BitVec.ofNat 32 (0xc0000000 + base)⟩ s =
        .ok () { s with phys := m } ∧ Holds m (kernelSlot pages) ∧
      (∀ i < length, m (base + i) = 0) ∧ ∀ x, x < base ∨ base + length ≤ x → m x = s.phys x := by
  have address : (BitVec.ofNat 32 (0xc0000000 + base)).toNat = 0xc0000000 + base := by
    rw [BitVec.toNat_ofNat, Nat.mod_eq_of_lt (by omega)]
  have count : (BitVec.ofNat 32 length).toNat = length := by
    rw [BitVec.toNat_ofNat, Nat.mod_eq_of_lt (by omega)]
  have region : Region (Holds · (kernelSlot pages)) s.root (BitVec.ofNat 32 (0xc0000000 + base)).toNat length
      (base + ·) := by
    rw [address, root]
    refine ⟨fun m i holds less => ?_, fun m i byte holds less => ?_, fun i j _ _ same => by omega⟩
    · have page : (0xc0000000 + base + i) / 4096 = 768 * 1024 + (base + i) / 4096 := by omega
      have mapped : walk m 0x100 ((0xc0000000 + base + i) / 4096) = some ((base + i) / 4096) := by
        apply holds.walk (t := 0x101)
        · rw [show (0xc0000000 + base + i) / 4096 / 1024 = 768 by omega]
          exact kernelSlot_dir (by omega) (by omega)
        · rw [show (0xc0000000 + base + i) / 4096 % 1024 = (base + i) / 4096 by omega]
          exact kernelSlot_low (by omega)
        · omega
      rw [translate_some mapped,
        show 4096 * ((base + i) / 4096) + (0xc0000000 + base + i) % 4096 = base + i by omega]
    · apply holds.congr
      rintro x ⟨j, -, known⟩
      apply Function.update_of_ne
      rintro rfl
      exact known (kernelSlot_bitmaps (by omega))
  obtain ⟨m, done, kept, hit, miss⟩ := memset_ok 0 length region (by rw [address]; omega)
    (by rw [address]; omega) holds
  refine ⟨m, ?_, kept, hit, fun x outside => miss x fun i less => by omega⟩
  unfold bitmapInit
  simp only [count]
  exact done

/-! The pages that `mem_pool_init` gives to each pool. -/

def freePages (allMem : U32) : U16 := ((allMem - 0x200000) / 4096).setWidth 16

def kernelPages (allMem : U32) : Nat := (freePages allMem / 2).toNat

def userPages (allMem : U32) : Nat := (freePages allMem - freePages allMem / 2).toNat

theorem pages_small (allMem : U32) : kernelPages allMem < 2 ^ 15 ∧ userPages allMem ≤ 2 ^ 15 := by
  unfold kernelPages userPages
  have bound := (freePages allMem).isLt
  have half : (freePages allMem / 2).toNat = (freePages allMem).toNat / 2 := BitVec.toNat_udiv
  rw [BitVec.toNat_sub_of_le (BitVec.le_def.mpr (by omega)), half]
  omega

theorem kernelPages_word (allMem : U32) : (freePages allMem / 2).setWidth 32 =
    BitVec.ofNat 32 (kernelPages allMem) := by
  apply BitVec.eq_of_toNat_eq
  rw [BitVec.toNat_setWidth, BitVec.toNat_ofNat]
  rfl

theorem userPages_word (allMem : U32) :
    (freePages allMem - freePages allMem / 2).setWidth 32 = BitVec.ofNat 32 (userPages allMem) := by
  apply BitVec.eq_of_toNat_eq
  rw [BitVec.toNat_setWidth, BitVec.toNat_ofNat]
  rfl

theorem length_word {n : Nat} (small : n < 2 ^ 16) : BitVec.ofNat 32 n / 8 = BitVec.ofNat 32 (n / 8) := by
  apply BitVec.eq_of_toNat_eq
  rw [BitVec.toNat_udiv, BitVec.toNat_ofNat, BitVec.toNat_ofNat, Nat.mod_eq_of_lt (by omega),
    Nat.mod_eq_of_lt (by omega)]
  rfl

/-- The machine behind `mem_pool_init`, its memory being `m`. -/
def pooled (s : Machine) (allMem : U32) (m : ByteMemory.Memory) : Machine :=
  let g := bootLayout (kernelPages allMem) (userPages allMem) false
  { s with
    phys := m
    kernelPool := { s.kernelPool with
      phyAddrStart := 0x200000
      poolSize := BitVec.ofNat 32 (kernelPages allMem) * pgSize
      poolBitmap := ⟨BitVec.ofNat 32 g.kernelLength, BitVec.ofNat 32 (0xc0000000 + 0x9a000)⟩ }
    userPool := { s.userPool with
      phyAddrStart := 0x200000 + BitVec.ofNat 32 (kernelPages allMem) * pgSize
      poolSize := BitVec.ofNat 32 (userPages allMem) * pgSize
      poolBitmap := ⟨BitVec.ofNat 32 g.userLength, BitVec.ofNat 32 (0xc0000000 + g.userBase)⟩ }
    kernelVaddr := ⟨⟨BitVec.ofNat 32 g.kernelLength, BitVec.ofNat 32 (0xc0000000 + g.heapBase)⟩, kHeapStart⟩ }

theorem bit_zero (length : Nat) {base i : Nat} (zero : ∀ j < length, m (base + j) = 0)
    (inside : i < 8 * length) :
    bit m base i = false := by
  unfold bit
  rw [zero (i / 8) (by omega)]
  exact BitVec.getLsbD_zero

theorem base_word (base n : Nat) :
    BitVec.ofNat 32 (0xc0000000 + base) + BitVec.ofNat 32 n = BitVec.ofNat 32 (0xc0000000 + (base + n)) := by
  rw [← BitVec.ofNat_add, Nat.add_assoc]

theorem memPoolInit_ok {allMem : U32} (holds : Holds s.phys (kernelSlot (heapPages allMem)))
    (root : s.root = 0x100) :
    ∃ m tail, memPoolInit allMem s = .ok () (pooled s allMem m) ∧
      Core m (bootLayout (kernelPages allMem) (userPages allMem) tail) ∧
      ∀ x, ¬ InBitmaps x → m x = s.phys x := by
  obtain ⟨kernelSmall, userSmall⟩ := pages_small allMem
  have kernelWord : (((allMem - (pgSize * 256 + 0x100000)) / pgSize).setWidth 16 / 2 : U16).setWidth 32 =
    BitVec.ofNat 32 (kernelPages allMem) := kernelPages_word allMem
  have userWord : (((allMem - (pgSize * 256 + 0x100000)) / pgSize).setWidth 16 -
      ((allMem - (pgSize * 256 + 0x100000)) / pgSize).setWidth 16 / 2 : U16).setWidth 32 =
    BitVec.ofNat 32 (userPages allMem) := userPages_word allMem
  have bitmapBase : memBitmapBase = BitVec.ofNat 32 (0xc0000000 + 0x9a000) := rfl
  unfold memPoolInit
  simp only [kernelWord, userWord, length_word (show kernelPages allMem < 2 ^ 16 by omega),
    length_word (show userPages allMem < 2 ^ 16 by omega), bitmapBase, base_word, Program.bind_modify]
  obtain ⟨m₁, first, holds₁, zero₁, rest₁⟩ := bitmapInit_ok (s := { s with kernelPool := { s.kernelPool with
      phyAddrStart := pgSize * 256 + 0x100000, poolSize := BitVec.ofNat 32 (kernelPages allMem) * pgSize
      poolBitmap := ⟨BitVec.ofNat 32 (kernelPages allMem / 8), BitVec.ofNat 32 (0xc0000000 + 0x9a000)⟩ } })
    holds root 0x9a000 (kernelPages allMem / 8) (by omega)
  rw [Program.bind_ok first, Program.bind_modify]
  obtain ⟨m₂, second, holds₂, zero₂, rest₂⟩ := bitmapInit_ok (s := { s with
      phys := m₁
      kernelPool := { s.kernelPool with
        phyAddrStart := pgSize * 256 + 0x100000, poolSize := BitVec.ofNat 32 (kernelPages allMem) * pgSize
        poolBitmap := ⟨BitVec.ofNat 32 (kernelPages allMem / 8), BitVec.ofNat 32 (0xc0000000 + 0x9a000)⟩ }
      userPool := { s.userPool with
        phyAddrStart := pgSize * 256 + 0x100000 + BitVec.ofNat 32 (kernelPages allMem) * pgSize
        poolSize := BitVec.ofNat 32 (userPages allMem) * pgSize
        poolBitmap := ⟨BitVec.ofNat 32 (userPages allMem / 8),
          BitVec.ofNat 32 (0xc0000000 + (0x9a000 + kernelPages allMem / 8))⟩ } })
    holds₁ root (0x9a000 + kernelPages allMem / 8) (userPages allMem / 8) (by omega)
  rw [Program.bind_ok second, Program.bind_modify]
  obtain ⟨m₃, third, holds₃, zero₃, rest₃⟩ := bitmapInit_ok (s := pooled s allMem m₂)
    holds₂ root (0x9a000 + kernelPages allMem / 8 + userPages allMem / 8) (kernelPages allMem / 8) (by omega)
  refine ⟨m₃, bit m₃ (0x9a000 + kernelPages allMem / 8 + userPages allMem / 8)
    (8 * (kernelPages allMem / 8)), third, ?_, ?_⟩
  · refine ⟨bootLayout_valid kernelSmall userSmall, holds₃, ?_, ?_, ?_, ?_⟩
    · intro i inside
      refine (bit_zero (kernelPages allMem / 8) (fun j less => ?_) inside).trans rfl
      refine (rest₃ _ (by omega)).trans ((rest₂ _ (by omega)).trans (zero₁ j less))
    · intro i inside
      refine (bit_zero (userPages allMem / 8) (fun j less => ?_) inside).trans rfl
      exact (rest₃ (0x9a000 + kernelPages allMem / 8 + j) (by omega)).trans (zero₂ j less)
    · intro i inside
      exact (bit_zero (kernelPages allMem / 8) zero₃ inside).trans rfl
    · exact (Bool.or_false _).symm
  · intro x outside
    unfold InBitmaps at outside
    exact (rest₃ x (by omega)).trans ((rest₂ x (by omega)).trans (rest₁ x (by omega)))

/-- What memory and the record are when `memory_init` is called. -/
structure Starting (s : Machine) (allMem gdtBase : U32) : Prop where
  loaded : Loaded s.phys allMem gdtBase
  cr3 : s.cr3 = 0x100000
  checked : s.ndebug = false
  recorded : s.handed = [] ∧ s.granted = [] ∧ s.pageDirs = []

theorem memoryInit_ok {allMem gdtBase : U32} (starting : Starting s allMem gdtBase) :
    ∃ t tail, memoryInit s = .ok () t ∧
      Settled t (bootLayout (kernelPages allMem) (userPages allMem) tail) ∧
      t.granted = [] ∧ t.pageDirs = [] ∧ t.runningThread = s.runningThread ∧ t.cr3 = s.cr3 ∧
      ∀ x, ¬ InBitmaps x → t.phys x = s.phys x := by
  obtain ⟨kernelSmall, userSmall⟩ := pages_small allMem
  have root : s.root = 0x100 := by
    unfold Machine.root
    rw [starting.cr3]
    rfl
  have holds := setupPage_holds starting.loaded
  have mapped : s.translate 0xd00 = some 0xd00 := by
    have page : walk s.phys 0x100 (0xd00 / 4096) = some 0 := by
      apply holds.walk (t := 0x101)
      · rfl
      · exact kernelSlot_low (by omega)
      · omega
    unfold Machine.translate
    rw [root]
    exact translate_some page
  have total := load32_ok (by decide) mapped
  rw [starting.loaded.memBytesTotal] at total
  obtain ⟨m, tail, pools, core, kept⟩ := memPoolInit_ok holds root
  refine ⟨{ pooled s allMem m with
    userPool := { (pooled s allMem m).userPool with lock := lockInit }
    kernelPool := { (pooled s allMem m).kernelPool with lock := lockInit } }, tail, ?_, ?_,
    starting.recorded.2.1, starting.recorded.2.2, rfl, rfl, kept⟩
  · unfold memoryInit
    rw [Program.bind_ok total, Program.bind_ok pools]
    rfl
  · refine ⟨⟨core, .inl root, starting.checked, ?_, ?_, rfl, ?_, ?_⟩, rfl, ?_⟩
    · intro type
      cases type <;> rfl
    · intro type
      cases type with
      | kernelPool => rfl
      | userPool =>
        change 0x200000 + BitVec.ofNat 32 (kernelPages allMem) * pgSize =
          BitVec.ofNat 32 (4096 * (0x200 + kernelPages allMem))
        apply BitVec.eq_of_toNat_eq
        rw [BitVec.toNat_add, BitVec.toNat_mul, BitVec.toNat_ofNat, BitVec.toNat_ofNat,
          show (0x200000 : U32).toNat = 0x200000 from rfl, show pgSize.toNat = 4096 from rfl]
        omega
    · change s.handed.Nodup
      rw [starting.recorded.1]
      exact List.nodup_nil
    · change ∀ a ∈ s.handed, _
      rw [starting.recorded.1]
      exact fun a member => nomatch member
    · intro type
      cases type <;> rfl

end LiziOS.Memory
