import LiziOS.AddressSpace

namespace LiziOS.Memory

open ByteMemory Paging

/-! The machine represents a layout, and how `paddr_get_page` changes both. -/

namespace Layout

/-- The bytes of the pool's bitmap, its bits that are set, and where it lies. -/
def length (g : Layout) : PoolType → Nat
  | .kernelPool => g.kernelLength
  | .userPool => g.userLength

def used (g : Layout) : PoolType → Nat
  | .kernelPool => g.kernelUsed
  | .userPool => g.userUsed

def base (g : Layout) : PoolType → Nat
  | .kernelPool => 0x9a000
  | .userPool => g.userBase

/-- The first frame of the pool. -/
def first (g : Layout) : PoolType → Nat
  | .kernelPool => 0x200
  | .userPool => 0x200 + g.kernelFree

def take (g : Layout) : PoolType → Layout
  | .kernelPool => g.takeKernel
  | .userPool => g.takeUser

/-- The frame that the pool hands out next. -/
def next (g : Layout) (type : PoolType) : Nat := g.first type + g.used type

def Handed (g : Layout) (frame : Nat) : Prop := g.InKernel frame ∨ g.InUser frame

/-- The frames whose bytes the memory system leaves alone, if it was not asked to write there. -/
def Data (g : Layout) (frame : Nat) : Prop :=
  (frame < 0x100 ∧ ¬ (0x9a ≤ frame ∧ frame < 0x9e)) ∨ ∃ i, g.use frame = .heap i ∧ frame ∉ g.dirs

end Layout

def SameData (g : Layout) (m m' : ByteMemory.Memory) : Prop := ∀ x, g.Data (x / 4096) → m' x = m x

structure Represents (s : Machine) (g : Layout) : Prop where
  core : Core s.phys g
  root : g.Root s.root
  checked : s.ndebug = false
  bitmap : ∀ type, (s.pool type).poolBitmap =
    ⟨BitVec.ofNat 32 (g.length type), BitVec.ofNat 32 (0xc0000000 + g.base type)⟩
  start : ∀ type, (s.pool type).phyAddrStart = BitVec.ofNat 32 (4096 * g.first type)
  heap : s.kernelVaddr =
    ⟨⟨BitVec.ofNat 32 g.kernelLength, BitVec.ofNat 32 (0xc0000000 + g.heapBase)⟩, 0xc0100000⟩
  nodup : s.handed.Nodup
  owned : ∀ a ∈ s.handed, ∃ frame, a = BitVec.ofNat 32 (4096 * frame) ∧ g.Handed frame

/-- Only memory and the record of frames differ. -/
def Same (s t : Machine) : Prop := t = { s with phys := t.phys, handed := t.handed }

variable {s t : Machine} {g g' : Layout} {m m' : ByteMemory.Memory}

theorem Same.trans {u : Machine} (first : Same s t) (second : Same t u) : Same s u := by
  unfold Same at first second ⊢
  rw [second, first]

theorem SameData.refl (g : Layout) (m : ByteMemory.Memory) : SameData g m m := fun _ _ => rfl

theorem SameData.trans {m'' : ByteMemory.Memory} (first : SameData g m m')
    (second : SameData g' m' m'') (grows : ∀ frame, g.Data frame → g'.Data frame) :
    SameData g m m'' := fun x data => (second x (grows _ data)).trans (first x data)

/-- The parts of the machine that say where its memory system lies. -/
structure Configured (s t : Machine) : Prop where
  cr3 : t.cr3 = s.cr3
  ndebug : t.ndebug = s.ndebug
  bitmap : ∀ type, (t.pool type).poolBitmap = (s.pool type).poolBitmap
  start : ∀ type, (t.pool type).phyAddrStart = (s.pool type).phyAddrStart
  heap : t.kernelVaddr = s.kernelVaddr

theorem Same.configured (same : Same s t) : Configured s t := by
  unfold Same at same
  rw [same]
  exact ⟨rfl, rfl, fun type => by cases type <;> rfl, fun type => by cases type <;> rfl, rfl⟩

theorem Represents.root_eq (config : Configured s t) : t.root = s.root := by
  unfold Machine.root
  rw [config.cr3]

theorem Represents.change (rep : Represents s g) (config : Configured s t) (core : Core t.phys g')
    (root : g'.Root s.root) (lengths : g'.kernelFree = g.kernelFree ∧ g'.userFree = g.userFree)
    (nodup : t.handed.Nodup)
    (owned : ∀ a ∈ t.handed, ∃ frame, a = BitVec.ofNat 32 (4096 * frame) ∧ g'.Handed frame) :
    Represents t g' := by
  have kernel : g'.kernelLength = g.kernelLength := by unfold Layout.kernelLength; rw [lengths.1]
  have user : g'.userLength = g.userLength := by unfold Layout.userLength; rw [lengths.2]
  have userBase : g'.userBase = g.userBase := by unfold Layout.userBase; rw [kernel]
  have heapBase : g'.heapBase = g.heapBase := by unfold Layout.heapBase; rw [userBase, user]
  have length (type : PoolType) : g'.length type = g.length type := by
    cases type with
    | kernelPool => exact kernel
    | userPool => exact user
  have base (type : PoolType) : g'.base type = g.base type := by
    cases type with
    | kernelPool => rfl
    | userPool => exact userBase
  have first (type : PoolType) : g'.first type = g.first type := by
    cases type with
    | kernelPool => rfl
    | userPool => unfold Layout.first; rw [lengths.1]
  refine ⟨core, ?_, ?_, ?_, ?_, ?_, nodup, owned⟩
  · rw [Represents.root_eq config]
    exact root
  · rw [config.ndebug, rep.checked]
  · intro type
    rw [config.bitmap, rep.bitmap, length, base]
  · intro type
    rw [config.start, rep.start, first]
  · rw [config.heap, rep.heap, kernel, heapBase]

theorem Represents.transfer (rep : Represents s g) (config : Configured s t) (phys : t.phys = s.phys)
    (handed : t.handed = s.handed) : Represents t g :=
  rep.change config (by rw [phys]; exact rep.core) rep.root ⟨rfl, rfl⟩ (by rw [handed]; exact rep.nodup)
    (by rw [handed]; exact rep.owned)

theorem Represents.write (rep : Represents s g) (core : Core m g') (root : g'.Root s.root)
    (lengths : g'.kernelFree = g.kernelFree ∧ g'.userFree = g.userFree)
    (frames : ∀ frame, g.Handed frame → g'.Handed frame) : Represents { s with phys := m } g' := by
  apply rep.change (t := { s with phys := m }) _ core root lengths rep.nodup
  · intro a member
    obtain ⟨frame, eq, owned⟩ := rep.owned a member
    exact ⟨frame, eq, frames frame owned⟩
  · exact Same.configured rfl

/-- The memory of a bitmap whose first byte is at `base` can be read through its linear address. -/
theorem Represents.reads (rep : Represents s g) (base length : Nat) (low : base + length < 0x100000) :
    Reads (fun i => peek s (BitVec.ofNat 32 (0xc0000000 + base) + i)) length (bit s.phys base) := by
  intro i inside
  have address : (BitVec.ofNat 32 (0xc0000000 + base) + BitVec.ofNat 32 i).toNat =
      0xc0000000 + (base + i) := by
    rw [BitVec.toNat_add, BitVec.toNat_ofNat, BitVec.toNat_ofNat]
    omega
  refine ⟨s.phys (base + i), ?_, ?_⟩
  · simp only [peek, Machine.translate, address]
    rw [rep.core.translate_low rep.root (by omega)]
  · intro j below
    unfold bit
    rw [show (8 * i + j) / 8 = i by omega, show (8 * i + j) % 8 = j by omega]

theorem bitmapSetBit_ok (length bits i : U32) {p : Nat} (mapped : s.translate (bits + i / 8) = some p)
    (high : 4096 ≤ (bits + i / 8).toNat) :
    bitmapSetBit ⟨length, bits⟩ i 1 s = .ok () { s with
      phys := Function.update s.phys p (s.phys p ||| (1 : U8) <<< (i.toNat % 8)) } := by
  have remainder : (i % 8).toNat = i.toNat % 8 := by
    rw [BitVec.toNat_umod]
    rfl
  unfold bitmapSetBit
  rw [Program.bind_ok (load8_ok mapped)]
  simp only [show (1 : U8) ≠ 0 by decide, ne_eq, not_false_eq_true, ↓reduceIte, remainder]
  rw [store8_ok _ mapped, Machine.write_high s _ high]

/-- Setting a bit in one of the bitmaps below 1 MiB. -/
theorem Represents.setBit (rep : Represents s g) (base length i : Nat) (inside : base + i / 8 < 0x100000)
    (small : i < 2 ^ 31) :
    bitmapSetBit ⟨BitVec.ofNat 32 length, BitVec.ofNat 32 (0xc0000000 + base)⟩ (BitVec.ofNat 32 i) 1 s =
      .ok () { s with
        phys := Function.update s.phys (base + i / 8)
          (s.phys (base + i / 8) ||| (1 : U8) <<< (i % 8)) } := by
  have value : (BitVec.ofNat 32 i).toNat = i := by
    rw [BitVec.toNat_ofNat, Nat.mod_eq_of_lt (by omega)]
  have address : (BitVec.ofNat 32 (0xc0000000 + base) + BitVec.ofNat 32 i / 8).toNat =
      0xc0000000 + (base + i / 8) := by
    rw [BitVec.toNat_add, BitVec.toNat_udiv, value, BitVec.toNat_ofNat, show (8 : U32).toNat = 8 from rfl]
    omega
  have mapped : s.translate (BitVec.ofNat 32 (0xc0000000 + base) + BitVec.ofNat 32 i / 8) =
      some (base + i / 8) := by
    unfold Machine.translate
    rw [address]
    exact rep.core.translate_low rep.root inside
  have high : 4096 ≤ (BitVec.ofNat 32 (0xc0000000 + base) + BitVec.ofNat 32 i / 8).toNat := by
    rw [address]
    omega
  rw [bitmapSetBit_ok _ _ _ mapped high, value]

theorem Core.tables_bitmap (core : Core m g) {p : Nat} (bitmaps : 0x9a000 ≤ p ∧ p < 0x9e000) (byte : U8) :
    Holds (Function.update m p byte) g.slot := by
  apply core.tables.congr
  rintro x ⟨i, inside, known⟩
  apply Function.update_of_ne
  rintro rfl
  rcases core.valid.known _ i inside known with table | member | ⟨d, q, use⟩
  · omega
  · obtain ⟨j, use⟩ := core.valid.dir _ member
    have above := (core.valid.heapFrame _ j use).1
    omega
  · have above := (core.valid.tableFrame _ d q use).1
    omega

theorem take_bit (k i : Nat) :
    (decide (i = k) || decide (i < k)) = decide (i < k + 1) := by
  rw [Bool.eq_iff_iff]
  simp only [Bool.or_eq_true, decide_eq_true_eq]
  omega

theorem Core.take (core : Core m g) (type : PoolType) (room : g.used type < 8 * g.length type) :
    Core (Function.update m (g.base type + g.used type / 8)
      (m (g.base type + g.used type / 8) ||| (1 : U8) <<< (g.used type % 8))) (g.take type) := by
  obtain ⟨top, kernelSmall, userSmall⟩ := core.valid.bitmaps_end
  have user : g.userBase = 0x9a000 + g.kernelLength := rfl
  have heap : g.heapBase = g.userBase + g.userLength := rfl
  cases type with
  | kernelPool =>
    change g.kernelUsed < 8 * g.kernelLength at room
    change Core (Function.update m (0x9a000 + g.kernelUsed / 8)
      (m (0x9a000 + g.kernelUsed / 8) ||| (1 : U8) <<< (g.kernelUsed % 8))) g.takeKernel
    refine ⟨core.valid.takeKernel room, core.tables_bitmap (by omega) _, ?_, ?_, ?_, ?_⟩
    · intro i inside
      rw [bit_set, core.kernelBits i inside]
      exact take_bit _ _
    · intro i inside
      change i < 8 * g.userLength at inside
      change bit _ g.userBase i = _
      rw [bit_congr (Function.update_of_ne (by omega) _ _)]
      exact core.userBits i inside
    · intro i inside
      change bit _ g.heapBase i = _
      rw [bit_congr (Function.update_of_ne (by omega) _ _)]
      exact core.heapBits i inside
    · change bit _ g.heapBase (8 * g.kernelLength) = _
      rw [bit_congr (Function.update_of_ne (by omega) _ _)]
      exact core.tailBit
  | userPool =>
    change g.userUsed < 8 * g.userLength at room
    change Core (Function.update m (g.userBase + g.userUsed / 8)
      (m (g.userBase + g.userUsed / 8) ||| (1 : U8) <<< (g.userUsed % 8))) g.takeUser
    refine ⟨core.valid.takeUser room, core.tables_bitmap (by omega) _, ?_, ?_, ?_, ?_⟩
    · intro i inside
      change i < 8 * g.kernelLength at inside
      rw [bit_congr (Function.update_of_ne (by omega) _ _)]
      exact core.kernelBits i inside
    · intro i inside
      change bit _ g.userBase i = _
      rw [bit_set, core.userBits i inside]
      exact take_bit _ _
    · intro i inside
      change bit _ g.heapBase i = _
      rw [bit_congr (Function.update_of_ne (by omega) _ _)]
      exact core.heapBits i inside
    · change bit _ g.heapBase (8 * g.kernelLength) = _
      rw [bit_congr (Function.update_of_ne (by omega) _ _)]
      exact core.tailBit

theorem bitmapRequestBits_eq (length bits n : U32) (s : Machine) :
    bitmapRequestBits ⟨length, bits⟩ n s =
      match requestBits s.ndebug (fun i => peek s (bits + i)) length n with
      | .ok start => .ok start s
      | .error fault => .error fault s := rfl

theorem Core.bits (core : Core m g) (type : PoolType) :
    ∀ i < 8 * g.length type, bit m (g.base type) i = decide (i < g.used type) := by
  cases type with
  | kernelPool => exact core.kernelBits
  | userPool => exact core.userBits

/-- The bytes of the bitmaps; nothing else changes when a frame is taken. -/
def InBitmaps (x : Nat) : Prop := 0x9a000 ≤ x ∧ x < 0x9e000

theorem Layout.Valid.pool_small (valid : g.Valid) (type : PoolType) :
    0x9a000 ≤ g.base type ∧ g.base type + g.length type < 0x9e000 ∧ g.length type ≤ 4096 ∧
      g.first type + 8 * g.length type ≤ 0x200 + 2 ^ 16 := by
  obtain ⟨top, kernelSmall, userSmall⟩ := valid.bitmaps_end
  have kernel := valid.kernelFree
  have user := valid.userFree
  cases type <;>
    simp only [Layout.base, Layout.length, Layout.first, Layout.heapBase, Layout.userBase,
      Layout.kernelLength, Layout.userLength] at * <;> omega

theorem Layout.Valid.next_fresh (valid : g.Valid) (type : PoolType)
    (room : g.used type < 8 * g.length type) : ¬ g.Handed (g.next type) ∧
        (g.take type).Handed (g.next type) := by
  have few := valid.kernelUsed
  unfold Layout.kernelLength at few
  cases type with
  | kernelPool =>
    simp only [Layout.used, Layout.length, Layout.kernelLength] at room
    simp only [Layout.Handed, Layout.InKernel, Layout.InUser, Layout.next, Layout.first, Layout.used,
      Layout.take, Layout.takeKernel]
    omega
  | userPool =>
    simp only [Layout.used, Layout.length, Layout.userLength] at room
    simp only [Layout.Handed, Layout.InKernel, Layout.InUser, Layout.next, Layout.first, Layout.used,
      Layout.take, Layout.takeUser]
    omega

theorem Layout.handed_take (type : PoolType) {frame : Nat} (owned : g.Handed frame) :
    (g.take type).Handed frame := by
  cases type <;>
    simp only [Layout.Handed, Layout.InKernel, Layout.InUser, Layout.take, Layout.takeKernel,
      Layout.takeUser] at * <;> omega

theorem Layout.Valid.handed_small (valid : g.Valid) {frame : Nat} (owned : g.Handed frame) :
    0x200 ≤ frame ∧ frame < 0x200 + 2 ^ 16 := by
  obtain ⟨top, kernelSmall, userSmall⟩ := valid.bitmaps_end
  have kernel := valid.kernelFree
  have user := valid.userFree
  have few := valid.kernelUsed
  have userFew := valid.userUsed
  unfold Layout.kernelLength at few
  unfold Layout.userLength at userFew
  rcases owned with ⟨low, high⟩ | ⟨low, high⟩ <;> omega

theorem frame_injective {a b : Nat} (aSmall : a < 2 ^ 20) (bSmall : b < 2 ^ 20)
    (same : BitVec.ofNat 32 (4096 * a) = BitVec.ofNat 32 (4096 * b)) : a = b := by
  have values := congrArg BitVec.toNat same
  rw [BitVec.toNat_ofNat, BitVec.toNat_ofNat] at values
  omega

theorem frame_nonzero (frame : Nat) (positive : 0 < frame) (small : frame < 2 ^ 20) :
    BitVec.ofNat 32 (4096 * frame) ≠ (0 : U32) := by
  intro zero
  have same := frame_injective small (b := 0) (by omega) zero
  omega

theorem pagePyaddr_eq (first used : Nat) :
    BitVec.ofNat 32 (4096 * first) + pgSize * BitVec.ofNat 32 used =
      BitVec.ofNat 32 (4096 * (first + used)) := by
  rw [Nat.mul_add, BitVec.ofNat_add, BitVec.ofNat_mul 4096 used]
  rfl

theorem Represents.handed_take (rep : Represents s g) (type : PoolType)
    (room : g.used type < 8 * g.length type) :
    (s.handed ++ [BitVec.ofNat 32 (4096 * g.next type)]).Nodup ∧
      ∀ a ∈ s.handed ++ [BitVec.ofNat 32 (4096 * g.next type)],
        ∃ frame, a = BitVec.ofNat 32 (4096 * frame) ∧ (g.take type).Handed frame := by
  obtain ⟨fresh, taken⟩ := rep.core.valid.next_fresh type room
  obtain ⟨-, -, -, top⟩ := rep.core.valid.pool_small type
  constructor
  · refine List.nodup_append.mpr ⟨rep.nodup, by simp, ?_⟩
    intro a member b new same
    rw [List.mem_singleton, ← same] at new
    obtain ⟨frame, eq, owned⟩ := rep.owned a member
    have small := rep.core.valid.handed_small owned
    have same : g.next type = frame := by
      apply frame_injective (a := g.next type) (b := frame)
      · unfold Layout.next
        omega
      · omega
      · rw [← new, eq]
    rw [same] at fresh
    exact fresh owned
  · intro a member
    rcases List.mem_append.mp member with old | new
    · obtain ⟨frame, eq, owned⟩ := rep.owned a old
      exact ⟨frame, eq, Layout.handed_take type owned⟩
    · exact ⟨g.next type, List.mem_singleton.mp new, taken⟩

theorem paddrGetPage_ok (rep : Represents s g) (type : PoolType)
    (room : g.used type < 8 * g.length type) :
    ∃ t, paddrGetPage type s = .ok (BitVec.ofNat 32 (4096 * g.next type)) t ∧ Same s t ∧
      Represents t (g.take type) ∧ ∀ x, ¬ InBitmaps x → t.phys x = s.phys x := by
  obtain ⟨bottom, top, short, -⟩ := rep.core.valid.pool_small type
  have lengthEq : (BitVec.ofNat 32 (g.length type)).toNat = g.length type := by
    rw [BitVec.toNat_ofNat, Nat.mod_eq_of_lt (by omega)]
  have reads := rep.reads (g.base type) (BitVec.ofNat 32 (g.length type)).toNat (by omega)
  have bits := rep.core.bits type
  have found : requestBits s.ndebug
      (fun i => peek s (BitVec.ofNat 32 (0xc0000000 + g.base type) + i))
      (BitVec.ofNat 32 (g.length type)) 1 = .ok (BitVec.ofNat 32 (g.used type)) := by
    apply requestBits_one reads
    · rw [lengthEq]; omega
    · rw [lengthEq]; exact room
    · rw [bits _ room]; simp
    · intro i less
      rw [bits i (by omega)]
      simpa using less
  have notFull : BitVec.ofNat 32 (g.used type) ≠ (-1 : U32) := by
    intro eq
    have value := congrArg BitVec.toNat eq
    rw [BitVec.toNat_ofNat, show (-1 : U32).toNat = 4294967295 from rfl] at value
    omega
  have requested := bitmapRequestBits_eq (BitVec.ofNat 32 (g.length type))
    (BitVec.ofNat 32 (0xc0000000 + g.base type)) 1 s
  rw [found] at requested
  have marked := rep.setBit (g.base type) (g.length type) (g.used type) (by omega) (by omega)
  have core := rep.core.take type room
  obtain ⟨nodup, owned⟩ := rep.handed_take type room
  generalize value : s.phys (g.base type + g.used type / 8) ||| (1 : U8) <<< (g.used type % 8) = byte
    at marked core
  let t : Machine := { s with
    phys := Function.update s.phys (g.base type + g.used type / 8) byte
    handed := s.handed ++ [BitVec.ofNat 32 (4096 * g.next type)] }
  refine ⟨t, ?_, rfl, ?_, ?_⟩
  · unfold paddrGetPage
    rw [Program.bind_get]
    dsimp only
    rw [rep.bitmap, rep.start, Program.bind_ok requested, if_neg notFull, Program.bind_ok marked,
      pagePyaddr_eq]
    rfl
  · refine rep.change (t := t) (Same.configured rfl) core ?_ ?_ nodup owned
    · cases type <;> exact rep.root
    · cases type <;> exact ⟨rfl, rfl⟩
  · intro x outside
    apply Function.update_of_ne
    rintro rfl
    exact outside ⟨by omega, by omega⟩

theorem paddrGetPage_full (rep : Represents s g) (type : PoolType)
    (full : 8 * g.length type ≤ g.used type) :
    paddrGetPage type s = .error (.panic .bitmapRequestBits) s := by
  obtain ⟨bottom, top, short, -⟩ := rep.core.valid.pool_small type
  have lengthEq : (BitVec.ofNat 32 (g.length type)).toNat = g.length type := by
    rw [BitVec.toNat_ofNat, Nat.mod_eq_of_lt (by omega)]
  have reads := rep.reads (g.base type) (BitVec.ofNat 32 (g.length type)).toNat (by omega)
  have bits := rep.core.bits type
  have failed : requestBits s.ndebug
      (fun i => peek s (BitVec.ofNat 32 (0xc0000000 + g.base type) + i))
      (BitVec.ofNat 32 (g.length type)) 1 = .error (.panic .bitmapRequestBits) := by
    rw [rep.checked]
    apply requestBits_full reads
    · rw [lengthEq]; omega
    · intro i less
      rw [lengthEq] at less
      rw [bits i less]
      simp only [decide_eq_true_eq]
      omega
  have requested := bitmapRequestBits_eq (BitVec.ofNat 32 (g.length type))
    (BitVec.ofNat 32 (0xc0000000 + g.base type)) 1 s
  rw [failed] at requested
  unfold paddrGetPage
  rw [Program.bind_get]
  dsimp only
  rw [rep.bitmap, Program.bind_error requested]

end LiziOS.Memory
