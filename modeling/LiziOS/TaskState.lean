import LiziOS.DescriptorTables
import LiziOS.Library.Descriptors

namespace LiziOS.Memory

open ByteMemory

/-! The segments that `tss_init` makes, and the task state segment in memory. -/

def GdtDesc.at (desc : GdtDesc) (i : Nat) : U8 := desc.bytes.getD i 0

/-- The descriptor that a selector names in the table that is loaded. -/
def descriptorOf (s : Machine) (selector : U16) : Option X86.Segment :=
  let first := 8 * (selector.toNat / 8)
  let place i := s.translate (s.gdtBase + BitVec.ofNat 32 (first + i))
  if first + 7 ≤ s.gdtLimit.toNat ∧ (List.range 8).all fun i => (place i).isSome then
    some (X86.Segment.decode fun i => ((place i).map s.phys).getD 0)
  else none

variable {s t : Machine} {g : Layout} {allMem gdtBase : U32}

theorem mid_byte (w : U32) : ((w &&& 0x00ff0000) >>> 16).setWidth 8 = (w >>> 16).setWidth 8 := by
  apply BitVec.eq_of_getLsbD_eq
  intro i less
  interval_cases i <;> simp

theorem upper_nibble (w : U32) :
    ((w &&& 0x000f0000) >>> 16).setWidth 8 = ((w >>> 16).setWidth 4).setWidth 8 := by
  apply BitVec.eq_of_getLsbD_eq
  intro i less
  interval_cases i <;> simp

theorem makeGdtDesc_base (base limit : U32) (attrLow attrHigh : U8) :
    (X86.Segment.decode (makeGdtDesc base limit attrLow attrHigh).at).base = base := by
  change (base >>> 24).setWidth 8 ++ ((base &&& 0x00ff0000) >>> 16).setWidth 8 ++
    ((base &&& 0x0000ffff).setWidth 16 >>> 8).setWidth 8 ++ ((base &&& 0x0000ffff).setWidth 16).setWidth 8 = base
  rw [mid_byte, X86.low_word]
  apply BitVec.eq_of_toNat_eq
  simp only [append_toNat, BitVec.toNat_setWidth, BitVec.toNat_ushiftRight, Nat.shiftRight_eq_div_pow]
  have bound := base.isLt
  omega

/-- The upper bits of the limit share a byte with the flags. -/
theorem makeGdtDesc_limit {base limit : U32} {attrLow attrHigh : U8} (small : limit.toNat < 2 ^ 20)
    (flags : attrHigh.toNat % 16 = 0) : (X86.Segment.decode (makeGdtDesc base limit attrLow attrHigh).at).limit =
      if attrHigh.getLsbD 7 then 4096 * limit.toNat + 4095 else limit.toNat := by
  have shared : (((limit &&& 0x000f0000) >>> 16).setWidth 8 + attrHigh : U8).toNat =
      limit.toNat / 2 ^ 16 + attrHigh.toNat := by
    have bound := attrHigh.isLt
    rw [upper_nibble, BitVec.toNat_add, BitVec.toNat_setWidth, BitVec.toNat_setWidth, BitVec.toNat_ushiftRight,
      Nat.shiftRight_eq_div_pow]
    omega
  have granular : (((limit &&& 0x000f0000) >>> 16).setWidth 8 + attrHigh : U8).getLsbD 7 = attrHigh.getLsbD 7 := by
    rw [BitVec.getLsbD, BitVec.getLsbD, shared, Nat.testBit_eq_decide_div_mod_eq, Nat.testBit_eq_decide_div_mod_eq]
    congr 2
    omega
  have raw : ((((limit &&& 0x000f0000) >>> 16).setWidth 8 + attrHigh : U8).setWidth 4 ++
      ((limit &&& 0x0000ffff).setWidth 16 >>> 8).setWidth 8 ++
      ((limit &&& 0x0000ffff).setWidth 16).setWidth 8 : BitVec (4 + 8 + 8)).toNat = limit.toNat := by
    simp only [append_toNat, X86.low_word, BitVec.toNat_setWidth, shared, BitVec.toNat_ushiftRight,
      Nat.shiftRight_eq_div_pow]
    omega
  change (if (((limit &&& 0x000f0000) >>> 16).setWidth 8 + attrHigh : U8).getLsbD 7 then
    4096 * BitVec.toNat _ + 4095 else BitVec.toNat _) = _
  rw [granular]
  exact congrArg (fun n => if attrHigh.getLsbD 7 then 4096 * n + 4095 else n) raw

/-- The processor finds in a descriptor what `make_gdt_desc` has been given. -/
theorem makeGdtDesc_decode {base limit : U32} {attrLow attrHigh : U8} (small : limit.toNat < 2 ^ 20)
    (flags : attrHigh.toNat % 16 = 0) : X86.Segment.decode (makeGdtDesc base limit attrLow attrHigh).at =
      { base := base
        limit := if attrHigh.getLsbD 7 then 4096 * limit.toNat + 4095 else limit.toNat
        type := attrLow.setWidth 4
        system := !attrLow.getLsbD 4
        dpl := ((attrLow >>> 5).setWidth 2).toNat
        present := attrLow.getLsbD 7 } := by
  have parts : X86.Segment.decode (makeGdtDesc base limit attrLow attrHigh).at =
      { base := (X86.Segment.decode (makeGdtDesc base limit attrLow attrHigh).at).base
        limit := (X86.Segment.decode (makeGdtDesc base limit attrLow attrHigh).at).limit
        type := attrLow.setWidth 4
        system := !attrLow.getLsbD 4
        dpl := ((attrLow >>> 5).setWidth 2).toNat
        present := attrLow.getLsbD 7 } := rfl
  rw [parts, makeGdtDesc_base, makeGdtDesc_limit small flags]

/-- Eight bytes are stored where the loader lies. -/
theorem storeDescriptor_ok {a : U32} (desc : GdtDesc) (root : s.root = 0x100) (core : Core s.phys g)
    (low : a.toNat < 0x1000) : ∃ m stored, storeBytes a desc.bytes s = .ok () { s with phys := m, nullStored := stored } ∧
      Core m g ∧ (∀ i < 8, m (a.toNat + i) = desc.at i) ∧
      ∀ x, (x < a.toNat ∨ a.toNat + 8 ≤ x) → m x = s.phys x := by
  have region : Region (fun m => Core m g) s.root a.toNat desc.bytes.length fun i => a.toNat + i := by
    have length : desc.bytes.length = 8 := rfl
    rw [length, root]
    constructor
    · intro m i core inside
      exact core.translate_identity (by omega)
    · intro m i byte core inside
      exact core.update (core.valid.plain_low (by omega) (.inl (by omega))) byte
    · intro i j _ _ same
      omega
  obtain ⟨m, done, core', hit, miss⟩ := storeBytes_any desc.bytes region (by change a.toNat + 8 < 2 ^ 32; omega) core
  refine ⟨m, _, done, core', fun i less => ?_, fun x outside => miss x fun i inside => ?_⟩
  · rw [hit i less, GdtDesc.at, List.getD_eq_getElem?_getD, List.getElem?_eq_getElem less]
    rfl
  · change i < 8 at inside
    omega

/-- A descriptor of the table that is loaded, in the first page. -/
theorem descriptorOf_low {selector : U16} {desc : GdtDesc} {first : Nat} (root : s.root = 0x100) (core : Core s.phys g)
    (limit : s.gdtLimit = 55) (number : 8 * (selector.toNat / 8) = first) (inside : first ≤ 48)
    (low : s.gdtBase.toNat < 0xd00) (bytes : ∀ i < 8, s.phys (s.gdtBase.toNat + first + i) = desc.at i) :
    descriptorOf s selector = some (X86.Segment.decode desc.at) := by
  have place (i : Nat) (less : i < 8) :
      s.translate (s.gdtBase + BitVec.ofNat 32 (first + i)) = some (s.gdtBase.toNat + first + i) := by
    unfold Machine.translate
    rw [root, BitVec.toNat_add, BitVec.toNat_ofNat, Nat.add_mod_mod, Nat.mod_eq_of_lt (by omega), ← Nat.add_assoc]
    exact core.translate_identity (by omega)
  have here (i : Nat) (less : i < 8) :
      ((s.translate (s.gdtBase + BitVec.ofNat 32 (first + i))).map s.phys).getD 0 = desc.at i := by
    rw [place i less, ← bytes i less]
    rfl
  unfold descriptorOf
  rw [number, limit]
  dsimp only
  rw [if_pos]
  · rw [X86.Segment.decode_congr here]
  · refine ⟨by change first + 7 ≤ 55; omega, ?_⟩
    rw [List.all_eq_true]
    intro i member
    rw [place i (List.mem_range.mp member)]
    rfl

/-- What `tss_init` makes of the table: a task state segment whose limit is counted in pages, and flat segments
    of ring 3. -/
theorem tssInit_segments (prepared : Prepared s allMem gdtBase) : ∃ t, tssInit s = .ok () t ∧
    descriptorOf t 0x20 = some ⟨s.symbols.tss, 442367, 0b1001, true, 0, true⟩ ∧
    descriptorOf t 0x2b = some ⟨0, 0xffffffff, 0b1000, false, 3, true⟩ ∧
    descriptorOf t 0x33 = some ⟨0, 0xffffffff, 0b0010, false, 3, true⟩ := by
  obtain ⟨⟨g, rep⟩, root, label⟩ := prepared.label
  obtain ⟨-, low⟩ := calls_loader (.start prepared)
  have mapped : s.translate 0xd04 = some 0xd04 := by
    unfold Machine.translate
    rw [root]
    exact rep.core.translate_identity (by decide)
  have read : load32 0xd04 { s with tss := ⟨0, (2 : U32) <<< 3, 108⟩ } =
      .ok gdtBase { s with tss := ⟨0, (2 : U32) <<< 3, 108⟩ } := by
    rw [← label]
    exact load32_ok (by decide) mapped
  have at_ (k : U32) (small : k.toNat ≤ 48) : (gdtBase + k).toNat = gdtBase.toNat + k.toNat := by
    rw [BitVec.toNat_add, Nat.mod_eq_of_lt (by omega)]
  obtain ⟨m₁, n₁, done₁, core₁, bytes₁, same₁⟩ := @storeDescriptor_ok
    { s with tss := ⟨0, (2 : U32) <<< 3, 108⟩ } g (gdtBase + 0x20)
    (makeGdtDesc s.symbols.tss (108 - 1) 0b10001001 0b10000000) root rep.core (at_ 0x20 (by decide) ▸ by
      change gdtBase.toNat + 32 < 0x1000
      omega)
  obtain ⟨m₂, n₂, done₂, core₂, bytes₂, same₂⟩ := @storeDescriptor_ok
    { s with tss := ⟨0, (2 : U32) <<< 3, 108⟩, phys := m₁, nullStored := n₁ } g (gdtBase + 0x28)
    (makeGdtDesc 0 0xfffff 0b11111000 0b11000000) root core₁ (at_ 0x28 (by decide) ▸ by
      change gdtBase.toNat + 40 < 0x1000
      omega)
  obtain ⟨m₃, n₃, done₃, core₃, bytes₃, same₃⟩ := @storeDescriptor_ok
    { s with tss := ⟨0, (2 : U32) <<< 3, 108⟩, phys := m₂, nullStored := n₂ } g (gdtBase + 0x30)
    (makeGdtDesc 0 0xfffff 0b11110010 0b11000000) root core₂ (at_ 0x30 (by decide) ▸ by
      change gdtBase.toNat + 48 < 0x1000
      omega)
  rw [at_ 0x20 (by decide)] at bytes₁ same₁
  rw [at_ 0x28 (by decide)] at bytes₂ same₂
  rw [at_ 0x30 (by decide)] at bytes₃ same₃
  change ∀ i < 8, m₁ (gdtBase.toNat + 0x20 + i) = _ at bytes₁
  change ∀ i < 8, m₂ (gdtBase.toNat + 0x28 + i) = _ at bytes₂
  change ∀ i < 8, m₃ (gdtBase.toNat + 0x30 + i) = _ at bytes₃
  change ∀ x, (x < gdtBase.toNat + 0x28 ∨ gdtBase.toNat + 0x28 + 8 ≤ x) → m₂ x = m₁ x at same₂
  change ∀ x, (x < gdtBase.toNat + 0x30 ∨ gdtBase.toNat + 0x30 + 8 ≤ x) → m₃ x = m₂ x at same₃
  obtain ⟨t, eq⟩ : ∃ t : Machine, t = { s with
    tss := ⟨0, (2 : U32) <<< 3, 108⟩, phys := m₃, nullStored := n₃, gdtLimit := 55, gdtBase := gdtBase } := ⟨_, rfl⟩
  have base : t.gdtBase = gdtBase := by rw [eq]
  have limit : t.gdtLimit = 55 := by rw [eq]
  have phys : t.phys = m₃ := by rw [eq]
  have boot : t.root = 0x100 := by rw [← root, eq]; rfl
  have core : Core t.phys g := by rw [phys]; exact core₃
  have small : t.gdtBase.toNat < 0xd00 := by rw [base]; exact low
  refine ⟨t, ?_, ?_, ?_, ?_⟩
  · unfold tssInit
    rw [Program.bind_modify, Program.bind_get, Program.bind_ok read, Program.bind_ok done₁, Program.bind_ok done₂,
      Program.bind_ok done₃]
    unfold lgdt
    rw [operand_base, operand_limit, eq]
    rfl
  · rw [@descriptorOf_low t g 0x20 _ 0x20 boot core limit (by decide) (by decide) small fun i less => by
      rw [phys, base, ← bytes₁ i less]
      exact (same₃ _ (by omega)).trans (same₂ _ (by omega))]
    rw [makeGdtDesc_decode (by decide) (by decide)]
    rfl
  · rw [@descriptorOf_low t g 0x2b _ 0x28 boot core limit (by decide) (by decide) small fun i less => by
      rw [phys, base, ← bytes₂ i less]
      exact same₃ _ (by omega)]
    rw [makeGdtDesc_decode (by decide) (by decide)]
    rfl
  · rw [@descriptorOf_low t g 0x33 _ 0x30 boot core limit (by decide) (by decide) small fun i less => by
      rw [phys, base]
      exact bytes₃ i less]
    rw [makeGdtDesc_decode (by decide) (by decide)]
    rfl

/-! The task state segment itself. The processor looks for the base of its map of the ports at the offset 102; the
member `io_base` lies at 104. -/

/-- `memset` and the two assignments of `tss_init`. -/
def tssFill (tss : Nat) (m : ByteMemory.Memory) : ByteMemory.Memory :=
  setWord (setWord (fun x => if tss ≤ x ∧ x < tss + 108 then 0 else m x) (tss + 8) ((2 : U32) <<< 3)) (tss + 104) 108

def updateTssEspAt (tss : Nat) (pthread : U32) (m : ByteMemory.Memory) : ByteMemory.Memory :=
  setWord m (tss + 4) (pthread + pgSize)

/-- What happens to the memory of the segment, with the value of its `esp0`. -/
inductive TssRun (tss : Nat) : U32 → ByteMemory.Memory → Prop where
  | init (m : ByteMemory.Memory) : TssRun tss 0 (tssFill tss m)
  | update {esp0 : U32} {m : ByteMemory.Memory} (earlier : TssRun tss esp0 m) (pthread : U32) :
    TssRun tss (pthread + pgSize) (updateTssEspAt tss pthread m)
  | elsewhere {esp0 : U32} {m m' : ByteMemory.Memory} (earlier : TssRun tss esp0 m)
    (same : ∀ x, tss ≤ x → x < tss + 108 → m' x = m x) : TssRun tss esp0 m'

/-- The bytes of the segment. -/
def tssImage (esp0 : U32) (i : Nat) : U8 :=
  if 4 ≤ i ∧ i < 8 then byteOf esp0 (i - 4) else if i = 8 then 0x10 else if i = 104 then 108 else 0

theorem tssImage_filled : ∀ i < 108, (if 104 ≤ i ∧ i < 104 + 4 then byteOf 108 (i - 104)
    else if 8 ≤ i ∧ i < 8 + 4 then byteOf ((2 : U32) <<< 3) (i - 8) else 0) = tssImage 0 i := by
  decide

theorem TssRun.image {tss : Nat} {esp0 : U32} {m : ByteMemory.Memory} (run : TssRun tss esp0 m) :
    ∀ i < 108, m (tss + i) = tssImage esp0 i := by
  induction run with
  | init m =>
    intro i less
    rw [← tssImage_filled i less]
    unfold tssFill setWord
    simp only [Nat.add_assoc, Nat.add_le_add_iff_left, Nat.add_lt_add_iff_left, Nat.add_sub_add_left]
    rw [if_pos (show tss ≤ tss + i ∧ i < 108 from ⟨Nat.le_add_right tss i, less⟩)]
  | @update esp0 m earlier pthread ih =>
    intro i less
    unfold updateTssEspAt tssImage setWord
    by_cases here : 4 ≤ i ∧ i < 8
    · rw [if_pos (by omega), if_pos here, Nat.add_sub_add_left]
    · rw [if_neg (by omega), if_neg here, ih i less, tssImage, if_neg here]
  | elsewhere earlier same ih =>
    intro i less
    rw [same _ (by omega) (by omega)]
    exact ih i less

theorem TssRun.port {tss : Nat} {esp0 : U32} {m : ByteMemory.Memory} (run : TssRun tss esp0 m) {port : Nat}
    (inside : port < 864) : X86.portAllowed (fun i => m (tss + i)) 442367 port = !(tssImage esp0 (port / 8)).getLsbD (port % 8) := by
  have base : X86.ioMapBase (fun i => m (tss + i)) = 0 := by
    unfold X86.ioMapBase
    dsimp only
    rw [run.image 103 (by decide), run.image 102 (by decide)]
    exact @congrArg _ _ (0 : U8) _ (fun b => (b ++ (0 : U8)).toNat) rfl
  unfold X86.portAllowed
  rw [base, Nat.zero_add, decide_eq_true (by omega), Bool.true_and]
  dsimp only
  rw [run.image _ (by omega)]

/-- The bits of the segment that are set, but for those of `esp0`. -/
theorem tssImage_bits {port : Nat} (inside : port < 864) (apart : ¬ (32 ≤ port ∧ port < 64)) (esp0 : U32) :
    (tssImage esp0 (port / 8)).getLsbD (port % 8) = decide (port ∈ [68, 834, 835, 837, 838]) := by
  unfold tssImage
  rw [if_neg (by omega)]
  rcases Decidable.em (64 ≤ port ∧ port < 72) with ⟨above, below⟩ | other
  · interval_cases port <;> rfl
  · rw [if_neg (by omega)]
    rcases Decidable.em (832 ≤ port ∧ port < 840) with ⟨above, below⟩ | free
    · interval_cases port <;> rfl
    · have none : port ∉ [68, 834, 835, 837, 838] := by
        simp only [List.mem_cons, List.not_mem_nil, or_false]
        omega
      rw [if_neg (by omega), decide_eq_false none]
      exact BitVec.getLsbD_zero

/-- `io_base` is not where the processor looks, and the limit is counted in pages: a program of ring 3 may use
    every port below 864 whose bit in the segment happens to be clear, those of the interrupt controllers, the timer,
    the keyboard and the disk among them. -/
theorem user_ports (prepared : Prepared s allMem gdtBase) : ∃ t tss, tssInit s = .ok () t ∧
    descriptorOf t 0x20 = some tss ∧ ∀ esp0 m, TssRun tss.base.toNat esp0 m → ∀ port < 864,
      X86.portAllowed (fun i => m (tss.base.toNat + i)) tss.limit port = true ↔
        ¬ (32 ≤ port ∧ port < 64 ∧ esp0.getLsbD (port - 32) = true) ∧ port ∉ [68, 834, 835, 837, 838] := by
  obtain ⟨t, done, tss, -⟩ := tssInit_segments prepared
  refine ⟨t, _, done, tss, fun esp0 m run port inside => ?_⟩
  dsimp only at run ⊢
  rw [run.port inside]
  by_cases stack : 32 ≤ port ∧ port < 64
  · have byte : tssImage esp0 (port / 8) = byteOf esp0 (port / 8 - 4) := if_pos (by omega)
    rw [byte, byteOf_bit _ _ (by omega), show 8 * (port / 8 - 4) + port % 8 = port - 32 by omega]
    have none : port ∉ [68, 834, 835, 837, 838] := by
      simp only [List.mem_cons, List.not_mem_nil, or_false]
      omega
    simp [stack, none]
  · rw [tssImage_bits inside stack]
    by_cases member : port ∈ [68, 834, 835, 837, 838]
    · simp [member]
    · simp only [member, decide_false, Bool.not_false, not_false_iff, and_true, true_iff]
      exact fun both => stack ⟨both.1, both.2.1⟩

theorem user_ports_controllers : ∃ s t tss, Prepared s 0x2000000 0x903 ∧ tssInit s = .ok () t ∧
    descriptorOf t 0x20 = some tss ∧ ∀ port ∈ [0x20, 0x21, 0x40, 0x43, 0x60, 0x64, 0xa0, 0xa1, 0x1f0, 0x1f7],
      X86.portAllowed (fun i => updateTssEspAt tss.base.toNat (heapAddr 0) (tssFill tss.base.toNat fun _ => 0xff)
        (tss.base.toNat + i)) tss.limit port = true := by
  obtain ⟨s, prepared, -⟩ := main_prepared
  obtain ⟨t, tss, done, segment, ports⟩ := user_ports prepared
  refine ⟨s, t, tss, prepared, done, segment, fun port member => ?_⟩
  have esp0 : heapAddr 0 + pgSize = 0xc0101000 := by decide
  have run := TssRun.update (@TssRun.init tss.base.toNat fun _ => 0xff) (heapAddr 0)
  have table : ∀ port ∈ [0x20, 0x21, 0x40, 0x43, 0x60, 0x64, 0xa0, 0xa1, 0x1f0, 0x1f7], port < 864 ∧
      ¬ (32 ≤ port ∧ port < 64 ∧ (0xc0101000 : U32).getLsbD (port - 32) = true) ∧ port ∉ [68, 834, 835, 837, 838] := by
    decide
  obtain ⟨inside, clear⟩ := table port member
  rw [esp0] at run
  exact (ports _ _ run port inside).mpr clear

end LiziOS.Memory
