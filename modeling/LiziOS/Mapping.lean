import LiziOS.Frames

namespace LiziOS.Memory

open ByteMemory Paging

/-! `bind_vaddr_paddr_page` on a table that is there. -/

variable {s : Machine} {g g' : Layout} {m m' : ByteMemory.Memory} {vaddr : U32} {t frame : Nat}

/-- A change outside the bitmaps that leaves the counters as they were. -/
theorem Core.retable {h : Layout} (core : Core m g) (valid : h.Valid) (tables : Holds m' h.slot)
    (bitmaps : ∀ x, InBitmaps x → m' x = m x) (lengths : h.kernelFree = g.kernelFree ∧
        h.userFree = g.userFree)
    (counters : h.kernelUsed = g.kernelUsed ∧ h.userUsed = g.userUsed ∧ h.heapUsed = g.heapUsed ∧
      h.tail = g.tail) :
    Core m' h := by
  obtain ⟨top, kernelSmall, userSmall⟩ := core.valid.bitmaps_end
  have user : g.userBase = 0x9a000 + g.kernelLength := rfl
  have heap : g.heapBase = g.userBase + g.userLength := rfl
  have kernelEq : h.kernelLength = g.kernelLength := by unfold Layout.kernelLength; rw [lengths.1]
  have userEq : h.userLength = g.userLength := by unfold Layout.userLength; rw [lengths.2]
  have userBase : h.userBase = g.userBase := by unfold Layout.userBase; rw [kernelEq]
  have heapBase : h.heapBase = g.heapBase := by unfold Layout.heapBase; rw [userBase, userEq]
  refine ⟨valid, tables, ?_, ?_, ?_, ?_⟩
  · intro i inside
    rw [kernelEq] at inside
    rw [counters.1, bit_congr (bitmaps _ ⟨by omega, by omega⟩)]
    exact core.kernelBits i inside
  · intro i inside
    rw [userEq] at inside
    rw [counters.2.1, userBase, bit_congr (bitmaps _ ⟨by omega, by omega⟩)]
    exact core.userBits i inside
  · intro i inside
    rw [kernelEq] at inside
    rw [counters.2.2.1, heapBase, bit_congr (bitmaps _ ⟨by omega, by omega⟩)]
    exact core.heapBits i inside
  · rw [kernelEq, heapBase, counters.2.2.1, counters.2.2.2, bit_congr (bitmaps _ ⟨by omega, by omega⟩)]
    exact core.tailBit

/-- Where the two pointers of `bind_vaddr_paddr_page` lead. -/
theorem Represents.translate_pdePtr (rep : Represents s g) (vaddr : U32) :
    s.translate (pdePtr vaddr) = some (4096 * s.root + 4 * (vaddr.toNat / 4096 / 1024)) := by
  have bound := vaddr.isLt
  unfold Machine.translate
  rw [pdePtr_toNat]
  exact rep.core.translate_pde rep.root (by omega)

theorem Represents.translate_ptePtr (rep : Represents s g)
    (slot : g.slot s.root (vaddr.toNat / 4096 / 1024) = .maps t) :
    s.translate (ptePtr vaddr) = some (4096 * t + 4 * (vaddr.toNat / 4096 % 1024)) := by
  have bound := vaddr.isLt
  unfold Machine.translate
  rw [ptePtr_toNat, show 0xffc00000 + 4 * (vaddr.toNat / 4096) = 0xffc00000 +
    4096 * (vaddr.toNat / 4096 / 1024) + 4 * (vaddr.toNat / 4096 % 1024) by omega]
  exact rep.core.translate_pte rep.root slot (by omega) (by omega)

theorem Represents.load_pde (rep : Represents s g) (vaddr : U32) :
    load32 (pdePtr vaddr) s = .ok (entry s.phys s.root (vaddr.toNat / 4096 / 1024)) s :=
  load32_ok (by rw [pdePtr_toNat]; omega) (rep.translate_pdePtr vaddr)

theorem Represents.load_pte (rep : Represents s g)
    (slot : g.slot s.root (vaddr.toNat / 4096 / 1024) = .maps t) :
    load32 (ptePtr vaddr) s = .ok (entry s.phys t (vaddr.toNat / 4096 % 1024)) s :=
  load32_ok (by rw [ptePtr_toNat]; omega) (rep.translate_ptePtr slot)

theorem Represents.pde_present (rep : Represents s g) {p : Nat} (inside : p < 1024)
    (slot : g.slot s.root p = .maps t) : entry s.phys s.root p &&& 1 ≠ 0 := by
  rw [present_mask, (rep.core.tables _).maps p inside t slot |>.1]
  exact present_mk t

theorem Represents.absent_mask (rep : Represents s g) {f p : Nat} (inside : p < 1024)
    (slot : g.slot f p = .absent) : entry s.phys f p &&& 1 = 0 := by
  by_contra set
  rw [← ne_eq, present_mask, (rep.core.tables f).absent p inside slot] at set
  contradiction

theorem assert_true (site : Site) (s : Machine) : Memory.assert true site s = .ok () s := by
  simp [Memory.assert]

theorem assert_false (site : Site) (checked : s.ndebug = false) :
    Memory.assert false site s = .error (.panic site) s := by
  simp [Memory.assert, checked]

theorem bind_present (rep : Represents s g) (frame : Nat)
    (pde : g.slot s.root (vaddr.toNat / 4096 / 1024) = .maps t)
    (pte : g.slot t (vaddr.toNat / 4096 % 1024) = .absent) (small : frame < 2 ^ 20) :
    bindVaddrPaddrPage vaddr (BitVec.ofNat 32 (4096 * frame)) s = .ok () { s with
      phys := setWord s.phys (4096 * t + 4 * (vaddr.toNat / 4096 % 1024)) (mk frame) } := by
  have bound := vaddr.isLt
  have clear := rep.absent_mask (by omega) pte
  unfold bindVaddrPaddrPage
  rw [Program.bind_ok (rep.load_pde vaddr), if_pos (rep.pde_present (by omega) pde),
    Program.bind_ok (rep.load_pte pde), clear, decide_eq_true rfl,
    Program.bind_ok (assert_true _ s), Program.bind_ok (rep.load_pte pde), if_pos clear, frame_or small,
    store32_ok _ (by rw [ptePtr_toNat]; omega) (rep.translate_ptePtr pde),
    Machine.write_high s _ (by rw [ptePtr_toNat]; omega)]

/-- A page that is mapped already stops the kernel. -/
theorem bind_repeated (rep : Represents s g) (pde : g.slot s.root (vaddr.toNat / 4096 / 1024) = .maps t)
    {other : Nat} (pte : g.slot t (vaddr.toNat / 4096 % 1024) = .maps other) (pagePhyaddr : U32) :
    bindVaddrPaddrPage vaddr pagePhyaddr s = .error (.panic .bindVaddrPaddrPage) s := by
  have bound := vaddr.isLt
  have set : entry s.phys t (vaddr.toNat / 4096 % 1024) &&& 1 ≠ 0 := by
    rw [present_mask, ((rep.core.tables _).maps _ (by omega) other pte).1]
    exact present_mk other
  unfold bindVaddrPaddrPage
  rw [Program.bind_ok (rep.load_pde vaddr), if_pos (rep.pde_present (by omega) pde),
    Program.bind_ok (rep.load_pte pde), decide_eq_false set,
    Program.bind_error (assert_false _ rep.checked)]

end LiziOS.Memory
