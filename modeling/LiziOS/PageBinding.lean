import LiziOS.RecursiveMap

namespace LiziOS.Memory

open ByteMemory Paging

/-! `bind_vaddr_paddr_page` under any directory that maps itself in its last entry. -/

variable {s t u : Machine} {m : ByteMemory.Memory} {vaddr page frame : U32} {root f i other : Nat}

/-- The two pages share an entry of a table that the directory names twice. -/
def Shared (m : ByteMemory.Memory) (root page other : Nat) : Prop :=
  other % 1024 = page % 1024 ∧ present (entry m root (other / 1024)) = true ∧
    frameOf (entry m root (other / 1024)) = frameOf (entry m root (page / 1024))

/-- The page is mapped, and all other pages below the recursive window are as they were. -/
structure Bound (s t : Machine) (vaddr page : U32) : Prop where
  present : walk t.phys t.root (vaddr.toNat / 4096) = some (page.toNat / 4096)
  address : ∀ off < 4096, vaddrToPaddr (vaddr + BitVec.ofNat 32 off) t = .ok (page + BitVec.ofNat 32 off) t
  others : ∀ other < 1023 * 1024, other ≠ vaddr.toNat / 4096 →
    ¬ Shared t.phys t.root (vaddr.toNat / 4096) other → walk t.phys t.root other = walk s.phys s.root other

def InWord (a x : Nat) : Prop := a ≤ x ∧ x < a + 4

/-- The frame is a page table of the directory, or the directory. -/
def IsTable (m : ByteMemory.Memory) (root frame : Nat) : Prop :=
  ∃ i < 1024, Paging.present (entry m root i) = true ∧ frameOf (entry m root i) = frame

/-- `kernel_pool`'s bitmap has got the bit of the frame. -/
def BitSet (s t : Machine) (frame : U32) : Prop :=
  ∃ (k : U32) (b : Nat), frame = s.kernelPool.phyAddrStart + pgSize * k ∧
    s.translate (s.kernelPool.poolBitmap.bits + k / 8) = some b ∧
    t.phys = Function.update s.phys b (s.phys b ||| (1 : U8) <<< (k.toNat % 8))

/-- The directory has itself in its last entry and in no other. -/
structure SelfMapped (m : ByteMemory.Memory) (root : Nat) : Prop where
  window : entry m root 1023 = mk root
  only : ∀ i < 1023, Paging.present (entry m root i) = true → frameOf (entry m root i) ≠ root

/-- What is asked of the call: the pages are aligned, and the one to map is below the window. -/
structure Bindable (s : Machine) (vaddr page : U32) : Prop where
  aligned : vaddr.toNat % 4096 = 0
  below : vaddr.toNat < 0xffc00000
  absent : walk s.phys s.root (vaddr.toNat / 4096) = none
  frame : page.toNat % 4096 = 0

theorem root_small (s : Machine) : s.root < 2 ^ 20 := by
  have bound := s.cr3.isLt
  unfold Machine.root
  omega

theorem frame_mk (aligned : page.toNat % 4096 = 0) : page ||| 0b0111 = mk (page.toNat / 4096) := by
  have bound := page.isLt
  have number : page = BitVec.ofNat 32 (4096 * (page.toNat / 4096)) := by
    apply BitVec.eq_of_toNat_eq
    rw [BitVec.toNat_ofNat]
    omega
  rw [← frame_or (show page.toNat / 4096 < 2 ^ 20 by omega), ← number]

/-! The loads through the window. -/

theorem Recursive.load_pde (recursive : Recursive s.phys s.root) (vaddr : U32) :
    load32 (pdePtr vaddr) s = .ok (entry s.phys s.root (vaddr.toNat / 4096 / 1024)) s :=
  load32_ok (by rw [pdePtr_toNat]; omega) (recursive.pde vaddr)

theorem Recursive.load_pte (recursive : Recursive s.phys s.root)
    (there : Paging.present (entry s.phys s.root (vaddr.toNat / 4096 / 1024)) = true) :
    load32 (ptePtr vaddr) s =
      .ok (entry s.phys (frameOf (entry s.phys s.root (vaddr.toNat / 4096 / 1024)))
        (vaddr.toNat / 4096 % 1024)) s :=
  load32_ok (by rw [ptePtr_toNat]; omega) (recursive.pte vaddr there)

/-- What `vaddr_to_paddr` makes of the addresses of a page, from the entry of the page. -/
theorem vaddrToPaddr_entry (recursive : Recursive s.phys s.root) {target : Nat}
    (there : Paging.present (entry s.phys s.root (vaddr.toNat / 4096 / 1024)) = true)
    (pte : entry s.phys (frameOf (entry s.phys s.root (vaddr.toNat / 4096 / 1024)))
      (vaddr.toNat / 4096 % 1024) = mk target) :
    vaddrToPaddr vaddr s = .ok (BitVec.ofNat 32 (4096 * target + vaddr.toNat % 4096)) s := by
  have loaded := recursive.load_pte there
  rw [pte] at loaded
  have value : (mk target &&& 0xfffff000) + (vaddr &&& 0x00000fff) =
      BitVec.ofNat 32 (4096 * target + vaddr.toNat % 4096) := by
    apply BitVec.eq_of_toNat_eq
    rw [BitVec.toNat_add, page_mask, offset_mask, BitVec.toNat_ofNat]
    unfold mk
    rw [BitVec.toNat_ofNat]
    omega
  unfold vaddrToPaddr
  rw [Program.bind_ok loaded, value]
  rfl

/-- The two entries of a page give all there is to know of it. -/
theorem bound_page (recursive : Recursive t.phys t.root) (aligned : vaddr.toNat % 4096 = 0)
    (frame : page.toNat % 4096 = 0)
    (there : Paging.present (entry t.phys t.root (vaddr.toNat / 4096 / 1024)) = true)
    (pte : entry t.phys (frameOf (entry t.phys t.root (vaddr.toNat / 4096 / 1024)))
      (vaddr.toNat / 4096 % 1024) = mk (page.toNat / 4096)) :
    walk t.phys t.root (vaddr.toNat / 4096) = some (page.toNat / 4096) ∧ ∀ off < 4096,
      vaddrToPaddr (vaddr + BitVec.ofNat 32 off) t = .ok (page + BitVec.ofNat 32 off) t := by
  have bound := page.isLt
  have bound' := vaddr.isLt
  have small : page.toNat / 4096 < 2 ^ 20 := by omega
  constructor
  · unfold walk
    simp only [there, ↓reduceIte, pte, present_mk, frameOf_mk small]
  · intro off less
    have number : (vaddr + BitVec.ofNat 32 off).toNat = vaddr.toNat + off := by
      rw [BitVec.toNat_add, BitVec.toNat_ofNat]
      omega
    have samePage : (vaddr + BitVec.ofNat 32 off).toNat / 4096 = vaddr.toNat / 4096 := by omega
    have target : BitVec.ofNat 32 (4096 * (page.toNat / 4096) + (vaddr + BitVec.ofNat 32 off).toNat % 4096) =
        page + BitVec.ofNat 32 off := by
      apply BitVec.eq_of_toNat_eq
      rw [number, BitVec.toNat_add, BitVec.toNat_ofNat, BitVec.toNat_ofNat]
      omega
    rw [← target]
    apply vaddrToPaddr_entry recursive
    · rw [samePage]
      exact there
    · rw [samePage]
      exact pte

/-- The last step: the entry of the page is stored in a table that is not the directory. -/
theorem bound_store (bindable : Bindable s vaddr page) (root : t.root = s.root)
    (window : entry m s.root 1023 = mk s.root)
    (there : Paging.present (entry m s.root (vaddr.toNat / 4096 / 1024)) = true)
    (notRoot : frameOf (entry m s.root (vaddr.toNat / 4096 / 1024)) ≠ s.root)
    (stored : t.phys = setWord m (4096 * frameOf (entry m s.root (vaddr.toNat / 4096 / 1024)) +
      4 * (vaddr.toNat / 4096 % 1024)) (page ||| 0b0111))
    (before : ∀ other < 1023 * 1024, other ≠ vaddr.toNat / 4096 →
      walk m s.root other = walk s.phys s.root other) : Bound s t vaddr page := by
  have bound := vaddr.isLt
  have row (i : Nat) (inside : i < 1024) : entry t.phys t.root i = entry m s.root i := by
    rw [stored, root]
    exact entry_setWord_other _ (by omega) inside (.inl notRoot.symm)
  have recursive : Recursive t.phys t.root := by
    apply recursive_of_self
    · rw [row 1023 (by omega), window, root]
    · exact root_small t
  have pde := row (vaddr.toNat / 4096 / 1024) (by omega)
  have page_ := bound_page recursive bindable.aligned bindable.frame (by rw [pde]; exact there) (by
    rw [pde, stored, frame_mk bindable.frame]
    exact entry_setWord_same _ _ _ _)
  refine ⟨page_.1, page_.2, fun other inside different alone => ?_⟩
  rw [← before other inside different]
  have upper := row (other / 1024) (by omega)
  rw [root] at upper ⊢
  apply walk_congr upper
  intro present
  rw [stored]
  apply entry_setWord_other _ (by omega) (by omega)
  by_contra same
  rw [not_or, not_not, not_not] at same
  apply alone
  rw [root]
  refine ⟨same.2, ?_, ?_⟩
  · rw [upper]
    exact present
  · rw [upper, ← root, pde, root]
    exact same.1

/-! With a table that is there. -/

theorem bind_table_completed (window : entry s.phys s.root 1023 = mk s.root)
    (absent : walk s.phys s.root (vaddr.toNat / 4096) = none)
    (there : Paging.present (entry s.phys s.root (vaddr.toNat / 4096 / 1024)) = true) :
    ∃ t, bindVaddrPaddrPage vaddr page s = .ok () t ∧ t.root = s.root ∧
      t.phys = setWord s.phys (4096 * frameOf (entry s.phys s.root (vaddr.toNat / 4096 / 1024)) +
        4 * (vaddr.toNat / 4096 % 1024)) (page ||| 0b0111) := by
  have recursive := recursive_of_self window (root_small s)
  have loaded := recursive.load_pte there
  have clear : entry s.phys (frameOf (entry s.phys s.root (vaddr.toNat / 4096 / 1024)))
      (vaddr.toNat / 4096 % 1024) &&& 1 = 0 := by
    unfold walk at absent
    rw [if_pos there] at absent
    by_contra set
    rw [if_pos ((present_mask _).mp set)] at absent
    contradiction
  have stored := store32_ok (page ||| 0b0111) (by rw [ptePtr_toNat]; omega)
    (show s.translate (ptePtr vaddr) = _ from recursive.pte vaddr there)
  have same : bindVaddrPaddrPage vaddr page s = store32 (ptePtr vaddr) (page ||| 0b0111) s := by
    unfold bindVaddrPaddrPage
    rw [Program.bind_ok (recursive.load_pde vaddr), if_pos ((present_mask _).mpr there),
      Program.bind_ok loaded, clear, decide_eq_true rfl, Program.bind_ok (assert_true _ s),
      Program.bind_ok loaded, if_pos clear]
  exact ⟨_, same.trans stored, rfl, rfl⟩

theorem bind_table (selfMapped : SelfMapped s.phys s.root) (bindable : Bindable s vaddr page)
    (there : Paging.present (entry s.phys s.root (vaddr.toNat / 4096 / 1024)) = true) :
    ∃ t, bindVaddrPaddrPage vaddr page s = .ok () t ∧ Bound s t vaddr page ∧
      t.phys = setWord s.phys (4096 * frameOf (entry s.phys s.root (vaddr.toNat / 4096 / 1024)) +
        4 * (vaddr.toNat / 4096 % 1024)) (page ||| 0b0111) := by
  have below := bindable.below
  obtain ⟨t, done, root, phys⟩ := bind_table_completed selfMapped.window bindable.absent there
  exact ⟨t, done, bound_store bindable root selfMapped.window there (selfMapped.only _ (by omega) there) phys
    fun _ _ _ => rfl, phys⟩

/-! With a new table. -/

theorem bitmapSetBit_mapped {bitmap : Bitmap} {j : U32} {p : Nat}
    (mapped : s.translate (bitmap.bits + j / 8) = some p) :
    bitmapSetBit bitmap j 1 s = .ok () (s.write (bitmap.bits + j / 8)
      (Function.update s.phys p (s.phys p ||| (1 : U8) <<< (j % 8).toNat))) := by
  unfold bitmapSetBit
  rw [Program.bind_ok (load8_ok mapped), if_pos (by decide)]
  exact store8_ok _ mapped

theorem bitmapSetBit_completed {bitmap : Bitmap} {k : U32} (done : bitmapSetBit bitmap k 1 s = .ok () t) :
    ∃ b, s.translate (bitmap.bits + k / 8) = some b ∧ t = s.write (bitmap.bits + k / 8)
      (Function.update s.phys b (s.phys b ||| (1 : U8) <<< (k.toNat % 8))) := by
  cases mapped : s.translate (bitmap.bits + k / 8) with
  | none =>
    unfold bitmapSetBit at done
    rw [Program.bind_error (load8_fault mapped)] at done
    contradiction
  | some b =>
    have remainder : (k % 8).toNat = k.toNat % 8 := BitVec.toNat_umod
    rw [bitmapSetBit_mapped mapped, remainder] at done
    cases done
    exact ⟨b, rfl, rfl⟩

theorem paddrGetPage_bitSet (done : paddrGetPage .kernelPool s = .ok frame t) (got : frame ≠ 0) :
    BitSet s t frame ∧ t.cr3 = s.cr3 := by
  unfold paddrGetPage at done
  rw [Program.bind_get] at done
  obtain ⟨k, s₁, requested, rest⟩ := Program.bind_completed done
  have same : s₁ = s := by
    unfold bitmapRequestBits at requested
    split at requested
    · cases requested
      rfl
    · contradiction
  subst same
  by_cases full : k = -1
  · rw [if_pos full] at rest
    cases rest
    exact absurd rfl got
  · rw [if_neg full] at rest
    obtain ⟨_, s₂, set, last⟩ := Program.bind_completed rest
    obtain ⟨b, mapped, rfl⟩ := bitmapSetBit_completed set
    cases last
    exact ⟨⟨k, b, rfl, mapped, rfl⟩, rfl⟩

/-- The frame for a table: it is not a table yet, and no table has lost a byte to its bit. -/
structure NewTable (s u : Machine) (frame : U32) : Prop where
  aligned : frame.toNat % 4096 = 0
  free : ¬ IsTable s.phys s.root (frame.toNat / 4096)
  tables : ∀ x, IsTable s.phys s.root (x / 4096) → u.phys x = s.phys x

/-- The entry of the directory is what makes the new table accessible, so that it can be cleared. -/
theorem table_cleared (window : entry u.phys u.root 1023 = mk u.root) (below : vaddr.toNat < 0xffc00000)
    (small : f < 2 ^ 20) (apart : u.root ≠ f) :
    ∃ m₁ m₂, store32 (pdePtr vaddr) (mk f) u = .ok () { u with phys := m₁ } ∧
      memset (ptePtr vaddr &&& 0xfffff000) 0 4096 { u with phys := m₁ } = .ok () { u with phys := m₂ } ∧
      entry m₂ u.root (vaddr.toNat / 4096 / 1024) = mk f ∧ (∀ j < 1024, entry m₂ f j = 0) ∧
      ∀ x, ¬ InWord (4096 * u.root + 4 * (vaddr.toNat / 4096 / 1024)) x → x / 4096 ≠ f → m₂ x = u.phys x := by
  have stored := store32_ok (mk f) (by rw [pdePtr_toNat]; omega)
    (show u.translate (pdePtr vaddr) = _ from (recursive_of_self window (root_small u)).pde vaddr)
  rw [Machine.write_high u _ (by rw [pdePtr_toNat]; omega)] at stored
  generalize first : setWord u.phys (4096 * u.root + 4 * (vaddr.toNat / 4096 / 1024)) (mk f) = m₁ at stored
  have pde : entry m₁ u.root (vaddr.toNat / 4096 / 1024) = mk f := by
    rw [← first]
    exact entry_setWord_same _ _ _ _
  have window₁ : entry m₁ u.root 1023 = mk u.root := by
    rw [← first, entry_setWord_other _ (by omega) (by omega) (.inr (by omega)), window]
  have table : (ptePtr vaddr &&& 0xfffff000).toNat = 0xffc00000 + 4096 * (vaddr.toNat / 4096 / 1024) := by
    rw [page_mask, ptePtr_toNat]
    omega
  have region := window_region window₁ pde (root_small u) small (by omega) apart
  obtain ⟨m₂, cleared, kept, zero, -⟩ := memset_ok (s := { u with phys := m₁ }) 0 4096
    (a := ptePtr vaddr &&& 0xfffff000) (by rw [table]; exact region) (by rw [table]; omega)
    (by rw [table]; omega) (fun _ _ => rfl)
  refine ⟨m₁, m₂, stored, cleared, ?_, ?_, ?_⟩
  · rw [← pde]
    exact entry_congr (fun x eq => kept x (by omega)) (by omega)
  · intro j inside
    apply word_zero
    intro x above less
    have cell := zero (x - 4096 * f) (by omega)
    rw [show 4096 * f + (x - 4096 * f) = x by omega] at cell
    exact cell
  · intro x outside other
    unfold InWord at outside
    rw [kept x other, ← first, setWord_outside _ (by omega)]

theorem SelfMapped.rootTable (selfMapped : SelfMapped s.phys s.root) : IsTable s.phys s.root s.root := by
  refine ⟨1023, by omega, ?_, ?_⟩
  · rw [selfMapped.window, present_mk]
  · rw [selfMapped.window, frameOf_mk (root_small s)]

/-- With the new table in the directory and clear, the pages are what they were. -/
theorem walk_newTable (selfMapped : SelfMapped s.phys s.root) {page : Nat} (inside : page < 1023 * 1024)
    {i : Nat} (below : i < 1024) (absent : Paging.present (entry s.phys s.root i) = false)
    (small : f < 2 ^ 20) (pde : entry m s.root i = mk f)
    (empty : ∀ j < 1024, entry m f j = 0)
    (same : ∀ x, IsTable s.phys s.root (x / 4096) → ¬ InWord (4096 * s.root + 4 * i) x → m x = s.phys x) :
    walk m s.root page = walk s.phys s.root page := by
  have rootTable := selfMapped.rootTable
  by_cases here : page / 1024 = i
  · have emptied : Paging.present (entry m f (page % 1024)) = false := by
      rw [empty _ (by omega)]
      rfl
    simp [walk, here, pde, frameOf_mk small, emptied, absent]
  · have upper : entry m s.root (page / 1024) = entry s.phys s.root (page / 1024) := by
      apply word_congr
      intro x above less
      apply same
      · rw [show x / 4096 = s.root by omega]
        exact rootTable
      · unfold InWord
        omega
    apply walk_congr upper
    intro there
    have isTable : IsTable s.phys s.root (frameOf (entry s.phys s.root (page / 1024))) :=
      ⟨_, by omega, there, rfl⟩
    have notRoot := selfMapped.only _ (show page / 1024 < 1023 by omega) there
    apply entry_congr _ (by omega)
    intro x eq
    apply same
    · rw [eq]
      exact isTable
    · unfold InWord
      omega

theorem bind_new_completed (window : entry s.phys s.root 1023 = mk s.root) (below : vaddr.toNat < 0xffc00000)
    (absent : Paging.present (entry s.phys s.root (vaddr.toNat / 4096 / 1024)) = false)
    (taken : paddrGetPage .kernelPool s = .ok frame u) (root : u.root = s.root)
    (window₁ : entry u.phys u.root 1023 = mk u.root) (aligned : frame.toNat % 4096 = 0)
    (apart : u.root ≠ frame.toNat / 4096) :
    ∃ t m₂, bindVaddrPaddrPage vaddr page s = .ok () t ∧ t.root = s.root ∧
      t.phys = setWord m₂ (4096 * (frame.toNat / 4096) + 4 * (vaddr.toNat / 4096 % 1024)) (page ||| 0b0111) ∧
      entry m₂ s.root (vaddr.toNat / 4096 / 1024) = mk (frame.toNat / 4096) ∧
      (∀ j < 1024, entry m₂ (frame.toNat / 4096) j = 0) ∧
      ∀ x, ¬ InWord (4096 * s.root + 4 * (vaddr.toNat / 4096 / 1024)) x → x / 4096 ≠ frame.toNat / 4096 →
        m₂ x = u.phys x := by
  have entryWord := frame_mk aligned
  have small : frame.toNat / 4096 < 2 ^ 20 := by omega
  obtain ⟨m₁, m₂, stored, cleared, pde, empty, kept⟩ := table_cleared window₁ below small apart
  have window₂ : entry m₂ u.root 1023 = mk u.root := by
    rw [← window₁]
    apply word_congr
    intro x above less
    apply kept
    · unfold InWord
      omega
    · omega
  have there : Paging.present (entry m₂ u.root (vaddr.toNat / 4096 / 1024)) = true := by
    rw [pde, present_mk]
  have pte : Machine.translate { u with phys := m₂ } (ptePtr vaddr) =
      some (4096 * (frame.toNat / 4096) + 4 * (vaddr.toNat / 4096 % 1024)) := by
    have mapped := (recursive_of_self window₂ (root_small u)).pte vaddr there
    rw [pde, frameOf_mk small] at mapped
    exact mapped
  have loaded := load32_ok (by rw [ptePtr_toNat]; omega) pte
  have clear : word m₂ (4096 * (frame.toNat / 4096) + 4 * (vaddr.toNat / 4096 % 1024)) &&& 1 = 0 := by
    have zero := empty (vaddr.toNat / 4096 % 1024) (by omega)
    unfold entry at zero
    rw [zero]
    rfl
  have last := store32_ok (page ||| 0b0111) (by rw [ptePtr_toNat]; omega) pte
  have notThere : ¬ (entry s.phys s.root (vaddr.toNat / 4096 / 1024) &&& 1 ≠ 0) := by
    rw [present_mask, absent]
    decide
  rw [root] at pde kept
  have same : bindVaddrPaddrPage vaddr page s =
      store32 (ptePtr vaddr) (page ||| 0b0111) { u with phys := m₂ } := by
    unfold bindVaddrPaddrPage
    rw [Program.bind_ok ((recursive_of_self window (root_small s)).load_pde vaddr), if_neg notThere,
      Program.bind_ok taken, entryWord, Program.bind_ok stored, Program.bind_ok cleared,
      Program.bind_ok loaded, clear, decide_eq_true rfl, Program.bind_ok (assert_true _ _)]
  exact ⟨_, m₂, same.trans last, root, rfl, pde, empty, kept⟩

theorem bind_new (selfMapped : SelfMapped s.phys s.root) (bindable : Bindable s vaddr page)
    (absent : Paging.present (entry s.phys s.root (vaddr.toNat / 4096 / 1024)) = false)
    (taken : paddrGetPage .kernelPool s = .ok frame u) (got : frame ≠ 0) (new : NewTable s u frame) :
    ∃ t, bindVaddrPaddrPage vaddr page s = .ok () t ∧ Bound s t vaddr page ∧
      ∀ x, ¬ InWord (4096 * s.root + 4 * (vaddr.toNat / 4096 / 1024)) x → x / 4096 ≠ frame.toNat / 4096 →
        t.phys x = u.phys x := by
  have bound := vaddr.isLt
  have below := bindable.below
  have small : frame.toNat / 4096 < 2 ^ 20 := by omega
  have rootTable := selfMapped.rootTable
  have root : u.root = s.root := by
    unfold Machine.root
    rw [(paddrGetPage_bitSet taken got).2]
  have apart : s.root ≠ frame.toNat / 4096 := fun eq => new.free (eq ▸ rootTable)
  have window₁ : entry u.phys u.root 1023 = mk u.root := by
    rw [root, ← selfMapped.window]
    exact entry_congr (fun x eq => new.tables x (by rw [eq]; exact rootTable)) (by omega)
  obtain ⟨t, m₂, done, root', phys, pde, empty, kept⟩ := bind_new_completed selfMapped.window below absent
    taken root window₁ new.aligned (by rw [root]; exact apart)
  have same (x : Nat) (isTable : IsTable s.phys s.root (x / 4096))
      (outside : ¬ InWord (4096 * s.root + 4 * (vaddr.toNat / 4096 / 1024)) x) : m₂ x = s.phys x := by
    rw [kept x outside fun eq => new.free (eq ▸ isTable), new.tables x isTable]
  have window₂ : entry m₂ s.root 1023 = mk s.root := by
    rw [← selfMapped.window]
    apply word_congr
    intro x above less
    refine same x ?_ ?_
    · rw [show x / 4096 = s.root by omega]
      exact rootTable
    · unfold InWord
      omega
  refine ⟨t, done, bound_store bindable root' window₂ (by rw [pde, present_mk]) ?_ ?_ ?_, ?_⟩
  · rw [pde, frameOf_mk small]
    exact apart.symm
  · rw [pde, frameOf_mk small]
    exact phys
  · intro other inside _
    exact walk_newTable selfMapped inside (by omega) absent small pde empty same
  · intro x outside otherFrame
    rw [phys, setWord_outside _ (by omega), kept x outside otherFrame]

theorem bind_maps_page (selfMapped : SelfMapped s.phys s.root) (bindable : Bindable s vaddr page) :
    (Paging.present (entry s.phys s.root (vaddr.toNat / 4096 / 1024)) = true →
      ∃ t, bindVaddrPaddrPage vaddr page s = .ok () t ∧ Bound s t vaddr page ∧
        ∀ x, ¬ InWord (4096 * frameOf (entry s.phys s.root (vaddr.toNat / 4096 / 1024)) +
          4 * (vaddr.toNat / 4096 % 1024)) x → t.phys x = s.phys x) ∧
    (Paging.present (entry s.phys s.root (vaddr.toNat / 4096 / 1024)) = false →
      ∀ frame u, paddrGetPage .kernelPool s = .ok frame u → frame ≠ 0 → NewTable s u frame →
      ∃ t, bindVaddrPaddrPage vaddr page s = .ok () t ∧ Bound s t vaddr page ∧ BitSet s u frame ∧
        ∀ x, ¬ InWord (4096 * s.root + 4 * (vaddr.toNat / 4096 / 1024)) x →
          x / 4096 ≠ frame.toNat / 4096 → t.phys x = u.phys x) := by
  constructor
  · intro there
    obtain ⟨t, done, bound, phys⟩ := bind_table selfMapped bindable there
    refine ⟨t, done, bound, fun x outside => ?_⟩
    unfold InWord at outside
    rw [phys, setWord_outside _ (by omega)]
  · intro absent frame u taken got new
    obtain ⟨t, done, bound, same⟩ := bind_new selfMapped bindable absent taken got new
    exact ⟨t, done, bound, (paddrGetPage_bitSet taken got).1, same⟩

/-! Two directories for which more than that happens, and one of the usual kind. -/

/-- The directory in the frame 0x100 has one more table, which shows itself in its second page. -/
def tableMemory : ByteMemory.Memory :=
  setWord (setWord (setWord (fun _ => 0) (4096 * 0x100 + 4 * 1023) (mk 0x100)) (4096 * 0x100 + 4 * 0) (mk 0x101))
    (4096 * 0x101 + 4 * 1) (mk 0x101)

/-- The directory in the frame 0x100 has itself in its entry 5 as well. -/
def twiceMemory : ByteMemory.Memory :=
  setWord (setWord (fun _ => 0) (4096 * 0x100 + 4 * 1023) (mk 0x100)) (4096 * 0x100 + 4 * 5) (mk 0x100)

/-- The bitmap of the frames lies in the table. -/
def tableMachine : Machine :=
  { entryMachine tableMemory with kernelPool := ⟨lockInit, ⟨1, 0x1014⟩, 0x200000, 0x8000⟩ }

theorem tableMemory_entry (inside : i < 1024) :
    entry tableMemory f i = if f = 0x101 ∧ i = 1 then mk 0x101 else if f = 0x100 ∧ i = 0 then mk 0x101
      else if f = 0x100 ∧ i = 1023 then mk 0x100 else 0 := by
  unfold tableMemory
  by_cases table : f = 0x101 ∧ i = 1
  · rw [if_pos table, table.1, table.2, entry_setWord_same]
  · rw [if_neg table, entry_setWord_other _ (by omega) inside (by omega)]
    by_cases first : f = 0x100 ∧ i = 0
    · rw [if_pos first, first.1, first.2, entry_setWord_same]
    · rw [if_neg first, entry_setWord_other _ (by omega) inside (by omega)]
      by_cases last : f = 0x100 ∧ i = 1023
      · rw [if_pos last, last.1, last.2, entry_setWord_same]
      · rw [if_neg last, entry_setWord_other _ (by omega) inside (by omega)]
        exact word_zero fun _ _ _ => rfl

theorem tableMachine_root : tableMachine.root = 0x100 := rfl

theorem tableMachine_selfMapped : SelfMapped tableMachine.phys tableMachine.root := by
  rw [tableMachine_root]
  constructor
  · rw [show tableMachine.phys = tableMemory from rfl, tableMemory_entry (by omega)]
    rfl
  · intro i less there
    rw [show tableMachine.phys = tableMemory from rfl, tableMemory_entry (by omega), if_neg (by omega)] at there ⊢
    by_cases first : i = 0
    · rw [if_pos ⟨rfl, first⟩]
      decide
    · rw [if_neg (by omega), if_neg (by omega)] at there
      contradiction

theorem bind_maps_page_second : ∃ t, bindVaddrPaddrPage 0x2000 0x200000 tableMachine = .ok () t ∧
    Bound tableMachine t 0x2000 0x200000 := by
  have bindable : Bindable tableMachine 0x2000 0x200000 := ⟨by decide, by decide, by decide, by decide⟩
  obtain ⟨t, done, bound, -⟩ := (bind_maps_page tableMachine_selfMapped bindable).1 (by decide)
  exact ⟨t, done, bound⟩

theorem tableMachine_page : ∃ u, paddrGetPage .kernelPool tableMachine = .ok 0x200000 u ∧
    u.root = tableMachine.root ∧ u.phys = Function.update tableMemory 0x101014 1 := by
  have reads : Reads (fun i => peek tableMachine (0x1014 + i)) (1 : U32).toNat fun _ => false := by
    intro i inside
    rw [show (1 : U32).toNat = 1 from rfl] at inside
    refine ⟨0, ?_, fun j _ => by simp⟩
    interval_cases i <;> decide
  have search := requestBits_one reads (by decide) false (by decide) rfl (fun i less => absurd less (Nat.not_lt_zero i))
  have requested := bitmapRequestBits_eq 1 0x1014 1 tableMachine
  rw [show tableMachine.ndebug = false from rfl, search] at requested
  have mapped : tableMachine.translate (0x1014 + 0 / 8) = some 0x101014 := by decide
  have set := bitmapSetBit_ok 1 0x1014 0 mapped (by decide)
  refine ⟨{ tableMachine with phys := Function.update tableMemory 0x101014 1, handed := [0x200000] }, ?_, rfl, rfl⟩
  unfold paddrGetPage
  rw [Program.bind_get]
  change (bitmapRequestBits ⟨1, 0x1014⟩ 1 >>= _) tableMachine = _
  rw [Program.bind_ok requested]
  change (bitmapSetBit ⟨1, 0x1014⟩ 0 1 >>= _) tableMachine = _
  rw [Program.bind_ok set]
  rfl

theorem tableMemory_frame (inside : i < 1024) : frameOf (entry tableMemory f i) ≠ 0x200 := by
  rw [tableMemory_entry inside]
  split_ifs <;> decide

theorem bind_changes_other :
    (∃ (s : Machine) (vaddr page : U32), entry s.phys s.root 1023 = mk s.root ∧ Bindable s vaddr page ∧
      Paging.present (entry s.phys s.root (vaddr.toNat / 4096 / 1024)) = true ∧
      ∀ t, bindVaddrPaddrPage vaddr page s = .ok () t → ¬ Bound s t vaddr page) ∧
    ∃ (s : Machine) (vaddr page frame : U32) (u : Machine), SelfMapped s.phys s.root ∧ Bindable s vaddr page ∧
      Paging.present (entry s.phys s.root (vaddr.toNat / 4096 / 1024)) = false ∧
      paddrGetPage .kernelPool s = .ok frame u ∧ frame ≠ 0 ∧ frame.toNat % 4096 = 0 ∧
      ¬ IsTable s.phys s.root (frame.toNat / 4096) ∧
      (∀ other < 2 ^ 20, walk s.phys s.root other ≠ some (frame.toNat / 4096)) ∧
      ∀ t, bindVaddrPaddrPage vaddr page s = .ok () t → ¬ Bound s t vaddr page := by
  constructor
  · refine ⟨entryMachine twiceMemory, 0x1406000, 0x100000, by decide, ⟨by decide, by decide, by decide, by decide⟩,
      by decide, fun t done bound => ?_⟩
    obtain ⟨t', done', root, phys⟩ := @bind_table_completed (entryMachine twiceMemory) 0x1406000 0x100000
      (by decide) (by decide) (by decide)
    rw [done] at done'
    cases done'
    have same := bound.others 6149 (by decide) (by decide) fun shared => absurd shared.1 (by decide)
    rw [root, phys] at same
    exact absurd same (by decide)
  · obtain ⟨u, taken, root, phys⟩ := tableMachine_page
    refine ⟨tableMachine, 0x400000, 0x300000, 0x200000, u, tableMachine_selfMapped,
      ⟨by decide, by decide, by decide, by decide⟩, by decide, taken, by decide, by decide, ?_, ?_,
      fun t done bound => ?_⟩
    · rintro ⟨i, inside, -, eq⟩
      exact tableMemory_frame inside eq
    · intro other _ mapped
      unfold walk at mapped
      dsimp only at mapped
      split at mapped
      · split at mapped
        · exact tableMemory_frame (Nat.mod_lt _ (by decide)) (Option.some.inj mapped)
        · contradiction
      · contradiction
    · have window : entry u.phys u.root 1023 = mk u.root := by
        rw [phys, root]
        decide
      obtain ⟨t', m₂, done', root', phys', -, -, kept⟩ := @bind_new_completed tableMachine u 0x400000 0x300000
        0x200000 tableMachine_selfMapped.window (by decide) (by decide) taken root window (by decide)
        (by rw [root]; decide)
      rw [done] at done'
      cases done'
      have after (x : Nat) (outside : ¬ InWord (4096 * 0x100 + 4 * 1) x) (other : x / 4096 ≠ 0x200) :
          t.phys x = u.phys x := by
        rw [phys', setWord_outside _ (by
          rw [show (0x200000 : U32).toNat / 4096 = 0x200 from rfl]
          omega)]
        exact kept x outside other
      have same := bound.others 5 (by decide) (by decide) fun shared => absurd shared.1 (by decide)
      have first : entry t.phys 0x100 (5 / 1024) = entry u.phys 0x100 (5 / 1024) := by
        apply word_congr
        intro x above less
        apply after
        · unfold InWord
          omega
        · omega
      have walked : walk t.phys 0x100 5 = walk u.phys 0x100 5 := by
        apply walk_congr first
        intro _
        have table : frameOf (entry u.phys 0x100 (5 / 1024)) = 0x101 := by
          rw [phys]
          decide
        rw [table]
        apply word_congr
        intro x above less
        apply after
        · unfold InWord
          omega
        · omega
      rw [root', tableMachine_root, walked, phys] at same
      exact absurd same (by decide)

end LiziOS.Memory
