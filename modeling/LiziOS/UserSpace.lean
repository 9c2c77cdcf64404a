import LiziOS.KernelHeap

namespace LiziOS.Memory

open ByteMemory Paging

/-! Pages of the user half: `bind_vaddr_paddr_page` with the table it may have to make. -/

variable {s t : Machine} {g g' : Layout} {m m' : ByteMemory.Memory} {n low : Nat}

/-- What a call for user pages does to a layout: frames in use stay in use for the same, and new
    tables are made for entries from `low` on. -/
structure UserGrown (low : Nat) (g g' : Layout) : Prop where
  lengths : g'.kernelFree = g.kernelFree ∧ g'.userFree = g.userFree
  dirs : g'.dirs = g.dirs
  heapUsed : g'.heapUsed = g.heapUsed
  heapMapped : g'.heapMapped = g.heapMapped
  keeps : ∀ frame, g.use frame ≠ .free → g'.use frame = g.use frame
  tables : ∀ t d p, g'.use t = .table d p → g.use t = .table d p ∨ low ≤ p

theorem UserGrown.refl (low : Nat) (g : Layout) : UserGrown low g g :=
  ⟨⟨rfl, rfl⟩, rfl, rfl, rfl, fun _ _ => rfl, fun _ _ _ use => .inl use⟩

theorem UserGrown.trans {g'' : Layout} (first : UserGrown low g g') (second : UserGrown low g' g'') :
    UserGrown low g g'' where
  lengths := ⟨second.lengths.1.trans first.lengths.1, second.lengths.2.trans first.lengths.2⟩
  dirs := second.dirs.trans first.dirs
  heapUsed := second.heapUsed.trans first.heapUsed
  heapMapped := second.heapMapped.trans first.heapMapped
  keeps frame used := by
    have same := first.keeps frame used
    rw [second.keeps frame (by rw [same]; exact used), same]
  tables t d p use := by
    rcases second.tables t d p use with old | above
    · exact first.tables t d p old
    · exact .inr above

theorem UserGrown.data (grown : UserGrown low g g') {frame : Nat} (data : g.Data frame) : g'.Data frame := by
  rcases data with low | ⟨i, use, notDir⟩
  · exact .inl low
  · exact .inr ⟨i, by rw [grown.keeps frame (by simp [use])]; exact use, by rw [grown.dirs]; exact notDir⟩

/-- Data frames are neither bitmaps nor tables nor free. -/
theorem Layout.Valid.data_apart (valid : g.Valid) {frame : Nat} (data : g.Data frame) :
    (∀ x, x / 4096 = frame → ¬ InBitmaps x) ∧ (∀ d ∈ g.dirs, frame ≠ d) ∧
      (∀ f, 0x200 ≤ f → g.use f = .free → frame ≠ f) ∧ ∀ f d p, g.use f = .table d p → frame ≠ f := by
  rcases data with ⟨low, outside⟩ | ⟨i, use, notDir⟩
  · refine ⟨?_, ?_, ?_, ?_⟩
    · rintro x rfl bitmap
      unfold InBitmaps at bitmap
      omega
    · intro d member
      obtain ⟨i, use⟩ := valid.dir d member
      have above := (valid.heapFrame d i use).1
      omega
    · intro f high _
      omega
    · intro f d p use
      have above := (valid.tableFrame f d p use).1
      omega
  · have above := (valid.heapFrame frame i use).1
    refine ⟨?_, ?_, ?_, ?_⟩
    · rintro x rfl bitmap
      unfold InBitmaps at bitmap
      omega
    · rintro d member rfl
      exact notDir member
    · rintro f _ free rfl
      rw [free] at use
      contradiction
    · rintro f d p table rfl
      rw [table] at use
      contradiction

/-- The page that is mapped, and where its table entry is. -/
structure MappedTo (low : Nat) (g : Layout) (d v frame : Nat) (g' : Layout) : Prop where
  grown : UserGrown low g g'
  page : g'.use frame = .page d v
  userUsed : g'.userUsed = g.userUsed

/-- The directory has a table for the page. -/
theorem bindUser_table (rep : Represents s g) {vaddr : U32} {v frame : Nat} (number : vaddr.toNat / 4096 = v)
    (small : v < 768 * 1024) (member : s.root ∈ g.dirs) (free : g.use frame = .free)
    (inside : g.InUser frame) {table : Nat} (pde : g.slot s.root (v / 1024) = .maps table)
    (pte : g.slot table (v % 1024) = .absent) :
    ∃ t g', bindVaddrPaddrPage vaddr (BitVec.ofNat 32 (4096 * frame)) s = .ok () t ∧ Same s t ∧
      Represents t g' ∧ MappedTo low g s.root v frame g' ∧ SameData g s.phys t.phys := by
  have valid := rep.core.valid
  have frameSmall := valid.handed_small (.inr inside)
  have use : g.use table = .table s.root (v / 1024) := by
    rcases valid.userHalf s.root member (v / 1024) (by omega) with absent | ⟨other, slot, use⟩
    · rw [pde] at absent
      contradiction
    · rw [pde] at slot
      cases slot
      exact use
  have bound := bind_present rep frame (by rw [number]; exact pde)
    (by rw [number]; exact pte) (by omega)
  rw [number] at bound
  have tableHigh := (valid.tableFrame table _ _ use).1
  have core := rep.core.retable (h := g.mapUser s.root v table frame)
    (valid.mapUser use pte free inside)
    (rep.core.tables.set table (v % 1024) frame (by omega) (by omega))
    (fun x bitmap => setWord_outside _ (by unfold InBitmaps at bitmap; omega)) ⟨rfl, rfl⟩
    ⟨rfl, rfl, rfl, rfl⟩
  have grown : UserGrown low g (g.mapUser s.root v table frame) :=
    ⟨⟨rfl, rfl⟩, rfl, rfl, rfl, fun f used => Layout.use_new free rfl used,
      fun t d p use => .inl (Layout.use_old use (by simp))⟩
  refine ⟨_, _, bound, rfl, rep.write core rep.root ⟨rfl, rfl⟩ fun _ owned => owned,
    ⟨grown, Layout.setUse_same _ _ _, rfl⟩, ?_⟩
  intro x data
  have apart := (valid.data_apart data).2.2.2 table _ _ use
  exact setWord_outside _ (by omega)

/-- A frame of which nothing is known can be cleared through the window once an entry names it. -/
theorem window_region {r p table : Nat} {base : ByteMemory.Memory} (window : entry base r 1023 = mk r)
    (pde : entry base r p = mk table) (rSmall : r < 2 ^ 20) (tableSmall : table < 2 ^ 20) (small : p < 1023)
    (apart : r ≠ table) :
    Region (fun m => ∀ x, x / 4096 ≠ table → m x = base x) r (0xffc00000 + 4096 * p) 4096
      fun j => 4096 * table + j where
  mapped m j same inside := by
    have row (i : Nat) (less : i < 1024) : entry m r i = entry base r i :=
      entry_congr (fun x eq => same x (by omega)) less
    have mapped : Paging.walk m r ((0xffc00000 + 4096 * p + j) / 4096) = some table := by
      apply walk_of_entries (t := r)
      · rw [show (0xffc00000 + 4096 * p + j) / 4096 / 1024 = 1023 by omega, row _ (by omega)]
        exact window
      · rw [show (0xffc00000 + 4096 * p + j) / 4096 % 1024 = p by omega, row _ (by omega)]
        exact pde
      · exact rSmall
      · exact tableSmall
    rw [translate_some mapped, show (0xffc00000 + 4096 * p + j) % 4096 = j by omega]
  kept m j byte same inside := by
    intro x other
    rw [Function.update_of_ne (by omega)]
    exact same x other
  apart j k _ _ same := by omega

/-- The directory has no table for the page yet: a frame of the kernel's pool becomes one. -/
theorem bindUser_new (rep : Represents s g) {vaddr : U32} {v frame : Nat} (number : vaddr.toNat / 4096 = v)
    (small : v < 768 * 1024) (member : s.root ∈ g.dirs) (free : g.use frame = .free)
    (inside : g.InUser frame) (absent : g.slot s.root (v / 1024) = .absent)
    (room : g.kernelUsed < 8 * g.kernelLength) (above : low ≤ v / 1024) :
    ∃ t g', bindVaddrPaddrPage vaddr (BitVec.ofNat 32 (4096 * frame)) s = .ok () t ∧ Same s t ∧
      Represents t g' ∧ MappedTo low g s.root v frame g' ∧ SameData g s.phys t.phys ∧
      g'.kernelUsed = g.kernelUsed + 1 := by
  have valid := rep.core.valid
  have frameSmall := valid.handed_small (.inr inside)
  obtain ⟨u, taken, same, repU, outside⟩ := paddrGetPage_ok rep .kernelPool room
  change paddrGetPage .kernelPool s = .ok (BitVec.ofNat 32 (4096 * (0x200 + g.kernelUsed))) u at taken
  change Represents u g.takeKernel at repU
  have rootEq : u.root = s.root := Represents.root_eq same.configured
  have tableFree : g.use (0x200 + g.kernelUsed) = .free := valid.next_kernel room
  have tableKernel : g.takeKernel.InKernel (0x200 + g.kernelUsed) := by
    unfold Layout.InKernel Layout.takeKernel
    dsimp only
    omega
  have kernelFree := valid.kernelFree
  have tableSmall : 0x200 + g.kernelUsed < 2 ^ 20 := by
    unfold Layout.kernelLength at room
    omega
  generalize tableEq : 0x200 + g.kernelUsed = table at taken tableFree tableKernel tableSmall
  have tableHigh := tableKernel.1
  obtain ⟨dirPage, dirUse⟩ := valid.dir s.root member
  have rootHigh := (valid.heapFrame _ _ dirUse).1
  have apart : s.root ≠ table := Layout.ne_of_free tableFree (by simp [dirUse])
  have frameApart : frame ≠ table := by
    have low := inside.1
    unfold Layout.kernelLength at room
    omega
  have clear := rep.absent_mask (by omega) absent
  -- the entry of the directory
  have stored : store32 (pdePtr vaddr) (BitVec.ofNat 32 (4096 * table) ||| 0b0111) u = .ok ()
      { u with phys := setWord u.phys (4096 * s.root + 4 * (v / 1024)) (mk table) } := by
    have mapped := repU.translate_pdePtr vaddr
    rw [rootEq, number] at mapped
    rw [frame_or tableSmall, store32_ok _ (by rw [pdePtr_toNat]; omega) mapped,
      Machine.write_high u _ (by rw [pdePtr_toNat]; omega)]
  have holds₁ := repU.core.tables.set s.root (v / 1024) table (by omega) tableSmall
  generalize physEq₁ : setWord u.phys (4096 * s.root + 4 * (v / 1024)) (mk table) = phys₁ at stored holds₁
  -- the table is cleared
  have window : entry phys₁ s.root 1023 = mk s.root ∧ s.root < 2 ^ 20 := by
    apply (holds₁ s.root).maps 1023 (by omega)
    have slot := valid.window s.root rep.root
    rw [Function.update_self, Function.update_of_ne (by omega)]
    exact slot
  have pdeEntry : entry phys₁ s.root (v / 1024) = mk table := by
    rw [← physEq₁]
    exact entry_setWord_same _ _ _ _
  have region := window_region window.1 pdeEntry window.2 tableSmall (by omega) apart
  have pteAddress := ptePtr_toNat vaddr
  rw [number] at pteAddress
  have pageAddress : (ptePtr vaddr &&& (0xfffff000 : U32)).toNat = 0xffc00000 + 4096 * (v / 1024) := by
    rw [page_mask, pteAddress]
    omega
  obtain ⟨phys₂, cleared, same₂, zero, miss⟩ := memset_ok (s := { u with phys := phys₁ })
    (a := ptePtr vaddr &&& (0xfffff000 : U32)) 0 4096
    (by
      rw [pageAddress]
      change Region _ u.root _ _ _
      rw [rootEq]
      exact region)
    (by omega) (by omega) (fun _ _ => rfl)
  have zeroes (x : Nat) (inTable : x / 4096 = table) : phys₂ x = 0 := by
    have byte := zero (x - 4096 * table) (by omega)
    rw [show 4096 * table + (x - 4096 * table) = x by omega] at byte
    exact byte
  -- the entry of the table
  have translated : (Machine.translate { u with phys := phys₂ } (ptePtr vaddr)) =
      some (4096 * table + 4 * (v % 1024)) := by
    have mapped := region.mapped phys₂ (4 * (v % 1024)) same₂ (by omega)
    unfold Machine.translate
    change Paging.translate phys₂ u.root _ = _
    rw [rootEq, pteAddress, show 0xffc00000 + 4 * v = 0xffc00000 + 4096 * (v / 1024) + 4 *
        (v % 1024) by omega]
    exact mapped
  have pteZero : word phys₂ (4096 * table + 4 * (v % 1024)) = 0 :=
    word_zero fun x above below => zeroes x (by omega)
  have final : bindVaddrPaddrPage vaddr (BitVec.ofNat 32 (4096 * frame)) s = .ok ()
      { u with phys := setWord phys₂ (4096 * table + 4 * (v % 1024)) (mk frame) } := by
    unfold bindVaddrPaddrPage
    rw [Program.bind_ok (rep.load_pde vaddr), number, if_neg (by simpa using clear),
      Program.bind_ok taken, Program.bind_ok stored, Program.bind_ok cleared,
      Program.bind_ok (load32_ok (by rw [ptePtr_toNat]; omega) translated)]
    change (Memory.assert (decide (word phys₂ (4096 * table + 4 * (v % 1024)) &&& 1 = 0))
      .bindVaddrPaddrPage >>= _) _ = _
    rw [pteZero, decide_eq_true (by decide), Program.bind_ok (assert_true _ _), frame_or (by omega),
      store32_ok _ (by rw [ptePtr_toNat]; omega) translated, Machine.write_high _ _ (by omega)]
  -- the layout
  have notDir : table ∉ g.dirs := by
    intro dir
    obtain ⟨i, use⟩ := valid.dir table dir
    rw [tableFree] at use
    contradiction
  have unknown (i : Nat) (less : i < 1024) : g.slot table i = .unknown :=
    (valid.plain_free tableFree tableHigh).2 i less
  have valid₁ := repU.core.valid.addTable (d := s.root) (p := v / 1024) (t := table) member (by omega) absent
    tableFree tableKernel
  have holds₂ : Holds phys₂ (g.takeKernel.addTable s.root (v / 1024) table).slot := by
    apply Holds.withRow _ (rowHolds_zero zeroes)
    apply holds₁.congr
    rintro x ⟨i, less, known⟩
    apply miss
    rintro j less' rfl
    apply known
    rw [show (4096 * table + j) / 4096 = table by omega, Function.update_of_ne apart.symm]
    exact unknown i less
  have valid₂ : ((g.takeKernel.addTable s.root (v / 1024) table).mapUser s.root v table frame).Valid := by
    apply valid₁.mapUser
    · exact Layout.setUse_same _ _ _
    · simp [Layout.addTable]
    · rw [← free]
      exact Layout.setUse_other _ _ frameApart
    · exact inside
  have core := repU.core.retable valid₂ (holds₂.set table (v % 1024) frame (by omega) (by omega))
    (fun x bitmap => by
      unfold InBitmaps at bitmap
      rw [setWord_outside _ (by omega), miss x (by intro j less; omega)]
      change phys₁ x = u.phys x
      rw [← physEq₁]
      exact setWord_outside _ (by omega)) ⟨rfl, rfl⟩
    ⟨rfl, rfl, rfl, rfl⟩
  have rep₂ := repU.write core repU.root ⟨rfl, rfl⟩ fun _ owned => owned
  have keeps (f : Nat) (used : g.use f ≠ .free) :
      ((g.takeKernel.addTable s.root (v / 1024) table).mapUser s.root v table frame).use f = g.use f := by
    have first : f ≠ table := Layout.ne_of_free tableFree used
    have second : f ≠ frame := Layout.ne_of_free free used
    change ((Layout.setUse _ frame _).use f) = _
    rw [Layout.setUse_other _ _ second]
    exact Layout.setUse_other _ _ first
  have grown : UserGrown low g
      ((g.takeKernel.addTable s.root (v / 1024) table).mapUser s.root v table frame) := by
    refine ⟨⟨rfl, rfl⟩, rfl, rfl, rfl, keeps, fun t d p use => ?_⟩
    have before : (g.takeKernel.addTable s.root (v / 1024) table).use t = .table d p :=
      Layout.use_old use (by simp)
    by_cases same : Use.table d p = .table s.root (v / 1024)
    · cases same
      exact .inr above
    · exact .inl (Layout.use_old (g := g) before same)
  refine ⟨_, _, final, Same.trans same (t := u) rfl, rep₂, ⟨grown, Layout.setUse_same _ _ _, rfl⟩, ?_, rfl⟩
  intro x data
  obtain ⟨notBitmap, notDirs, notFree, -⟩ := valid.data_apart data
  have other := notFree table tableHigh tableFree
  have other' := notDirs s.root member
  change setWord phys₂ (4096 * table + 4 * (v % 1024)) (mk frame) x = s.phys x
  rw [setWord_outside _ (by omega), miss x (by intro j less; omega)]
  change phys₁ x = s.phys x
  rw [← outside x (notBitmap x rfl), ← physEq₁]
  exact setWord_outside _ (by omega)

/-- A completed call has mapped the page. The last page of a run may lie at 3 GiB, where the kernel
    is mapped already. -/
theorem bindUser_completed (rep : Represents s g) {vaddr : U32} {v frame : Nat}
    (number : vaddr.toNat / 4096 = v) (small : v ≤ 768 * 1024) (member : s.root ∈ g.dirs)
    (free : g.use frame = .free) (inside : g.InUser frame) (above : low ≤ v / 1024)
    (completed : bindVaddrPaddrPage vaddr (BitVec.ofNat 32 (4096 * frame)) s = .ok () t) :
    ∃ g', Same s t ∧ Represents t g' ∧ MappedTo low g s.root v frame g' ∧ SameData g s.phys t.phys ∧
      v < 768 * 1024 := by
  have valid := rep.core.valid
  by_cases last : v = 768 * 1024
  · have pde : g.slot s.root (vaddr.toNat / 4096 / 1024) = .maps 0x101 := by
      rw [number, last]
      exact valid.kernelHalf s.root rep.root 0 (by omega)
    have pte : g.slot 0x101 (vaddr.toNat / 4096 % 1024) = .maps 0 := by
      rw [number, last]
      exact valid.low 0 (by omega)
    rw [bind_repeated rep pde pte] at completed
    contradiction
  · have less : v < 768 * 1024 := by omega
    rcases valid.userHalf s.root member (v / 1024) (by omega) with absent | ⟨table, pde, use⟩
    · by_cases room : g.kernelUsed < 8 * g.kernelLength
      · obtain ⟨t', g', done, same, after, mapped, data, -⟩ :=
          bindUser_new rep number less member free inside absent room above
        rw [done] at completed
        cases completed
        exact ⟨g', same, after, mapped, data, less⟩
      · have full := paddrGetPage_full rep .kernelPool (Nat.not_lt.mp room)
        have clear := rep.absent_mask (by omega) absent
        unfold bindVaddrPaddrPage at completed
        rw [Program.bind_ok (rep.load_pde vaddr), number, if_neg (by simpa using clear),
          Program.bind_error full] at completed
        contradiction
    · obtain ⟨-, -, -, entries⟩ := valid.table table _ _ use
      rcases entries (v % 1024) (by omega) with absent | ⟨other, pte, -⟩
      · obtain ⟨t', g', done, same, after, mapped, data⟩ :=
          bindUser_table rep number less member free inside pde absent
        rw [done] at completed
        cases completed
        exact ⟨g', same, after, mapped, data, less⟩
      · rw [bind_repeated rep (by rw [number]; exact pde) (by rw [number]; exact pte)] at completed
        contradiction

/-- The linear address of a page. -/
def pageAddr (v : Nat) : U32 := BitVec.ofNat 32 (4096 * v)

theorem pageAddr_toNat {v : Nat} (small : v < 2 ^ 20) : (pageAddr v).toNat = 4096 * v := by
  unfold pageAddr
  rw [BitVec.toNat_ofNat, Nat.mod_eq_of_lt (by omega)]

theorem pageAddr_succ (v : Nat) : pageAddr v + pgSize = pageAddr (v + 1) := by
  unfold pageAddr
  rw [show 4096 * (v + 1) = 4096 * v + 4096 by omega, BitVec.ofNat_add _ 4096]
  rfl

/-- One frame of the user pool and its mapping, in a loop or in `get_a_page`. -/
theorem takeUser_ok (low : Nat) (rep : Represents s g) (room : g.userUsed < 8 * g.userLength) :
    ∃ u, paddrGetPage .userPool s =
        .ok (BitVec.ofNat 32 (4096 * (0x200 + g.kernelFree + g.userUsed))) u ∧
      Same s u ∧ Represents u g.takeUser ∧ SameData g s.phys u.phys ∧
      g.takeUser.use (0x200 + g.kernelFree + g.userUsed) = .free ∧
      g.takeUser.InUser (0x200 + g.kernelFree + g.userUsed) ∧ UserGrown low g g.takeUser ∧
      BitVec.ofNat 32 (4096 * (0x200 + g.kernelFree + g.userUsed)) ≠ (0 : U32) := by
  obtain ⟨u, taken, same, after, outside⟩ := paddrGetPage_ok rep .userPool room
  have valid := rep.core.valid
  have kernelFree := valid.kernelFree
  have userFree := valid.userFree
  unfold Layout.userLength at room
  refine ⟨u, taken, same, after, ?_, valid.next_user, ?_, 
    ⟨⟨rfl, rfl⟩, rfl, rfl, rfl, fun _ _ => rfl, fun _ _ _ use => .inl use⟩,
    frame_nonzero _ (by omega) (by omega)⟩
  · intro x data
    exact outside x ((valid.data_apart data).1 x rfl)
  · unfold Layout.InUser Layout.takeUser
    dsimp only
    omega

theorem mapPages_user (low : Nat) (rep : Represents s g) (member : s.root ∈ g.dirs) (v n : Nat)
    (bound : v + n ≤ 768 * 1024 + 1) (above : low ≤ v / 1024)
    {mapped : Bool} (completed : mapPages .userPool (pageAddr v) n s = .ok mapped t) :
    ∃ g', mapped = true ∧ Same s t ∧ Represents t g' ∧ UserGrown low g g' ∧ SameData g s.phys t.phys ∧
      (∀ i < n, g'.use (0x200 + g.kernelFree + g.userUsed + i) = .page s.root (v + i)) ∧
      (0 < n → v + n ≤ 768 * 1024) := by
  induction n generalizing s g v with
  | zero =>
    cases completed
    exact ⟨g, rfl, rfl, rep, UserGrown.refl low g, SameData.refl g _, by omega, by omega⟩
  | succ n ih =>
    rw [mapPages] at completed
    by_cases room : g.userUsed < 8 * g.userLength
    · obtain ⟨u, taken, same, after, data, free, inside, taking, nonzero⟩ := takeUser_ok low rep room
      have rootEq : u.root = s.root := Represents.root_eq same.configured
      rw [Program.bind_ok taken, if_neg nonzero] at completed
      obtain ⟨⟨⟩, w, bind, rest⟩ := Program.bind_completed completed
      obtain ⟨g₁, same₁, rep₁, mapped₁, data₁, less⟩ := bindUser_completed after
        (v := v) (by rw [pageAddr_toNat (by omega)]; omega) (by omega) (by rw [rootEq]; exact member)
        free inside above bind
      have rootEq₁ : w.root = s.root := by
        rw [Represents.root_eq same₁.configured, rootEq]
      rw [pageAddr_succ] at rest
      obtain ⟨g', done, same₂, rep₂, grown₂, data₂, pages, fits⟩ := ih rep₁
        (by rw [rootEq₁, mapped₁.grown.dirs]; exact member) (v + 1) (by omega) (by omega) rest
      refine ⟨g', done, (same.trans same₁).trans same₂, rep₂, (taking.trans mapped₁.grown).trans grown₂,
        (data.trans data₁ fun _ => taking.data).trans data₂ fun _ =>
            (taking.trans mapped₁.grown).data, ?_, ?_⟩
      · intro i small
        cases i with
        | zero =>
          rw [grown₂.keeps _ (by rw [Nat.add_zero, mapped₁.page]; simp), Nat.add_zero, mapped₁.page, rootEq]
          rfl
        | succ i =>
          have page := pages i (by omega)
          rw [mapped₁.grown.lengths.1, mapped₁.userUsed, rootEq₁] at page
          change g'.use (0x200 + g.kernelFree + (g.userUsed + 1) + i) = _ at page
          rw [show 0x200 + g.kernelFree + g.userUsed + (i + 1) =
            0x200 + g.kernelFree + (g.userUsed + 1) + i by omega, page,
            show v + (i + 1) = v + 1 + i by omega]
      · intro _
        by_cases more : 0 < n
        · have fits := fits more
          omega
        · omega
    · rw [Program.bind_error (paddrGetPage_full rep .userPool (Nat.not_lt.mp room))] at completed
      contradiction

/-- User pages mapped to frames behind one another can be cleared. -/
theorem memset_user (rep : Represents s g) (first v n : Nat)
    (pages : ∀ j < n, g.use (first + j) = .page s.root (v + j)) (positive : 0 < v)
    (bound : v + n ≤ 768 * 1024) :
    ∃ t, memset (pageAddr v) 0 (4096 * n) s = .ok () t ∧ Same s t ∧ Represents t g ∧
      SameData g s.phys t.phys := by
  have valid := rep.core.valid
  have address := pageAddr_toNat (v := v) (by omega)
  have region : Region (fun m => Core m g) s.root (pageAddr v).toNat (4096 * n) fun j =>
      4096 * first + j := by
    constructor
    · intro m j core inside
      have translated := core.translate_user (pages (j / 4096) (by omega)) (o := j % 4096) (by omega)
      rw [address, show 4096 * v + j = 4096 * (v + j / 4096) + j % 4096 by omega, translated]
      congr 1
      omega
    · intro m j byte core inside
      apply core.update
      rw [show (4096 * first + j) / 4096 = first + j / 4096 by omega]
      exact valid.plain_page (pages (j / 4096) (by omega))
    · intro j k _ _ same
      omega
  obtain ⟨m, done, core, -, miss⟩ := memset_ok 0 (4096 * n) region (by omega) (by omega) rep.core
  refine ⟨{ s with phys := m }, done, rfl, rep.write core rep.root ⟨rfl, rfl⟩ fun _ owned => owned, ?_⟩
  intro x data
  apply miss
  rintro j inside rfl
  have use := pages (j / 4096) (by omega)
  rw [show first + j / 4096 = (4096 * first + j) / 4096 by omega] at use
  rcases data with ⟨low, -⟩ | ⟨i, heap, -⟩
  · have above := (valid.pageFrame _ _ _ use).1
    omega
  · rw [use] at heap
    contradiction

end LiziOS.Memory
