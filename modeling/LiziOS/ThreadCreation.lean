import LiziOS.UserCalls

namespace LiziOS.Memory

open ByteMemory Paging

/-! `init_thread` and `thread_create`, on the page of the new thread. -/

variable {s t u : Machine} {g g' : Layout} {m m' : ByteMemory.Memory} {thread a : U32} {frame : Nat}

/-- A store has changed the bytes of the frame from `low` to `high`, and nothing else. -/
structure Written (s t : Machine) (g : Layout) (frame low high : Nat) : Prop where
  same : Same s t
  rep : Represents t g
  outside : ∀ x, x < 4096 * frame + low ∨ 4096 * frame + high ≤ x → t.phys x = s.phys x

theorem Written.trans {low high low' high' : Nat} (first : Written s t g frame low high)
    (second : Written t u g frame low' high') :
    Written s u g frame (min low low') (max high high') := by
  refine ⟨first.same.trans second.same, second.rep, fun x apart => ?_⟩
  rw [second.outside x (by omega), first.outside x (by omega)]

theorem Written.field {low high : Nat} (written : Written s t g frame low high) {o : U32}
    (apart : o.toNat + 4 ≤ low ∨ high ≤ o.toNat) : field t.phys frame o = field s.phys frame o := by
  apply word_congr
  intro x above below
  exact written.outside x (by omega)

theorem Written.other {low high : Nat} (written : Written s t g frame low high) (inside : high ≤ 4096) :
    ∀ x, x / 4096 ≠ frame → t.phys x = s.phys x := by
  intro x other
  exact written.outside x (by omega)

theorem Written.byte {low high o : Nat} (written : Written s t g frame low high)
    (apart : o < low ∨ high ≤ o) : t.phys (4096 * frame + o) = s.phys (4096 * frame + o) :=
  written.outside _ (by omega)

theorem PageAt.writeWord (page : PageAt g thread frame) (rep : Represents s g) (o : U32) (w : U32)
    (inside : o.toNat < 4096) (aligned : o.toNat % 4 = 0) :
    ∃ t, store32 (thread + o) w s = .ok () t ∧ Written s t g frame o.toNat (o.toNat + 4) ∧
      field t.phys frame o = w := by
  obtain ⟨t, done, same, after, phys⟩ := page.store rep w inside aligned
  refine ⟨t, done, ⟨same, after, fun x apart => ?_⟩, ?_⟩
  · rw [phys]
    exact setWord_outside _ (by omega)
  · rw [phys]
    exact word_setWord _ _ _

theorem PageAt.region (page : PageAt g thread frame) (valid : g.Valid) {r : Nat} (root : g.Root r) (o : U32)
    (n : Nat) (inside : o.toNat + n ≤ 4096) (some_ : 0 < n) :
    Region (fun m => Core m g) r (thread + o).toNat n (fun j => 4096 * frame + o.toNat + j) ∧
      (thread + o).toNat + n < 2 ^ 32 ∧ 4096 ≤ (thread + o).toNat := by
  obtain ⟨start, top, high⟩ := page.aligned valid
  have address := page.address valid (by omega : o.toNat < 4096)
  refine ⟨?_, by omega, by omega⟩
  constructor
  · intro m j core less
    have translated := page.translate core root (o := o.toNat + j) (by omega)
    rw [address, Nat.add_assoc, Nat.add_assoc]
    exact translated
  · intro m j byte core less
    apply core.update
    rw [show (4096 * frame + o.toNat + j) / 4096 = frame by omega]
    exact page.plain valid
  · intro j k _ _ same
    omega

theorem PageAt.writeBytes (page : PageAt g thread frame) (rep : Represents s g) (o : U32) (bytes : List U8)
    (inside : o.toNat + bytes.length ≤ 4096) :
    ∃ t, storeBytes (thread + o) bytes s = .ok () t ∧
      Written s t g frame o.toNat (o.toNat + bytes.length) ∧
      ∀ j (less : j < bytes.length), t.phys (4096 * frame + o.toNat + j) = bytes[j] := by
  by_cases empty : bytes = []
  · subst empty
    exact ⟨s, rfl, ⟨rfl, rep, fun _ _ => rfl⟩, fun j less => absurd less (Nat.not_lt_zero j)⟩
  · obtain ⟨region, bound, high⟩ := page.region rep.core.valid rep.root o bytes.length inside
      (List.length_pos_iff.mpr empty)
    obtain ⟨m, done, core, hit, miss⟩ := storeBytes_ok bytes region bound high rep.core
    refine ⟨{ s with phys := m }, done, ⟨rfl, rep.write core rep.root ⟨rfl, rfl⟩ fun _ owned => owned, ?_⟩,
      hit⟩
    intro x outside
    apply miss
    intro j less
    omega

theorem PageAt.writeByte (page : PageAt g thread frame) (rep : Represents s g) (o : U32) (byte : U8)
    (inside : o.toNat < 4096) :
    ∃ t, store8 (thread + o) byte s = .ok () t ∧ Written s t g frame o.toNat (o.toNat + 1) := by
  obtain ⟨t, done, written, -⟩ := page.writeBytes rep o [byte] inside
  refine ⟨t, ?_, written⟩
  obtain ⟨⟨⟩, v, stored, rest⟩ := Program.bind_completed done
  cases rest
  exact stored

/-- What `init_thread` leaves in the page of a thread. -/
structure Initialized (m : ByteMemory.Memory) (thread : U32) (frame : Nat) : Prop where
  selfKstack : field m frame Pcb.selfKstack = thread + pgSize
  kernel : KernelThread m frame

theorem initThread_ok (page : PageAt g thread frame) (rep : Represents s g) (name : List U8) (prio : U32)
    (fits : name.length < 16) :
    ∃ t, initThread thread name prio s = .ok () t ∧ Written s t g frame 0 64 ∧
      Initialized t.phys thread frame := by
  obtain ⟨s₁, cleared, w₁, zero⟩ := page.writeBytes rep 0 (List.replicate Pcb.size 0) (by decide)
  rw [List.length_replicate] at w₁
  obtain ⟨s₂, named, w₂, -⟩ := page.writeBytes w₁.rep Pcb.name (name ++ [0])
    (by rw [show Pcb.name.toNat = 8 from rfl, List.length_append, List.length_singleton]; omega)
  rw [List.length_append, List.length_singleton, show Pcb.name.toNat = 8 from rfl] at w₂
  -- the status depends on which thread it is
  obtain ⟨s₃, ranked, w₃⟩ : ∃ s₃, (if thread = s₂.mainThread then store32 (thread + Pcb.status) 0
      else store32 (thread + Pcb.status) 1) s₂ = .ok () s₃ ∧ Written s₂ s₃ g frame 4 8 := by
    by_cases main : thread = s₂.mainThread
    · obtain ⟨s₃, done, written, -⟩ := page.writeWord w₂.rep Pcb.status 0 (by decide) (by decide)
      exact ⟨s₃, by rw [if_pos main]; exact done, written⟩
    · obtain ⟨s₃, done, written, -⟩ := page.writeWord w₂.rep Pcb.status 1 (by decide) (by decide)
      exact ⟨s₃, by rw [if_neg main]; exact done, written⟩
  obtain ⟨s₄, stacked, w₄, stack⟩ := page.writeWord w₃.rep Pcb.selfKstack (thread + pgSize) (by decide)
    (by decide)
  obtain ⟨s₅, prioritized, w₅⟩ := page.writeByte w₄.rep Pcb.priority (prio.setWidth 8) (by decide)
  obtain ⟨s₆, ticking, w₆⟩ := page.writeByte w₅.rep Pcb.ticks (prio.setWidth 8) (by decide)
  obtain ⟨s₇, kernel, w₇, pgdir⟩ := page.writeWord w₆.rep Pcb.pgdir 0 (by decide) (by decide)
  obtain ⟨s₈, guarded, w₈, -⟩ := page.writeWord w₇.rep Pcb.stackMagic 0x19870916 (by decide) (by decide)
  refine ⟨s₈, ?_, ?_, ?_, ?_, ?_⟩
  · have set : memset thread 0 Pcb.size s = .ok () s₁ := by
      rw [memset_eq]
      simpa using cleared
    have copied : strcpy (thread + Pcb.name) name s₁ = .ok () s₂ := by
      rw [strcpy_eq]
      exact named
    have rest : (do
        store32 (thread + Pcb.selfKstack) (thread + pgSize)
        store8 (thread + Pcb.priority) (prio.setWidth 8)
        store8 (thread + Pcb.ticks) (prio.setWidth 8)
        store32 (thread + Pcb.pgdir) 0
        store32 (thread + Pcb.stackMagic) 0x19870916 : M Unit) s₃ = .ok () s₈ := by
      rw [Program.bind_ok stacked, Program.bind_ok prioritized, Program.bind_ok ticking,
        Program.bind_ok kernel]
      exact guarded
    unfold initThread
    rw [Program.bind_ok set, Program.bind_ok copied, Program.bind_get]
    by_cases main : thread = s₂.mainThread
    · rw [if_pos main] at ranked ⊢
      rw [Program.bind_ok ranked]
      exact rest
    · rw [if_neg main] at ranked ⊢
      rw [Program.bind_ok ranked]
      exact rest
  · have whole := ((((((w₁.trans w₂).trans w₃).trans w₄).trans w₅).trans w₆).trans w₇).trans w₈
    refine ⟨whole.same, whole.rep, fun x apart => whole.outside x ?_⟩
    simp only [Pcb.size, Pcb.selfKstack, Pcb.priority, Pcb.ticks, Pcb.pgdir, Pcb.stackMagic,
      BitVec.ofNat_eq_ofNat, BitVec.toNat_ofNat] at apart ⊢
    omega
  · rw [w₈.field (by decide), w₇.field (by decide), w₆.field (by decide), w₅.field (by decide)]
    exact stack
  · rw [w₈.field (by decide)]
    exact pgdir
  · rw [w₈.field (by decide), w₇.field (by decide), w₆.field (by decide), w₅.field (by decide),
      w₄.field (by decide), w₃.field (by decide), w₂.field (.inr (by
        rw [show Pcb.bitmapLength.toNat = 48 from rfl]; omega))]
    apply word_zero
    intro x above below
    have byte := zero (x - 4096 * frame) (by
      rw [show Pcb.bitmapLength.toNat = 48 from rfl] at below
      rw [List.length_replicate, show Pcb.size = 64 from rfl]
      omega)
    rw [List.getElem_replicate, show (0 : U32).toNat = 0 from rfl] at byte
    rw [← byte]
    congr 1
    omega

theorem threadCreate_ok (page : PageAt g thread frame) (rep : Represents s g)
    (stack : field s.phys frame Pcb.selfKstack = thread + pgSize) (function funcArg : U32) :
    ∃ t, threadCreate thread function funcArg s = .ok () t ∧ Same s t ∧ Represents t g ∧
      (∀ x, x / 4096 ≠ frame → t.phys x = s.phys x) ∧
      (∀ o : U32, 4 ≤ o.toNat → o.toNat ≤ 3660 → field t.phys frame o = field s.phys frame o) ∧
      field t.phys frame Pcb.selfKstack = thread + 3664 := by
  obtain ⟨s₁, stored₁, w₁, stack₁⟩ := page.writeWord rep Pcb.selfKstack (thread + pgSize - 4 * 76)
    (by decide) (by decide)
  obtain ⟨s₂, stored₂, w₂, stack₂⟩ := page.writeWord w₁.rep Pcb.selfKstack
    (thread + pgSize - 4 * 76 - 4 * 32) (by decide) (by decide)
  have top : thread + pgSize - 4 * 76 - 4 * 32 = thread + 3664 := by
    unfold pgSize
    bv_omega
  obtain ⟨s₃, stored₃, w₃, -⟩ := page.writeWord w₂.rep 3672 0 (by decide) (by decide)
  obtain ⟨s₄, stored₄, w₄, -⟩ := page.writeWord w₃.rep 3676 0 (by decide) (by decide)
  obtain ⟨s₅, stored₅, w₅, -⟩ := page.writeWord w₄.rep 3668 0 (by decide) (by decide)
  obtain ⟨s₆, stored₆, w₆, -⟩ := page.writeWord w₅.rep 3664 0 (by decide) (by decide)
  obtain ⟨s₇, stored₇, w₇, -⟩ := page.writeWord w₆.rep 3680 s₆.symbols.kernelThread (by decide) (by decide)
  obtain ⟨s₈, stored₈, w₈, -⟩ := page.writeWord w₇.rep 3688 function (by decide) (by decide)
  obtain ⟨s₉, stored₉, w₉, -⟩ := page.writeWord w₈.rep 3692 funcArg (by decide) (by decide)
  have low := w₁.trans w₂
  have high := (((((w₃.trans w₄).trans w₅).trans w₆).trans w₇).trans w₈).trans w₉
  have unchanged (x : Nat) (apart : x < 4096 * frame ∨ (4096 * frame + 4 ≤ x ∧ x < 4096 * frame + 3664) ∨
      4096 * frame + 3696 ≤ x) : s₉.phys x = s.phys x := by
    simp only [Pcb.selfKstack, BitVec.ofNat_eq_ofNat, BitVec.toNat_ofNat] at low high
    rw [high.outside x (by omega), low.outside x (by omega)]
  refine ⟨s₉, ?_, low.same.trans high.same, w₉.rep, fun x other => unchanged x (by omega), ?_, ?_⟩
  · have load (v : Machine) (after : Represents v g) :
        load32 (thread + Pcb.selfKstack) v = .ok (field v.phys frame Pcb.selfKstack) v :=
      page.load after (by decide) (by decide)
    unfold threadCreate
    rw [Program.bind_ok (load s rep), stack, Program.bind_ok stored₁, Program.bind_ok (load s₁ w₁.rep),
      stack₁, Program.bind_ok stored₂, Program.bind_ok (load s₂ w₂.rep), stack₂, top, BitVec.add_assoc,
      BitVec.add_assoc, BitVec.add_assoc, BitVec.add_assoc, BitVec.add_assoc, BitVec.add_assoc]
    rw [show (3664 : U32) + 8 = 3672 from rfl, show (3664 : U32) + 12 = 3676 from rfl,
      show (3664 : U32) + 4 = 3668 from rfl, show (3664 : U32) + 16 = 3680 from rfl,
      show (3664 : U32) + 24 = 3688 from rfl, show (3664 : U32) + 28 = 3692 from rfl,
      Program.bind_ok stored₃, Program.bind_ok stored₄, Program.bind_ok stored₅, Program.bind_ok stored₆,
      Program.bind_get, Program.bind_ok stored₇, Program.bind_ok stored₈]
    exact stored₉
  · intro o above below
    apply word_congr
    intro x low' high'
    exact unchanged x (by omega)
  · rw [high.field (.inl (by decide)), stack₂, top]

end LiziOS.Memory
