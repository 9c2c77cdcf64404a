import LiziOS.Isolation
import LiziOS.Interrupts.Frame

namespace LiziOS.Memory

open ByteMemory Paging
open Interrupt (Registers Cpu Framed)

/-! `start_process`: the way of a new process into ring 3. -/

/-- Assignments to the members of a structure, with their offsets. -/
def storeFields (base : U32) : List (Nat × U32) → M Unit
  | [] => return
  | (offset, value) :: fields => do
    store32 (base + BitVec.ofNat 32 offset) value
    storeFields base fields

/-- The members of `struct intr_stack` that are assigned before the stack of the program is there: `esp_dummy`,
    `ebp`, `esi`, `edi`; `eax`, `ecx`, `edx`, `ebx`; `gs`; `fs`, `es`, `ds`; `eip`, `cs`, `eflags`. -/
def procFields (function : U32) : List (Nat × U32) :=
  [(16, 0), (12, 0), (8, 0), (4, 0), (32, 0), (28, 0), (24, 0), (20, 0), (36, 0), (40, 0b110011), (44, 0b110011),
    (48, 0b110011), (56, function), (60, 0b101011), (64, 0 ||| 1 <<< 9)]

/-- `start_process` up to its jump to `intr_exit`, with the stack pointer that it loads. The pointer
    `self_kstack` counts in words. -/
def startProcess (filename : U32) : M U32 := do
  let cur := (← get).runningThread
  store32 (cur + Pcb.selfKstack) ((← load32 (cur + Pcb.selfKstack)) + 4 * 32)
  let procStack ← load32 (cur + Pcb.selfKstack)
  storeFields procStack (procFields filename)
  let page ← getAPage .userPool (0xc0000000 - 0x1000)
  storeFields procStack [(68, page + pgSize), (72, 0b110011)]
  return procStack

/-- The registers with which a program begins. -/
def userStart (function : U32) : Registers where
  eax := 0
  ebx := 0
  ecx := 0
  edx := 0
  esi := 0
  edi := 0
  ebp := 0
  esp := 0xc0000000
  eip := function
  eflags := 0x200
  cs := 0x2b
  ss := 0x33
  ds := 0x33
  es := 0x33
  fs := 0x33
  gs := 0

/-- Memory as the running thread addresses it. -/
def linear (s : Machine) : ByteMemory.Memory := fun x => ((Paging.translate s.phys s.root x).map s.phys).getD 0

variable {s t u : Machine} {g g' : Layout} {role : Nat → Role} {allMem gdtBase thread filename : U32}
  {frame bits low high base : Nat} {fields : List (Nat × U32)}

/-- The offsets are those of words that lie apart, between the bounds. -/
structure Distinct (base low high : Nat) (offsets : List Nat) : Prop where
  bounds : ∀ o ∈ offsets, low ≤ base + o ∧ base + o + 4 ≤ high ∧ (base + o) % 4 = 0
  apart : offsets.Pairwise fun o o' => o + 4 ≤ o' ∨ o' + 4 ≤ o

theorem page_offset {a b : Nat} : thread + BitVec.ofNat 32 a + BitVec.ofNat 32 b = thread + BitVec.ofNat 32 (a + b) := by
  rw [BitVec.add_assoc, ← BitVec.ofNat_add]

/-- What has been assigned is there, and nothing else in the page changes. -/
theorem storeFields_ok (page : PageAt g thread frame) (rep : Represents s g)
    (distinct : Distinct base low high (fields.map Prod.fst)) (inside : high ≤ 4096) : ∃ t, storeFields (thread + BitVec.ofNat 32 base) fields s = .ok () t ∧
      Written s t g frame low high ∧
      (∀ f ∈ fields, field t.phys frame (BitVec.ofNat 32 (base + f.1)) = f.2) ∧
      ∀ o, o + 4 ≤ 4096 → (∀ f ∈ fields, o + 4 ≤ base + f.1 ∨ base + f.1 + 4 ≤ o) →
        field t.phys frame (BitVec.ofNat 32 o) = field s.phys frame (BitVec.ofNat 32 o) := by
  induction fields generalizing s with
  | nil =>
    refine ⟨s, rfl, ⟨rfl, rep, fun _ _ => rfl⟩, fun f member => ?_, fun _ _ _ => rfl⟩
    exact absurd member List.not_mem_nil
  | cons first rest ih =>
    obtain ⟨above, below, aligned⟩ := distinct.bounds first.1 List.mem_cons_self
    obtain ⟨others, later⟩ := List.pairwise_cons.mp distinct.apart
    have at_ : (BitVec.ofNat 32 (base + first.1)).toNat = base + first.1 := by
      rw [BitVec.toNat_ofNat, Nat.mod_eq_of_lt (by omega)]
    obtain ⟨u, stored, written, value⟩ := page.writeWord rep (BitVec.ofNat 32 (base + first.1)) first.2
      (by omega) (by omega)
    obtain ⟨t, done, written', values, kept⟩ := ih written.rep
      ⟨fun o member => distinct.bounds o (List.mem_cons_of_mem _ member), later⟩
    rw [at_] at written
    refine ⟨t, ?_, ?_, ?_, ?_⟩
    · rw [storeFields, page_offset, Program.bind_ok stored]
      exact done
    · refine ⟨written.same.trans written'.same, written'.rep, fun x outside => ?_⟩
      rw [written'.outside x outside, written.outside x (by omega)]
    · intro f member
      rcases List.mem_cons.mp member with rfl | earlier
      · rw [kept (base + f.1) (by omega) fun f' member' => by
          have apart := others f'.1 (List.mem_map_of_mem member')
          omega]
        exact value
      · exact values f earlier
    · intro o small far
      rw [kept o small fun f member => far f (List.mem_cons_of_mem _ member)]
      have apart := far first List.mem_cons_self
      apply written.field
      rw [BitVec.toNat_ofNat, Nat.mod_eq_of_lt (by omega)]
      omega

/-- A word of the page, as the thread addresses it. -/
theorem word_linear (page : PageAt g thread frame) (rep : Represents s g) {o : Nat} (inside : o + 4 ≤ 4096) :
    word (linear s) (thread.toNat + o) = field s.phys frame (BitVec.ofNat 32 o) := by
  have byte (i : Nat) (less : i < 4) : linear s (thread.toNat + o + i) = s.phys (4096 * frame + o + i) := by
    unfold linear
    rw [Nat.add_assoc, page.translate rep.core rep.root (by omega), Nat.add_assoc]
    rfl
  unfold field word
  rw [BitVec.toNat_ofNat, Nat.mod_eq_of_lt (by omega), byte 3 (by decide), byte 2 (by decide), byte 1 (by decide)]
  rw [show thread.toNat + o = thread.toNat + o + 0 from rfl, byte 0 (by decide)]
  rfl

theorem FreeFrame.room (rep : Represents s g) {type : PoolType} (free : FreeFrame s type) :
    g.used type < 8 * g.length type := by
  obtain ⟨k, less, clear⟩ := free.clear rep
  rw [rep.core.bits type k less, decide_eq_false_iff_not] at clear
  omega

/-- The layout tells which pages are there. -/
theorem Sound.unmapped (sound : Sound s g role) (sound' : Sound t g role) {dir n : Nat} (member : dir ∈ g.dirs)
    (user : n < 768 * 1024) (unmapped : walk s.phys dir n = none) : walk t.phys dir n = none := by
  cases found : walk t.phys dir n with
  | none => rfl
  | some f =>
    have use := sound'.page_of_walk member user found
    have translated := sound.settled.rep.core.translate_user use (o := 0) (by decide)
    unfold Paging.translate at translated
    rw [Nat.add_zero, Nat.mul_div_cancel_left _ (by decide), unmapped] at translated
    contradiction

/-- The offsets of the frame for ring 3, on the stack of the thread. -/
theorem procFields_distinct (function : U32) : Distinct 3792 64 4096 ((procFields function).map Prod.fst) := by
  have offsets : (procFields function).map Prod.fst = [16, 12, 8, 4, 32, 28, 24, 20, 36, 40, 44, 48, 56, 60, 64] := rfl
  rw [offsets]
  exact ⟨by decide, by decide⟩

theorem Site.of_running {dir : Nat} (sound : Sound s g role) (pcb : PcbAt g role s.runningThread frame)
    (process : Process s.phys g role frame dir bits) (cr3 : s.cr3 = BitVec.ofNat 32 (4096 * dir)) :
    Site s g role s.runningThread frame bits := by
  obtain ⟨-, -, -, member⟩ := process.pgdir
  have root : s.root = dir := by
    unfold Machine.root
    rw [cr3]
    exact dir_root sound.settled.rep.core.valid member
  exact ⟨rfl, pcb, root ▸ process⟩

/-- The process has its frame for ring 3 above what is left of its first stack, and a page for its program's. -/
theorem startProcess_ok (sound : Sound s g role) (site : Site s g role s.runningThread frame bits)
    (fresh : field s.phys frame Pcb.selfKstack = s.runningThread + 3664) (free : ∀ type, FreeFrame s type)
    (unmapped : walk s.phys s.root 0xbffff = none) (filename : U32) :
    ∃ t g' f, startProcess filename s = .ok (s.runningThread + BitVec.ofNat 32 3792) t ∧ Sound t g' role ∧
      PcbAt g' role s.runningThread frame ∧ t.root = s.root ∧ s.root ∈ g'.dirs ∧
      walk t.phys t.root 0xbffff = some f ∧
      ∀ assigned ∈ procFields filename ++ [(68, 0xc0000000), (72, 0x33)],
        field t.phys frame (BitVec.ofNat 32 (3792 + assigned.1)) = assigned.2 := by
  have rep := sound.settled.rep
  have valid := rep.core.valid
  have pcb := site.pcb
  -- `self_kstack`
  have load := pcb.page.load rep (o := Pcb.selfKstack) (by decide) (by decide)
  rw [fresh] at load
  have value : s.runningThread + 3664 + 4 * 32 = s.runningThread + BitVec.ofNat 32 3792 := by
    rw [BitVec.add_assoc]
    rfl
  obtain ⟨u, stored, written, kstack⟩ := pcb.page.writeWord rep Pcb.selfKstack
    (s.runningThread + BitVec.ofNat 32 3792) (by decide) (by decide)
  have load' := pcb.page.load written.rep (o := Pcb.selfKstack) (by decide) (by decide)
  rw [kstack] at load'
  have sound₁ := sound.written written (.inl (by decide))
  -- the members that are there before the page
  obtain ⟨v, assigned, written', values, -⟩ := storeFields_ok pcb.page written.rep (procFields_distinct filename)
    (Nat.le_refl _)
  have sound₂ := sound₁.written written' (.inr ⟨by decide, by decide⟩)
  have same := written.same.trans written'.same
  have running : v.runningThread = s.runningThread := by rw [same]
  have root : v.root = s.root := Site.root_same same
  have site' : Site v g role v.runningThread frame bits := by
    rw [running]
    refine ⟨running, pcb, ?_⟩
    rw [root]
    exact (site.process.written written (.inl (by decide))).written written' (.inr ⟨by decide, by decide⟩)
  have room (type : PoolType) : FreeFrame v type :=
    FreeFrame.of_room written'.rep ((free type).room rep)
  have unmapped' : walk v.phys v.root 0xbffff = none := by
    rw [root]
    exact sound.unmapped sound₂ site.member (by decide) unmapped
  -- the page
  have start : field v.phys frame Pcb.addrStart = userVaddrStart := site'.process.addrStart
  have length : field v.phys frame Pcb.bitmapLength = 94199 := site'.process.bitmapLength
  have aligned : (0xc0000000 - 0x1000 : U32).toNat % 4096 = 0 := by decide
  obtain ⟨w, done, present, -⟩ := getAPage_served sound₂.settled (.process site') room aligned unmapped'
    (by unfold InRange; rw [start, length]; dsimp only; decide) (by unfold bitIndex; rw [start]; dsimp only; decide)
  have managed : Managed (0xc0000000 - 0x1000) := by
    unfold Managed
    decide
  obtain ⟨g', call, settled'⟩ := getAPage_completed sound₂.settled site' managed done
  have sound₃ := sound₂.advance (call.advance settled' site'.process)
  have pcb' := pcb.keep valid sound₃.settled.rep.core.valid (call.grown.extends role)
  have rootW : w.root = s.root := (Site.root_same call.same).trans root
  have member : s.root ∈ g'.dirs := (call.grown.extends role).dirs _ site.member
  -- the members that are left
  have distinct : Distinct 3792 64 4096 ([(68, (0xc0000000 - 0x1000 : U32) + pgSize), (72, 0b110011)].map Prod.fst) :=
    ⟨by decide, by decide⟩
  obtain ⟨t, assigned', written₃, values', kept⟩ := storeFields_ok pcb'.page settled'.rep distinct (Nat.le_refl _)
  have sound₄ := sound₃.written written₃ (.inr ⟨by decide, by decide⟩)
  have rootT : t.root = s.root := (Site.root_same written₃.same).trans rootW
  have mapped : ∃ f, walk t.phys t.root 0xbffff = some f := by
    rw [rootT]
    cases found : walk t.phys s.root 0xbffff with
    | some f => exact ⟨f, rfl⟩
    | none =>
      have none := sound₄.unmapped sound₃ member (by decide) found
      unfold Machine.translate Paging.translate at present
      rw [rootW, show (0xc0000000 - 0x1000 : U32).toNat / 4096 = 0xbffff by decide, none] at present
      contradiction
  obtain ⟨f, walk_⟩ := mapped
  refine ⟨t, g', f, ?_, sound₄, pcb', rootT, member, walk_, fun assignment listed => ?_⟩
  · unfold startProcess
    rw [Program.bind_get, Program.bind_ok load, value, Program.bind_ok stored, Program.bind_ok load',
      Program.bind_ok assigned, Program.bind_ok done, Program.bind_ok assigned']
    rfl
  · rcases List.mem_append.mp listed with early | late
    · have small := (procFields_distinct filename).bounds _ (List.mem_map_of_mem early)
      have low : assignment.1 ≤ 64 := by
        have offsets : ∀ o ∈ (procFields filename).map Prod.fst, o ≤ 64 := by
          change ∀ o ∈ [16, 12, 8, 4, 32, 28, 24, 20, 36, 40, 44, 48, 56, 60, 64], o ≤ 64
          decide
        exact offsets _ (List.mem_map_of_mem early)
      rw [kept (3792 + assignment.1) (by omega) fun f' member' => by
        simp only [List.mem_cons, List.not_mem_nil, or_false] at member'
        rcases member' with rfl | rfl <;> dsimp only <;> omega]
      rw [← values assignment early]
      apply field_same (by rw [BitVec.toNat_ofNat, Nat.mod_eq_of_lt (by omega)]; omega)
      intro x here
      apply call.data x
      · rw [here]
        exact pcb.page.data
      · rw [here]
        exact site'.process.pcb_apart pcb
    · exact values' assignment late

theorem userStart_ring (function : U32) : (userStart function).ring = 3 :=
  show (0x2b : U16).toNat % 4 = 3 by decide

theorem userStart_framed (page : PageAt g thread frame) (rep : Represents s g)
    (there : ∀ assigned ∈ procFields filename ++ [(68, 0xc0000000), (72, 0x33)],
      field s.phys frame (BitVec.ofNat 32 (3792 + assigned.1)) = assigned.2) :
    Framed (linear s) (thread.toNat + 3792) (userStart filename) true := by
  have words : ∀ assigned ∈ procFields filename ++ [(68, 0xc0000000), (72, 0x33)],
      word (linear s) (thread.toNat + (3792 + assigned.1)) = assigned.2 := by
    intro assigned listed
    have inside : ∀ o ∈ (procFields filename ++ [(68, 0xc0000000), (72, 0x33)]).map Prod.fst, o ≤ 72 := by
      change ∀ o ∈ [16, 12, 8, 4, 32, 28, 24, 20, 36, 40, 44, 48, 56, 60, 64, 68, 72], o ≤ 72
      decide
    have small := inside _ (List.mem_map_of_mem listed)
    rw [word_linear page rep (by omega)]
    exact there assigned listed
  simp only [procFields, List.cons_append, List.nil_append, List.forall_mem_cons, Nat.reduceAdd] at words
  obtain ⟨dummy, ebp, esi, edi, eax, ecx, edx, ebx, gs, fs, es, ds, eip, cs, eflags, esp, ss, -⟩ := words
  refine ⟨0, 0, word (linear s) (thread.toNat + 3792 + 52), ?_⟩
  simp only [Interrupt.IntrStack.above, Interrupt.IntrStack.inner, Registers.intrStack, userStart, ↓reduceIte,
    List.cons_append, List.nil_append, Stack.WordsAt, Nat.add_assoc, Nat.reduceAdd, BitVec.reduceSetWidth]
  exact ⟨edi, esi, ebp, dummy, ebx, edx, ecx, eax, gs, fs, es, ds, True.intro, eip, cs, eflags, esp, ss, True.intro⟩

theorem scheduler_loader (reached : (scheduler allMem gdtBase).Reachable s) : gdtBase.toNat < 0xd00 := by
  induction reached with
  | start begun =>
    obtain ⟨-, -, u, caller, ready, reached, -⟩ := begun
    exact (calls_loader reached).2
  | next earlier permitted stepped ih => exact ih

end LiziOS.Memory
