import LiziOS.Library.ByteMemory

/-! Two-level paging with pages of 4096 bytes and tables of 1024 entries, in byte memory. -/

namespace Paging

open ByteMemory

def present (e : BitVec 32) : Bool := e.getLsbD 0

def frameOf (e : BitVec 32) : Nat := e.toNat / 4096

/-- The entry that maps a frame, writable and open to the user. -/
def mk (frame : Nat) : BitVec 32 := BitVec.ofNat 32 (4096 * frame + 7)

def entry (m : Memory) (frame i : Nat) : BitVec 32 := word m (4096 * frame + 4 * i)

/-- The frame of a linear page under the directory in the frame `root`. -/
def walk (m : Memory) (root page : Nat) : Option Nat :=
  let pde := entry m root (page / 1024)
  if present pde then
    let pte := entry m (frameOf pde) (page % 1024)
    if present pte then some (frameOf pte) else none
  else none

/-- The physical address of a linear address. -/
def translate (m : Memory) (root a : Nat) : Option Nat :=
  (walk m root (a / 4096)).map (4096 * · + a % 4096)

variable {m m' : Memory} {root page frame i j : Nat}

@[simp] theorem present_mk (frame : Nat) : present (mk frame) = true := by
  unfold present mk
  rw [BitVec.getLsbD_ofNat, Nat.testBit_zero]
  have odd : (4096 * frame + 7) % 2 = 1 := by omega
  simp [odd]

/-- Ring 3 may write through the entry: it is present, writable and open to the user. -/
def opened (e : BitVec 32) : Bool := e.getLsbD 0 && e.getLsbD 1 && e.getLsbD 2

@[simp] theorem opened_mk (frame : Nat) : opened (mk frame) = true := by
  unfold opened mk
  rw [show 4096 * frame + 7 = 2 ^ 3 * (512 * frame) + 7 by omega]
  simp only [BitVec.getLsbD_ofNat, Nat.testBit_two_pow_mul_add _ (show 7 < 2 ^ 3 by decide)]
  rfl

/-- Through the page ring 3 may write to the frame. -/
structure Writable (m : Memory) (root page frame : Nat) : Prop where
  pde : opened (entry m root (page / 1024)) = true
  pte : opened (entry m (frameOf (entry m root (page / 1024))) (page % 1024)) = true
  walk : walk m root page = some frame

theorem frameOf_mk (small : frame < 2 ^ 20) : frameOf (mk frame) = frame := by
  unfold frameOf mk
  rw [BitVec.toNat_ofNat, Nat.mod_eq_of_lt (by omega)]
  omega

@[simp] theorem present_zero : present 0 = false := rfl

theorem entry_congr (same : ∀ x, x / 4096 = frame → m' x = m x) (inside : i < 1024) :
    entry m' frame i = entry m frame i := by
  apply word_congr
  intro x above below
  exact same x (by omega)

theorem entry_setWord_same (m : Memory) (frame i : Nat) (w : BitVec 32) :
    entry (setWord m (4096 * frame + 4 * i) w) frame i = w := word_setWord _ _ _

theorem entry_setWord_other (w : BitVec 32) (inside : i < 1024) (inside' : j < 1024)
    {frame' : Nat} (other : frame' ≠ frame ∨ j ≠ i) :
    entry (setWord m (4096 * frame + 4 * i) w) frame' j = entry m frame' j := by
  apply word_setWord_outside
  rcases other with other | other
  · rcases Nat.lt_or_gt_of_ne other with less | greater <;> omega
  · rcases Nat.lt_trichotomy frame' frame with less | rfl | greater <;> omega

theorem walk_congr (pde : entry m' root (page / 1024) = entry m root (page / 1024))
    (pte : present (entry m root (page / 1024)) = true →
      entry m' (frameOf (entry m root (page / 1024))) (page % 1024) =
        entry m (frameOf (entry m root (page / 1024))) (page % 1024)) :
    walk m' root page = walk m root page := by
  unfold walk
  rw [pde]
  by_cases there : present (entry m root (page / 1024)) = true
  · simp only [there, ↓reduceIte, pte there]
  · simp only [there, Bool.false_eq_true, ↓reduceIte]

theorem translate_congr {a : Nat} (same : walk m' root (a / 4096) = walk m root (a / 4096)) :
    translate m' root a = translate m root a := by
  unfold translate
  rw [same]

theorem walk_of_entries {t : Nat} (pde : entry m root (page / 1024) = mk t)
    (pte : entry m t (page % 1024) = mk frame) (tableSmall : t < 2 ^ 20)
    (frameSmall : frame < 2 ^ 20) : walk m root page = some frame := by
  simp [walk, pde, frameOf_mk tableSmall, pte, frameOf_mk frameSmall]

theorem translate_some {a : Nat} (mapped : walk m root (a / 4096) = some frame) :
    translate m root a = some (4096 * frame + a % 4096) := by
  simp [translate, mapped]

/-- Addresses of one page are translated alike. -/
theorem translate_add {a p : Nat} (mapped : translate m root a = some p)
    (inside : a % 4096 + i < 4096) : translate m root (a + i) = some (p + i) := by
  unfold translate at mapped ⊢
  have page : (a + i) / 4096 = a / 4096 := by omega
  have offset : (a + i) % 4096 = a % 4096 + i := by omega
  rw [page, offset]
  cases found : walk m root (a / 4096) with
  | none => simp [found] at mapped
  | some frame =>
    simp only [found, Option.map_some, Option.some.injEq] at mapped ⊢
    omega

/-- A directory whose last entry names itself shows its tables in the last 4 MiB. -/
theorem walk_window (self : entry m root 1023 = mk root) (small : root < 2 ^ 20) (inside : j < 1024) :
    walk m root (1023 * 1024 + j) =
      if present (entry m root j) then some (frameOf (entry m root j)) else none := by
  have high : (1023 * 1024 + j) / 1024 = 1023 := by omega
  have low : (1023 * 1024 + j) % 1024 = j := by omega
  simp only [walk, high, low, self, present_mk, ↓reduceIte, frameOf_mk small]

/-! What is known of the entries of the tables in memory. -/

inductive Slot where
  | unknown | absent
  | maps (frame : Nat)
  deriving DecidableEq

/-- The table in a frame has the entries that the row says. -/
structure RowHolds (m : Memory) (frame : Nat) (row : Nat → Slot) : Prop where
  absent : ∀ i < 1024, row i = .absent → present (entry m frame i) = false
  maps : ∀ i < 1024, ∀ target, row i = .maps target → entry m frame i = mk target ∧ target < 2 ^ 20

def Holds (m : Memory) (slot : Nat → Nat → Slot) : Prop := ∀ frame, RowHolds m frame (slot frame)

variable {slot : Nat → Nat → Slot} {row : Nat → Slot} {target : Nat}

theorem RowHolds.congr (holds : RowHolds m frame row)
    (same : (∃ i < 1024, row i ≠ .unknown) → ∀ x, x / 4096 = frame → m' x = m x) :
    RowHolds m' frame row := by
  constructor
  · intro i inside absent
    rw [entry_congr (same ⟨i, inside, by simp [absent]⟩) inside]
    exact holds.absent i inside absent
  · intro i inside target known
    rw [entry_congr (same ⟨i, inside, by simp [known]⟩) inside]
    exact holds.maps i inside target known

/-- Bytes in frames of which nothing is known may change. -/
theorem Holds.congr (holds : Holds m slot)
    (same : ∀ x, (∃ i < 1024, slot (x / 4096) i ≠ .unknown) → m' x = m x) : Holds m' slot := by
  intro frame
  apply (holds frame).congr
  rintro ⟨i, inside, known⟩ x rfl
  exact same x ⟨i, inside, known⟩

theorem Holds.withRow (holds : Holds m slot) (rowHolds : RowHolds m frame row) :
    Holds m (Function.update slot frame row) := by
  intro other
  by_cases same : other = frame
  · subst other
    simpa using rowHolds
  · simpa [same] using holds other

/-- Storing an entry. -/
theorem Holds.set (holds : Holds m slot) (frame i target : Nat) (inside : i < 1024)
    (small : target < 2 ^ 20) :
    Holds (setWord m (4096 * frame + 4 * i) (mk target))
      (Function.update slot frame (Function.update (slot frame) i (.maps target))) := by
  intro other
  by_cases frames : other = frame
  · subst other
    rw [Function.update_self]
    constructor
    · intro j inside' absent
      have distinct : j ≠ i := by rintro rfl; simp at absent
      rw [entry_setWord_other _ inside inside' (.inr distinct)]
      rw [Function.update_of_ne distinct] at absent
      exact (holds frame).absent j inside' absent
    · intro j inside' target' known
      by_cases distinct : j = i
      · subst j
        simp only [Function.update_self, Slot.maps.injEq] at known
        subst target'
        exact ⟨entry_setWord_same _ _ _ _, small⟩
      · rw [entry_setWord_other _ inside inside' (.inr distinct)]
        rw [Function.update_of_ne distinct] at known
        exact (holds frame).maps j inside' target' known
  · rw [Function.update_of_ne frames]
    constructor
    · intro j inside' absent
      rw [entry_setWord_other _ inside inside' (.inl frames)]
      exact (holds other).absent j inside' absent
    · intro j inside' target' known
      rw [entry_setWord_other _ inside inside' (.inl frames)]
      exact (holds other).maps j inside' target' known

theorem rowHolds_zero (zero : ∀ x, x / 4096 = frame → m x = 0) :
    RowHolds m frame fun _ => .absent := by
  constructor
  · intro i inside _
    have word : entry m frame i = 0 := word_zero fun x above below => zero x (by omega)
    rw [word]
    rfl
  · intro i inside target known
    cases known

theorem Holds.walk {t : Nat} (holds : Holds m slot) (pde : slot root (page / 1024) = .maps t)
    (pte : slot t (page % 1024) = .maps frame) (small : page < 2 ^ 20) :
    Paging.walk m root page = some frame := by
  obtain ⟨pdeEq, tableSmall⟩ := (holds root).maps _ (by omega) _ pde
  obtain ⟨pteEq, frameSmall⟩ := (holds t).maps _ (by omega) _ pte
  exact walk_of_entries pdeEq pteEq tableSmall frameSmall

theorem Holds.writable {t : Nat} (holds : Holds m slot) (pde : slot root (page / 1024) = .maps t)
    (pte : slot t (page % 1024) = .maps frame) (small : page < 2 ^ 20) : Writable m root page frame := by
  obtain ⟨pdeEq, tableSmall⟩ := (holds root).maps _ (by omega) _ pde
  obtain ⟨pteEq, -⟩ := (holds t).maps _ (by omega) _ pte
  refine ⟨?_, ?_, holds.walk pde pte small⟩
  · rw [pdeEq]
    exact opened_mk t
  · rw [pdeEq, frameOf_mk tableSmall, pteEq]
    exact opened_mk frame

theorem Holds.walk_no_table (holds : Holds m slot) (pde : slot root (page / 1024) = .absent)
    (small : page < 2 ^ 20) : Paging.walk m root page = none := by
  have absent := (holds root).absent _ (by omega) pde
  simp [Paging.walk, absent]

theorem Holds.walk_no_page {table : Nat} (holds : Holds m slot)
    (pde : slot root (page / 1024) = .maps table) (pte : slot table (page % 1024) = .absent)
    (small : page < 2 ^ 20) : Paging.walk m root page = none := by
  obtain ⟨pdeEq, tableSmall⟩ := (holds root).maps _ (by omega) _ pde
  have absent := (holds table).absent _ (by omega) pte
  simp [Paging.walk, pdeEq, frameOf_mk tableSmall, absent]

end Paging
