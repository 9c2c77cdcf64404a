import LiziOS.Boot
import Mathlib.Order.Bounds.Basic

/-! `detect_memory` and `get_total_mem_bytes` of `loader.asm`, which run in real mode. -/

namespace LiziOS.Loader

open ByteMemory

/-- A descriptor of interrupt 0x15, function 0xe820. -/
structure Ards where
  base : BitVec 64
  length : BitVec 64
  type : U32
deriving DecidableEq

def Ards.limit (ards : Ards) : Nat := ards.base.toNat + ards.length.toNat

/-- The type of memory that is free to use. -/
def Ards.usable (ards : Ards) : Prop := ards.type = 1

/-- The twenty bytes that the interrupt writes to `es:di`. -/
def storeArds (m : Memory) (di : Nat) (ards : Ards) : Memory :=
  let m := setWord m di (ards.base.setWidth 32)
  let m := setWord m (di + 4) ((ards.base >>> 32).setWidth 32)
  let m := setWord m (di + 8) (ards.length.setWidth 32)
  let m := setWord m (di + 12) ((ards.length >>> 32).setWidth 32)
  setWord m (di + 16) ards.type

-- The labels `ards_count` and `ards_buffer` follow the word at `total_mem_bytes`.
def ardsCount (totalMemBytes : Nat) : Nat := totalMemBytes + 4

def ardsBuffer (totalMemBytes : Nat) : Nat := totalMemBytes + 8

/-- The loop `.next` of `detect_memory`, one turn for each descriptor of the interrupt. -/
def nextArds (totalMemBytes : Nat) (m : Memory) (di : Nat) : List Ards → Memory
  | [] => m
  | ards :: list =>
    let m := storeArds m di ards
    let m := setWord m (ardsCount totalMemBytes) (word m (ardsCount totalMemBytes) + 1)
    nextArds totalMemBytes m (di + 20) list

def detectMemory (totalMemBytes : Nat) (list : List Ards) (m : Memory) : Memory :=
  nextArds totalMemBytes m (ardsBuffer totalMemBytes) list

/-- The loop `.find_max_mem_area`; `jge` compares signed numbers. -/
def findMaxMemArea (m : Memory) (ebx : Nat) (edx : U32) : Nat → U32
  | 0 => edx
  | turns + 1 =>
    let eax := word m ebx + word m (ebx + 8)
    findMaxMemArea m (ebx + 20) (if eax.sle edx then edx else eax) turns

/-- `loop` counts `cx` down before it compares it with zero. -/
def loopTurns (cx : U16) : Nat := if cx = 0 then 2 ^ 16 else cx.toNat

def getTotalMemBytes (totalMemBytes : Nat) (gdtBase : U32) (m : Memory) : Memory :=
  let cx : U16 := (word m (ardsCount totalMemBytes)).setWidth 16
  let edx := findMaxMemArea m (ardsBuffer totalMemBytes) 0 (loopTurns cx)
  let m := setWord m totalMemBytes edx
  let m := setWord m 0xd00 edx
  setWord m 0xd04 gdtBase

/-- The bases and lengths of a list of descriptors at `a`. -/
def Lie (m : Memory) (a : Nat) : List Ards → Prop
  | [] => True
  | ards :: list =>
    word m a = ards.base.setWidth 32 ∧ word m (a + 8) = ards.length.setWidth 32 ∧ Lie m (a + 20) list

/-- A list that is not empty and fits in the segment, in memory. -/
structure Detected (totalMemBytes : Nat) (m : Memory) (list : List Ards) : Prop where
  nonempty : list ≠ []
  fits : ardsBuffer totalMemBytes + 20 * list.length ≤ 2 ^ 16
  count : word m (ardsCount totalMemBytes) = BitVec.ofNat 32 list.length
  lie : Lie m (ardsBuffer totalMemBytes) list

variable {m m' : Memory} {totalMemBytes a di : Nat} {list : List Ards} {edx gdtBase : U32}

/-! What `detect_memory` stores -/

theorem storeArds_base (m : Memory) (di : Nat) (ards : Ards) :
    word (storeArds m di ards) di = ards.base.setWidth 32 := by
  unfold storeArds
  rw [word_setWord_outside _ (by omega), word_setWord_outside _ (by omega), word_setWord_outside _ (by omega),
    word_setWord_outside _ (by omega), word_setWord]

theorem storeArds_length (m : Memory) (di : Nat) (ards : Ards) :
    word (storeArds m di ards) (di + 8) = ards.length.setWidth 32 := by
  unfold storeArds
  rw [word_setWord_outside _ (by omega), word_setWord_outside _ (by omega), word_setWord]

theorem storeArds_outside {x : Nat} (m : Memory) (ards : Ards) (outside : x < di ∨ di + 20 ≤ x) :
    storeArds m di ards x = m x := by
  unfold storeArds
  rw [setWord_outside _ (by omega), setWord_outside _ (by omega), setWord_outside _ (by omega),
    setWord_outside _ (by omega), setWord_outside _ (by omega)]

/-- The bytes before `di` stay, but for the count. -/
theorem nextArds_before {x : Nat} (before : x < di)
    (other : x < ardsCount totalMemBytes ∨ ardsBuffer totalMemBytes ≤ x) :
    nextArds totalMemBytes m di list x = m x := by
  induction list generalizing m di with
  | nil => rfl
  | cons ards list ih =>
    have notCount : x < ardsCount totalMemBytes ∨ ardsCount totalMemBytes + 4 ≤ x := by
      unfold ardsCount ardsBuffer at *
      omega
    unfold nextArds
    rw [ih (by omega), setWord_outside _ notCount, storeArds_outside _ _ (.inl before)]

theorem nextArds_count (behind : ardsBuffer totalMemBytes ≤ di) :
    word (nextArds totalMemBytes m di list) (ardsCount totalMemBytes) =
      word m (ardsCount totalMemBytes) + BitVec.ofNat 32 list.length := by
  induction list generalizing m di with
  | nil => exact (BitVec.add_zero _).symm
  | cons ards list ih =>
    have apart : word (storeArds m di ards) (ardsCount totalMemBytes) = word m (ardsCount totalMemBytes) := by
      apply word_congr
      intro x _ less
      apply storeArds_outside
      unfold ardsCount at less
      unfold ardsBuffer at behind
      omega
    unfold nextArds
    rw [ih (by omega), word_setWord, apart, List.length_cons, BitVec.add_assoc, BitVec.ofNat_add,
      BitVec.add_comm (1 : BitVec 32)]
    rfl

theorem nextArds_lie (behind : ardsBuffer totalMemBytes ≤ di) :
    Lie (nextArds totalMemBytes m di list) di list := by
  induction list generalizing m di with
  | nil => trivial
  | cons ards list ih =>
    unfold nextArds
    have stays (x : Nat) (above : di ≤ x) (less : x < di + 20) :
        nextArds totalMemBytes (setWord (storeArds m di ards) (ardsCount totalMemBytes)
          (word (storeArds m di ards) (ardsCount totalMemBytes) + 1)) (di + 20) list x =
            storeArds m di ards x := by
      rw [nextArds_before less (.inr (by omega)), setWord_outside]
      unfold ardsCount
      unfold ardsBuffer at behind
      omega
    refine ⟨?_, ?_, ih (by omega)⟩
    · rw [word_congr fun x above less => stays x above (by omega), storeArds_base]
    · rw [word_congr fun x above less => stays x (by omega) (by omega), storeArds_length]

theorem detectMemory_detected (nonempty : list ≠ [])
    (fits : ardsBuffer totalMemBytes + 20 * list.length ≤ 2 ^ 16)
    (image : word m (ardsCount totalMemBytes) = 0) :
    Detected totalMemBytes (detectMemory totalMemBytes list m) list where
  nonempty := nonempty
  fits := fits
  count := by
    unfold detectMemory
    rw [nextArds_count (Nat.le_refl _), image]
    exact BitVec.zero_add _
  lie := nextArds_lie (Nat.le_refl _)

/-! What `get_total_mem_bytes` finds -/

/-- One turn keeps the greater of two signed numbers. -/
theorem greater_toInt (edx eax : U32) : (if eax.sle edx then edx else eax).toInt = max edx.toInt eax.toInt := by
  by_cases less : eax.sle edx
  · rw [if_pos less, max_eq_left (BitVec.sle_iff_toInt_le.mp less)]
  · have greater : edx.toInt ≤ eax.toInt := by
      rw [BitVec.sle_iff_toInt_le] at less
      omega
    rw [if_neg less, max_eq_right greater]

theorem limit_word {ards : Ards} (small : ards.limit < 2 ^ 31) :
    (ards.base.setWidth 32 + ards.length.setWidth 32 : U32).toInt = ards.limit := by
  unfold Ards.limit at *
  rw [BitVec.toInt_eq_toNat_of_lt, BitVec.toNat_add, BitVec.toNat_setWidth, BitVec.toNat_setWidth]
  · omega
  · rw [BitVec.toNat_add, BitVec.toNat_setWidth, BitVec.toNat_setWidth]
    omega

theorem findMaxMemArea_toInt (lie : Lie m a list) (small : ∀ ards ∈ list, ards.limit < 2 ^ 31) :
    (findMaxMemArea m a edx list.length).toInt = list.foldl (fun most ards => max most ards.limit) edx.toInt := by
  induction list generalizing a edx with
  | nil => rfl
  | cons ards list ih =>
    obtain ⟨base, length, rest⟩ := lie
    rw [List.length_cons, findMaxMemArea, ih rest fun other member => small other (List.mem_cons_of_mem _ member),
      greater_toInt, base, length, limit_word (small ards List.mem_cons_self)]
    rfl

theorem loopTurns_count (detected : Detected totalMemBytes m list) :
    loopTurns ((word m (ardsCount totalMemBytes)).setWidth 16) = list.length := by
  have fits := detected.fits
  have some : 0 < list.length := List.length_pos_iff.mpr detected.nonempty
  unfold ardsBuffer at fits
  have number : ((word m (ardsCount totalMemBytes)).setWidth 16 : U16).toNat = list.length := by
    rw [detected.count, BitVec.toNat_setWidth, BitVec.toNat_ofNat]
    omega
  unfold loopTurns
  rw [if_neg, number]
  intro zero
  rw [zero] at number
  exact absurd number (by change 0 ≠ _; omega)

theorem getTotalMemBytes_stored (totalMemBytes : Nat) (gdtBase : U32) (m : Memory) :
    word (getTotalMemBytes totalMemBytes gdtBase m) 0xd00 =
      findMaxMemArea m (ardsBuffer totalMemBytes) 0
        (loopTurns ((word m (ardsCount totalMemBytes)).setWidth 16)) := by
  unfold getTotalMemBytes
  rw [word_setWord_outside _ (by omega), word_setWord]

theorem foldl_max_isGreatest {α : Type} (limit : α → Int) (start : Int) (list : List α) :
    IsGreatest {most | most = start ∨ ∃ a ∈ list, most = limit a}
      (list.foldl (fun most a => max most (limit a)) start) := by
  induction list generalizing start with
  | nil => exact ⟨.inl rfl, fun most is => le_of_eq (is.resolve_right fun ⟨_, member, _⟩ => nomatch member)⟩
  | cons first list ih =>
    obtain ⟨among, above⟩ := ih (max start (limit first))
    constructor
    · rcases among with here | ⟨a, member, value⟩
      · rcases max_choice start (limit first) with old | new
        · exact .inl (here.trans old)
        · exact .inr ⟨first, List.mem_cons_self, here.trans new⟩
      · exact .inr ⟨a, List.mem_cons_of_mem _ member, value⟩
    · have least : max start (limit first) ≤ _ := above (.inl rfl)
      rintro most (rfl | ⟨a, member, rfl⟩)
      · exact le_trans (le_max_left _ _) least
      · rcases List.mem_cons.mp member with rfl | later
        · exact le_trans (le_max_right _ _) least
        · exact above (.inr ⟨a, later, rfl⟩)

/-- The greatest of the ends that are stored, whatever the types are. -/
theorem getTotalMemBytes_greatest (detected : Detected totalMemBytes m list)
    (small : ∀ ards ∈ list, ards.limit < 2 ^ 31) :
    IsGreatest {most | ∃ ards ∈ list, most = ards.limit}
      (word (getTotalMemBytes totalMemBytes gdtBase m) 0xd00).toNat := by
  have number : (findMaxMemArea m (ardsBuffer totalMemBytes) 0 list.length).toInt = _ :=
    findMaxMemArea_toInt detected.lie small
  rw [← loopTurns_count detected, ← getTotalMemBytes_stored totalMemBytes gdtBase m] at number
  obtain ⟨among, above⟩ := foldl_max_isGreatest (fun ards : Ards => (ards.limit : Int)) (0 : U32).toInt list
  rw [← number] at among above
  have positive : (0 : U32).toInt ≤ (word (getTotalMemBytes totalMemBytes gdtBase m) 0xd00).toInt := above (.inl rfl)
  have same : (word (getTotalMemBytes totalMemBytes gdtBase m) 0xd00).toInt =
      (word (getTotalMemBytes totalMemBytes gdtBase m) 0xd00).toNat :=
    BitVec.toInt_eq_toNat_of_lt (BitVec.toInt_pos_iff.mp positive)
  have limits : ∀ ards ∈ list, ards.limit ≤ (word (getTotalMemBytes totalMemBytes gdtBase m) 0xd00).toNat := by
    intro ards member
    have less := above (.inr ⟨ards, member, rfl⟩)
    omega
  constructor
  · rcases among with zero | ⟨ards, member, value⟩
    · obtain ⟨ards, member⟩ := List.exists_mem_of_ne_nil _ detected.nonempty
      refine ⟨ards, member, ?_⟩
      have least := limits ards member
      change _ = (0 : Int) at zero
      omega
    · exact ⟨ards, member, by omega⟩
  · rintro most ⟨ards, member, rfl⟩
    exact limits ards member

theorem memory_detection (list : List Ards) (nonempty : list ≠ [])
    (fits : ardsBuffer totalMemBytes + 20 * list.length ≤ 2 ^ 16)
    (image : word m (ardsCount totalMemBytes) = 0) (small : ∀ ards ∈ list, ards.limit < 2 ^ 31) :
    IsGreatest {most | ∃ ards ∈ list, most = ards.limit}
      (word (getTotalMemBytes totalMemBytes gdtBase (detectMemory totalMemBytes list m)) 0xd00).toNat :=
  getTotalMemBytes_greatest (detectMemory_detected nonempty fits image) small

/-- The memory of a machine of 32 MiB: two ranges to use, and a reserved one at the end. -/
def smallMachine : List Ards :=
  [⟨0, 0x9fc00, 1⟩, ⟨0x100000, 0x1ee0000, 1⟩, ⟨0x1fe0000, 0x20000, 2⟩]

theorem memory_detection_machine :
    IsGreatest {most | ∃ ards ∈ smallMachine, most = ards.limit}
      (word (getTotalMemBytes 0xc60 0xc40 (detectMemory 0xc60 smallMachine fun _ => 0)) 0xd00).toNat :=
  memory_detection smallMachine (by decide) (by decide) (by decide) (by decide)

/-- The end of a reserved range is counted as well. -/
theorem memory_detection_reserved :
    ¬ ∀ (totalMemBytes : Nat) (gdtBase : U32) (m : Memory) (list : List Ards), list ≠ [] →
      ardsBuffer totalMemBytes + 20 * list.length ≤ 2 ^ 16 → word m (ardsCount totalMemBytes) = 0 →
      (∀ ards ∈ list, ards.limit < 2 ^ 32) →
      IsGreatest {most | ∃ ards ∈ list, ards.usable ∧ most = ards.limit}
        (word (getTotalMemBytes totalMemBytes gdtBase (detectMemory totalMemBytes list m)) 0xd00).toNat := by
  intro claim
  have usable := claim 0xc60 0xc40 (fun _ => 0) smallMachine (by decide) (by decide) (by decide) (by decide)
  have detected : Detected 0xc60 (detectMemory 0xc60 smallMachine fun _ => 0) smallMachine :=
    detectMemory_detected (by decide) (by decide) (by decide)
  have counted : IsGreatest {most | ∃ ards ∈ smallMachine, most = ards.limit}
      (word (getTotalMemBytes 0xc60 0xc40 (detectMemory 0xc60 smallMachine fun _ => 0)) 0xd00).toNat :=
    getTotalMemBytes_greatest detected (by decide)
  have reserved : 0x2000000 ≤ _ := counted.2 ⟨⟨0x1fe0000, 0x20000, 2⟩, by decide, rfl⟩
  obtain ⟨ards, member, type, value⟩ := usable.1
  rw [value] at reserved
  have less : ∀ ards ∈ smallMachine, ards.type = 1 → ards.limit < 0x2000000 := by decide
  exact absurd reserved (Nat.not_le.mpr (less ards member type))

end LiziOS.Loader
