import LiziOS.Machine
import LiziOS.Strings
import Mathlib.Data.List.Induction

namespace LiziOS.BitmapMap

open Recorded Strings

/-! `bitmap_init`, `bitmap_get_bit` and `bitmap_set_bit` on memory as one address space shows it: a bitmap is a
finite map. -/

variable {s t : Ram 32} {m : U32 → U8} {i j : U32} {bitmap : Bitmap} {calls : List (U32 × U8)}

def bitmapInit (bitmap : Bitmap) : Recorded.Code 32 Unit := memset bitmap.bits 0 bitmap.length.toNat

/-- `1 << index1`, an `int`. -/
def mask (bitIndex : U32) : U32 := (1 : U32) <<< (bitIndex % 8).toNat

def bitmapGetBit (bitmap : Bitmap) (bitIndex : U32) : Recorded.Code 32 U32 := do
  let byte ← load (bitmap.bits + bitIndex / 8)
  return byte.setWidth 32 &&& mask bitIndex

/-- `value` is an `i8`. -/
def bitmapSetBit (bitmap : Bitmap) (bitIndex : U32) (value : U8) : Recorded.Code 32 Unit := do
  let byte ← load (bitmap.bits + bitIndex / 8)
  if value ≠ 0 then store (bitmap.bits + bitIndex / 8) ((byte.setWidth 32 ||| mask bitIndex).setWidth 8)
  else store (bitmap.bits + bitIndex / 8) ((byte.setWidth 32 &&& ~~~mask bitIndex).setWidth 8)

def bitmapSetBits (bitmap : Bitmap) : List (U32 × U8) → Recorded.Code 32 Unit
  | [] => return
  | (bitIndex, value) :: calls => do
    bitmapSetBit bitmap bitIndex value
    bitmapSetBits bitmap calls

/-! Bits of a byte. -/

theorem offset_lt (i : U32) : (i % 8).toNat < 8 := by
  rw [BitVec.toNat_umod]
  exact Nat.mod_lt _ (by decide)

theorem mask_bit (i : U32) {k : Nat} (below : k < 32) : (mask i).getLsbD k = decide (k = (i % 8).toNat) := by
  have one (k : Nat) : (1 : U32).getLsbD k = (decide (0 < 32) && decide (k = 0)) := BitVec.getLsbD_one
  rw [mask, BitVec.getLsbD_shiftLeft, one, decide_eq_true below]
  generalize (i % 8).toNat = offset
  by_cases same : k = offset
  · simp [same]
  · simp only [same]
    simp
    omega

theorem set_bit (byte : U8) (i : U32) {k : Nat} (below : k < 8) :
    ((byte.setWidth 32 ||| mask i).setWidth 8).getLsbD k = (byte.getLsbD k || decide (k = (i % 8).toNat)) := by
  rw [BitVec.getLsbD_setWidth, BitVec.getLsbD_or, mask_bit i (by omega), BitVec.getLsbD_setWidth,
    decide_eq_true below, decide_eq_true (show k < 32 by omega), Bool.true_and, Bool.true_and]

theorem clear_bit (byte : U8) (i : U32) {k : Nat} (below : k < 8) :
    ((byte.setWidth 32 &&& ~~~mask i).setWidth 8).getLsbD k = (byte.getLsbD k && !decide (k = (i % 8).toNat)) := by
  rw [BitVec.getLsbD_setWidth, BitVec.getLsbD_and, BitVec.getLsbD_not, mask_bit i (by omega),
    BitVec.getLsbD_setWidth, decide_eq_true below, decide_eq_true (show k < 32 by omega), Bool.true_and,
    Bool.true_and, Bool.true_and]

theorem get_bit (byte : U8) (i : U32) :
    byte.setWidth 32 &&& mask i ≠ 0 ↔ byte.getLsbD (i % 8).toNat = true := by
  have bit (k : Nat) (below : k < 32) : (byte.setWidth 32 &&& mask i).getLsbD k =
      (byte.getLsbD k && decide (k = (i % 8).toNat)) := by
    rw [BitVec.getLsbD_and, mask_bit i below, BitVec.getLsbD_setWidth, decide_eq_true below, Bool.true_and]
  constructor
  · intro some
    by_contra clear
    apply some
    apply BitVec.eq_of_getLsbD_eq
    intro k below
    rw [bit k below]
    by_cases same : k = (i % 8).toNat
    · rw [same, Bool.eq_false_iff.mpr clear]
      simp
    · rw [decide_eq_false same, Bool.and_false]
      simp
  · intro set zero
    have one := bit (i % 8).toNat (Nat.lt_of_lt_of_le (offset_lt i) (by decide))
    rw [zero, set] at one
    simp at one

/-! The map that a bitmap represents. -/

/-- The bit that the bitmap has for the index. -/
def bitOf (m : U32 → U8) (bitmap : Bitmap) (i : U32) : Bool := (m (bitmap.bits + i / 8)).getLsbD (i % 8).toNat

def Inside (bitmap : Bitmap) (i : U32) : Prop := i.toNat < 8 * bitmap.length.toNat

theorem Inside.range (inside : Inside bitmap i) :
    Range bitmap.bits bitmap.length.toNat (bitmap.bits + i / 8) := by
  have small : (i / 8).toNat < bitmap.length.toNat := by
    rw [BitVec.toNat_udiv]
    exact Nat.div_lt_of_lt_mul inside
  have there := range_index (a := bitmap.bits) small
  rw [BitVec.ofNat_toNat, BitVec.setWidth_eq] at there
  exact there

theorem same_index (cell : i / 8 = j / 8) (bit : (i % 8).toNat = (j % 8).toNat) : i = j := by
  have quotient := congrArg BitVec.toNat cell
  rw [BitVec.toNat_udiv, BitVec.toNat_udiv, show (8 : U32).toNat = 8 from rfl] at quotient
  rw [BitVec.toNat_umod, BitVec.toNat_umod, show (8 : U32).toNat = 8 from rfl] at bit
  exact BitVec.eq_of_toNat_eq (by omega)

/-- A new cell changes one bit. -/
theorem bitOf_update (byte : U8) (value : Bool)
    (changed : ∀ k < 8, byte.getLsbD k = if k = (i % 8).toNat then value else (m (bitmap.bits + i / 8)).getLsbD k) :
    bitOf (Function.update m (bitmap.bits + i / 8) byte) bitmap = Function.update (bitOf m bitmap) i value := by
  funext j
  by_cases same : j = i
  · subst same
    rw [Function.update_self, bitOf, Function.update_self, changed _ (offset_lt j), if_pos rfl]
  · rw [Function.update_of_ne same, bitOf]
    by_cases cell : bitmap.bits + j / 8 = bitmap.bits + i / 8
    · have other : (j % 8).toNat ≠ (i % 8).toNat := fun bit => same (same_index ((BitVec.add_right_inj _).mp cell) bit)
      rw [cell, Function.update_self, changed _ (offset_lt j), if_neg other, bitOf, cell]
    · rw [Function.update_of_ne cell, bitOf]

theorem bitmapSetBit_ends (i : U32) (value : U8) (inside : Inside bitmap i) :
    ∃ t, bitmapSetBit bitmap i value s = some ((), t) ∧
      bitOf t.bytes bitmap = Function.update (bitOf s.bytes bitmap) i (decide (value ≠ 0)) ∧
      Within (Range bitmap.bits bitmap.length.toNat) (Range bitmap.bits bitmap.length.toNat) s t := by
  have within (byte : U8) : Within (Range bitmap.bits bitmap.length.toNat) (Range bitmap.bits bitmap.length.toNat) s
      ((s.read (bitmap.bits + i / 8)).write (bitmap.bits + i / 8) byte) :=
    (within_read inside.range).trans (within_write byte inside.range)
  unfold bitmapSetBit
  rw [bind_load]
  by_cases set : value ≠ 0
  · rw [if_pos set, decide_eq_true set]
    refine ⟨_, rfl, bitOf_update _ _ fun k below => ?_, within _⟩
    rw [set_bit _ _ below]
    split
    · rename_i same
      rw [decide_eq_true same, Bool.or_true]
    · rename_i other
      rw [decide_eq_false other, Bool.or_false]
      rfl
  · rw [if_neg set, decide_eq_false set]
    refine ⟨_, rfl, bitOf_update _ _ fun k below => ?_, within _⟩
    rw [clear_bit _ _ below]
    split
    · rename_i same
      rw [decide_eq_true same, Bool.not_true, Bool.and_false]
    · rename_i other
      rw [decide_eq_false other, Bool.not_false, Bool.and_true]
      rfl

/-- The map after some calls: the last one for an index decides. -/
def assigned (map : U32 → Bool) (calls : List (U32 × U8)) : U32 → Bool :=
  calls.foldl (fun map call => Function.update map call.1 (decide (call.2 ≠ 0))) map

theorem bitmapSetBits_ends (inside : ∀ call ∈ calls, Inside bitmap call.1) :
    ∃ t, bitmapSetBits bitmap calls s = some ((), t) ∧
      bitOf t.bytes bitmap = assigned (bitOf s.bytes bitmap) calls ∧
      Within (Range bitmap.bits bitmap.length.toNat) (Range bitmap.bits bitmap.length.toNat) s t := by
  induction calls generalizing s with
  | nil => exact ⟨s, rfl, rfl, Within.refl s⟩
  | cons call calls ih =>
    rw [List.forall_mem_cons] at inside
    obtain ⟨t, set, bits, within⟩ := bitmapSetBit_ends (s := s) call.1 call.2 inside.1
    obtain ⟨u, rest, bits', within'⟩ := ih (s := t) inside.2
    refine ⟨u, ?_, ?_, within.trans within'⟩
    · rw [bitmapSetBits, bind_ok set, rest]
    · rw [bits', bits]
      rfl

theorem bitmapInit_ends (bitmap : Bitmap) :
    ∃ t, bitmapInit bitmap s = some ((), t) ∧ (∀ i, Inside bitmap i → bitOf t.bytes bitmap i = false) ∧
      Within (fun _ => False) (Range bitmap.bits bitmap.length.toNat) s t := by
  obtain ⟨t, ends, filled, within⟩ := memset_ends (s := s) bitmap.bits 0 bitmap.length.isLt
  refine ⟨t, ends, fun i inside => ?_, within⟩
  rw [bitOf, filled _ inside.range]
  simp

/-- Whether the last call for the index set its bit. -/
def lastSet (calls : List (U32 × U8)) (i : U32) : Prop :=
  ∃ call, calls.reverse.find? (fun call => call.1 = i) = some call ∧ call.2 ≠ 0

theorem assigned_iff (map : U32 → Bool) (calls : List (U32 × U8)) (i : U32) (clear : map i = false) :
    assigned map calls i = true ↔ lastSet calls i := by
  induction calls using List.reverseRecOn with
  | nil => simp [assigned, lastSet, clear]
  | append_singleton calls call ih =>
    have step : assigned map (calls ++ [call]) =
        Function.update (assigned map calls) call.1 (decide (call.2 ≠ 0)) := List.foldl_append
    rw [step]
    unfold lastSet at ih ⊢
    rw [List.reverse_append, List.reverse_singleton, List.singleton_append]
    by_cases same : call.1 = i
    · have found := List.find?_cons_of_pos (l := calls.reverse) (p := fun call : U32 × U8 => decide (call.1 = i))
        (decide_eq_true same)
      rw [found, ← same, Function.update_self]
      simp
    · rw [Function.update_of_ne (Ne.symm same), List.find?_cons_of_neg (by simpa using same), ih]

/-- A bitmap is a finite map, in the bytes that it has. -/
theorem bitmap_is_map (s : Ram 32) (bitmap : Bitmap) (calls : List (U32 × U8))
    (inside : ∀ call ∈ calls, Inside bitmap call.1) :
    ∃ t, (bitmapInit bitmap >>= fun _ => bitmapSetBits bitmap calls) s = some ((), t) ∧
      (∀ j, Inside bitmap j → ∃ r u, bitmapGetBit bitmap j t = some (r, u) ∧ (r ≠ 0 ↔ lastSet calls j)) ∧
      ∀ x, ¬ Range bitmap.bits bitmap.length.toNat x → t.bytes x = s.bytes x := by
  obtain ⟨t, init, clear, within⟩ := bitmapInit_ends (s := s) bitmap
  obtain ⟨u, sets, bits, within'⟩ := bitmapSetBits_ends (s := t) inside
  refine ⟨u, ?_, fun j insideJ => ?_, fun x outside => ?_⟩
  · rw [bind_ok init, sets]
  · refine ⟨_, u.read (bitmap.bits + j / 8), rfl, ?_⟩
    rw [get_bit]
    change bitOf u.bytes bitmap j = true ↔ _
    rw [bits, assigned_iff _ _ _ (clear j insideJ)]
  · rw [within'.bytes x outside, within.bytes x outside]

theorem bitmap_is_map_once : ∃ t, (bitmapInit ⟨1, 0x1000⟩ >>= fun _ => bitmapSetBits ⟨1, 0x1000⟩ [(3, 1)])
    abMemory = some ((), t) ∧ ∃ r u, bitmapGetBit ⟨1, 0x1000⟩ 3 t = some (r, u) ∧ r ≠ 0 := by
  obtain ⟨t, ends, bits, _⟩ := bitmap_is_map abMemory ⟨1, 0x1000⟩ [(3, 1)] (by
    intro call member
    rw [List.mem_singleton.mp member, Inside]
    decide)
  obtain ⟨r, u, got, value⟩ := bits 3 (by unfold Inside; decide)
  exact ⟨t, ends, r, u, got, value.mpr ⟨(3, 1), rfl, by decide⟩⟩

end LiziOS.BitmapMap
