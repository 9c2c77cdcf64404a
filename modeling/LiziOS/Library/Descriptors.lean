import Mathlib.Data.Nat.Notation
import Mathlib.Tactic.IntervalCases

/-! What an x86 processor reads out of the eight bytes of a descriptor, and which ports the task state segment
leaves to programs of an outer ring. -/

namespace X86

structure Segment where
  base : BitVec 32
  /-- the offset of the last byte -/
  limit : Nat
  type : BitVec 4
  system : Bool
  dpl : Nat
  present : Bool
  deriving DecidableEq

def Segment.decode (b : Nat → BitVec 8) : Segment where
  base := b 7 ++ b 4 ++ b 3 ++ b 2
  limit :=
    let raw := ((b 6).setWidth 4 ++ b 1 ++ b 0).toNat
    if (b 6).getLsbD 7 then 4096 * raw + 4095 else raw
  type := (b 5).setWidth 4
  system := !(b 5).getLsbD 4
  dpl := ((b 5 >>> 5).setWidth 2).toNat
  present := (b 5).getLsbD 7

theorem Segment.decode_congr {b b' : Nat → BitVec 8} (same : ∀ i < 8, b i = b' i) : decode b = decode b' := by
  unfold decode
  rw [same 0 (by decide), same 1 (by decide), same 2 (by decide), same 3 (by decide), same 4 (by decide),
    same 5 (by decide), same 6 (by decide), same 7 (by decide)]

/-- A code segment that other code enters without a change of its ring. -/
def Segment.conforming (s : Segment) : Bool := !s.system && s.type.getLsbD 3 && s.type.getLsbD 2

/-- Code of the ring that goes through a gate to the segment changes the ring and the stack. -/
def Segment.inward (s : Segment) (ring : Nat) : Bool := !s.conforming && decide (s.dpl < ring)

structure Gate where
  offset : BitVec 32
  selector : BitVec 16
  type : BitVec 5
  dpl : Nat
  present : Bool
  deriving DecidableEq

def Gate.decode (b : Nat → BitVec 8) : Gate where
  offset := b 7 ++ b 6 ++ b 1 ++ b 0
  selector := b 3 ++ b 2
  type := (b 5).setWidth 5
  dpl := ((b 5 >>> 5).setWidth 2).toNat
  present := (b 5).getLsbD 7

theorem Gate.decode_congr {b b' : Nat → BitVec 8} (same : ∀ i < 8, b i = b' i) : decode b = decode b' := by
  unfold decode
  rw [same 0 (by decide), same 1 (by decide), same 2 (by decide), same 3 (by decide), same 5 (by decide),
    same 6 (by decide), same 7 (by decide)]

/-- The gate lets a program of the ring go to it with `int n`. -/
def Gate.Open (g : Gate) (ring : Nat) : Prop := ring ≤ g.dpl

instance (g : Gate) (ring : Nat) : Decidable (g.Open ring) := Nat.decLe ring g.dpl

/-- The exceptions of the processor, and those of them that push an error code. -/
def exceptions : List Nat := [0, 1, 2, 3, 4, 5, 6, 7, 8, 9, 10, 11, 12, 13, 14, 16, 17, 18, 19]

def pushesErrorCode (n : Nat) : Bool := n == 8 || 10 ≤ n && n ≤ 14 || n == 17

/-- Where the task state segment says that its map of the ports begins. -/
def ioMapBase (tss : Nat → BitVec 8) : Nat := (tss 103 ++ tss 102).toNat

/-- One byte may be read from the port, or written to it, by a program whose ring is not covered by IOPL: two
    bytes of the map are fetched, and the port's bit is clear. -/
def portAllowed (tss : Nat → BitVec 8) (limit port : Nat) : Bool :=
  decide (ioMapBase tss + port / 8 + 1 ≤ limit) && !(tss (ioMapBase tss + port / 8)).getLsbD (port % 8)

theorem low_word (w : BitVec 32) : (w &&& 0x0000ffff).setWidth 16 = w.setWidth 16 := by
  apply BitVec.eq_of_getLsbD_eq
  intro i less
  interval_cases i <;> simp

theorem high_word (w : BitVec 32) : ((w &&& 0xffff0000) >>> 16).setWidth 16 = (w >>> 16).setWidth 16 := by
  apply BitVec.eq_of_getLsbD_eq
  intro i less
  interval_cases i <;> simp

end X86
