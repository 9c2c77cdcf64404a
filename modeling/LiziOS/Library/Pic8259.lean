import Mathlib.Logic.Function.Basic

/-! The two interrupt controllers of a PC, in the fully nested mode with edge triggered lines. Commands that are
not needed to set them up and to end an interrupt are refused. -/

namespace Pic8259

/-- The word that an initialization expects next. -/
inductive Phase where
  | icw2
  | icw3
  | icw4
  | ready
  deriving DecidableEq

structure Pic where
  phase : Phase
  single : Bool
  needsIcw4 : Bool
  base : BitVec 8
  cascade : BitVec 8
  autoEoi : Bool
  masked : BitVec 8
  requested : Nat → Bool
  inService : Nat → Bool

namespace Pic

/-- The line of the highest priority that is being served has been dealt with. -/
def finish (p : Pic) : Pic :=
  match (List.range 8).find? p.inService with
  | some line => { p with inService := Function.update p.inService line false }
  | none => p

/-- A byte for the even port: ICW1, or the OCW2 of a nonspecific end of interrupt. -/
def command (p : Pic) (b : BitVec 8) : Option Pic :=
  if b.getLsbD 4 then
    some { p with
      phase := .icw2
      single := b.getLsbD 1
      needsIcw4 := b.getLsbD 0
      autoEoi := false
      masked := 0
      requested := fun _ => false
      inService := fun _ => false }
  else if p.phase = .ready ∧ b &&& 0xf8 = 0x20 then some p.finish
  else none

/-- A byte for the odd port. -/
def data (p : Pic) (b : BitVec 8) : Pic :=
  let last := if p.needsIcw4 then Phase.icw4 else .ready
  match p.phase with
  | .icw2 => { p with base := b &&& 0xf8, phase := if p.single then last else .icw3 }
  | .icw3 => { p with cascade := b, phase := last }
  | .icw4 => { p with autoEoi := b.getLsbD 1, phase := .ready }
  | .ready => { p with masked := b }

/-- The request that goes through: not masked, with nothing of its priority or a higher one in service. -/
def next (p : Pic) (requested : Nat → Bool) : Option Nat :=
  (List.range 8).find? fun line => requested line && !p.masked.getLsbD line &&
    (List.range (line + 1)).all fun k => !p.inService k

def serve (p : Pic) (line : Nat) : Pic :=
  { p with
    requested := Function.update p.requested line false
    inService := if p.autoEoi then p.inService else Function.update p.inService line true }

end Pic

structure Pair where
  master : Pic
  slave : Pic

namespace Pair

/-- The lines 8 to 15 belong to the slave. -/
def raise (p : Pair) (line : Nat) : Pair :=
  if line < 8 then { p with master := { p.master with requested := Function.update p.master.requested line true } }
  else { p with slave := { p.slave with requested := Function.update p.slave.requested (line - 8) true } }

/-- A request that the device takes back. -/
def drop (p : Pair) (line : Nat) : Pair :=
  if line < 8 then { p with master := { p.master with requested := Function.update p.master.requested line false } }
  else { p with slave := { p.slave with requested := Function.update p.slave.requested (line - 8) false } }

/-- The slave is connected to line 2. -/
def atMaster (p : Pair) (line : Nat) : Bool :=
  if line = 2 then (p.slave.next p.slave.requested).isSome else p.master.requested line

/-- The vector that the processor is told. Where no request is left it is that of line 7, and nothing is in
    service. -/
def acknowledge (p : Pair) : Option (BitVec 8 × Pair) :=
  match p.master.next p.atMaster with
  | none => some (p.master.base + 7, p)
  | some line =>
    if p.master.cascade.getLsbD line then
      if p.slave.cascade.setWidth 3 = BitVec.ofNat 3 line then
        match p.slave.next p.slave.requested with
        | none => some (p.slave.base + 7, { p with master := p.master.serve line })
        | some k => some (p.slave.base + BitVec.ofNat 8 k, ⟨p.master.serve line, p.slave.serve k⟩)
      else none
    else some (p.master.base + BitVec.ofNat 8 line, { p with master := p.master.serve line })

def out (p : Pair) (port : BitVec 16) (b : BitVec 8) : Option Pair :=
  if port = 0x20 then (p.master.command b).map fun master => { p with master := master }
  else if port = 0x21 then some { p with master := p.master.data b }
  else if port = 0xa0 then (p.slave.command b).map fun slave => { p with slave := slave }
  else if port = 0xa1 then some { p with slave := p.slave.data b }
  else some p

def outs (p : Pair) : List (BitVec 16 × BitVec 8) → Option Pair
  | [] => some p
  | (port, b) :: rest => (p.out port b).bind fun q => q.outs rest

end Pair

variable {p : Pic} {requested : Nat → Bool} {line : Nat}

/-- Nothing is being served. -/
def Pic.Idle (p : Pic) : Prop := p.inService = fun _ => false

theorem Pic.finish_idle (idle : p.Idle) : p.finish = p := by
  unfold finish
  rw [idle]
  rfl

theorem find_range {f : Nat → Bool} {n : Nat} (less : line < n) (here : f line = true)
    (below : ∀ k < line, f k = false) : (List.range n).find? f = some line := by
  rw [List.find?_range_eq_some]
  exact ⟨here, List.mem_range.mpr less, fun k earlier => by rw [below k earlier]; rfl⟩

theorem Pic.finish_serve (idle : p.Idle) (manual : p.autoEoi = false) (less : line < 8) :
    (p.serve line).finish = { p with requested := Function.update p.requested line false } := by
  have serving : (p.serve line).inService = Function.update (fun _ => false) line true := by
    unfold serve
    rw [manual, idle]
    rfl
  have found : (List.range 8).find? (p.serve line).inService = some line := by
    rw [serving]
    apply find_range less
    · rw [Function.update_self]
    · intro k earlier
      rw [Function.update_of_ne (Nat.ne_of_lt earlier)]
  unfold finish
  rw [found]
  dsimp only
  rw [serving, Function.update_idem, Function.update_eq_self_iff.mpr rfl, ← idle]
  rfl

/-- While nothing is in service the lowest line that is requested and not masked goes through. -/
theorem Pic.next_idle (idle : p.Idle) :
    p.next requested = (List.range 8).find? fun line => requested line && !p.masked.getLsbD line := by
  unfold next
  rw [idle]
  congr 1
  funext line
  have free : (List.range (line + 1)).all (fun _ => !false) = true := List.all_eq_true.mpr fun _ _ => rfl
  rw [free, Bool.and_true]

end Pic8259
