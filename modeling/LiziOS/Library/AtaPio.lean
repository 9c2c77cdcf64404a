import LiziOS.Library.ByteMemory

/-! An ATA drive that is read through its ports: the registers of the command block, and the blocks that a read
command hands out word by word. A program that touches the drive out of turn stops. -/

namespace AtaPio

open ByteMemory

/-- In a command, `busy` polls of the status still find the drive busy with the block; then `read` words of it
    have been taken. `left` blocks come behind it. -/
inductive Phase where
  | idle
  | block (lba left busy read : Nat)
  deriving DecidableEq

structure Drive where
  media : Nat → Nat → BitVec 8
  /-- how many polls find the drive busy with a block -/
  delay : Nat → Nat
  sectors : BitVec 8
  low : BitVec 8
  mid : BitVec 8
  high : BitVec 8
  device : BitVec 8
  phase : Phase

inductive Fault where
  /-- a register is written while a command is in work -/
  | engaged
  /-- the data register is read while the drive has no data -/
  | noData
  /-- no such register, or a command that is not modelled -/
  | unknown
  deriving DecidableEq

namespace Drive

/-- The number of the first block, in the LBA mode. -/
def lba (d : Drive) : Nat := (d.device.setWidth 4 ++ d.high ++ d.mid ++ d.low).toNat

/-- The blocks behind the first one; 0 stands for 256. -/
def further (d : Drive) : Nat := (d.sectors - 1).toNat

def out8 (d : Drive) (port : BitVec 16) (value : BitVec 8) : Except Fault Drive :=
  match d.phase with
  | .block _ _ _ _ => .error .engaged
  | .idle =>
    if port = 0x1f2 then .ok { d with sectors := value }
    else if port = 0x1f3 then .ok { d with low := value }
    else if port = 0x1f4 then .ok { d with mid := value }
    else if port = 0x1f5 then .ok { d with high := value }
    else if port = 0x1f6 then .ok { d with device := value }
    else if port = 0x1f7 ∧ value = 0x20 ∧ d.device &&& 0x50 = 0x40 then
      .ok { d with phase := .block d.lba d.further (d.delay d.lba) 0 }
    else .error .unknown

/-- The status register: bit 7 while the drive is busy, bit 3 when it has data. -/
def in8 (d : Drive) (port : BitVec 16) : Except Fault (BitVec 8 × Drive) :=
  if port = 0x1f7 then
    match d.phase with
    | .idle => .ok (0x50, d)
    | .block _ _ 0 _ => .ok (0x58, d)
    | .block lba left (busy + 1) read => .ok (0x80, { d with phase := .block lba left busy read })
  else .error .unknown

/-- What follows a block. -/
def next (d : Drive) (lba : Nat) : Nat → Phase
  | 0 => .idle
  | left + 1 => .block (lba + 1) left (d.delay (lba + 1)) 0

/-- The data register. -/
def in16 (d : Drive) (port : BitVec 16) : Except Fault (BitVec 16 × Drive) :=
  if port = 0x1f0 then
    match d.phase with
    | .block lba left 0 read =>
      .ok (d.media lba (2 * read + 1) ++ d.media lba (2 * read),
        { d with phase := if read + 1 < 256 then .block lba left 0 (read + 1) else d.next lba left })
    | _ => .error .noData
  else .error .unknown

end Drive

variable {d : Drive} {lba left busy read : Nat}

/-- The registers hold the number of a block, 28 bits of it. -/
theorem Drive.lba_eq {n : BitVec 32} (low : d.low = n.setWidth 8) (mid : d.mid = (n >>> 8).setWidth 8)
    (high : d.high = (n >>> 16).setWidth 8) (device : d.device.setWidth 4 = (n >>> 24).setWidth 4)
    (small : n.toNat < 2 ^ 28) : d.lba = n.toNat := by
  unfold lba
  rw [append_toNat, append_toNat, append_toNat, low, mid, high, device]
  simp only [BitVec.toNat_setWidth, BitVec.toNat_ushiftRight, Nat.shiftRight_eq_div_pow]
  omega

theorem Drive.further_eq {n : Nat} (count : d.sectors = BitVec.ofNat 8 (n + 1)) (small : n < 256) : d.further = n := by
  unfold further
  rw [count, BitVec.toNat_sub, BitVec.toNat_ofNat, show (1 : BitVec 8).toNat = 1 from rfl]
  omega

theorem Drive.in8_ready (phase : d.phase = .block lba left 0 read) : d.in8 0x1f7 = .ok (0x58, d) := by
  unfold in8
  rw [if_pos rfl, phase]

theorem Drive.in8_busy (phase : d.phase = .block lba left (busy + 1) read) :
    d.in8 0x1f7 = .ok (0x80, { d with phase := .block lba left busy read }) := by
  unfold in8
  rw [if_pos rfl, phase]

theorem Drive.in16_busy (phase : d.phase = .block lba left (busy + 1) read) : d.in16 0x1f0 = .error .noData := by
  unfold in16
  rw [if_pos rfl, phase]
  rfl

theorem Drive.in16_ready (phase : d.phase = .block lba left 0 read) : d.in16 0x1f0 =
    .ok (d.media lba (2 * read + 1) ++ d.media lba (2 * read),
      { d with phase := if read + 1 < 256 then .block lba left 0 (read + 1) else d.next lba left }) := by
  unfold in16
  rw [if_pos rfl, phase]
  rfl

end AtaPio
