import LiziOS.BootPages
import LiziOS.KernelImage
import LiziOS.Library.AtaPio
import LiziOS.Library.Program
import Mathlib.Tactic.IntervalCases

namespace LiziOS.Loader

open ByteMemory AtaPio

/-! `read_disk_16.inc` and `read_disk_32` of `loader.asm`, against a drive that takes its time. Paging is off, and the
data segment begins at 0. -/

structure Disk where
  drive : Drive
  mem : Memory

inductive DiskFault where
  | port (fault : AtaPio.Fault)
  /-- the status has been polled in vain -/
  | busy
  deriving DecidableEq

abbrev D := EStateM DiskFault Disk

def outb (port : U16) (al : U8) : D Unit := fun s =>
  match s.drive.out8 port al with
  | .ok drive => .ok () { s with drive := drive }
  | .error fault => .error (.port fault) s

def inb (port : U16) : D U8 := fun s =>
  match s.drive.in8 port with
  | .ok (al, drive) => .ok al { s with drive := drive }
  | .error fault => .error (.port fault) s

def inw (port : U16) : D U16 := fun s =>
  match s.drive.in16 port with
  | .ok (ax, drive) => .ok ax { s with drive := drive }
  | .error fault => .error (.port fault) s

/-- `mov [a], ax`. -/
def movWord {w : Nat} (a : BitVec w) (ax : U16) : D Unit := do
  modify fun s => { s with mem := Function.update s.mem a.toNat (ax.setWidth 8) }
  modify fun s => { s with mem := Function.update s.mem (a + 1).toNat ((ax >>> 8).setWidth 8) }

/-- The loops `.check_status` and `.check`, for as many turns as are allowed for. -/
def waits : Nat → D Unit
  | 0 => throw .busy
  | polls + 1 => do
    let al ← inb 0x1f7
    if al &&& 0x88 = 0x08 then return ()
    waits polls

/-- The loops `.read_data` and `.readw`, which leave the address behind the last word. -/
def readWords {w : Nat} (a : BitVec w) : Nat → D (BitVec w)
  | 0 => return a
  | turns + 1 => do
    let ax ← inw 0x1f0
    movWord a ax
    readWords (a + 2) turns

/-- Both functions begin by the same writes: `n` is `bl` or `cl`. -/
def command (n : U8) (lba : U32) : D Unit := do
  outb 0x1f2 n
  outb 0x1f3 (lba.setWidth 8)
  outb 0x1f4 ((lba >>> 8).setWidth 8)
  outb 0x1f5 ((lba >>> 16).setWidth 8)
  outb 0x1f6 (0xe0 ||| (lba >>> 24).setWidth 8 &&& 0x0f)
  outb 0x1f7 0x20

/-- The status is looked at once. `mul` leaves the low half of the product in `ax`, and `loop` decrements `cx`
    before it tests it. -/
def readDisk16 (polls : Nat) (di cx : U16) (ebx : U32) : D Unit := do
  command (cx.setWidth 8) ebx
  waits polls
  let cx := cx * 256
  let _ ← readWords di ((cx - 1).toNat + 1)

/-- The loop `.read`. -/
def readSectors (polls : Nat) (edi : U32) : Nat → D Unit
  | 0 => return ()
  | cx + 1 => do
    waits polls
    let edi ← readWords edi 256
    readSectors polls edi cx

/-- `bl` is not zero. -/
def readDisk32 (polls : Nat) (edi ecx : U32) (bl : U8) : D Unit := do
  command bl ecx
  readSectors polls edi bl.toNat

variable {s t : Disk} {w lba left busy read polls n x : Nat} {a : BitVec w}

theorem waits_ok (phase : s.drive.phase = .block lba left busy read) (enough : busy < polls) :
    waits polls s = .ok () { s with drive := { s.drive with phase := .block lba left 0 read } } := by
  induction busy generalizing s polls with
  | zero =>
    rcases polls with - | polls
    · omega
    have polled : inb 0x1f7 s = .ok 0x58 s := by
      unfold inb
      rw [Drive.in8_ready phase]
    rw [waits, Program.bind_ok polled, if_pos (by decide), ← phase]
    rfl
  | succ busy ih =>
    rcases polls with - | polls
    · omega
    have polled : inb 0x1f7 s = .ok 0x80 { s with drive := { s.drive with phase := .block lba left busy read } } := by
      unfold inb
      rw [Drive.in8_busy phase]
    rw [waits, Program.bind_ok polled, if_neg (by decide)]
    exact ih rfl (by omega)

theorem address_toNat {k : Nat} (fits : a.toNat + k < 2 ^ w) : (a + BitVec.ofNat w k).toNat = a.toNat + k := by
  rw [BitVec.toNat_add, BitVec.toNat_ofNat, Nat.add_mod_mod, Nat.mod_eq_of_lt fits]

theorem append_high (high low : U8) : ((high ++ low) >>> 8).setWidth 8 = high := by
  apply BitVec.eq_of_toNat_eq
  rw [BitVec.toNat_setWidth, BitVec.toNat_ushiftRight, append_toNat, Nat.shiftRight_eq_div_pow]
  omega

/-- The first of the words that are read. -/
theorem readWords_first (fits : a.toNat + 2 ≤ 2 ^ w) (phase : s.drive.phase = .block lba left 0 read) :
    ∃ mem, readWords a (n + 1) s = readWords (a + 2) n { s with
      mem := mem
      drive := { s.drive with phase := if read + 1 < 256 then .block lba left 0 (read + 1) else s.drive.next lba left } } ∧
      mem a.toNat = s.drive.media lba (2 * read) ∧ mem (a.toNat + 1) = s.drive.media lba (2 * read + 1) ∧
      ∀ x, (x < a.toNat ∨ a.toNat + 2 ≤ x) → mem x = s.mem x := by
  have second : (a + 1).toNat = a.toNat + 1 := address_toNat (k := 1) (by omega)
  have polled : inw 0x1f0 s = .ok (s.drive.media lba (2 * read + 1) ++ s.drive.media lba (2 * read)) { s with
      drive := { s.drive with phase := if read + 1 < 256 then .block lba left 0 (read + 1) else s.drive.next lba left } } := by
    unfold inw
    rw [Drive.in16_ready phase]
  refine ⟨Function.update (Function.update s.mem a.toNat (s.drive.media lba (2 * read))) (a.toNat + 1)
    (s.drive.media lba (2 * read + 1)), ?_, ?_, Function.update_self _ _ _, ?_⟩
  · rw [readWords, Program.bind_ok polled]
    unfold movWord
    rw [bind_assoc, Program.bind_modify, Program.bind_modify, second]
    have lowByte : (s.drive.media lba (2 * read + 1) ++ s.drive.media lba (2 * read)).setWidth 8 =
        s.drive.media lba (2 * read) := append_low _ _
    have highByte : ((s.drive.media lba (2 * read + 1) ++ s.drive.media lba (2 * read)) >>> 8).setWidth 8 =
        s.drive.media lba (2 * read + 1) := append_high _ _
    rw [lowByte, highByte]
  · rw [Function.update_of_ne (by omega), Function.update_self]
  · intro x outside
    rw [Function.update_of_ne (by omega), Function.update_of_ne (by omega)]

/-- The words of a block, from the one that is next. -/
theorem readWords_block (fits : a.toNat + 2 * n ≤ 2 ^ w) (phase : s.drive.phase = .block lba left 0 read)
    (some_ : 0 < n) (inside : read + n ≤ 256) :
    ∃ mem, readWords a n s = .ok (a + BitVec.ofNat w (2 * n)) { s with
      mem := mem
      drive := { s.drive with phase := if read + n < 256 then .block lba left 0 (read + n) else s.drive.next lba left } } ∧
      (∀ i < 2 * n, mem (a.toNat + i) = s.drive.media lba (2 * read + i)) ∧
      ∀ x, (x < a.toNat ∨ a.toNat + 2 * n ≤ x) → mem x = s.mem x := by
  induction n generalizing s a read with
  | zero => omega
  | succ n ih =>
    obtain ⟨mem, called, first, second, outside⟩ := @readWords_first s w lba left read n a (by omega) phase
    have address : a + BitVec.ofNat w (2 * (n + 1)) = a + 2 + BitVec.ofNat w (2 * n) := by
      rw [Nat.mul_succ, Nat.add_comm, BitVec.ofNat_add, BitVec.add_assoc]
      rfl
    rw [called, address]
    by_cases last : n = 0
    · subst last
      refine ⟨mem, ?_, ?_, fun x apart => outside x (by omega)⟩
      · rw [readWords, show a + 2 + BitVec.ofNat w (2 * 0) = a + 2 from BitVec.add_zero _]
        rfl
      · intro i less
        rcases (show i = 0 ∨ i = 1 by omega) with rfl | rfl
        · exact first
        · exact second
    · have next : (a + 2).toNat = a.toNat + 2 := address_toNat (k := 2) (by omega)
      rw [if_pos (show read + 1 < 256 by omega)]
      obtain ⟨mem', done, here, apart⟩ := @ih { s with
        mem := mem
        drive := { s.drive with phase := .block lba left 0 (read + 1) } } (read + 1) (a + 2) (by omega) rfl
        (by omega) (by omega)
      refine ⟨mem', ?_, ?_, ?_⟩
      · rw [done, show read + 1 + n = read + (n + 1) by omega]
        rfl
      · intro i less
        rcases (show i = 0 ∨ i = 1 ∨ 2 ≤ i by omega) with rfl | rfl | later
        · rw [apart _ (by omega)]
          exact first
        · rw [apart _ (by omega)]
          exact second
        · have value := here (i - 2) (by omega)
          rw [next, show a.toNat + 2 + (i - 2) = a.toNat + i by omega,
            show 2 * (read + 1) + (i - 2) = 2 * read + i by omega] at value
          exact value
      · intro x out
        rw [apart x (by omega)]
        exact outside x (by omega)

/-- A read goes on where another one has ended. -/
theorem readWords_add (a : BitVec w) (m n : Nat) :
    readWords a (m + n) = (readWords a m >>= fun b => readWords b n) := by
  induction m generalizing a with
  | zero =>
    rw [Nat.zero_add, readWords, pure_bind]
  | succ m ih =>
    rw [Nat.succ_add, readWords, readWords, bind_assoc]
    congr
    funext ax
    rw [bind_assoc]
    congr
    funext _
    exact ih (a + 2)

/-! Whole sectors. -/

/-- The sectors from `lba` on lie in memory from `base` on, and the rest is as it was. -/
structure Delivered (media : Nat → Nat → U8) (mem after : Memory) (lba base n : Nat) : Prop where
  there : ∀ i < 512 * n, after (base + i) = media (lba + i / 512) (i % 512)
  outside : ∀ x, (x < base ∨ base + 512 * n ≤ x) → after x = mem x

theorem Delivered.append {media : Nat → Nat → U8} {mem mid after : Memory} {base m : Nat}
    (first : Delivered media mem mid lba base m) (rest : Delivered media mid after (lba + m) (base + 512 * m) n) :
    Delivered media mem after lba base (m + n) where
  there i less := by
    by_cases early : i < 512 * m
    · rw [rest.outside _ (.inl (by omega))]
      exact first.there i early
    · have value := rest.there (i - 512 * m) (by omega)
      rw [show base + 512 * m + (i - 512 * m) = base + i by omega,
        show lba + m + (i - 512 * m) / 512 = lba + i / 512 by omega,
        show (i - 512 * m) % 512 = i % 512 by omega] at value
      exact value
  outside x apart := by
    rw [rest.outside x (by omega)]
    exact first.outside x (by omega)

theorem readWords_sector (fits : a.toNat + 512 ≤ 2 ^ w) (phase : s.drive.phase = .block lba left 0 0) :
    ∃ mem, readWords a 256 s = .ok (a + BitVec.ofNat w 512) { s with
      mem := mem
      drive := { s.drive with phase := s.drive.next lba left } } ∧
      Delivered s.drive.media s.mem mem lba a.toNat 1 := by
  obtain ⟨mem, done, here, outside⟩ := @readWords_block s w lba left 0 256 a (by omega) phase (by decide) (by decide)
  refine ⟨mem, done, fun i less => ?_, fun x apart => outside x (by omega)⟩
  rw [here i (by omega), Nat.div_eq_of_lt (by omega), Nat.mod_eq_of_lt (by omega), Nat.mul_zero, Nat.zero_add,
    Nat.add_zero]

theorem Drive.next_last (d : Drive) (lba : Nat) : d.next lba 0 = .idle := rfl

theorem room_first {base size m : Nat} (fits : base + 512 * (m + 1) ≤ size) : base + 512 ≤ size := by
  have one : 512 * 1 ≤ 512 * (m + 1) := Nat.mul_le_mul_left 512 (Nat.le_add_left 1 m)
  exact Nat.le_trans (Nat.add_le_add_left one base) fits

theorem room_rest {base size m : Nat} (fits : base + 512 * (m + 1 + 1) ≤ size) :
    base + 512 * 1 + 512 * (m + 1) ≤ size := by
  rw [Nat.add_assoc, ← Nat.mul_add, Nat.add_comm 1]
  exact fits

/-- Each sector is waited for. -/
theorem readSectors_ok {edi : U32} (fits : edi.toNat + 512 * (left + 1) ≤ 2 ^ 32)
    (phase : s.drive.phase = .block lba left (s.drive.delay lba) 0)
    (enough : ∀ k ≤ left, s.drive.delay (lba + k) < polls) :
    ∃ mem, readSectors polls edi (left + 1) s = .ok () { s with
      mem := mem
      drive := { s.drive with phase := .idle } } ∧ Delivered s.drive.media s.mem mem lba edi.toNat (left + 1) := by
  induction left generalizing s lba edi with
  | zero =>
    have ready := waits_ok phase (enough 0 (Nat.le_refl 0))
    obtain ⟨mem, done, delivered⟩ := @readWords_sector
      { s with drive := { s.drive with phase := .block lba 0 0 0 } } 32 lba 0 edi (by omega) rfl
    refine ⟨mem, ?_, delivered⟩
    rw [readSectors, Program.bind_ok ready, Program.bind_ok done]
    rfl
  | succ left ih =>
    have ready := waits_ok phase (enough 0 (Nat.zero_le _))
    obtain ⟨mem, done, delivered⟩ := @readWords_sector
      { s with drive := { s.drive with phase := .block lba (left + 1) 0 0 } } 32 lba (left + 1) edi (room_first fits) rfl
    have room := room_rest fits
    have address : (edi + BitVec.ofNat 32 512).toNat = edi.toNat + 512 * 1 := address_toNat (by omega)
    obtain ⟨mem', rest, delivered'⟩ := @ih { s with
      mem := mem
      drive := { s.drive with phase := .block (lba + 1) left (s.drive.delay (lba + 1)) 0 } } (lba + 1)
      (edi + BitVec.ofNat 32 512) (by rw [address]; exact room) rfl (fun k less => by
        rw [Nat.add_assoc, Nat.add_comm 1 k]
        exact enough (k + 1) (by omega))
    rw [address] at delivered'
    refine ⟨mem', ?_, ?_⟩
    · rw [readSectors, Program.bind_ok ready, Program.bind_ok done]
      exact rest
    · rw [Nat.add_comm (left + 1) 1]
      exact delivered.append delivered'

/-- Without a look at the status, all sectors are read exactly if the drive needs no time between them. -/
theorem readWords_sectors (fits : a.toNat + 512 * (left + 1) ≤ 2 ^ w) (phase : s.drive.phase = .block lba left 0 0) :
    ((∃ b t, readWords a (256 * (left + 1)) s = .ok b t) ↔ ∀ k < left, s.drive.delay (lba + 1 + k) = 0) ∧
      ∀ b t, readWords a (256 * (left + 1)) s = .ok b t →
        t.drive = { s.drive with phase := .idle } ∧ Delivered s.drive.media s.mem t.mem lba a.toNat (left + 1) := by
  induction left generalizing s lba a with
  | zero =>
    obtain ⟨mem, done, delivered⟩ := @readWords_sector s w lba 0 a (by omega) phase
    refine ⟨⟨fun _ k less => absurd less (Nat.not_lt_zero k), fun _ => ⟨_, _, done⟩⟩, fun b t completed => ?_⟩
    have same := done.symm.trans completed
    cases same
    exact ⟨rfl, delivered⟩
  | succ left ih =>
    obtain ⟨mem, done, delivered⟩ := @readWords_sector s w lba (left + 1) a (room_first fits) phase
    have room := room_rest fits
    have address : (a + BitVec.ofNat w 512).toNat = a.toNat + 512 * 1 := address_toNat (by omega)
    rw [show 256 * (left + 1 + 1) = 256 + 256 * (left + 1) by omega, readWords_add, Program.bind_ok done]
    by_cases prompt : s.drive.delay (lba + 1) = 0
    · obtain ⟨exact_, completed⟩ := @ih { s with
        mem := mem
        drive := { s.drive with phase := .block (lba + 1) left (s.drive.delay (lba + 1)) 0 } } (lba + 1)
        (a + BitVec.ofNat w 512) (by rw [address]; exact room) (by rw [prompt])
      constructor
      · apply exact_.trans
        constructor
        · intro all k less
          rcases k with - | k
          · exact prompt
          · have later := all k (by omega)
            rwa [show lba + 1 + 1 + k = lba + 1 + (k + 1) by omega] at later
        · intro all k less
          have later := all (k + 1) (by omega)
          rwa [show lba + 1 + (k + 1) = lba + 1 + 1 + k by omega] at later
      · intro b t ended
        obtain ⟨drive, delivered'⟩ := completed b t ended
        rw [address] at delivered'
        refine ⟨drive, ?_⟩
        rw [Nat.add_comm (left + 1) 1]
        exact delivered.append delivered'
    · -- the first word of the next sector is asked for too early
      obtain ⟨busy, late⟩ := Nat.exists_eq_succ_of_ne_zero prompt
      have refused (b : BitVec w) (n : Nat) : readWords b (n + 1) { s with
          mem := mem
          drive := { s.drive with phase := s.drive.next lba (left + 1) } } = .error (.port .noData) { s with
          mem := mem
          drive := { s.drive with phase := s.drive.next lba (left + 1) } } := by
        have polled : inw 0x1f0 { s with
            mem := mem
            drive := { s.drive with phase := s.drive.next lba (left + 1) } } = .error (.port .noData) { s with
            mem := mem
            drive := { s.drive with phase := s.drive.next lba (left + 1) } } := by
          have busyPhase : s.drive.next lba (left + 1) = .block (lba + 1) left (busy + 1) 0 := by
            change Phase.block (lba + 1) left (s.drive.delay (lba + 1)) 0 = _
            rw [late]
          unfold inw
          rw [Drive.in16_busy busyPhase]
        rw [readWords, Program.bind_error polled]
      rw [show 256 * (left + 1) = 256 * left + 255 + 1 by omega, refused]
      have failed {c : BitVec w} {u : Disk} {e : DiskFault} {v : Disk} :
          ¬ (EStateM.Result.error e v : EStateM.Result DiskFault Disk (BitVec w)) = .ok c u := nofun
      refine ⟨⟨fun ⟨b, t, completed⟩ => absurd completed failed, fun all => absurd (all 0 (by omega)) prompt⟩, ?_⟩
      exact fun b t completed => absurd completed failed

/-! The whole functions. -/

theorem outb_ok {port : U16} {al : U8} {drive : Drive} (written : s.drive.out8 port al = .ok drive) :
    outb port al s = .ok () { s with drive := drive } := by
  unfold outb
  rw [written]

theorem command_ok {bl : U8} {ecx : U32} (idle : s.drive.phase = .idle) (count : bl = BitVec.ofNat 8 (left + 1))
    (few : left < 256) (small : ecx.toNat < 2 ^ 28) :
    ∃ drive, command bl ecx s = .ok () { s with drive := drive } ∧ drive.media = s.drive.media ∧
      drive.delay = s.drive.delay ∧ drive.phase = .block ecx.toNat left (s.drive.delay ecx.toNat) 0 := by
  obtain ⟨⟨media, delay, sectors, low, mid, high, device, phase⟩, mem⟩ := s
  change phase = .idle at idle
  subst idle
  have device_mode : (0xe0 ||| (ecx >>> 24).setWidth 8 &&& 0x0f : U8) &&& 0x50 = 0x40 := by
    apply BitVec.eq_of_getLsbD_eq
    intro i less
    interval_cases i <;> simp
  have device_low : (0xe0 ||| (ecx >>> 24).setWidth 8 &&& 0x0f : U8).setWidth 4 = (ecx >>> 24).setWidth 4 := by
    apply BitVec.eq_of_getLsbD_eq
    intro i less
    interval_cases i <;> simp
  obtain ⟨set, eq⟩ : ∃ set : Drive, set = ⟨media, delay, bl, ecx.setWidth 8, (ecx >>> 8).setWidth 8,
    (ecx >>> 16).setWidth 8, 0xe0 ||| (ecx >>> 24).setWidth 8 &&& 0x0f, .idle⟩ := ⟨_, rfl⟩
  have first : set.lba = ecx.toNat := by
    rw [eq]
    exact Drive.lba_eq rfl rfl rfl device_low small
  have others : set.further = left := by
    rw [eq]
    exact Drive.further_eq count few
  have started : set.out8 0x1f7 0x20 = .ok { set with phase := .block ecx.toNat left (delay ecx.toNat) 0 } := by
    unfold Drive.out8
    rw [← first, ← others, eq]
    dsimp only
    rw [if_neg (by decide), if_neg (by decide), if_neg (by decide), if_neg (by decide), if_neg (by decide),
      if_pos ⟨rfl, rfl, device_mode⟩]
  refine ⟨{ set with phase := .block ecx.toNat left (delay ecx.toNat) 0 }, ?_, ?_, ?_, ?_⟩
  · unfold command
    rw [Program.bind_ok (outb_ok rfl), Program.bind_ok (outb_ok rfl), Program.bind_ok (outb_ok rfl),
      Program.bind_ok (outb_ok rfl), Program.bind_ok (outb_ok rfl)]
    exact outb_ok (eq ▸ started)
  · rw [eq]
  · rw [eq]
  · rfl

/-- However long the drive takes for each sector, `read_disk_32` reads the sectors that it is asked for. -/
theorem readDisk32_loads {edi ecx : U32} {bl : U8} (idle : s.drive.phase = .idle) (some_ : bl ≠ 0)
    (small : ecx.toNat < 2 ^ 28) (fits : edi.toNat + 512 * bl.toNat ≤ 2 ^ 32)
    (enough : ∀ k < bl.toNat, s.drive.delay (ecx.toNat + k) < polls) :
    ∃ t, readDisk32 polls edi ecx bl s = .ok () t ∧ t.drive.phase = .idle ∧ t.drive.media = s.drive.media ∧
      t.drive.delay = s.drive.delay ∧ Delivered s.drive.media s.mem t.mem ecx.toNat edi.toNat bl.toNat := by
  obtain ⟨left, count⟩ : ∃ left, bl.toNat = left + 1 := by
    apply Nat.exists_eq_succ_of_ne_zero
    intro zero
    exact some_ (BitVec.eq_of_toNat_eq zero)
  have few := bl.isLt
  rw [count] at fits enough ⊢
  have value : bl = BitVec.ofNat 8 (left + 1) := by rw [← count, BitVec.ofNat_toNat, BitVec.setWidth_eq]
  obtain ⟨drive, started, media, delay, phase⟩ := command_ok idle value (by omega) small
  obtain ⟨mem, done, delivered⟩ := @readSectors_ok { s with drive := drive } ecx.toNat left polls edi fits
    (by rw [phase, delay]) (by rw [delay]; exact fun k less => enough k (by omega))
  rw [media] at delivered
  refine ⟨{ s with mem := mem, drive := { drive with phase := .idle } }, ?_, rfl, media, delay, delivered⟩
  unfold readDisk32
  rw [Program.bind_ok started, count, done]

/-- `read_disk_16` reads its sectors exactly if the drive needs no time between them: the status is looked at
    before the first one only. -/
theorem readDisk16_loads {di cx : U16} {ebx : U32} (idle : s.drive.phase = .idle) (some_ : cx ≠ 0)
    (small : ebx.toNat < 2 ^ 28) (fits : di.toNat + 512 * cx.toNat ≤ 2 ^ 16) (enough : s.drive.delay ebx.toNat < polls) :
    ((∃ t, readDisk16 polls di cx ebx s = .ok () t) ↔ ∀ k, 0 < k → k < cx.toNat → s.drive.delay (ebx.toNat + k) = 0) ∧
      ∀ t, readDisk16 polls di cx ebx s = .ok () t → t.drive.phase = .idle ∧ t.drive.media = s.drive.media ∧
        t.drive.delay = s.drive.delay ∧ Delivered s.drive.media s.mem t.mem ebx.toNat di.toNat cx.toNat := by
  obtain ⟨left, count⟩ : ∃ left, cx.toNat = left + 1 := by
    apply Nat.exists_eq_succ_of_ne_zero
    intro zero
    exact some_ (BitVec.eq_of_toNat_eq zero)
  have few : left < 128 := by omega
  have value : cx.setWidth 8 = BitVec.ofNat 8 (left + 1) := by
    apply BitVec.eq_of_toNat_eq
    rw [BitVec.toNat_setWidth, count, BitVec.toNat_ofNat]
  have turns : (cx * 256 - 1 : U16).toNat + 1 = 256 * (left + 1) := by
    rw [BitVec.toNat_sub, BitVec.toNat_mul, count, show (256 : U16).toNat = 256 from rfl,
      show (1 : U16).toNat = 1 from rfl]
    omega
  rw [count] at fits ⊢
  obtain ⟨drive, started, media, delay, phase⟩ := command_ok idle value (by omega) small
  have ready := @waits_ok { s with drive := drive } ebx.toNat left _ 0 polls phase enough
  have run (t : Disk) : readDisk16 polls di cx ebx s = .ok () t ↔ ∃ b, readWords di (256 * (left + 1)) { s with
      drive := { drive with phase := .block ebx.toNat left 0 0 } } = .ok b t := by
    unfold readDisk16
    rw [Program.bind_ok started, Program.bind_ok ready, turns]
    constructor
    · intro done
      obtain ⟨b, u, first, last⟩ := Program.bind_completed done
      cases last
      exact ⟨b, first⟩
    · rintro ⟨b, done⟩
      rw [Program.bind_ok done]
      rfl
  obtain ⟨exact_, loaded⟩ := @readWords_sectors { s with
    drive := { drive with phase := .block ebx.toNat left 0 0 } } 16 ebx.toNat left di fits rfl
  constructor
  · constructor
    · rintro ⟨t, done⟩ k positive less
      obtain ⟨b, words⟩ := (run t).mp done
      have prompt := exact_.mp ⟨b, t, words⟩ (k - 1) (by omega)
      change drive.delay (ebx.toNat + 1 + (k - 1)) = 0 at prompt
      rw [delay, show ebx.toNat + 1 + (k - 1) = ebx.toNat + k by omega] at prompt
      exact prompt
    · intro prompt
      obtain ⟨b, t, words⟩ := exact_.mpr fun k less => by
        have later := prompt (k + 1) (by omega) (by omega)
        rw [← delay, show ebx.toNat + (k + 1) = ebx.toNat + 1 + k by omega] at later
        exact later
      exact ⟨t, (run t).mpr ⟨b, words⟩⟩
  · intro t done
    obtain ⟨b, words⟩ := (run t).mp done
    obtain ⟨after, delivered⟩ := loaded b t words
    rw [after]
    rw [media] at delivered
    exact ⟨rfl, media, delay, delivered⟩

theorem Delivered.unique {media : Nat → Nat → U8} {mem after after' : Memory} {base : Nat}
    (delivered : Delivered media mem after lba base n) (delivered' : Delivered media mem after' lba base n) :
    after = after' := by
  funext x
  rcases Decidable.em (base ≤ x ∧ x < base + 512 * n) with ⟨low, high⟩ | outside
  · have here := delivered.there (x - base) (by omega)
    have here' := delivered'.there (x - base) (by omega)
    rw [Nat.add_sub_cancel' low] at here here'
    exact here.trans here'.symm
  · exact (delivered.outside x (by omega)).trans (delivered'.outside x (by omega)).symm

/-- A drive at rest that takes five polls for each sector. -/
def slowDisk : Disk := ⟨⟨fun lba i => BitVec.ofNat 8 (lba + i), fun _ => 5, 0, 0, 0, 0, 0, .idle⟩, fun _ => 0⟩

end LiziOS.Loader
