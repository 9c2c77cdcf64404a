import LiziOS.Machine

namespace LiziOS

/-! `bitmap.c`. The search only reads: it is a function of what it reads, `read i` being the byte
`bitmap->bits[i]`. -/

/-- The first loop of `bitmap_request_bits`. -/
def skipFull (read : U32 → Except Fault U8) (length idxByte : U32) : Except Fault U32 := do
  let byte ← read idxByte
  if full : 0xff = byte ∧ idxByte < length then skipFull read length (idxByte + 1)
  else return idxByte
termination_by length.toNat - idxByte.toNat
decreasing_by
  have less := BitVec.lt_def.mp full.2
  have next : (idxByte + 1).toNat = idxByte.toNat + 1 := Memory.toNat_succ (by omega)
  omega

/-- The second loop. The mask `(u8)(1 << idx_bit)` is zero from 8 on. -/
def firstClear (byte : U8) (idxBit : Nat) : Nat :=
  if ((1 : U8) <<< idxBit) &&& byte ≠ 0 then firstClear byte (idxBit + 1) else idxBit
termination_by 8 - idxBit
decreasing_by
  rename_i set
  have small : idxBit < 8 := by
    by_contra large
    apply set
    apply BitVec.eq_of_getLsbD_eq
    intro i below
    simp [show i < idxBit by omega]
  omega

def bitmapGetBit (read : U32 → Except Fault U8) (bitIndex : U32) : Except Fault Bool := do
  let byte ← read (bitIndex / 8)
  return byte &&& ((1 : U8) <<< (bitIndex % 8).toNat) ≠ 0

/-- The third loop, with `bit_left` as the number of turns. -/
def scanRun (read : U32 → Except Fault U8) (n : U32) (nextBit count : U32) : Nat → Except Fault U32
  | 0 => return -1
  | bitLeft + 1 => do
    let set ← bitmapGetBit read nextBit
    let count := if !set then count + 1 else 0
    if count = n then return nextBit - n + 1
    else scanRun read n (nextBit + 1) count bitLeft

def requestBits (ndebug : Bool) (read : U32 → Except Fault U8) (length n : U32) :
    Except Fault U32 := do
  let idxByte ← skipFull read length 0
  if !ndebug ∧ ¬ idxByte < length then .error (.panic .bitmapRequestBits)
  else if idxByte = length then return -1
  else
    let byte ← read idxByte
    let bitIdxStart := idxByte * 8 + BitVec.ofNat 32 (firstClear byte 0)
    if n = 1 then return bitIdxStart
    else
      let bitLeft := length * 8 - bitIdxStart
      scanRun read n (bitIdxStart + 1) 1 bitLeft.toNat

namespace Memory

def peek (s : Machine) (a : U32) : Except Fault U8 :=
  match s.translate a with
  | some p => .ok (s.phys p)
  | none => .error .pageFault

def bitmapInit (bitmap : Bitmap) : M Unit := memset bitmap.bits 0 bitmap.length.toNat

def bitmapSetBit (bitmap : Bitmap) (bitIndex : U32) (value : U8) : M Unit := do
  let byte ← load8 (bitmap.bits + bitIndex / 8)
  let mask := (1 : U8) <<< (bitIndex % 8).toNat
  store8 (bitmap.bits + bitIndex / 8) (if value ≠ 0 then byte ||| mask else byte &&& ~~~mask)

def bitmapRequestBits (bitmap : Bitmap) (n : U32) : M U32 := fun s =>
  match requestBits s.ndebug (fun i => peek s (bitmap.bits + i)) bitmap.length n with
  | .ok start => .ok start s
  | .error fault => .error fault s

/-- Bit `i` of a bitmap, read through its linear address. -/
def bitAt (s : Machine) (bitmap : Bitmap) (i : Nat) : Option Bool :=
  (s.translate (bitmap.bits + BitVec.ofNat 32 (i / 8))).map fun p => (s.phys p).getLsbD (i % 8)

end Memory

/-- The bytes up to the one at index `length`, which the search may read, hold the bits `bit`. -/
def Reads (read : U32 → Except Fault U8) (length : Nat) (bit : Nat → Bool) : Prop :=
  ∀ i ≤ length, ∃ byte, read (BitVec.ofNat 32 i) = .ok byte ∧
    ∀ j < 8, byte.getLsbD j = bit (8 * i + j)

def ClearRun (bit : Nat → Bool) (start n : Nat) : Prop := ∀ i, start ≤ i → i < start + n → bit i = false

variable {read : U32 → Except Fault U8} {bit : Nat → Bool} {length n : U32}

theorem full_byte {byte : U8} : 0xff = byte ↔ ∀ j < 8, byte.getLsbD j = true := by
  constructor
  · rintro rfl j below
    interval_cases j <;> rfl
  · intro set
    apply BitVec.eq_of_getLsbD_eq
    intro j below
    rw [set j below]
    interval_cases j <;> rfl

theorem and_mask_ne {byte : U8} {j : Nat} (below : j < 8) :
    byte &&& ((1 : U8) <<< j) ≠ 0 ↔ byte.getLsbD j = true := by
  constructor
  · intro set
    by_contra clear
    apply set
    apply BitVec.eq_of_getLsbD_eq
    intro i inside
    by_cases same : i = j
    · simp [same, clear]
    · by_cases less : i < j
      · simp [less]
      · simp [inside, show i - j ≠ 0 by omega]
  · intro set zero
    have bit := congrArg (BitVec.getLsbD · j) zero
    simp only [BitVec.getLsbD_and, set, BitVec.getLsbD_shiftLeft] at bit
    simp [below] at bit

theorem skipFull_ok (reads : Reads read length.toNat bit) (idx : Nat) (inside : idx ≤ length.toNat) :
    ∃ r, skipFull read length (BitVec.ofNat 32 idx) = .ok (BitVec.ofNat 32 r) ∧ idx ≤ r ∧
      r ≤ length.toNat ∧ (∀ i, 8 * idx ≤ i → i < 8 * r → bit i = true) ∧
      (r < length.toNat → ∃ j < 8, bit (8 * r + j) = false) := by
  have bound := length.isLt
  generalize left : length.toNat - idx = turns
  induction turns generalizing idx with
  | zero =>
    have last : idx = length.toNat := by omega
    obtain ⟨byte, loaded, -⟩ := reads idx inside
    refine ⟨idx, ?_, le_refl idx, inside, by omega, by omega⟩
    rw [skipFull.eq_1, loaded]
    simp only [bind, Except.bind]
    rw [dif_neg (by rw [BitVec.lt_def, BitVec.toNat_ofNat]; omega)]
    rfl
  | succ turns ih =>
    obtain ⟨byte, loaded, bits⟩ := reads idx inside
    rw [skipFull.eq_1, loaded]
    simp only [bind, Except.bind]
    have less : BitVec.ofNat 32 idx < length := by
      rw [BitVec.lt_def, BitVec.toNat_ofNat, Nat.mod_eq_of_lt (by omega)]
      omega
    by_cases full : 0xff = byte
    · rw [dif_pos ⟨full, less⟩]
      obtain ⟨r, found, above, below, set, clear⟩ := ih (idx + 1) (by omega) (by omega)
      refine ⟨r, ?_, by omega, below, ?_, clear⟩
      · rw [← found, BitVec.ofNat_add]
        rfl
      · intro i low high
        by_cases first : i < 8 * (idx + 1)
        · have eq : i = 8 * idx + (i - 8 * idx) := by omega
          rw [eq, ← bits _ (by omega)]
          exact full_byte.mp full _ (by omega)
        · exact set i (by omega) high
    · rw [dif_neg fun both => full both.1]
      refine ⟨idx, rfl, le_refl idx, inside, by omega, fun _ => ?_⟩
      by_contra none
      apply full
      rw [full_byte]
      intro j below
      rw [bits j below]
      by_contra clear
      exact none ⟨j, below, by simpa using clear⟩

theorem firstClear_ok (byte : U8) (idx : Nat) (notFull : ∃ j < 8, idx ≤ j ∧ byte.getLsbD j = false) :
    firstClear byte idx < 8 ∧ idx ≤ firstClear byte idx ∧
      byte.getLsbD (firstClear byte idx) = false ∧
      ∀ j, idx ≤ j → j < firstClear byte idx → byte.getLsbD j = true := by
  obtain ⟨j, small, above, clear⟩ := notFull
  generalize left : 8 - idx = turns
  induction turns generalizing idx with
  | zero => omega
  | succ turns ih =>
    rw [firstClear.eq_1, BitVec.and_comm]
    by_cases set : byte.getLsbD idx = true
    · rw [if_pos ((and_mask_ne (by omega)).mpr set)]
      have other : idx ≠ j := by
        rintro rfl
        rw [clear] at set
        contradiction
      obtain ⟨below, low, found, first⟩ := ih (idx + 1) (by omega) (by omega)
      refine ⟨below, by omega, found, ?_⟩
      intro i least less
      by_cases eq : i = idx
      · rw [eq]; exact set
      · exact first i (by omega) less
    · rw [if_neg (by rw [and_mask_ne (by omega)]; exact set)]
      exact ⟨by omega, le_refl idx, by simpa using set, fun i least less => by omega⟩

theorem bitmapGetBit_ok (reads : Reads read length.toNat bit) (small : 8 * length.toNat < 2 ^ 31)
    {i : Nat} (inside : i ≤ 8 * length.toNat) :
    bitmapGetBit read (BitVec.ofNat 32 i) = .ok (bit i) := by
  have value : (BitVec.ofNat 32 i).toNat = i := by
    rw [BitVec.toNat_ofNat, Nat.mod_eq_of_lt (by omega)]
  have quotient : BitVec.ofNat 32 i / 8 = BitVec.ofNat 32 (i / 8) := by
    apply BitVec.eq_of_toNat_eq
    rw [BitVec.toNat_udiv, value, BitVec.toNat_ofNat, Nat.mod_eq_of_lt (by omega)]
    rfl
  have remainder : (BitVec.ofNat 32 i % 8).toNat = i % 8 := by
    rw [BitVec.toNat_umod, value]
    rfl
  obtain ⟨byte, loaded, bits⟩ := reads (i / 8) (by omega)
  unfold bitmapGetBit
  rw [quotient, loaded, remainder]
  simp only [bind, Except.bind, pure, Except.pure, Except.ok.injEq]
  have bitEq := bits (i % 8) (by omega)
  rw [show 8 * (i / 8) + i % 8 = i by omega] at bitEq
  rw [← bitEq, Bool.eq_iff_iff, decide_eq_true_iff]
  exact and_mask_ne (by omega)

/-- The search behind its first loop, which has found a byte that is not full. -/
theorem requestBits_skipped {r : Nat} {byte : U8} (skipped : skipFull read length 0 = .ok (BitVec.ofNat 32 r))
    (inside : r < length.toNat) (small : 8 * length.toNat < 2 ^ 31)
    (loaded : read (BitVec.ofNat 32 r) = .ok byte) (below : firstClear byte 0 < 8) (ndebug : Bool) (n : U32) :
    requestBits ndebug read length n =
      if n = 1 then .ok (BitVec.ofNat 32 (8 * r + firstClear byte 0))
      else scanRun read n (BitVec.ofNat 32 (8 * r + firstClear byte 0 + 1)) 1
        (8 * length.toNat - (8 * r + firstClear byte 0)) := by
  have value : (BitVec.ofNat 32 r).toNat = r := by
    rw [BitVec.toNat_ofNat, Nat.mod_eq_of_lt (by omega)]
  generalize found : firstClear byte 0 = first at below
  have less : BitVec.ofNat 32 r < length := by
    rw [BitVec.lt_def, value]
    omega
  have other : BitVec.ofNat 32 r ≠ length := by
    rintro rfl
    omega
  have start : BitVec.ofNat 32 r * 8 + BitVec.ofNat 32 first = BitVec.ofNat 32 (8 * r + first) := by
    rw [Nat.mul_comm 8 r, BitVec.ofNat_add, BitVec.ofNat_mul]
    rfl
  have left : (length * 8 - BitVec.ofNat 32 (8 * r + first)).toNat =
      8 * length.toNat - (8 * r + first) := by
    have product : (length * 8).toNat = 8 * length.toNat := by
      rw [BitVec.toNat_mul, show (8 : U32).toNat = 8 from rfl, Nat.mod_eq_of_lt (by omega)]
      omega
    have lower : (BitVec.ofNat 32 (8 * r + first)).toNat = 8 * r + first := by
      rw [BitVec.toNat_ofNat, Nat.mod_eq_of_lt (by omega)]
    rw [BitVec.toNat_sub_of_le (by rw [BitVec.le_def, product, lower]; omega), product, lower]
  have next : BitVec.ofNat 32 (8 * r + first) + 1 = BitVec.ofNat 32 (8 * r + first + 1) := by
    rw [BitVec.ofNat_add _ 1]
    rfl
  unfold requestBits
  rw [skipped]
  simp only [bind, Except.bind, less, not_true_eq_false, and_false, ↓reduceIte, other, loaded]
  rw [found, start, left, next]
  rfl

/-- What the search does before it looks for a run. -/
theorem requestBits_first (reads : Reads read length.toNat bit) (small : 8 * length.toNat < 2 ^ 31) :
    ((∀ i < 8 * length.toNat, bit i = true) ∧ ∀ ndebug n, requestBits ndebug read length n =
      if ndebug then .ok (-1) else .error (.panic .bitmapRequestBits)) ∨
    ∃ first < 8 * length.toNat, bit first = false ∧ (∀ i < first, bit i = true) ∧
      ∀ ndebug n, requestBits ndebug read length n =
        if n = 1 then .ok (BitVec.ofNat 32 first)
        else scanRun read n (BitVec.ofNat 32 (first + 1)) 1 (8 * length.toNat - first) := by
  obtain ⟨r, skipped, -, inside, set, clear⟩ := skipFull_ok reads 0 (Nat.zero_le _)
  by_cases last : r = length.toNat
  · left
    refine ⟨fun i below => set i (by omega) (by omega), fun ndebug n => ?_⟩
    have whole : BitVec.ofNat 32 r = length := by rw [last]; simp
    unfold requestBits
    rw [show (0 : U32) = BitVec.ofNat 32 0 from rfl, skipped]
    simp only [bind, Except.bind, whole]
    have irrefl : ¬ length < length := by rw [BitVec.lt_def]; omega
    cases ndebug <;> simp [irrefl, pure, Except.pure]
  · right
    obtain ⟨byte, loaded, bits⟩ := reads r inside
    obtain ⟨j, jSmall, jClear⟩ := clear (by omega)
    obtain ⟨firstSmall, -, firstIsClear, before⟩ := firstClear_ok byte 0
      ⟨j, jSmall, Nat.zero_le j, by rw [bits j jSmall]; exact jClear⟩
    refine ⟨8 * r + firstClear byte 0, by omega, by rw [← bits _ firstSmall]; exact firstIsClear, ?_,
      requestBits_skipped skipped (by omega) small loaded firstSmall⟩
    intro i below
    by_cases low : i < 8 * r
    · exact set i (by omega) low
    · have eq : i = 8 * r + (i - 8 * r) := by omega
      rw [eq, ← bits _ (by omega)]
      exact before _ (by omega) (by omega)

/-- The scan, from a point where the `c` bits before it are clear and end the scanned part. -/
theorem scanRun_ok (reads : Reads read length.toNat bit) (small : 8 * length.toNat < 2 ^ 31)
    (n : U32) (start next c : Nat) (left : Nat) (last : next + left = 8 * length.toNat + 1)
    (above : start + c ≤ next) (few : c < n.toNat) (clear : ClearRun bit (next - c) c)
    (none : ∀ i, start ≤ i → i + n.toNat ≤ next → ¬ ClearRun bit i n.toNat)
    (stop : next - c = start ∨ bit (next - c - 1) = true) :
    (∃ found, scanRun read n (BitVec.ofNat 32 next) (BitVec.ofNat 32 c) left =
        .ok (BitVec.ofNat 32 found) ∧ start ≤ found ∧ found + n.toNat ≤ 8 * length.toNat + 1 ∧
        ClearRun bit found n.toNat ∧ ∀ i, start ≤ i → i < found → ¬ ClearRun bit i n.toNat) ∨
    (scanRun read n (BitVec.ofNat 32 next) (BitVec.ofNat 32 c) left = .ok (-1) ∧
      ∀ i, start ≤ i → i + n.toNat ≤ 8 * length.toNat + 1 → ¬ ClearRun bit i n.toNat) := by
  induction left generalizing next c with
  | zero =>
    right
    exact ⟨rfl, fun i least inside => none i least (by omega)⟩
  | succ left ih =>
    have got := bitmapGetBit_ok reads small (i := next) (by omega)
    have nextEq : BitVec.ofNat 32 next + 1 = BitVec.ofNat 32 (next + 1) := by
      rw [BitVec.ofNat_add]
      rfl
    rw [scanRun, got]
    simp only [bind, Except.bind, nextEq]
    have bound := n.isLt
    cases set : bit next with
    | true =>
      have zero : (0 : U32) ≠ n := by
        rintro rfl
        simp at few
      simp only [Bool.not_true, Bool.false_eq_true, ↓reduceIte, zero]
      apply ih (next + 1) 0 (by omega) (by omega) (by omega)
      · intro i low high
        omega
      · intro i least inside run
        by_cases past : i + n.toNat ≤ next
        · exact none i least past run
        · have hit := run next (by omega) (by omega)
          rw [set] at hit
          contradiction
      · right
        simpa using set
    | false =>
      have count : BitVec.ofNat 32 c + 1 = BitVec.ofNat 32 (c + 1) := by
        rw [BitVec.ofNat_add]
        rfl
      simp only [Bool.not_false, ↓reduceIte, count]
      have longer : ClearRun bit (next + 1 - (c + 1)) (c + 1) := by
        intro i low high
        by_cases eq : i = next
        · rw [eq]; exact set
        · exact clear i (by omega) (by omega)
      by_cases done : c + 1 = n.toNat
      · have eq : BitVec.ofNat 32 (c + 1) = n := by rw [done]; simp
        rw [if_pos eq]
        left
        refine ⟨next - c, ?_, by omega, by omega, ?_, ?_⟩
        · have value : BitVec.ofNat 32 next - n + 1 = BitVec.ofNat 32 (next - c) := by
            apply BitVec.eq_of_toNat_eq
            rw [← eq]
            simp only [BitVec.toNat_add, BitVec.toNat_sub, BitVec.toNat_ofNat,
              show (1 : U32).toNat = 1 from rfl]
            omega
          rw [value]
          rfl
        · rw [← done]
          have same : next + 1 - (c + 1) = next - c := by omega
          rw [← same]
          exact longer
        · intro i least less run
          by_cases past : i + n.toNat ≤ next
          · exact none i least past run
          · rcases stop with first | before
            · omega
            · have hit := run (next - c - 1) (by omega) (by omega)
              rw [before] at hit
              contradiction
      · have other : BitVec.ofNat 32 (c + 1) ≠ n := by
          intro eq
          apply done
          rw [← eq, BitVec.toNat_ofNat, Nat.mod_eq_of_lt (by omega)]
        rw [if_neg other]
        apply ih (next + 1) (c + 1) (by omega) (by omega) (by omega) longer
        · intro i least inside run
          by_cases past : i + n.toNat ≤ next
          · exact none i least past run
          · rcases stop with first | before
            · omega
            · have hit := run (next - c - 1) (by omega) (by omega)
              rw [before] at hit
              contradiction
        · rcases stop with first | before
          · left; omega
          · right
            have same : next + 1 - (c + 1) - 1 = next - c - 1 := by omega
            rw [same]
            exact before

/-- The whole search for a run of two or more bits in a bitmap that is not full. The bit behind the
    bitmap may be the last of the run. -/
theorem requestBits_run (reads : Reads read length.toNat bit) (small : 8 * length.toNat < 2 ^ 31)
    (several : 1 < n.toNat) (ndebug : Bool) {free : Nat} (inside : free < 8 * length.toNat)
    (clear : bit free = false) :
    (∃ found, requestBits ndebug read length n = .ok (BitVec.ofNat 32 found) ∧
        found + n.toNat ≤ 8 * length.toNat + 1 ∧ ClearRun bit found n.toNat ∧
        ∀ i < found, ¬ ClearRun bit i n.toNat) ∨
    (requestBits ndebug read length n = .ok (-1) ∧
      ∀ i, i + n.toNat ≤ 8 * length.toNat + 1 → ¬ ClearRun bit i n.toNat) := by
  rcases requestBits_first reads small with ⟨full, -⟩ | ⟨first, firstInside, firstClear, before, search⟩
  · rw [full free inside] at clear
    contradiction
  · have notOne : n ≠ 1 := by rintro rfl; simp at several
    have early (i : Nat) (less : i < first) : ¬ ClearRun bit i n.toNat := by
      intro run
      have hit := run i (le_refl i) (by omega)
      rw [before i less] at hit
      contradiction
    rw [search, if_neg notOne]
    have scanned := scanRun_ok reads small n first (first + 1) 1 (8 * length.toNat - first)
      (by omega) (by omega) several
      (by intro i low high; rw [show i = first by omega]; exact firstClear)
      (by intro i least inside; omega) (.inl (by omega))
    rcases scanned with ⟨found, result, least, fits, run, minimal⟩ | ⟨result, nothing⟩
    · left
      refine ⟨found, result, fits, run, fun i less => ?_⟩
      by_cases low : i < first
      · exact early i low
      · exact minimal i (by omega) less
    · right
      refine ⟨result, fun i fits => ?_⟩
      by_cases low : i < first
      · exact early i low
      · exact nothing i (by omega) fits

/-- The search for a single bit. -/
theorem requestBits_one (reads : Reads read length.toNat bit) (small : 8 * length.toNat < 2 ^ 31)
    (ndebug : Bool) {first : Nat} (inside : first < 8 * length.toNat) (clear : bit first = false)
    (before : ∀ i < first, bit i = true) :
    requestBits ndebug read length 1 = .ok (BitVec.ofNat 32 first) := by
  rcases requestBits_first reads small with ⟨full, -⟩ | ⟨other, otherInside, otherClear, otherBefore, search⟩
  · rw [full first inside] at clear
    contradiction
  · have same : other = first := by
      rcases Nat.lt_trichotomy other first with less | eq | greater
      · rw [before other less] at otherClear
        contradiction
      · exact eq
      · rw [otherBefore first greater] at clear
        contradiction
    rw [search, if_pos rfl, same]

theorem requestBits_full (reads : Reads read length.toNat bit) (small : 8 * length.toNat < 2 ^ 31)
    (full : ∀ i < 8 * length.toNat, bit i = true) :
    requestBits false read length n = .error (.panic .bitmapRequestBits) := by
  rcases requestBits_first reads small with ⟨-, search⟩ | ⟨first, inside, clear, -, -⟩
  · simp [search]
  · rw [full first inside] at clear
    contradiction

end LiziOS
