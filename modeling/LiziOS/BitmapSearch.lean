import LiziOS.Bitmap

namespace LiziOS

/-! `bitmap_request_bits` on a bitmap behind which nothing may be read. -/

variable {read : U32 → Except Fault U8} {mem : Nat → U8} {length n : U32}

/-- Bit `i` of the bitmap that starts where the memory `mem` starts. -/
def contentBit (mem : Nat → U8) (i : Nat) : Bool := (mem (i / 8)).getLsbD (i % 8)

/-- Bytes from index `length` on cannot be read. -/
def within (length : U32) (mem : Nat → U8) (i : U32) : Except Fault U8 :=
  if i < length then .ok (mem i.toNat) else .error .pageFault

/-- Some run of `n` clear bits lies inside the bitmap. -/
def HasRun (mem : Nat → U8) (length n : U32) : Prop :=
  ∃ start, start + n.toNat ≤ 8 * length.toNat ∧ ClearRun (contentBit mem) start n.toNat

theorem within_ok {i : Nat} (inside : i < length.toNat) :
    within length mem (BitVec.ofNat 32 i) = .ok (mem i) := by
  have bound := length.isLt
  have value : (BitVec.ofNat 32 i).toNat = i := by
    rw [BitVec.toNat_ofNat, Nat.mod_eq_of_lt (by omega)]
  unfold within
  rw [if_pos (by rw [BitVec.lt_def, value]; exact inside), value]

theorem within_fault {i : Nat} (outside : length.toNat ≤ i) (small : i < 2 ^ 32) :
    within length mem (BitVec.ofNat 32 i) = .error .pageFault := by
  unfold within
  rw [if_neg (by rw [BitVec.lt_def, BitVec.toNat_ofNat, Nat.mod_eq_of_lt small]; omega)]

theorem contentBit_byte {i j : Nat} (below : j < 8) : contentBit mem (8 * i + j) = (mem i).getLsbD j := by
  unfold contentBit
  rw [show (8 * i + j) / 8 = i by omega, show (8 * i + j) % 8 = j by omega]

theorem full_content {i : Nat} : 0xff = mem i ↔ ∀ j < 8, contentBit mem (8 * i + j) = true := by
  rw [full_byte]
  exact forall₂_congr fun j below => by rw [contentBit_byte below]

theorem bitmapGetBit_within {i : Nat} (inside : i < 8 * length.toNat) (small : 8 * length.toNat < 2 ^ 31) :
    bitmapGetBit (within length mem) (BitVec.ofNat 32 i) = .ok (contentBit mem i) := by
  have value : (BitVec.ofNat 32 i).toNat = i := by
    rw [BitVec.toNat_ofNat, Nat.mod_eq_of_lt (by omega)]
  have quotient : BitVec.ofNat 32 i / 8 = BitVec.ofNat 32 (i / 8) := by
    apply BitVec.eq_of_toNat_eq
    rw [BitVec.toNat_udiv, value, BitVec.toNat_ofNat, Nat.mod_eq_of_lt (by omega)]
    rfl
  have remainder : (BitVec.ofNat 32 i % 8).toNat = i % 8 := by
    rw [BitVec.toNat_umod, value]
    rfl
  unfold bitmapGetBit contentBit
  rw [quotient, within_ok (by omega), remainder]
  simp only [bind, Except.bind, pure, Except.pure, Except.ok.injEq]
  rw [Bool.eq_iff_iff, decide_eq_true_iff]
  exact and_mask_ne (by omega)

/-- The bit behind the bitmap cannot be tested. -/
theorem bitmapGetBit_outside (small : 8 * length.toNat < 2 ^ 31) :
    bitmapGetBit (within length mem) (BitVec.ofNat 32 (8 * length.toNat)) = .error .pageFault := by
  have quotient : BitVec.ofNat 32 (8 * length.toNat) / 8 = BitVec.ofNat 32 length.toNat := by
    apply BitVec.eq_of_toNat_eq
    rw [BitVec.toNat_udiv, BitVec.toNat_ofNat, BitVec.toNat_ofNat, show (8 : U32).toNat = 8 from rfl]
    omega
  unfold bitmapGetBit
  rw [quotient, within_fault (le_refl _) (by omega)]
  rfl

/-- The first loop, when byte `r` is the first that is not full. -/
theorem skipFull_within {r : Nat} (inside : r < length.toNat) (clear : 0xff ≠ mem r)
    (full : ∀ i < r, 0xff = mem i) (idx : Nat) (before : idx ≤ r) :
    skipFull (within length mem) length (BitVec.ofNat 32 idx) = .ok (BitVec.ofNat 32 r) := by
  have bound := length.isLt
  generalize left : r - idx = turns
  induction turns generalizing idx with
  | zero =>
    obtain rfl : idx = r := by omega
    rw [skipFull.eq_1, within_ok inside]
    simp only [bind, Except.bind]
    rw [dif_neg fun both => clear both.1]
    rfl
  | succ turns ih =>
    have less : BitVec.ofNat 32 idx < length := by
      rw [BitVec.lt_def, BitVec.toNat_ofNat, Nat.mod_eq_of_lt (by omega)]
      omega
    rw [skipFull.eq_1, within_ok (by omega)]
    simp only [bind, Except.bind]
    rw [dif_pos ⟨full idx (by omega), less⟩, ← ih (idx + 1) (by omega) (by omega), BitVec.ofNat_add]
    rfl

/-- The first loop reads on behind a full bitmap. -/
theorem skipFull_outside (full : ∀ i < length.toNat, 0xff = mem i) (idx : Nat) (inside : idx ≤ length.toNat) :
    skipFull (within length mem) length (BitVec.ofNat 32 idx) = .error .pageFault := by
  have bound := length.isLt
  generalize left : length.toNat - idx = turns
  induction turns generalizing idx with
  | zero =>
    rw [skipFull.eq_1, within_fault (by omega) (by omega)]
    rfl
  | succ turns ih =>
    have less : BitVec.ofNat 32 idx < length := by
      rw [BitVec.lt_def, BitVec.toNat_ofNat, Nat.mod_eq_of_lt (by omega)]
      omega
    rw [skipFull.eq_1, within_ok (by omega)]
    simp only [bind, Except.bind]
    rw [dif_pos ⟨full idx (by omega), less⟩, ← ih (idx + 1) (by omega) (by omega), BitVec.ofNat_add]
    rfl

/-- The search up to its third loop, when some bit is clear. -/
theorem requestBits_within {free : Nat} (inside : free < 8 * length.toNat)
    (clear : contentBit mem free = false)
    (small : 8 * length.toNat < 2 ^ 31) (ndebug : Bool) (n : U32) :
    ∃ first ≤ free, contentBit mem first = false ∧ (∀ i < first, contentBit mem i = true) ∧
      requestBits ndebug (within length mem) length n =
        if n = 1 then .ok (BitVec.ofNat 32 first)
        else scanRun (within length mem) n (BitVec.ofNat 32 (first + 1)) 1 (8 * length.toNat - first) := by
  have notFull : ∃ i, 0xff ≠ mem i := by
    refine ⟨free / 8, fun full => ?_⟩
    have set := full_content.mp full (free % 8) (by omega)
    rw [show 8 * (free / 8) + free % 8 = free by omega, clear] at set
    contradiction
  classical
  have least : ∀ i < Nat.find notFull, 0xff = mem i := fun i less => by
    have := Nat.find_min notFull less
    simpa using this
  have notLater : Nat.find notFull ≤ free / 8 := by
    apply Nat.find_min'
    intro full
    have set := full_content.mp full (free % 8) (by omega)
    rw [show 8 * (free / 8) + free % 8 = free by omega, clear] at set
    contradiction
  have found := Nat.find_spec notFull
  generalize Nat.find notFull = r at least notLater found
  have gap : ∃ j < 8, 0 ≤ j ∧ (mem r).getLsbD j = false := by
    by_contra none
    apply found
    rw [full_byte]
    intro j below
    by_contra set
    exact none ⟨j, below, Nat.zero_le j, by simpa using set⟩
  obtain ⟨below, -, firstIsClear, before⟩ := firstClear_ok (mem r) 0 gap
  have early : ∀ i < 8 * r + firstClear (mem r) 0, contentBit mem i = true := by
    intro i less
    by_cases low : i < 8 * r
    · have set := full_content.mp (least (i / 8) (by omega)) (i % 8) (by omega)
      rw [show 8 * (i / 8) + i % 8 = i by omega] at set
      exact set
    · rw [show i = 8 * r + (i - 8 * r) by omega, contentBit_byte (by omega)]
      exact before _ (by omega) (by omega)
  refine ⟨8 * r + firstClear (mem r) 0, ?_, by rw [contentBit_byte below]; exact firstIsClear, early, ?_⟩
  · by_contra late
    rw [early free (by omega)] at clear
    contradiction
  · exact requestBits_skipped (skipFull_within (by omega) found least 0 (Nat.zero_le _)) (by omega) small
      (within_ok (by omega)) below ndebug n

/-- The third loop as long as it stays inside the bitmap: it stops at the least run. The `c` clear
    bits before `next` are all there are behind the last set one. -/
theorem scanRun_within (small : 8 * length.toNat < 2 ^ 31) {found : Nat}
    (inside : found + n.toNat ≤ 8 * length.toNat) (run : ClearRun (contentBit mem) found n.toNat)
    (minimal : ∀ i < found, ¬ ClearRun (contentBit mem) i n.toNat) (next c left : Nat)
    (here : next < found + n.toNat) (enough : found + n.toNat ≤ next + left) (few : c < n.toNat)
    (behind : c ≤ next) (clear : ClearRun (contentBit mem) (next - c) c)
    (stop : next - c = 0 ∨ contentBit mem (next - c - 1) = true) :
    scanRun (within length mem) n (BitVec.ofNat 32 next) (BitVec.ofNat 32 c) left =
      .ok (BitVec.ofNat 32 found) := by
  induction left generalizing next c with
  | zero => omega
  | succ left ih =>
    rw [scanRun, bitmapGetBit_within (by omega) small]
    simp only [bind, Except.bind]
    have step : BitVec.ofNat 32 next + 1 = BitVec.ofNat 32 (next + 1) := by
      rw [BitVec.ofNat_add]
      rfl
    rw [step]
    cases set : contentBit mem next with
    | true =>
      have outside : next < found := by
        by_contra late
        rw [run next (by omega) here] at set
        contradiction
      have other : (0 : U32) ≠ n := by
        rintro rfl
        simp at few
      simp only [Bool.not_true, Bool.false_eq_true, ↓reduceIte, other]
      exact ih (next + 1) 0 (by omega) (by omega) (by omega) (by omega) (fun i low high => by omega)
        (.inr (by simpa using set))
    | false =>
      have count : BitVec.ofNat 32 c + 1 = BitVec.ofNat 32 (c + 1) := by
        rw [BitVec.ofNat_add]
        rfl
      simp only [Bool.not_false, ↓reduceIte, count]
      have longer : ClearRun (contentBit mem) (next - c) (c + 1) := by
        intro i low high
        by_cases eq : i = next
        · rw [eq]
          exact set
        · exact clear i low (by omega)
      by_cases done : c + 1 = n.toNat
      · have start : next - c = found := by
          have late : found ≤ next - c := by
            by_contra early
            rw [done] at longer
            exact minimal _ (by omega) longer
          omega
        have eq : BitVec.ofNat 32 (c + 1) = n := by
          rw [done]
          simp
        have value : BitVec.ofNat 32 next - n + 1 = BitVec.ofNat 32 found := by
          apply BitVec.eq_of_toNat_eq
          rw [← eq]
          simp only [BitVec.toNat_add, BitVec.toNat_sub, BitVec.toNat_ofNat,
              show (1 : U32).toNat = 1 from rfl]
          omega
        rw [if_pos eq, value]
        rfl
      · have other : BitVec.ofNat 32 (c + 1) ≠ n := by
          intro eq
          apply done
          rw [← eq, BitVec.toNat_ofNat, Nat.mod_eq_of_lt (by omega)]
        rw [if_neg other]
        have more : next + 1 < found + n.toNat := by
          by_contra last
          -- the bit before the counted ones would be in the run, and it is set
          rcases stop with zero | before
          · omega
          · rw [run (next - c - 1) (by omega) (by omega)] at before
            contradiction
        have same : next + 1 - (c + 1) = next - c := by omega
        exact ih (next + 1) (c + 1) more (by omega) (by omega) (by omega) (by rw [same]; exact longer)
          (by rw [same]; exact stop)

/-- A run inside the bitmap is found, the first of all, without a look at what lies behind the
    bitmap: there `within` fails. -/
theorem requestBits_success (ndebug : Bool) (small : 8 * length.toNat < 2 ^ 31) (positive : 1 ≤ n.toNat)
    (run : HasRun mem length n) :
    ∃ start, requestBits ndebug (within length mem) length n = .ok (BitVec.ofNat 32 start) ∧
      start + n.toNat ≤ 8 * length.toNat ∧ ClearRun (contentBit mem) start n.toNat ∧
      ∀ i < start, ¬ ClearRun (contentBit mem) i n.toNat := by
  classical
  obtain ⟨some_, fits, clear⟩ := run
  have runs : ∃ i, ClearRun (contentBit mem) i n.toNat := ⟨some_, clear⟩
  have least : ∀ i < Nat.find runs, ¬ ClearRun (contentBit mem) i n.toNat := fun i less =>
      Nat.find_min runs less
  have early : Nat.find runs ≤ some_ := Nat.find_min' runs clear
  have found := Nat.find_spec runs
  generalize Nat.find runs = start at least early found
  refine ⟨start, ?_, by omega, found, least⟩
  obtain ⟨first, low, firstClear, before, search⟩ :=
      requestBits_within (show start < 8 * length.toNat by omega)
    (found start (le_refl _) (by omega)) small ndebug n
  rw [search]
  by_cases one : n = 1
  · have same : first = start := by
      by_contra other
      apply least first (by omega)
      intro i above below
      rw [one, show (1 : U32).toNat = 1 from rfl] at below
      rw [show i = first by omega]
      exact firstClear
    rw [if_pos one, same]
  · have several : 1 < n.toNat := by
      by_contra few
      apply one
      apply BitVec.eq_of_toNat_eq
      rw [show (1 : U32).toNat = 1 from rfl]
      omega
    rw [if_neg one]
    apply scanRun_within small (by omega) found least (first + 1) 1 _ (by omega) (by omega) several (by omega)
    · intro i above below
      rw [show i = first by omega]
      exact firstClear
    · by_cases zero : first = 0
      · exact .inl (by omega)
      · exact .inr (before _ (by omega))

/-- Bits 0 and 2 are set: the first two clear bits behind one another are 3 and 4. -/
theorem requestBits_success_fragmented :
    ∃ start, requestBits false (within 1 fun _ => 0b101) 1 2 = .ok (BitVec.ofNat 32 start) ∧
      start + (2 : U32).toNat ≤ 8 * (1 : U32).toNat ∧
      ClearRun (contentBit fun _ => 0b101) start (2 : U32).toNat ∧
      ∀ i < start, ¬ ClearRun (contentBit fun _ => 0b101) i (2 : U32).toNat := by
  apply requestBits_success false (by decide) (by decide)
  refine ⟨3, by decide, fun i above below => ?_⟩
  rw [show (2 : U32).toNat = 2 from rfl] at below
  interval_cases i <;> rfl

/-- The third loop, when there is no run inside the bitmap: it goes on to the bit behind. -/
theorem scanRun_outside (small : 8 * length.toNat < 2 ^ 31) (none : ¬ HasRun mem length n) (next c left : Nat)
    (last : next + left = 8 * length.toNat + 1) (some_ : 0 < left) (few : c < n.toNat) (behind : c ≤ next)
    (clear : ClearRun (contentBit mem) (next - c) c) :
    scanRun (within length mem) n (BitVec.ofNat 32 next) (BitVec.ofNat 32 c) left = .error .pageFault := by
  induction left generalizing next c with
  | zero => omega
  | succ left ih =>
    by_cases end_ : next = 8 * length.toNat
    · rw [scanRun, end_, bitmapGetBit_outside small]
      rfl
    · rw [scanRun, bitmapGetBit_within (by omega) small]
      simp only [bind, Except.bind]
      have step : BitVec.ofNat 32 next + 1 = BitVec.ofNat 32 (next + 1) := by
        rw [BitVec.ofNat_add]
        rfl
      rw [step]
      cases set : contentBit mem next with
      | true =>
        have other : (0 : U32) ≠ n := by
          rintro rfl
          simp at few
        simp only [Bool.not_true, Bool.false_eq_true, ↓reduceIte, other]
        exact ih (next + 1) 0 (by omega) (by omega) (by omega) (by omega) (fun i low high => by omega)
      | false =>
        have count : BitVec.ofNat 32 c + 1 = BitVec.ofNat 32 (c + 1) := by
          rw [BitVec.ofNat_add]
          rfl
        have longer : ClearRun (contentBit mem) (next - c) (c + 1) := by
          intro i low high
          by_cases eq : i = next
          · rw [eq]
            exact set
          · exact clear i low (by omega)
        have other : BitVec.ofNat 32 (c + 1) ≠ n := by
          intro eq
          have done : c + 1 = n.toNat := by
            rw [← eq, BitVec.toNat_ofNat, Nat.mod_eq_of_lt (by omega)]
          rw [done] at longer
          exact none ⟨next - c, by omega, longer⟩
        simp only [Bool.not_false, ↓reduceIte, count, other]
        have same : next + 1 - (c + 1) = next - c := by omega
        exact ih (next + 1) (c + 1) (by omega) (by omega)
          (by
            by_contra full
            exact none ⟨next - c, by omega, fun i low high => longer i low (by omega)⟩)
          (by omega) (by rw [same]; exact longer)

theorem reads_content (length : U32) {m : Nat → U8} (small : 8 * length.toNat < 2 ^ 31) :
    Reads (fun i => .ok (m i.toNat)) length.toNat (contentBit m) := by
  intro i inside
  have value : (BitVec.ofNat 32 i).toNat = i := by
    rw [BitVec.toNat_ofNat, Nat.mod_eq_of_lt (by omega)]
  refine ⟨m i, ?_, fun j below => (contentBit_byte below).symm⟩
  dsimp only
  rw [value]

theorem requestBits_outside (ndebug : Bool) (small : 8 * length.toNat < 2 ^ 31) (positive : 1 ≤ n.toNat)
    (none : ¬ HasRun mem length n) : requestBits ndebug (within length mem) length n = .error .pageFault := by
  by_cases full : ∀ i < 8 * length.toNat, contentBit mem i = true
  · have bytes : ∀ i < length.toNat, 0xff = mem i := fun i less =>
      full_content.mpr fun j below => full _ (by omega)
    unfold requestBits
    rw [show (0 : U32) = BitVec.ofNat 32 0 from rfl, skipFull_outside bytes 0 (Nat.zero_le _)]
    rfl
  · obtain ⟨free, inside, clear⟩ : ∃ i < 8 * length.toNat, contentBit mem i = false := by
      by_contra all
      apply full
      intro i inside
      by_contra clear
      exact all ⟨i, inside, by simpa using clear⟩
    obtain ⟨first, low, firstClear, -, search⟩ := requestBits_within inside clear small ndebug n
    have alone : ClearRun (contentBit mem) first 1 := by
      intro i above below
      rw [show i = first by omega]
      exact firstClear
    have several : 1 < n.toNat := by
      by_contra few
      have one : n.toNat = 1 := by omega
      exact none ⟨first, by omega, by rw [one]; exact alone⟩
    have other : n ≠ 1 := by
      rintro rfl
      simp at several
    rw [search, if_neg other]
    exact scanRun_outside small none (first + 1) 1 _ (by omega) (by omega) several (by omega) alone

/-- Without a run inside the bitmap the search always reads the byte behind it, and so never fails
    as it should. What it answers when that byte can be read: it panics on a full bitmap, and takes
    the bit behind the bitmap for one of its own. -/
theorem requestBits_failure (ndebug : Bool) (small : 8 * length.toNat < 2 ^ 31) (positive : 1 ≤ n.toNat)
    (none : ¬ HasRun mem length n) :
    requestBits ndebug (within length mem) length n = .error .pageFault ∧
    ((∀ i < 8 * length.toNat, contentBit mem i = true) →
      requestBits ndebug (fun i => .ok (mem i.toNat)) length n =
        if ndebug then .ok (-1) else .error (.panic .bitmapRequestBits)) ∧
    ((∃ i < 8 * length.toNat, contentBit mem i = false) →
      (requestBits ndebug (fun i => .ok (mem i.toNat)) length n = .ok (-1) ↔
        ¬ (n.toNat ≤ 8 * length.toNat + 1 ∧
          ClearRun (contentBit mem) (8 * length.toNat + 1 - n.toNat) n.toNat))) := by
  have reads := reads_content length (m := mem) small
  refine ⟨requestBits_outside ndebug small positive none, ?_, ?_⟩
  · intro full
    rcases requestBits_first reads small with ⟨-, search⟩ | ⟨first, inside, clear, -⟩
    · exact search ndebug n
    · rw [full first inside] at clear
      contradiction
  · rintro ⟨free, inside, clear⟩
    have several : 1 < n.toNat := by
      by_contra few
      have one : n.toNat = 1 := by omega
      refine none ⟨free, by omega, fun i above below => ?_⟩
      rw [show i = free by omega]
      exact clear
    rcases requestBits_run reads small several ndebug inside clear with ⟨found, result, fits, run, -⟩ |
        ⟨result, nothing⟩
    · -- a run that is not inside the bitmap ends with the bit behind it
      have last : found = 8 * length.toNat + 1 - n.toNat := by
        by_contra earlier
        exact none ⟨found, by omega, run⟩
      have some_ : BitVec.ofNat 32 found ≠ (-1 : U32) := by
        intro eq
        have numbers := congrArg BitVec.toNat eq
        rw [BitVec.toNat_ofNat, show (-1 : U32).toNat = 4294967295 from rfl] at numbers
        omega
      rw [result]
      refine ⟨fun eq => absurd (Except.ok.inj eq) some_, fun refused => ?_⟩
      exact absurd ⟨by omega, by rw [← last]; exact run⟩ refused
    · rw [result]
      exact ⟨fun _ both => nothing _ (by omega) both.2, fun _ => rfl⟩

/-- The last bit of a bitmap of one byte is clear, and so is the next byte. -/
def clearTail (i : Nat) : U8 := if i = 0 then 0x7f else 0

theorem clearTail_none : ¬ HasRun clearTail 1 2 := by
  rintro ⟨start, fits, clear⟩
  rw [show (2 : U32).toNat = 2 from rfl, show (1 : U32).toNat = 1 from rfl] at fits
  have first := clear start (le_refl _) (Nat.lt_add_of_pos_right (by decide))
  have small : start ≤ 6 := by omega
  interval_cases start <;> contradiction

theorem requestBits_failure_clearTail :
    requestBits false (within 1 clearTail) 1 2 = .error .pageFault :=
  (requestBits_failure false (by decide) (by decide) clearTail_none).1

/-- Bit 7 is returned for a run of two. -/
theorem requestBits_off_by_one :
    ¬ HasRun clearTail 1 2 ∧ requestBits false (fun i => .ok (clearTail i.toNat)) 1 2 = .ok 7 ∧
    requestBits false (within 1 clearTail) 1 2 ≠ .ok (-1) := by
  have reads := reads_content 1 (m := clearTail) (by decide)
  have run : ClearRun (contentBit clearTail) 7 (2 : U32).toNat := by
    intro i above below
    rw [show (2 : U32).toNat = 2 from rfl] at below
    interval_cases i <;> rfl
  refine ⟨clearTail_none, ?_, ?_⟩
  · rcases requestBits_run reads (by decide) (n := 2) (by decide) false
      (show 7 < 8 * (1 : U32).toNat by decide)
      rfl with ⟨found, result, fits, clear, -⟩ | ⟨-, nothing⟩
    · have last : found = 7 := by
        rw [show (2 : U32).toNat = 2 from rfl, show (1 : U32).toNat = 1 from rfl] at fits
        by_contra earlier
        apply clearTail_none
        exact ⟨found, by rw [show (2 : U32).toNat = 2 from rfl, show (1 : U32).toNat =
            1 from rfl]; omega, clear⟩
      rw [last] at result
      exact result
    · exact absurd run (nothing 7 (by decide))
  · rw [requestBits_outside false (by decide) (by decide) clearTail_none]
    exact fun eq => nomatch eq

end LiziOS
