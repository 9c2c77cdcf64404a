import LiziOS.Boot

namespace LiziOS.Loader

open ByteMemory Paging

/-! The directory and the tables that `setup_page` leaves. -/

variable {m : Memory} {i k x : Nat}

theorem clearPageDir_eq (m : Memory) (esi n : Nat) :
    clearPageDir m esi n x = if 0x100000 + esi ≤ x ∧ x < 0x100000 + esi + n then 0 else m x := by
  induction n generalizing m esi with
  | zero =>
    rw [if_neg (by omega)]
    rfl
  | succ n ih =>
    rw [clearPageDir, ih, pageDirTablePos, Function.update_apply]
    by_cases first : x = 0x100000 + esi
    · rw [if_neg (by omega), if_pos first, if_pos (by omega)]
    · by_cases rest : 0x100000 + (esi + 1) ≤ x ∧ x < 0x100000 + (esi + 1) + n
      · rw [if_pos rest, if_pos (by omega)]
      · rw [if_neg rest, if_neg first, if_neg (by omega)]

theorem createEntries_outside (m : Memory) (ebx esi : Nat) (eax : U32) (n : Nat)
    (outside : x < ebx + 4 * esi ∨ ebx + 4 * (esi + n) ≤ x) : createEntries m ebx esi eax n x = m x := by
  induction n generalizing m esi eax with
  | zero => rfl
  | succ n ih =>
    rw [createEntries, ih _ _ _ (by omega)]
    exact setWord_outside _ (by omega)

theorem createEntries_word (m : Memory) (ebx esi : Nat) (eax : U32) (n : Nat) (inside : k < n) :
    word (createEntries m ebx esi eax n) (ebx + 4 * (esi + k)) = eax + BitVec.ofNat 32 (4096 * k) := by
  induction n generalizing m esi eax k with
  | zero => omega
  | succ n ih =>
    rw [createEntries]
    cases k with
    | zero =>
      rw [word_congr (m := setWord m (ebx + esi * 4) eax) fun x above below =>
        createEntries_outside _ _ _ _ _ (by omega), Nat.add_zero, Nat.mul_comm 4 esi, word_setWord]
      simp
    | succ k =>
      have later := ih (setWord m (ebx + esi * 4) eax) (esi + 1) (eax + 0x1000) (k := k) (by omega)
      rw [show ebx + 4 * (esi + 1 + k) = ebx + 4 * (esi + (k + 1)) by omega] at later
      rw [later, Nat.mul_succ, Nat.add_comm _ 4096, BitVec.ofNat_add, BitVec.add_assoc]
      rfl

theorem mk_add (frame k : Nat) : mk frame + BitVec.ofNat 32 (4096 * k) = mk (frame + k) := by
  unfold mk
  rw [← BitVec.ofNat_add, Nat.mul_add]
  congr 1
  omega

/-- `setup_page`, with its constants worked out. -/
theorem setupPage_eq (m : Memory) : setupPage m =
    createEntries (createEntries (setWord (setWord (setWord (clearPageDir m 0 0x1000) 0x100000 (mk 0x101))
      0x100c00 (mk 0x101)) 0x100ffc (mk 0x100)) 0x101000 0 (mk 0) 256) 0x100000 769 (mk 0x102) 254 := rfl

/-- Only the directory and the first 256 entries of the first table are written. -/
theorem setupPage_outside (outside : x < 0x100000 ∨ 0x101400 ≤ x) : setupPage m x = m x := by
  rw [setupPage_eq, createEntries_outside _ _ _ _ _ (by omega), createEntries_outside _ _ _ _ _ (by omega),
    setWord_outside _ (by omega), setWord_outside _ (by omega), setWord_outside _ (by omega),
    clearPageDir_eq, if_neg (by omega)]

theorem setupPage_table (inside : i < 256) : entry (setupPage m) 0x101 i = mk i := by
  unfold entry
  rw [setupPage_eq, word_congr fun x above below => createEntries_outside _ _ _ _ _ (by omega)]
  have stored := createEntries_word (setWord (setWord (setWord (clearPageDir m 0 0x1000) 0x100000 (mk 0x101))
      0x100c00 (mk 0x101)) 0x100ffc (mk 0x100)) 0x101000 0 (mk 0) 256 inside
  rw [mk_add, Nat.zero_add] at stored
  exact stored

/-- What the directory has at its entry `i`. -/
def dirEntry (i : Nat) : U32 :=
  if i = 0 ∨ i = 768 then mk 0x101 else if i = 1023 then mk 0x100
  else if 769 ≤ i then mk (0x101 + (i - 768)) else 0

theorem setupPage_dir (inside : i < 1024) : entry (setupPage m) 0x100 i = dirEntry i := by
  unfold entry
  rw [setupPage_eq]
  by_cases kernel : 769 ≤ i ∧ i < 1023
  · have stored := createEntries_word (createEntries (setWord (setWord (setWord (clearPageDir m 0 0x1000)
      0x100000 (mk 0x101)) 0x100c00 (mk 0x101)) 0x100ffc (mk 0x100)) 0x101000 0 (mk 0) 256) 0x100000 769
      (mk 0x102) 254 (k := i - 769) (by omega)
    rw [mk_add, show 769 + (i - 769) = i by omega, show 0x102 + (i - 769) =
        0x101 + (i - 768) by omega] at stored
    unfold dirEntry
    rw [if_neg (by omega), if_neg (by omega), if_pos kernel.1]
    exact stored
  · rw [word_congr fun x above below => createEntries_outside _ _ _ _ _ (by omega),
      word_congr fun x above below => createEntries_outside _ _ _ _ _ (by omega)]
    unfold dirEntry
    by_cases first : i = 0
    · subst first
      rw [if_pos (.inl rfl), word_setWord_outside _ (by omega), word_setWord_outside _ (by omega)]
      exact word_setWord _ _ _
    · by_cases upper : i = 768
      · subst upper
        rw [if_pos (.inr rfl), word_setWord_outside _ (by omega)]
        exact word_setWord _ _ _
      · by_cases self : i = 1023
        · subst self
          rw [if_neg (by omega), if_pos rfl]
          exact word_setWord _ _ _
        · rw [if_neg (by omega), if_neg self, if_neg (by omega), word_setWord_outside _ (by omega),
            word_setWord_outside _ (by omega), word_setWord_outside _ (by omega)]
          apply word_zero
          intro x above below
          rw [clearPageDir_eq, if_pos (by omega)]

/-- The entries of the first table from 256 on, and those of the other tables of the kernel. -/
theorem setupPage_rest {t : Nat} (later : 0x102 ≤ t ∨ (t = 0x101 ∧ 256 ≤ i)) :
    entry (setupPage m) t i = entry m t i := by
  apply word_congr
  intro x above below
  exact setupPage_outside (by omega)

/-- Of all pages outside the recursive window, just those of the first megabyte are mapped, there
    and at 3 GiB. -/
def OnlyIntended (m : Memory) : Prop :=
  (∀ a < 2 ^ 32, a / 4096 / 1024 ≠ 1023 →
    ((Paging.translate m 0x100 a).isSome = true ↔ a < 0x100000 ∨ (0xc0000000 ≤ a ∧ a < 0xc0100000))) ∧
  ∀ i, 0xc0100000 + 4096 * i < 0xffc00000 → present (heapEntry m i) = false

/-- No entry of a kernel table that `setup_page` does not write is present. -/
def TablesClear (m : Memory) : Prop :=
  (∀ i, 256 ≤ i → i < 1024 → present (entry m 0x101 i) = false) ∧
  ∀ t, 0x102 ≤ t → t < 0x200 → ∀ i < 1024, present (entry m t i) = false

theorem walk_table {t page : Nat} (dir : dirEntry (page / 1024) = mk t) (small : t < 2 ^ 20)
    (inside : page < 2 ^ 20) : (walk (setupPage m) 0x100 page).isSome =
      present (entry (setupPage m) t (page % 1024)) := by
  unfold walk
  rw [setupPage_dir (by omega), dir]
  simp only [present_mk, ↓reduceIte, frameOf_mk small]
  cases present (entry (setupPage m) t (page % 1024)) <;> rfl

theorem walk_empty {page : Nat} (dir : dirEntry (page / 1024) = 0) (inside : page < 2 ^ 20) :
    (walk (setupPage m) 0x100 page).isSome = false := by
  unfold walk
  rw [setupPage_dir (by omega), dir]
  rfl

theorem translate_isSome (m : Memory) (root a : Nat) :
    (Paging.translate m root a).isSome = (walk m root (a / 4096)).isSome := by
  unfold Paging.translate
  rw [Option.isSome_map]

/-- The first table, through either of its two entries in the directory. -/
theorem present_first (clear : TablesClear m) (inside : i < 1024) :
    present (entry (setupPage m) 0x101 i) = true ↔ i < 256 := by
  by_cases low : i < 256
  · rw [setupPage_table low]
    simp [low]
  · rw [setupPage_rest (.inr ⟨rfl, by omega⟩), clear.1 i (by omega) inside]
    simp [low]

theorem onlyIntended_of_clear (clear : TablesClear m) : OnlyIntended (setupPage m) := by
  constructor
  · intro a inside outside
    rw [translate_isSome]
    rcases Nat.lt_trichotomy (a / 4096 / 1024) 0 with less | first | more
    · omega
    · rw [walk_table (t := 0x101) (by rw [first]; rfl) (by omega) (by omega),
        present_first clear (by omega)]
      omega
    · by_cases user : a / 4096 / 1024 < 768
      · rw [walk_empty (by
          unfold dirEntry
          rw [if_neg (by omega), if_neg (by omega), if_neg (by omega)]) (by omega)]
        simp only [Bool.false_eq_true, false_iff]
        omega
      · by_cases upper : a / 4096 / 1024 = 768
        · rw [walk_table (t := 0x101) (by rw [upper]; rfl) (by omega) (by omega),
            present_first clear (by omega)]
          omega
        · rw [walk_table (t := 0x101 + (a / 4096 / 1024 - 768)) (by
              unfold dirEntry
              rw [if_neg (by omega), if_neg outside, if_pos (by omega)]) (by omega) (by omega),
            setupPage_rest (.inl (by omega)), clear.2 _ (by omega) (by omega) _ (by omega)]
          simp only [Bool.false_eq_true, false_iff]
          omega
  · intro i inside
    unfold heapEntry
    by_cases first : 256 + i < 1024
    · rw [show 0x101 + (256 + i) / 1024 = 0x101 by omega, show (256 + i) % 1024 = 256 + i by omega,
        setupPage_rest (.inr ⟨rfl, by omega⟩), clear.1 _ (by omega) (by omega)]
    · rw [setupPage_rest (.inl (by omega)), clear.2 _ (by omega) (by omega) _ (by omega)]

theorem clear_of_onlyIntended (only : OnlyIntended (setupPage m)) : TablesClear m := by
  have heap (t i : Nat) (later : 0x102 ≤ t ∨ (t = 0x101 ∧ 256 ≤ i)) (small : t < 0x200)
      (inside : i < 1024) : present (entry m t i) = false := by
    have absent := only.2 (1024 * (t - 0x101) + i - 256) (by omega)
    unfold heapEntry at absent
    rw [show 0x101 + (256 + (1024 * (t - 0x101) + i - 256)) / 1024 = t by omega,
      show (256 + (1024 * (t - 0x101) + i - 256)) % 1024 = i by omega, setupPage_rest later] at absent
    exact absent
  exact ⟨fun i above inside => heap _ i (.inr ⟨rfl, above⟩) (by omega) inside,
    fun t above small i inside => heap t i (.inl above) small inside⟩

/-- What is mapped at boot depends on what was in memory before: the tables are pointed to, not
    cleared. -/
theorem setupPage_mapped (m : Memory) : OnlyIntended (setupPage m) ↔ TablesClear m :=
  ⟨clear_of_onlyIntended, onlyIntended_of_clear⟩

/-- With ones all over memory, every page of the upper quarter is mapped. -/
theorem setupPage_mapped_ones : ¬ OnlyIntended (setupPage fun _ => 0xff) := by
  intro only
  have absent := (clear_of_onlyIntended only).2 0x102 (by decide) (by decide) 0 (by decide)
  exact absurd absent (by decide)

end LiziOS.Loader
