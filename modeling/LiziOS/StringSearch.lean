import LiziOS.Strings

namespace LiziOS.Strings

open Recorded

/-! The functions of `string.c` that look for a character. -/

variable {s t : Ram 32} {str ch eax a : U32} {c : U8} {bytes chars : List U8}

/-- Where the bytes are that pass the test, in order. -/
def places (test : U8 → Prop) [DecidablePred test] : List U8 → List Nat
  | [] => []
  | b :: rest => if test b then 0 :: (places test rest).map (· + 1) else (places test rest).map (· + 1)

/-- Where the character is. -/
def occurrences (c : U8) (bytes : List U8) : List Nat := places (· = c) bytes

theorem mem_occurrences {i : Nat} : i ∈ occurrences c bytes ↔ bytes[i]? = some c := by
  unfold occurrences
  induction bytes generalizing i with
  | nil => simp [places]
  | cons b rest ih =>
    cases i with
    | zero =>
      rw [places]
      split
      · simp_all
      · simp_all
    | succ i =>
      rw [List.getElem?_cons_succ, ← ih, places]
      split
      · simp
      · simp

theorem occurrences_eq_nil : occurrences c bytes = [] ↔ c ∉ bytes := by
  rw [List.eq_nil_iff_forall_not_mem, List.mem_iff_getElem?, not_exists]
  exact forall_congr' fun i => not_congr mem_occurrences

/-- The address of a place. -/
def address (str none : U32) (place : Option Nat) : U32 := place.elim none fun i => str + BitVec.ofNat 32 i

/-! What the loops see. -/

/-- An `int` argument. -/
def int (c : U8) : U32 := c.setWidth 32

/-- A negative `char` is no byte value. -/
theorem char_eq_int (b c : U8) : char b = int c ↔ b = c ∧ c.toNat < 128 := by
  have value : (int c).toInt = c.toNat := by
    have bound := c.isLt
    rw [int, BitVec.toInt_eq_toNat_of_lt (by rw [BitVec.toNat_setWidth]; omega), BitVec.toNat_setWidth,
      Nat.mod_eq_of_lt (by omega)]
  have bound := b.isLt
  rw [← BitVec.toInt_inj, value, char, BitVec.toInt_signExtend_of_le (by decide), BitVec.toInt_eq_toNat_cond]
  constructor
  · intro same
    refine ⟨BitVec.eq_of_toNat_eq ?_, ?_⟩
    · split at same
      · omega
      · omega
    · split at same
      · omega
      · omega
  · rintro ⟨rfl, low⟩
    rw [if_pos (by omega)]

theorem places_seen (low : c.toNat < 128) (bytes : List U8) :
    places (fun b => char b = int c) bytes = occurrences c bytes := by
  induction bytes with
  | nil => rfl
  | cons b rest ih =>
    rw [places, occurrences, places, ih]
    by_cases same : b = c
    · rw [if_pos ((char_eq_int b c).mpr ⟨same, low⟩), if_pos same]
      rfl
    · rw [if_neg fun seen => same ((char_eq_int b c).mp seen).1, if_neg same]
      rfl

theorem places_unseen (high : ¬ c.toNat < 128) (bytes : List U8) :
    places (fun b => char b = int c) bytes = [] := by
  induction bytes with
  | nil => rfl
  | cons b rest ih => rw [places, if_neg fun seen => high ((char_eq_int b c).mp seen).2, ih, List.map_nil]

theorem address_next (str none : U32) (place : Option Nat) :
    address str none (place.map (· + 1)) = address (str + 1) none place := by
  cases place with
  | none => rfl
  | some i =>
    change str + BitVec.ofNat 32 (i + 1) = str + 1 + BitVec.ofNat 32 i
    rw [BitVec.add_assoc, Nat.add_comm i 1, BitVec.ofNat_add]
    rfl

theorem address_here (str none : U32) : address str none (some 0) = str := BitVec.add_zero str

theorem memchr_ends (there : BytesAt s.bytes str bytes) (ch eax : U32) :
    ∃ t, memchr str ch eax bytes.length s =
        some (address str eax (places (fun b => char b = ch) bytes).head?, t) ∧
      Within (Range str bytes.length) (fun _ => False) s t := by
  induction bytes generalizing s str with
  | nil => exact ⟨s, rfl, Within.refl s⟩
  | cons b rest ih =>
    have within : Within (Range str (rest.length + 1)) (fun _ => False) s (s.read str) :=
      within_read (range_self (Nat.succ_pos _))
    rw [List.length_cons, memchr, bind_load, there.1, places]
    by_cases seen : char b = ch
    · refine ⟨s.read str, ?_, within⟩
      rw [if_pos seen, if_pos seen, List.head?_cons, address_here]
      rfl
    · obtain ⟨t, ends, within'⟩ := ih (s := s.read str) there.2
      refine ⟨t, ?_, within.trans (within'.mono (fun _ => Range.succ) fun _ no => no)⟩
      rw [if_neg seen, if_neg seen, ends, List.head?_map, address_next]

theorem read_twice (n : Nat) : Within (Range str (n + 1)) (fun _ => False) s ((s.read str).read str) :=
  (within_read (range_self (Nat.succ_pos n))).trans (within_read (range_self (Nat.succ_pos n)))

theorem strchr_ends (string : StringAt s.bytes str chars) (ch : U32) :
    ∃ t, (∀ turns, chars.length < turns → strchr str ch turns s =
        some (address str 0 (places (fun b => char b = ch) (chars ++ [eos])).head?, t)) ∧
      Within (Range str (chars.length + 1)) (fun _ => False) s t := by
  induction chars generalizing s str with
  | nil =>
    have nul : s.bytes str = eos := string
    have within : Within (Range str 1) (fun _ => False) s (s.read str) := within_read (range_self Nat.one_pos)
    rw [List.nil_append, places]
    by_cases seen : char eos = ch
    · refine ⟨s.read str, fun turns enough => ?_, within⟩
      obtain ⟨fewer, rfl⟩ := Nat.exists_eq_add_one_of_ne_zero (Nat.ne_zero_of_lt enough)
      rw [strchr, bind_load, nul, if_pos seen, if_pos seen, List.head?_cons, address_here]
      rfl
    · refine ⟨(s.read str).read str, fun turns enough => ?_, read_twice 0⟩
      obtain ⟨fewer, rfl⟩ := Nat.exists_eq_add_one_of_ne_zero (Nat.ne_zero_of_lt enough)
      rw [strchr, bind_load, nul, if_neg seen, if_neg seen, bind_load, read_bytes, if_pos nul]
      rfl
  | cons c rest ih =>
    have within : Within (Range str (rest.length + 2)) (fun _ => False) s (s.read str) :=
      within_read (range_self (Nat.succ_pos _))
    rw [List.cons_append, places]
    by_cases seen : char c = ch
    · refine ⟨s.read str, fun turns enough => ?_, within⟩
      obtain ⟨fewer, rfl⟩ := Nat.exists_eq_add_one_of_ne_zero (Nat.ne_zero_of_lt enough)
      rw [strchr, bind_load, string.1, if_pos seen, if_pos seen, List.head?_cons, address_here]
      rfl
    · obtain ⟨t, ends, within'⟩ := ih (s := (s.read str).read str) string.2.2
      refine ⟨t, fun turns enough => ?_,
        (read_twice _).trans (within'.mono (fun _ => Range.succ) fun _ no => no)⟩
      obtain ⟨fewer, rfl⟩ := Nat.exists_eq_add_one_of_ne_zero (Nat.ne_zero_of_lt enough)
      rw [strchr, bind_load, string.1, if_neg seen, if_neg seen, bind_load, read_bytes, string.1,
        if_neg string.2.1, ends fewer (Nat.lt_of_succ_lt_succ enough), List.head?_map, address_next]

theorem address_last (str none : U32) (place : Option Nat) :
    address str none (some ((place.map (· + 1)).getD 0)) = address (str + 1) str place := by
  cases place with
  | none => exact address_here str none
  | some i => exact address_next str str (some i)

theorem address_null (str : U32) (place : Option Nat) :
    address str 0 place = 0 ↔ ∀ i ∈ place, str + BitVec.ofNat 32 i = 0 := by
  cases place with
  | none => simp [address]
  | some i => simp [address]

/-- The loop of `strrchr` remembers the last place so far. -/
theorem strrchrLoop_ends (string : StringAt s.bytes str chars) (ch last : U32) :
    ∃ t, (∀ turns, chars.length < turns → strrchrLoop str ch last turns s =
        some (address str last (places (fun b => char b = ch) (chars ++ [eos])).getLast?, t)) ∧
      Within (Range str (chars.length + 1)) (fun _ => False) s t := by
  induction chars generalizing s str last with
  | nil =>
    have nul : s.bytes str = eos := string
    refine ⟨(s.read str).read str, fun turns enough => ?_, read_twice 0⟩
    obtain ⟨fewer, rfl⟩ := Nat.exists_eq_add_one_of_ne_zero (Nat.ne_zero_of_lt enough)
    rw [strrchrLoop, bind_load, nul, List.nil_append, places, bind_load, read_bytes, if_pos nul]
    by_cases seen : char eos = ch
    · rw [if_pos seen, if_pos seen, places, List.map_nil, List.getLast?_singleton, address_here]
      rfl
    · rw [if_neg seen, if_neg seen]
      rfl
  | cons c rest ih =>
    have tail : StringAt ((s.read str).read str).bytes (str + 1) rest := string.2.2
    obtain ⟨t, ends, within⟩ := ih tail (if char c = ch then str else last)
    refine ⟨t, fun turns enough => ?_, (read_twice _).trans (within.mono (fun _ => Range.succ) fun _ no => no)⟩
    obtain ⟨fewer, rfl⟩ := Nat.exists_eq_add_one_of_ne_zero (Nat.ne_zero_of_lt enough)
    rw [strrchrLoop, bind_load, string.1, List.cons_append, places, bind_load, read_bytes, string.1,
        if_neg string.2.1, ends fewer (Nat.lt_of_succ_lt_succ enough)]
    by_cases seen : char c = ch
    · rw [if_pos seen, if_pos seen, List.getLast?_cons, List.getLast?_map, address_last]
    · rw [if_neg seen, if_neg seen, List.getLast?_map, address_next]

/-! What the functions are for. -/

/-- Whatever was in EAX, the call returns where the first of the bytes is that is `c`, or NULL. -/
def MemchrFinds (s : Ram 32) (str : U32) (c : U8) (bytes : List U8) : Prop :=
  ∀ eax, ∃ t, memchr str (int c) eax bytes.length s = some (address str 0 (occurrences c bytes).head?, t) ∧
    Within (Range str bytes.length) (fun _ => False) s t

/-- The call returns where the first `c` is in the string with its terminator, or NULL. -/
def StrchrFinds (s : Ram 32) (str : U32) (c : U8) (chars : List U8) : Prop :=
  ∃ t, Returns (strchr str (int c)) s (address str 0 (occurrences c (chars ++ [eos])).head?) t ∧
    Within (Range str (chars.length + 1)) (fun _ => False) s t

/-- The call returns where the last `c` is in the string with its terminator, or NULL. -/
def StrrchrFinds (s : Ram 32) (str : U32) (c : U8) (chars : List U8) : Prop :=
  ∃ t, Returns (strrchr str (int c)) s (address str 0 (occurrences c (chars ++ [eos])).getLast?) t ∧
    Within (Range str (chars.length + 1)) (fun _ => False) s t

theorem memchrFinds_iff (there : BytesAt s.bytes str bytes) :
    MemchrFinds s str c bytes ↔ c.toNat < 128 ∧ c ∈ bytes := by
  constructor
  · intro finds
    by_contra not
    have nothing : (places (fun b => char b = int c) bytes).head? = none := by
      by_cases low : c.toNat < 128
      · rw [places_seen low, occurrences_eq_nil.mpr fun member => not ⟨low, member⟩]
        rfl
      · rw [places_unseen low]
        rfl
    -- what is returned is then in EAX
    have returned (eax : U32) : eax = address str 0 (occurrences c bytes).head? := by
      obtain ⟨t, found, -⟩ := finds eax
      obtain ⟨u, ends, -⟩ := memchr_ends there (int c) eax
      rw [nothing, found] at ends
      exact (congrArg Prod.fst (Option.some.inj ends)).symm
    exact absurd ((returned 0).trans (returned 1).symm) (by decide)
  · rintro ⟨low, member⟩ eax
    obtain ⟨t, ends, within⟩ := memchr_ends there (int c) eax
    refine ⟨t, ?_, within⟩
    rw [ends, places_seen low]
    cases found : occurrences c bytes with
    | nil => exact absurd member (occurrences_eq_nil.mp found)
    | cons i rest => rfl

/-- A search that returns the place it picks of those it has seen picks the right one of an ASCII character; of
    another it has seen none. -/
theorem finds_iff {f : Nat → M U32} {pick : List Nat → Option Nat} {n : Nat} {reads : U32 → Prop}
    (nothing : pick [] = none)
    (ends : ∃ t, (∀ turns, n < turns →
        f turns s = some (address str 0 (pick (places (fun b => char b = int c) bytes)), t)) ∧
      Within reads (fun _ => False) s t) :
    (∃ t, Returns f s (address str 0 (pick (occurrences c bytes))) t ∧ Within reads (fun _ => False) s t) ↔
      c.toNat < 128 ∨ ∀ i ∈ pick (occurrences c bytes), str + BitVec.ofNat 32 i = 0 := by
  obtain ⟨t, ends, within⟩ := ends
  have returns : Returns f s _ t := ⟨n + 1, ends⟩
  by_cases low : c.toNat < 128
  · rw [places_seen low] at returns
    exact ⟨fun _ => .inl low, fun _ => ⟨t, returns, within⟩⟩
  · rw [places_unseen low, nothing] at returns
    constructor
    · rintro ⟨u, finds, -⟩
      exact .inr ((address_null _ _).mp (finds.unique returns).1)
    · intro null
      refine ⟨t, ?_, within⟩
      rw [(address_null _ _).mpr (null.resolve_left low)]
      exact returns

theorem strchrFinds_iff (string : StringAt s.bytes str chars) : StrchrFinds s str c chars ↔
    c.toNat < 128 ∨ ∀ i ∈ (occurrences c (chars ++ [eos])).head?, str + BitVec.ofNat 32 i = 0 :=
  finds_iff rfl (strchr_ends string (int c))

theorem strrchrFinds_iff (string : StringAt s.bytes str chars) : StrrchrFinds s str c chars ↔
    c.toNat < 128 ∨ ∀ i ∈ (occurrences c (chars ++ [eos])).getLast?, str + BitVec.ofNat 32 i = 0 :=
  finds_iff rfl (strrchrLoop_ends string (int c) 0)

/-- `memchr` finds what is there, `strchr` and `strrchr` also say when nothing is; none of them finds a byte from
    128 on. -/
theorem character_search (there : BytesAt s.bytes a bytes) (string : StringAt s.bytes str chars) (c : U8) :
    (MemchrFinds s a c bytes ↔ c.toNat < 128 ∧ c ∈ bytes) ∧
      (StrchrFinds s str c chars ↔
        c.toNat < 128 ∨ ∀ i ∈ (occurrences c (chars ++ [eos])).head?, str + BitVec.ofNat 32 i = 0) ∧
      (StrrchrFinds s str c chars ↔
        c.toNat < 128 ∨ ∀ i ∈ (occurrences c (chars ++ [eos])).getLast?, str + BitVec.ofNat 32 i = 0) :=
  ⟨memchrFinds_iff there, strchrFinds_iff string, strrchrFinds_iff string⟩

/-- In "ab" the 'b' is found. -/
theorem character_search_ab : MemchrFinds abMemory 0x1000 0x62 [0x61, 0x62] ∧
    StrchrFinds abMemory 0x1000 0x62 [0x61, 0x62] ∧ StrrchrFinds abMemory 0x1000 0x62 [0x61, 0x62] := by
  have there : BytesAt abMemory.bytes 0x1000 [0x61, 0x62] := ⟨rfl, rfl, True.intro⟩
  obtain ⟨finds, first, last⟩ := character_search there abMemory_string 0x62
  exact ⟨finds.mpr (by decide), first.mpr (.inl (by decide)), last.mpr (.inl (by decide))⟩

/-- The byte 0xe9 at 0x1000, and nothing else in memory. -/
def accentMemory : Ram 32 := ⟨fun a => if a = 0x1000 then 0xe9 else 0, [], []⟩

/-- For a byte that is not there, `memchr` does not return NULL; for 0xe9, which is, `strchr` and `strrchr`
    return NULL. -/
theorem searches_fail : ¬ MemchrFinds accentMemory 0x1000 0x41 [0xe9] ∧
    ¬ StrchrFinds accentMemory 0x1000 0xe9 [0xe9] ∧ ¬ StrrchrFinds accentMemory 0x1000 0xe9 [0xe9] := by
  have string : StringAt accentMemory.bytes 0x1000 [0xe9] := by
    simp only [StringAt]
    decide
  have there : BytesAt accentMemory.bytes 0x1000 [0xe9] := ⟨rfl, True.intro⟩
  refine ⟨?_, ?_, ?_⟩
  · rw [memchrFinds_iff there]
    decide
  · rw [strchrFinds_iff string]
    decide
  · rw [strrchrFinds_iff string]
    decide

end LiziOS.Strings
