import LiziOS.Library.Recorded
import LiziOS.Types

namespace LiziOS.Strings

open Recorded

/-! `string.c`, on memory as one address space shows it. -/

abbrev M := Recorded.Code 32

def eos : U8 := 0

/-- A `char` as an `int`: plain `char` is signed. -/
def char (byte : U8) : U32 := byte.signExtend 32

/-! Loops that a NUL ends take as many turns as they are given. -/

def strcpyLoop (ptr src : U32) : Nat → M Unit
  | 0 => endless
  | turns + 1 => do
    store ptr (← load src)
    if (← load src) = eos then return
    else strcpyLoop (ptr + 1) (src + 1) turns

def strcpy (dest src : U32) (turns : Nat) : M U32 := do
  strcpyLoop dest src turns
  return dest

/-- The loop with `count - nr` turns left; the answer is whether it has returned from `strncpy`. -/
def strncpyLoop (ptr src : U32) : Nat → M Bool
  | 0 => return false
  | left + 1 => do
    store ptr (← load src)
    if (← load src) = eos then return true
    else strncpyLoop (ptr + 1) (src + 1) left

def strncpy (dest src count : U32) : M U32 := do
  if ← strncpyLoop dest src count.toNat then return dest
  else
    store (dest + (count - 1)) eos
    return dest

/-- `while (*ptr != EOS && maxlen--)`: the byte is read before `maxlen` is looked at. -/
def strnlenLoop (ptr : U32) : Nat → M U32
  | 0 => do
    let _ ← load ptr
    return ptr
  | maxlen + 1 => do
    if (← load ptr) ≠ eos then strnlenLoop (ptr + 1) maxlen
    else return ptr

def strnlen (str maxlen : U32) : M U32 := do
  let ptr ← strnlenLoop str maxlen.toNat
  return ptr - str

/-- `*lhs < *rhs ? -1 : *lhs > *rhs`. -/
def compareChars (lhs rhs : U32) : M Int := do
  if (char (← load lhs)).slt (char (← load rhs)) then return -1
  else if (char (← load rhs)).slt (char (← load lhs)) then return 1
  else return 0

/-- The condition of the loop of `strcmp`. -/
def strcmpGoesOn (lhs rhs : U32) : M Bool := do
  if (← load lhs) = (← load rhs) then
    if (← load lhs) ≠ eos then return (← load rhs) ≠ eos
    else return false
  else return false

def strcmp (lhs rhs : U32) : Nat → M Int
  | 0 => endless
  | turns + 1 => do
    if ← strcmpGoesOn lhs rhs then strcmp (lhs + 1) (rhs + 1) turns
    else compareChars lhs rhs

def strchr (ptr ch : U32) : Nat → M U32
  | 0 => endless
  | turns + 1 => do
    if char (← load ptr) = ch then return ptr
    else if (← load ptr) = eos then return 0
    else strchr (ptr + 1) ch turns

def strrchrLoop (ptr ch last : U32) : Nat → M U32
  | 0 => endless
  | turns + 1 => do
    let last := if char (← load ptr) = ch then ptr else last
    if (← load ptr) = eos then return last
    else strrchrLoop (ptr + 1) ch last turns

def strrchr (str ch : U32) (turns : Nat) : M U32 := strrchrLoop str ch 0 turns

/-- The loop of `memcmp` leaves both pointers and what is left of `count`. -/
def memcmpLoop (lptr rptr : U32) : Nat → M (U32 × U32 × Nat)
  | 0 => return (lptr, rptr, 0)
  | count + 1 => do
    if (← load lptr) = (← load rptr) then memcmpLoop (lptr + 1) (rptr + 1) count
    else return (lptr, rptr, count + 1)

def memcmp (lhs rhs count : U32) : M Int := do
  let (lptr, rptr, count) ← memcmpLoop lhs rhs count.toNat
  if count = 0 then return 0
  else compareChars lptr rptr

def memset (ptr : U32) (ch : U8) : Nat → M Unit
  | 0 => return
  | count + 1 => do
    store ptr ch
    memset (ptr + 1) ch count

/-- Behind the loop there is no `return`: the caller finds what happens to be in EAX. -/
def memchr (ptr ch eax : U32) : Nat → M U32
  | 0 => return eax
  | count + 1 => do
    if char (← load ptr) = ch then return ptr
    else memchr (ptr + 1) ch eax count

/-! Strings in memory. -/

/-- The string at `a` has these characters before its terminator. -/
def StringAt (m : U32 → U8) : U32 → List U8 → Prop
  | a, [] => m a = eos
  | a, c :: chars => m a = c ∧ c ≠ eos ∧ StringAt m (a + 1) chars

variable {s t : Ram 32} {m m' : U32 → U8} {a dest src str : U32} {chars : List U8} {n left : Nat}

theorem stringAt_iff : StringAt m a chars ↔ BytesAt m a (chars ++ [eos]) ∧ ∀ c ∈ chars, c ≠ eos := by
  induction chars generalizing a with
  | nil => simp [StringAt, BytesAt]
  | cons c chars ih =>
    rw [StringAt, ih, List.cons_append, BytesAt, List.forall_mem_cons]
    tauto

theorem StringAt.congr (string : StringAt m a chars) (same : ∀ x, Range a (chars.length + 1) x → m' x = m x) :
    StringAt m' a chars := by
  rw [stringAt_iff] at string ⊢
  exact ⟨string.1.congr (by rw [List.length_append]; exact same), string.2⟩

theorem StringAt.get (string : StringAt m a chars) {i : Nat} (inside : i < chars.length) :
    m (a + BitVec.ofNat 32 i) = chars[i] := by
  have there := (stringAt_iff.mp string).1.get (i := i) (by rw [List.length_append]; omega)
  rw [there, List.getElem_append_left inside]

theorem StringAt.nul (string : StringAt m a chars) : m (a + BitVec.ofNat 32 chars.length) = eos := by
  have there := (stringAt_iff.mp string).1.get (i := chars.length)
    (by rw [List.length_append]; exact Nat.lt_succ_self _)
  rw [there, List.getElem_append_right (Nat.le_refl _)]
  simp

/-- A string does not go round the address space. -/
theorem StringAt.short (string : StringAt m a chars) : chars.length < 2 ^ 32 := by
  by_contra long
  have inside : chars.length % 2 ^ 32 < chars.length := by omega
  have same : BitVec.ofNat 32 (chars.length % 2 ^ 32) = BitVec.ofNat 32 chars.length := by
    apply BitVec.eq_of_toNat_eq
    rw [BitVec.toNat_ofNat, BitVec.toNat_ofNat, Nat.mod_mod]
  have char := string.get inside
  rw [same, string.nul] at char
  exact (stringAt_iff.mp string).2 _ (List.getElem_mem inside) char.symm

/-- One turn of a copying loop. -/
def Ram.copy (s : Ram 32) (dest src : U32) : Ram 32 := ((s.read src).write dest (s.bytes src)).read src

theorem within_copy {readable writable : U32 → Prop} (reads : readable src) (writes : writable dest) :
    Within readable writable s (Ram.copy s dest src) :=
  ((within_read reads).trans (within_write _ writes)).trans (within_read reads)

theorem strcpyLoop_turn (ne : src ≠ dest) (turns : Nat) : strcpyLoop dest src (turns + 1) s =
    if s.bytes src = eos then some ((), Ram.copy s dest src)
    else strcpyLoop (dest + 1) (src + 1) turns (Ram.copy s dest src) := by
  have again : ((s.read src).write dest (s.bytes src)).bytes src = s.bytes src := Function.update_of_ne ne _ _
  rw [strcpyLoop, bind_load, bind_store, bind_load, again]
  split
  · rfl
  · rfl

/-- What is copied has been read before it is written over. -/
theorem strcpyLoop_ends (string : StringAt s.bytes src chars) (apart : ¬ Range src (chars.length + 1) dest) :
    ∃ t, (∀ turns, chars.length < turns → strcpyLoop dest src turns s = some ((), t)) ∧
      StringAt t.bytes dest chars ∧ Within (fun _ => True) (Range dest (chars.length + 1)) s t := by
  have short := string.short
  induction chars generalizing s dest src with
  | nil =>
    have nul : s.bytes src = eos := string
    have ne : src ≠ dest := by
      rintro rfl
      exact apart (range_self Nat.one_pos)
    refine ⟨Ram.copy s dest src, fun turns enough => ?_, ?_, within_copy True.intro (range_self Nat.one_pos)⟩
    · obtain ⟨fewer, rfl⟩ := Nat.exists_eq_add_one_of_ne_zero (Nat.ne_zero_of_lt enough)
      rw [strcpyLoop_turn ne, if_pos nul]
    · exact (Function.update_self dest (s.bytes src) s.bytes).trans nul
  | cons c rest ih =>
    have ne : src ≠ dest := by
      rintro rfl
      exact apart (range_self (Nat.succ_pos _))
    have tail : StringAt (Ram.copy s dest src).bytes (src + 1) rest := by
      refine string.2.2.congr fun x inside => Function.update_of_ne ?_ _ _
      rintro rfl
      exact apart inside.succ
    have apart' : ¬ Range (src + 1) (rest.length + 1) (dest + 1) := by
      intro inside
      unfold Range at inside apart
      rw [show dest + 1 - (src + 1) = dest - src by grind] at inside
      exact apart (Nat.lt_succ_of_lt inside)
    rw [List.length_cons] at short
    obtain ⟨t, ends, copied, within⟩ := ih tail apart' (Nat.lt_of_succ_lt short)
    refine ⟨t, fun turns enough => ?_, ⟨?_, string.2.1, copied⟩,
      (within_copy True.intro (range_self (Nat.succ_pos _))).trans (within.mono (fun _ yes => yes) fun _ => Range.succ)⟩
    · obtain ⟨fewer, rfl⟩ := Nat.exists_eq_add_one_of_ne_zero (Nat.ne_zero_of_lt enough)
      rw [strcpyLoop_turn ne, if_neg (by rw [string.1]; exact string.2.1),
        ends fewer (Nat.lt_of_succ_lt_succ enough)]
    · rw [within.bytes dest (not_range_next short), ← string.1]
      exact Function.update_self _ _ _

theorem strcpy_ends (string : StringAt s.bytes src chars) (apart : ¬ Range src (chars.length + 1) dest) :
    ∃ t, Returns (strcpy dest src) s dest t ∧ StringAt t.bytes dest chars ∧
      Within (fun _ => True) (Range dest (chars.length + 1)) s t := by
  obtain ⟨t, ends, copied, within⟩ := strcpyLoop_ends string apart
  refine ⟨t, ⟨chars.length + 1, fun turns enough => ?_⟩, copied, within⟩
  rw [strcpy, bind_ok (ends turns enough)]
  rfl

theorem memset_ends (a : U32) (ch : U8) (small : n < 2 ^ 32) :
    ∃ t, memset a ch n s = some ((), t) ∧ (∀ x, Range a n x → t.bytes x = ch) ∧
      Within (fun _ => False) (Range a n) s t := by
  induction n generalizing s a with
  | zero => exact ⟨s, rfl, fun x no => absurd no (Nat.not_lt_zero _), Within.refl s⟩
  | succ n ih =>
    obtain ⟨t, ends, filled, within⟩ := ih (s := s.write a ch) (a + 1) (by omega)
    refine ⟨t, ends, fun x inside => ?_, (within_write ch (range_self (Nat.succ_pos n))).trans
      (within.mono (fun _ no => no) fun _ => Range.succ)⟩
    rcases inside.first with rfl | behind
    · rw [within.bytes x (not_range_next (by omega))]
      exact Function.update_self _ _ _
    · exact filled x behind

/-- The string "ab" at 0x1000, and nothing else in memory. -/
def abMemory : Ram 32 := ⟨fun a => if a = 0x1000 then 0x61 else if a = 0x1001 then 0x62 else 0, [], []⟩

theorem abMemory_string : StringAt abMemory.bytes 0x1000 [0x61, 0x62] := by
  simp only [StringAt]
  decide

end LiziOS.Strings
