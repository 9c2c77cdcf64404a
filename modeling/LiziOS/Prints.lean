import LiziOS.Types
import LiziOS.Library.Program
import Mathlib.Algebra.Group.Nat.Defs
import Mathlib.Logic.Function.Basic

namespace LiziOS.Prints

/-! `prints.asm`. -/

/-- The video segment by byte offsets, and the two cursor registers of the controller. The offsets of
    the stores are recorded. -/
structure Screen where
  video : Nat → U8
  cursorHigh : U8
  cursorLow : U8
  written : List Nat

/-- A program fails with the offset of a store behind the limit of the video segment. -/
abbrev P := EStateM Nat Screen

/-- `video_limit`, in bytes. -/
def videoLimit : Nat := 0x7fff

def storeByte (offset : Nat) (byte : U8) : P Unit := do
  modify fun s => { s with written := s.written ++ [offset] }
  if offset ≤ videoLimit then modify fun s => { s with video := Function.update s.video offset byte }
  else throw offset

/-- The turns of `rep movsd`, both segments being flat: the addresses are those of the video segment. -/
def repMovsd (esi edi : Nat) : Nat → P Unit
  | 0 => pure ()
  | ecx + 1 => do
    let s ← get
    storeByte edi (s.video esi)
    storeByte (edi + 1) (s.video (esi + 1))
    storeByte (edi + 2) (s.video (esi + 2))
    storeByte (edi + 3) (s.video (esi + 3))
    repMovsd (esi + 4) (edi + 4) ecx

/-- The loop `.cls`. -/
def cls (ebx : Nat) : Nat → P Unit
  | 0 => pure ()
  | ecx + 1 => do
    storeByte ebx 0x20
    storeByte (ebx + 1) 0x07
    cls (ebx + 2) ecx

def Screen.cursor (s : Screen) : U16 := s.cursorHigh ++ s.cursorLow

def setCursor (bx : U16) : P Unit := modify fun s =>
  { s with cursorHigh := (bx >>> 8).setWidth 8, cursorLow := bx.setWidth 8 }

def rollScreen : P Unit := do
  repMovsd 0xa0 0 960
  cls 3840 80
  setCursor 1920

/-- The end of the branches that may scroll. -/
def setOrRoll (bx : U16) : P Unit := if bx.slt 2000 then setCursor bx else rollScreen

def isCarriageReturn (bx : U16) : P Unit :=
  let dx := bx % 80
  setOrRoll (bx - dx)

def isLineFeed (bx : U16) : P Unit := isCarriageReturn (bx + 80)

def isBackspace (bx : U16) : P Unit := do
  let bx := (bx - 1) <<< 1
  storeByte bx.toNat 0x20
  let bx := bx + 1
  storeByte bx.toNat 0x07
  setCursor (bx >>> 1)

def putOther (cl : U8) (bx : U16) : P Unit := do
  let bx := bx <<< 1
  storeByte bx.toNat cl
  let bx := bx + 1
  storeByte bx.toNat 0x07
  setOrRoll ((bx >>> 1) + 1)

def printChar (cl : U8) : P Unit := do
  let bx := (← get).cursor
  if cl = 0x0a then isLineFeed bx
  else if cl = 0x0d then isCarriageReturn bx
  else if cl = 0x08 then isBackspace bx
  else putOther cl bx

/-- The string ends before its first byte that is 0. -/
def printStr : List U8 → P Unit
  | [] => pure ()
  | cl :: rest => if cl = 0 then pure () else do
    printChar cl
    printStr rest

/-! Words of 16 bits. -/

variable {s t u : Screen} {bx : U16} {cl : U8} {n o : Nat}

theorem cursor_parts (bx : U16) : ((bx >>> 8).setWidth 8 : U8) ++ (bx.setWidth 8 : U8) = bx := by
  apply BitVec.eq_of_toNat_eq
  have small := bx.isLt
  rw [BitVec.toNat_append, BitVec.toNat_setWidth, BitVec.toNat_setWidth, BitVec.toNat_ushiftRight,
    Nat.shiftRight_eq_div_pow, ← Nat.shiftLeft_add_eq_or_of_lt (by omega), Nat.shiftLeft_eq]
  omega

theorem slt_screen (small : bx.toNat < 2 ^ 15) : bx.slt 2000 = decide (bx.toNat < 2000) := by
  rw [BitVec.slt_eq_decide, BitVec.toInt_eq_toNat_of_lt (by omega), show (2000 : U16).toInt = 2000 from rfl]
  simp only [decide_eq_decide]
  omega

theorem double_toNat (small : bx.toNat < 2 ^ 15) : (bx <<< 1).toNat = 2 * bx.toNat := by
  rw [BitVec.toNat_shiftLeft, Nat.shiftLeft_eq]
  omega

theorem half_succ (small : bx.toNat < 2 ^ 15) : ((bx <<< 1 + 1) >>> 1 : U16) = bx := by
  apply BitVec.eq_of_toNat_eq
  have value : (bx <<< 1 + 1).toNat = 2 * bx.toNat + 1 := by
    rw [BitVec.toNat_add, double_toNat small, show (1 : U16).toNat = 1 from rfl]
    omega
  rw [BitVec.toNat_ushiftRight, value, Nat.shiftRight_eq_div_pow]
  omega

/-! Stores. -/

def Screen.put (s : Screen) (offset : Nat) (byte : U8) : Screen :=
  { s with video := Function.update s.video offset byte, written := s.written ++ [offset] }

theorem storeByte_ok {byte : U8} (inside : o ≤ videoLimit) : storeByte o byte s = .ok () (s.put o byte) := by
  unfold storeByte
  rw [Program.bind_modify, if_pos inside]
  rfl

theorem storeByte_error {byte : U8} (outside : ¬ o ≤ videoLimit) :
    storeByte o byte s = .error o { s with written := s.written ++ [o] } := by
  unfold storeByte
  rw [Program.bind_modify, if_neg outside]
  rfl

/-- What has changed lies in the 2000 cells, and so does every store. -/
structure Drawn (s t : Screen) : Prop where
  outside : ∀ o, 4000 ≤ o → t.video o = s.video o
  written : ∀ o ∈ t.written, o ∈ s.written ∨ o < 4000

theorem Drawn.refl (s : Screen) : Drawn s s := ⟨fun _ _ => rfl, fun _ => Or.inl⟩

theorem Drawn.trans (first : Drawn s t) (second : Drawn t u) : Drawn s u := by
  refine ⟨fun o high => (second.outside o high).trans (first.outside o high), fun o member => ?_⟩
  rcases second.written o member with old | low
  · exact first.written o old
  · exact .inr low

theorem Screen.put_drawn {byte : U8} (inside : o < 4000) : Drawn s (s.put o byte) := by
  refine ⟨fun x high => Function.update_of_ne (by omega) _ _, fun x member => ?_⟩
  rcases List.mem_append.mp member with old | new
  · exact .inl old
  · rw [List.mem_singleton] at new
    exact .inr (by omega)

@[simp] theorem Screen.put_video (s : Screen) (o : Nat) (byte : U8) :
    (s.put o byte).video = Function.update s.video o byte := rfl

@[simp] theorem Screen.put_cursor (s : Screen) (o : Nat) (byte : U8) : (s.put o byte).cursor = s.cursor := rfl

theorem setCursor_ok (bx : U16) : ∃ t, setCursor bx s = .ok () t ∧ t.cursor = bx ∧ t.video = s.video ∧
    Drawn s t := ⟨_, rfl, cursor_parts bx, rfl, fun _ _ => rfl, fun _ => Or.inl⟩

/-- The block move copies every byte from 160 bytes further on. -/
theorem repMovsd_ok (edi n : Nat) (inside : edi + 4 * n ≤ 4000) :
    ∃ t, repMovsd (edi + 160) edi n s = .ok () t ∧ Drawn s t ∧
      (∀ o, edi ≤ o → o < edi + 4 * n → t.video o = s.video (o + 160)) ∧
      ∀ o, o < edi ∨ edi + 4 * n ≤ o → t.video o = s.video o := by
  induction n generalizing s edi with
  | zero => exact ⟨s, rfl, Drawn.refl s, fun o low high => by omega, fun _ _ => rfl⟩
  | succ n ih =>
    have limit (i : Nat) (less : i < 4) : edi + i ≤ videoLimit := by
      unfold videoLimit
      omega
    generalize copied : (((s.put edi (s.video (edi + 160))).put (edi + 1) (s.video (edi + 160 + 1))).put
      (edi + 2) (s.video (edi + 160 + 2))).put (edi + 3) (s.video (edi + 160 + 3)) = u
    have drawn : Drawn s u := by
      rw [← copied]
      exact (((Screen.put_drawn (by omega)).trans (Screen.put_drawn (by omega))).trans
        (Screen.put_drawn (by omega))).trans (Screen.put_drawn (by omega))
    have hit (i : Nat) (less : i < 4) : u.video (edi + i) = s.video (edi + 160 + i) := by
      rw [← copied]
      have cases : i = 0 ∨ i = 1 ∨ i = 2 ∨ i = 3 := by omega
      rcases cases with rfl | rfl | rfl | rfl <;> simp
    have miss (o : Nat) (apart : o < edi ∨ edi + 4 ≤ o) : u.video o = s.video o := by
      rw [← copied]
      simp only [Screen.put_video]
      rw [Function.update_of_ne (by omega), Function.update_of_ne (by omega), Function.update_of_ne (by omega),
        Function.update_of_ne (by omega)]
    obtain ⟨t, done, drawn', moved, kept⟩ := ih (s := u) (edi + 4) (by omega)
    refine ⟨t, ?_, drawn.trans drawn', fun o low high => ?_, fun o apart => ?_⟩
    · have first := @storeByte_ok s _ (s.video (edi + 160)) (limit 0 (by omega))
      rw [Nat.add_zero] at first
      unfold repMovsd
      rw [Program.bind_get, Program.bind_ok first, Program.bind_ok (storeByte_ok (limit 1 (by omega))),
        Program.bind_ok (storeByte_ok (limit 2 (by omega))), Program.bind_ok (storeByte_ok (limit 3 (by omega))),
        copied, show edi + 160 + 4 = edi + 4 + 160 by omega]
      exact done
    · by_cases first : o < edi + 4
      · rw [kept o (.inl first), show o = edi + (o - edi) by omega, hit (o - edi) (by omega)]
        congr 1
        omega
      · rw [moved o (by omega) (by omega), miss (o + 160) (by omega)]
    · rw [kept o (by omega), miss o (by omega)]

theorem cls_ok (ebx n : Nat) (inside : ebx + 2 * n ≤ 4000) :
    ∃ t, cls ebx n s = .ok () t ∧ Drawn s t ∧
      (∀ i < n, t.video (ebx + 2 * i) = 0x20 ∧ t.video (ebx + 2 * i + 1) = 0x07) ∧
      ∀ o, o < ebx ∨ ebx + 2 * n ≤ o → t.video o = s.video o := by
  induction n generalizing s ebx with
  | zero => exact ⟨s, rfl, Drawn.refl s, fun i less => by omega, fun _ _ => rfl⟩
  | succ n ih =>
    have low : ebx ≤ videoLimit := by
      unfold videoLimit
      omega
    have high : ebx + 1 ≤ videoLimit := by
      unfold videoLimit
      omega
    obtain ⟨t, done, drawn, clear, kept⟩ := ih (s := (s.put ebx 0x20).put (ebx + 1) 0x07) (ebx + 2) (by omega)
    refine ⟨t, ?_, ?_, fun i less => ?_, fun o apart => ?_⟩
    · unfold cls
      rw [Program.bind_ok (storeByte_ok low), Program.bind_ok (storeByte_ok high)]
      exact done
    · exact ((Screen.put_drawn (by omega)).trans (Screen.put_drawn (by omega))).trans drawn
    · cases i with
      | zero =>
        rw [Nat.mul_zero, Nat.add_zero, kept ebx (.inl (by omega)), kept (ebx + 1) (.inl (by omega))]
        simp
      | succ i =>
        rw [show ebx + 2 * (i + 1) = ebx + 2 + 2 * i by omega]
        exact clear i (by omega)
    · rw [kept o (by omega), Screen.put_video, Screen.put_video, Function.update_of_ne (by omega),
        Function.update_of_ne (by omega)]

/-! Scrolling. -/

/-- The screen has moved up by one row, and the last row is blank. -/
structure Rolled (s t : Screen) : Prop where
  drawn : Drawn s t
  cursor : t.cursor = 1920
  moved : ∀ o < 3840, t.video o = s.video (o + 160)
  blank : ∀ i < 80, t.video (3840 + 2 * i) = 0x20 ∧ t.video (3840 + 2 * i + 1) = 0x07

theorem rollScreen_ok : ∃ t, rollScreen s = .ok () t ∧ Rolled s t := by
  obtain ⟨s₁, copied, drawn₁, moved, -⟩ := repMovsd_ok (s := s) 0 960 (by omega)
  obtain ⟨s₂, cleared, drawn₂, blank, kept⟩ := cls_ok (s := s₁) 3840 80 (by omega)
  obtain ⟨t, set, cursor, video, drawn₃⟩ := setCursor_ok (s := s₂) 1920
  refine ⟨t, ?_, (drawn₁.trans drawn₂).trans drawn₃, cursor, fun o less => ?_, fun i less => ?_⟩
  · unfold rollScreen
    rw [Program.bind_ok copied, Program.bind_ok cleared]
    exact set
  · rw [video, kept o (.inl less), moved o (Nat.zero_le o) (by omega)]
  · rw [video]
    exact blank i less

theorem setOrRoll_ok (small : bx.toNat < 2 ^ 15) :
    ∃ t, setOrRoll bx s = .ok () t ∧
      ((bx.toNat < 2000 ∧ t.cursor = bx ∧ t.video = s.video ∧ Drawn s t) ∨
        (2000 ≤ bx.toNat ∧ Rolled s t)) := by
  unfold setOrRoll
  rw [slt_screen small]
  by_cases inside : bx.toNat < 2000
  · obtain ⟨t, set, rest⟩ := setCursor_ok (s := s) bx
    exact ⟨t, by rw [decide_eq_true inside, if_pos rfl]; exact set, .inl ⟨inside, rest⟩⟩
  · obtain ⟨t, rolled, rest⟩ := rollScreen_ok (s := s)
    refine ⟨t, ?_, .inr ⟨by omega, rest⟩⟩
    rw [decide_eq_false inside, if_neg Bool.false_ne_true]
    exact rolled

/-! One byte of a string. -/

theorem isCarriageReturn_ok (small : bx.toNat < 2 ^ 15) :
    ∃ t, isCarriageReturn bx s = .ok () t ∧
      ((bx.toNat / 80 * 80 < 2000 ∧ t.cursor.toNat = bx.toNat / 80 * 80 ∧ t.video = s.video ∧ Drawn s t) ∨
        (2000 ≤ bx.toNat / 80 * 80 ∧ Rolled s t)) := by
  have start : (bx - bx % 80).toNat = bx.toNat / 80 * 80 := by
    have rest : (bx % 80).toNat = bx.toNat % 80 := BitVec.toNat_umod
    rw [BitVec.toNat_sub, rest]
    omega
  obtain ⟨t, done, outcome⟩ := @setOrRoll_ok s (bx - bx % 80) (by omega)
  rw [start] at outcome
  refine ⟨t, done, ?_⟩
  rcases outcome with ⟨inside, cursor, rest⟩ | rolled
  · exact .inl ⟨inside, by rw [cursor, start], rest⟩
  · exact .inr rolled

def Screen.putCell (s : Screen) (cell : Nat) (byte : U8) : Screen :=
  (s.put (2 * cell) byte).put (2 * cell + 1) 0x07

theorem Screen.putCell_drawn {cell : Nat} {byte : U8} (inside : cell < 2000) : Drawn s (s.putCell cell byte) :=
  (Screen.put_drawn (by omega)).trans (Screen.put_drawn (by omega))

theorem putOther_ok (inside : bx.toNat < 2000) :
    ∃ t, putOther cl bx s = .ok () t ∧
      ((bx.toNat + 1 < 2000 ∧ t.cursor.toNat = bx.toNat + 1 ∧ t.video = (s.putCell bx.toNat cl).video ∧
          Drawn (s.putCell bx.toNat cl) t) ∨
        (2000 ≤ bx.toNat + 1 ∧ Rolled (s.putCell bx.toNat cl) t)) := by
  have low : (bx <<< 1).toNat = 2 * bx.toNat := double_toNat (by omega)
  have high : (bx <<< 1 + 1).toNat = 2 * bx.toNat + 1 := by
    rw [BitVec.toNat_add, low, show (1 : U16).toNat = 1 from rfl]
    omega
  have next : (bx + 1).toNat = bx.toNat + 1 := by
    rw [BitVec.toNat_add, show (1 : U16).toNat = 1 from rfl]
    omega
  obtain ⟨t, done, outcome⟩ := @setOrRoll_ok (s.putCell bx.toNat cl) (bx + 1) (by omega)
  rw [next] at outcome
  refine ⟨t, ?_, ?_⟩
  · have limit : 2 * bx.toNat + 1 ≤ videoLimit := by
      unfold videoLimit
      omega
    unfold putOther
    dsimp only
    rw [half_succ (by omega), low, high, Program.bind_ok (storeByte_ok (by omega)),
      Program.bind_ok (storeByte_ok limit)]
    exact done
  · rcases outcome with ⟨less, cursor, rest⟩ | rolled
    · exact .inl ⟨less, by rw [cursor, next], rest⟩
    · exact .inr rolled

theorem isBackspace_ok (inside : bx.toNat < 2000) (positive : bx.toNat ≠ 0) :
    ∃ t, isBackspace bx s = .ok () t ∧ t.cursor.toNat = bx.toNat - 1 ∧ Drawn s t := by
  have before : (bx - 1).toNat = bx.toNat - 1 := by
    rw [BitVec.toNat_sub, show (1 : U16).toNat = 1 from rfl]
    omega
  have low : ((bx - 1) <<< 1).toNat = 2 * (bx - 1).toNat := double_toNat (by omega)
  have high : ((bx - 1) <<< 1 + 1).toNat = 2 * (bx - 1).toNat + 1 := by
    rw [BitVec.toNat_add, low, show (1 : U16).toNat = 1 from rfl]
    omega
  have limit : 2 * (bx - 1).toNat + 1 ≤ videoLimit := by
    unfold videoLimit
    omega
  obtain ⟨t, set, cursor, -, drawn⟩ := setCursor_ok (s := s.putCell (bx - 1).toNat 0x20) (bx - 1)
  refine ⟨t, ?_, by rw [cursor, before], (Screen.putCell_drawn (by omega)).trans drawn⟩
  unfold isBackspace
  dsimp only
  rw [half_succ (by omega), low, high, Program.bind_ok (storeByte_ok (by omega)),
    Program.bind_ok (storeByte_ok limit)]
  exact set

/-- Before the first cell there is no cell to clear: the store goes to offset 65534. -/
theorem isBackspace_start : ∃ t, isBackspace 0 s = .error 65534 t :=
  ⟨_, Program.bind_error (storeByte_error (by decide))⟩

/-- The cell behind a byte, on a screen that scrolls. -/
def nextCell (cell : Nat) (cl : U8) : Nat :=
  if cl = 0x0a then 80 * min (cell / 80 + 1) 24
  else if cl = 0x0d then 80 * (cell / 80)
  else if cl = 0x08 then cell - 1
  else if cell + 1 < 2000 then cell + 1 else 1920

theorem Rolled.cursor_toNat (rolled : Rolled s t) : t.cursor.toNat = 1920 := by
  rw [rolled.cursor]
  rfl

theorem printChar_ok (cl : U8) (inside : s.cursor.toNat < 2000) (safe : cl = 0x08 → s.cursor.toNat ≠ 0) :
    ∃ t, printChar cl s = .ok () t ∧ t.cursor.toNat = nextCell s.cursor.toNat cl ∧ t.cursor.toNat < 2000 ∧
      Drawn s t := by
  unfold printChar nextCell
  rw [Program.bind_get]
  by_cases feed : cl = 0x0a
  · have row : (s.cursor + 80).toNat = s.cursor.toNat + 80 := by
      rw [BitVec.toNat_add, show (80 : U16).toNat = 80 from rfl]
      omega
    obtain ⟨t, done, outcome⟩ := @isCarriageReturn_ok s (s.cursor + 80) (by omega)
    rw [row] at outcome
    rw [if_pos feed, if_pos feed]
    refine ⟨t, done, ?_⟩
    rcases outcome with ⟨less, cursor, -, drawn⟩ | ⟨more, rolled⟩
    · exact ⟨by omega, by omega, drawn⟩
    · have cursor := rolled.cursor_toNat
      exact ⟨by omega, by omega, rolled.drawn⟩
  by_cases carriage : cl = 0x0d
  · obtain ⟨t, done, outcome⟩ := @isCarriageReturn_ok s s.cursor (by omega)
    rw [if_neg feed, if_pos carriage, if_neg feed, if_pos carriage]
    refine ⟨t, done, ?_⟩
    rcases outcome with ⟨less, cursor, -, drawn⟩ | ⟨more, -⟩
    · exact ⟨by omega, by omega, drawn⟩
    · omega
  by_cases back : cl = 0x08
  · obtain ⟨t, done, cursor, drawn⟩ := isBackspace_ok (s := s) inside (safe back)
    rw [if_neg feed, if_neg carriage, if_pos back, if_neg feed, if_neg carriage, if_pos back]
    exact ⟨t, done, cursor, by omega, drawn⟩
  · obtain ⟨t, done, outcome⟩ := @putOther_ok s _ cl inside
    rw [if_neg feed, if_neg carriage, if_neg back, if_neg feed, if_neg carriage, if_neg back]
    have stored : Drawn s (s.putCell s.cursor.toNat cl) := Screen.putCell_drawn inside
    refine ⟨t, done, ?_⟩
    rcases outcome with ⟨less, cursor, -, drawn⟩ | ⟨more, rolled⟩
    · exact ⟨by rw [if_pos less, cursor], by omega, stored.trans drawn⟩
    · have cursor := rolled.cursor_toNat
      exact ⟨by rw [if_neg (by omega), cursor], by omega, stored.trans rolled.drawn⟩

/-! Whole strings. -/

variable {str before after : List U8}

def cellAfter (cell : Nat) (str : List U8) : Nat := str.foldl nextCell cell

/-- No backspace comes when the cursor is at the first cell. -/
def Backable (cell : Nat) (str : List U8) : Prop :=
  ∀ before after, str = before ++ 0x08 :: after → cellAfter cell before ≠ 0

theorem printStr_cons (nonzero : cl ≠ 0) (printed : printChar cl s = .ok () t) :
    printStr (cl :: str) s = printStr str t := by
  rw [printStr, if_neg nonzero, Program.bind_ok printed]

theorem Backable.tail {cell : Nat} (backable : Backable cell (cl :: str)) :
    Backable (nextCell cell cl) str := by
  intro before after split
  exact backable (cl :: before) after (by rw [split, List.cons_append])

theorem Backable.front {cell : Nat} (backable : Backable cell (before ++ after)) : Backable cell before := by
  intro first last split
  exact backable first (last ++ after) (by rw [split, List.append_assoc, List.cons_append])

theorem printStr_ok (inside : s.cursor.toNat < 2000) (string : 0 ∉ str)
    (backable : Backable s.cursor.toNat str) :
    ∃ t, printStr str s = .ok () t ∧ t.cursor.toNat = cellAfter s.cursor.toNat str ∧ t.cursor.toNat < 2000 ∧
      Drawn s t := by
  induction str generalizing s with
  | nil => exact ⟨s, rfl, rfl, inside, Drawn.refl s⟩
  | cons cl rest ih =>
    have safe : cl = 0x08 → s.cursor.toNat ≠ 0 := by
      rintro rfl
      exact backable [] rest rfl
    obtain ⟨u, printed, cursor, inside', drawn⟩ := printChar_ok cl inside safe
    have nonzero : cl ≠ 0 := fun zero => string (by rw [zero]; exact List.mem_cons_self)
    have later : Backable u.cursor.toNat rest := by
      rw [cursor]
      exact backable.tail
    obtain ⟨t, done, cursor', inside'', drawn'⟩ :=
      ih inside' (fun zero => string (List.mem_cons_of_mem _ zero)) later
    refine ⟨t, ?_, ?_, inside'', drawn.trans drawn'⟩
    · rw [printStr_cons nonzero printed]
      exact done
    · rw [cursor', cursor]
      rfl

theorem printStr_append (string : 0 ∉ before) (done : printStr before s = .ok () t) :
    printStr (before ++ after) s = printStr after t := by
  induction before generalizing s with
  | nil =>
    cases done
    rfl
  | cons cl rest ih =>
    have nonzero : cl ≠ 0 := fun zero => string (by rw [zero]; exact List.mem_cons_self)
    rw [printStr, if_neg nonzero] at done
    obtain ⟨_, u, printed, last⟩ := Program.bind_completed done
    rw [List.cons_append, printStr_cons nonzero printed]
    exact ih (fun zero => string (List.mem_cons_of_mem _ zero)) last

/-- After every byte of the string the cursor is on the screen, and all stores were to its cells. -/
def OnScreen (s : Screen) (str : List U8) : Prop :=
  ∀ before after, str = before ++ after → ∃ t, printStr before s = .ok () t ∧ t.cursor.toNat < 2000 ∧
    ∀ o ∈ t.written, o ∈ s.written ∨ o < 4000

/-- The cursor stays on the screen unless a backspace comes at the first cell. -/
theorem printStr_on_screen (inside : s.cursor.toNat < 2000) (string : 0 ∉ str) :
    OnScreen s str ↔ Backable s.cursor.toNat str := by
  constructor
  · intro onScreen before
    induction length : before.length using Nat.strongRecOn generalizing before with
    | _ n earlier =>
      subst length
      intro after split start
      have front : Backable s.cursor.toNat before := by
        intro first last split'
        refine earlier first.length ?_ first rfl (last ++ 0x08 :: after) ?_
        · rw [split', List.length_append, List.length_cons]
          omega
        · rw [split, split', List.append_assoc, List.cons_append]
      have string' : 0 ∉ before := fun zero => string (by rw [split]; exact List.mem_append_left _ zero)
      obtain ⟨u, done, cursor, -⟩ := printStr_ok inside string' front
      rw [start] at cursor
      have zero : u.cursor = 0 := BitVec.eq_of_toNat_eq cursor
      obtain ⟨t, whole, -⟩ := onScreen (before ++ [0x08]) after (by rw [split, List.append_assoc]; rfl)
      rw [printStr_append string' done, printStr, if_neg (by decide)] at whole
      obtain ⟨_, w, printed, -⟩ := Program.bind_completed whole
      obtain ⟨w', failed⟩ := isBackspace_start (s := u)
      unfold printChar at printed
      rw [Program.bind_get, if_neg (by decide), if_neg (by decide), if_pos rfl, zero, failed] at printed
      contradiction
  · intro backable before after split
    have string' : 0 ∉ before := fun zero => string (by rw [split]; exact List.mem_append_left _ zero)
    rw [split] at backable
    obtain ⟨t, done, -, inside', drawn⟩ := printStr_ok inside string' backable.front
    exact ⟨t, done, inside', drawn.written⟩

def blankScreen : Screen := ⟨fun o => if o % 2 = 0 then 0x20 else 0x07, 0, 0, []⟩

theorem printStr_on_screen_ab : Backable 0 [0x61, 0x62, 0x08] ∧ OnScreen blankScreen [0x61, 0x62, 0x08] := by
  have backable : Backable 0 [0x61, 0x62, 0x08] := by
    intro before after split
    match before, split with
    | [], split => cases split
    | [_], split => cases split
    | [_, _], split =>
      cases split
      decide
    | _ :: _ :: _ :: rest, split =>
      cases rest <;> cases split
  exact ⟨backable, (printStr_on_screen (by decide) (by decide)).mpr backable⟩

theorem backspace_leaves_screen : blankScreen.cursor.toNat < 2000 ∧ ¬ OnScreen blankScreen [0x08] := by
  refine ⟨by decide, fun onScreen => ?_⟩
  obtain ⟨t, done, -⟩ := onScreen [0x08] [] rfl
  obtain ⟨w, failed⟩ := isBackspace_start (s := blankScreen)
  have printed : printStr [0x08] blankScreen = .error 65534 w := Program.bind_error failed
  rw [printed] at done
  contradiction

end LiziOS.Prints
