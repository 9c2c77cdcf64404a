import LiziOS.Prints

namespace LiziOS.Prints

/-! `print_str` against a teletype that never runs out of paper. -/

/-- A byte and its attribute. -/
abbrev Cell := U8 × U8

def blank : Cell := (0x20, 0x07)

/-- Rows of 80 columns without end, and the place of the next byte. -/
structure Teletype where
  rows : Nat → Nat → Cell
  row : Nat
  col : Nat

def Screen.cell (s : Screen) (i : Nat) : Cell := (s.video (2 * i), s.video (2 * i + 1))

/-- The rows of the screen, and blank rows after them. -/
def Screen.teletype (s : Screen) : Teletype where
  rows r c := if r < 25 then s.cell (80 * r + c) else blank
  row := s.cursor.toNat / 80
  col := s.cursor.toNat % 80

namespace Teletype

def write (t : Teletype) (cell : Cell) : Nat → Nat → Cell :=
  fun r c => if r = t.row ∧ c = t.col then cell else t.rows r c

def print (t : Teletype) (cl : U8) : Teletype :=
  if cl = 0x0a then { t with row := t.row + 1, col := 0 }
  else if cl = 0x0d then { t with col := 0 }
  else if t.col + 1 < 80 then { t with rows := t.write (cl, 0x07), col := t.col + 1 }
  else ⟨t.write (cl, 0x07), t.row + 1, 0⟩

def printAll (t : Teletype) (str : List U8) : Teletype := str.foldl print t

/-- The first row of the window: it has been moved just as far as the row of the next byte needs. -/
def top (t : Teletype) : Nat := t.row - 24

end Teletype

variable {s u : Screen} {t : Teletype} {cl : U8} {str : List U8} {rows : Nat → Nat → Cell} {top : Nat}

/-- The screen shows 25 rows from `top` on, and the rows behind them are blank. -/
structure Window (s : Screen) (rows : Nat → Nat → Cell) (top : Nat) : Prop where
  cells : ∀ r < 25, ∀ c < 80, s.cell (80 * r + c) = rows (top + r) c
  below : ∀ r ≥ top + 25, ∀ c < 80, rows r c = blank

theorem Window.same (window : Window s rows top) (video : u.video = s.video) : Window u rows top := by
  refine ⟨fun r row c col => ?_, window.below⟩
  unfold Screen.cell
  rw [video]
  exact window.cells r row c col

theorem putCell_same (s : Screen) (i : Nat) (byte : U8) : (s.putCell i byte).cell i = (byte, 0x07) := by
  simp [Screen.putCell, Screen.cell]

theorem putCell_other {i j : Nat} {byte : U8} (other : j ≠ i) : (s.putCell i byte).cell j = s.cell j := by
  unfold Screen.putCell Screen.cell
  rw [Screen.put_video, Screen.put_video, Function.update_of_ne (by omega), Function.update_of_ne (by omega),
    Function.update_of_ne (by omega), Function.update_of_ne (by omega)]

theorem Window.roll (window : Window s rows top) (rolled : Rolled s u) : Window u rows (top + 1) := by
  refine ⟨fun r row c col => ?_, fun r low => window.below r (by omega)⟩
  by_cases last : r = 24
  · subst last
    obtain ⟨byte, color⟩ := rolled.blank c col
    rw [window.below (top + 1 + 24) (by omega) c col]
    unfold Screen.cell blank
    rw [show 2 * (80 * 24 + c) = 3840 + 2 * c by omega, byte, color]
  · have moved := window.cells (r + 1) (by omega) c col
    unfold Screen.cell at moved ⊢
    rw [rolled.moved _ (by omega), rolled.moved _ (by omega), show top + 1 + r = top + (r + 1) by omega,
      ← moved]
    congr 2 <;> omega

/-- The screen is the window of the teletype, and the cursor is at the place of the next byte. -/
structure Shows (s : Screen) (t : Teletype) : Prop where
  window : Window s t.rows t.top
  cursor : s.cursor.toNat = 80 * (t.row - t.top) + t.col
  col : t.col < 80

theorem Shows.start (inside : s.cursor.toNat < 2000) : Shows s s.teletype := by
  have top : s.teletype.top = 0 := by
    change s.cursor.toNat / 80 - 24 = 0
    omega
  refine ⟨⟨fun r row c col => ?_, fun r low c col => ?_⟩, ?_, Nat.mod_lt _ (by decide)⟩
  · rw [top, Nat.zero_add]
    exact (if_pos row).symm
  · rw [top, Nat.zero_add] at low
    exact if_neg (by omega)
  · rw [top]
    change s.cursor.toNat = 80 * (s.cursor.toNat / 80) + s.cursor.toNat % 80
    omega

theorem Shows.inside (shows : Shows s t) : s.cursor.toNat < 2000 := by
  have cursor := shows.cursor
  have col := shows.col
  unfold Teletype.top at cursor
  omega

theorem Window.write (window : Window s t.rows t.top) (col : t.col < 80)
    (cursor : s.cursor.toNat = 80 * (t.row - t.top) + t.col) :
    Window (s.putCell s.cursor.toNat cl) (t.write (cl, 0x07)) t.top := by
  have row : t.row - t.top < 25 ∧ t.top + (t.row - t.top) = t.row := by
    unfold Teletype.top
    omega
  refine ⟨fun r inRow c inCol => ?_, fun r low c inCol => ?_⟩
  · unfold Teletype.write
    by_cases here : t.top + r = t.row ∧ c = t.col
    · rw [if_pos here, show 80 * r + c = s.cursor.toNat by omega]
      exact putCell_same s _ cl
    · rw [if_neg here, putCell_other (by omega)]
      exact window.cells r inRow c inCol
  · unfold Teletype.write
    rw [if_neg (by omega)]
    exact window.below r low c inCol

/-- The teletype goes on in the first column of the next row. -/
theorem Shows.newRow {rows : Nat → Nat → Cell} (window : Window s rows t.top)
    (outcome : (80 * (t.row - t.top + 1) < 2000 ∧ u.cursor.toNat = 80 * (t.row - t.top + 1) ∧ u.video = s.video) ∨
      (2000 ≤ 80 * (t.row - t.top + 1) ∧ Rolled s u)) : Shows u ⟨rows, t.row + 1, 0⟩ := by
  have top : t.top = t.row - 24 := rfl
  have next : (⟨rows, t.row + 1, 0⟩ : Teletype).top = t.row + 1 - 24 := rfl
  rcases outcome with ⟨less, cursor, video⟩ | ⟨more, rolled⟩
  · have same : (⟨rows, t.row + 1, 0⟩ : Teletype).top = t.top := by omega
    refine ⟨?_, ?_, Nat.succ_pos 79⟩
    · rw [same]
      exact window.same video
    · rw [same, cursor]
      change _ = 80 * (t.row + 1 - t.top) + 0
      omega
  · have scrolled : (⟨rows, t.row + 1, 0⟩ : Teletype).top = t.top + 1 := by omega
    refine ⟨?_, ?_, Nat.succ_pos 79⟩
    · rw [scrolled]
      exact window.roll rolled
    · rw [scrolled, rolled.cursor_toNat]
      change 1920 = 80 * (t.row + 1 - (t.top + 1)) + 0
      omega

theorem printChar_teletype (shows : Shows s t) (plain : cl ≠ 0x08) :
    ∃ u, printChar cl s = .ok () u ∧ Shows u (t.print cl) ∧ Drawn s u := by
  have inside := shows.inside
  obtain ⟨window, cursor, col⟩ := shows
  unfold printChar Teletype.print
  rw [Program.bind_get]
  by_cases feed : cl = 0x0a
  · have row : (s.cursor + 80).toNat = s.cursor.toNat + 80 := by
      rw [BitVec.toNat_add, show (80 : U16).toNat = 80 from rfl]
      omega
    have first : (s.cursor + 80).toNat / 80 * 80 = 80 * (t.row - t.top + 1) := by omega
    obtain ⟨u, done, outcome⟩ := @isCarriageReturn_ok s (s.cursor + 80) (by omega)
    rw [first] at outcome
    rw [if_pos feed, if_pos feed]
    rcases outcome with ⟨less, moved, video, drawn⟩ | ⟨more, rolled⟩
    · exact ⟨u, done, Shows.newRow window (.inl ⟨less, moved, video⟩), drawn⟩
    · exact ⟨u, done, Shows.newRow window (.inr ⟨more, rolled⟩), rolled.drawn⟩
  by_cases carriage : cl = 0x0d
  · have first : s.cursor.toNat / 80 * 80 = 80 * (t.row - t.top) := by omega
    obtain ⟨u, done, outcome⟩ := @isCarriageReturn_ok s s.cursor (by omega)
    rw [first] at outcome
    rw [if_neg feed, if_pos carriage, if_neg feed, if_pos carriage]
    rcases outcome with ⟨less, moved, video, drawn⟩ | ⟨more, -⟩
    · exact ⟨u, done, ⟨window.same video, moved, Nat.succ_pos 79⟩, drawn⟩
    · omega
  · obtain ⟨u, done, outcome⟩ := @putOther_ok s _ cl inside
    rw [if_neg feed, if_neg carriage, if_neg plain, if_neg feed, if_neg carriage]
    have stored : Drawn s (s.putCell s.cursor.toNat cl) := Screen.putCell_drawn inside
    have written := @Window.write s t cl window col cursor
    by_cases wraps : t.col + 1 < 80
    · rw [if_pos wraps]
      have room : s.cursor.toNat + 1 < 2000 := by
        have top : t.top = t.row - 24 := rfl
        omega
      rcases outcome with ⟨-, moved, video, drawn⟩ | ⟨more, -⟩
      · refine ⟨u, done, ⟨written.same video, ?_, wraps⟩, stored.trans drawn⟩
        change u.cursor.toNat = 80 * (t.row - t.top) + (t.col + 1)
        omega
      · omega
    · rw [if_neg wraps]
      have next : s.cursor.toNat + 1 = 80 * (t.row - t.top + 1) := by omega
      rw [next] at outcome
      rcases outcome with ⟨less, moved, video, drawn⟩ | ⟨more, rolled⟩
      · exact ⟨u, done, Shows.newRow written (.inl ⟨less, moved, video⟩), stored.trans drawn⟩
      · exact ⟨u, done, Shows.newRow written (.inr ⟨more, rolled⟩), stored.trans rolled.drawn⟩

theorem printStr_shows (shows : Shows s t) (string : 0 ∉ str) (plain : 0x08 ∉ str) :
    ∃ u, printStr str s = .ok () u ∧ Shows u (t.printAll str) ∧ Drawn s u := by
  induction str generalizing s t with
  | nil => exact ⟨s, rfl, shows, Drawn.refl s⟩
  | cons cl rest ih =>
    have nonzero : cl ≠ 0 := fun zero => string (by rw [zero]; exact List.mem_cons_self)
    have noBack : cl ≠ 0x08 := fun back => plain (by rw [back]; exact List.mem_cons_self)
    obtain ⟨v, printed, shows', drawn⟩ := printChar_teletype shows noBack
    obtain ⟨u, done, shows'', drawn'⟩ := ih shows' (fun zero => string (List.mem_cons_of_mem _ zero))
      fun back => plain (List.mem_cons_of_mem _ back)
    refine ⟨u, ?_, shows'', drawn.trans drawn'⟩
    rw [printStr_cons nonzero printed]
    exact done

/-- A string without backspaces leaves the screen and the cursor of the teletype, and stores into no
    other cell; after each of its bytes the cursor is on the screen. -/
theorem printStr_teletype (inside : s.cursor.toNat < 2000) (string : 0 ∉ str) (plain : 0x08 ∉ str) :
    (∃ u, printStr str s = .ok () u ∧ Shows u (s.teletype.printAll str) ∧ Drawn s u) ∧ OnScreen s str := by
  refine ⟨printStr_shows (Shows.start inside) string plain, fun before after split => ?_⟩
  obtain ⟨u, done, shows, drawn⟩ := printStr_shows (Shows.start inside)
    (fun zero => string (by rw [split]; exact List.mem_append_left _ zero))
    (fun back => plain (by rw [split]; exact List.mem_append_left _ back))
  exact ⟨u, done, shows.inside, drawn.written⟩

theorem printStr_teletype_ab : (∃ u, printStr [0x61, 0x0a, 0x62] blankScreen = .ok () u ∧
    Shows u (blankScreen.teletype.printAll [0x61, 0x0a, 0x62]) ∧ Drawn blankScreen u) ∧
    OnScreen blankScreen [0x61, 0x0a, 0x62] :=
  printStr_teletype (by decide) (by decide) (by decide)

end LiziOS.Prints
