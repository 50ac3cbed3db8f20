import LightNightOS.Console.Isolation
import LightNightOS.Console.Output
import LightNightOS.Foundation.CursorRow

/-!
# Drawing on one row of the screen

As long as the cursor stays on a row, printing a character and moving the cursor are strokes on that
row (`ShowsRow.draw`). Where a row is full the cursor is behind its last column; a character printed
there goes to the next row, and two steps to the left come back to the last cell
(`ShowsRow.blank_behind`), unless there is no next row.
-/

namespace LightNight

namespace Console

/-- Row `row` of the screen is the row `d`, and the cursor is on it. -/
structure ShowsRow (s : Console) (row : ℕ) (d : CursorRow UInt16) : Prop where
  viewing : s.isViewingHistory = false
  row_lt : row < vgaHeight
  cursorRow : s.cursorRow = row
  cursorCol : s.cursorCol = d.pos
  pos_le : d.pos ≤ vgaWidth
  cell : ∀ i < vgaWidth, s.cells.vga.val (vgaIndex row i) = d.cell i

/-- The call that makes a stroke, in a colour. -/
def strokeCall (fg bg : UInt8) : Stroke UInt8 → ConsoleCall
  | .put c => .print c fg bg
  | .left => .left
  | .right => .right

/-- What the stroke puts into the cells. -/
def strokeCell (fg bg : UInt8) : Stroke UInt8 → Stroke UInt16
  | .put c => .put (LightNight.cell (vgaMakeColor fg bg) c)
  | .left => .left
  | .right => .right

/-- A character that is put is an ordinary one. -/
def OrdinaryStroke : Stroke UInt8 → Prop
  | .put c => Ordinary c
  | _ => True

variable {s : Console} {row : ℕ} {d : CursorRow UInt16} {c fg bg : UInt8}

/-- `print_char_color` outside the history view, where it does not scroll. -/
theorem print_frame (hview : s.isViewingHistory = false)
    (hrow : ((s.setVgaColor fg bg).putChar c).cursorRow < vgaHeight) :
    ∃ color backup, s.printCharColor c fg bg = { (s.setVgaColor fg bg).putChar c with
      vgaColor := s.vgaColor
      ttyColor := color
      screenBackup := backup } := by
  rw [printCharColor_eq, closeHistory_of_view hview, scrollIfNeeded, if_neg (Nat.not_le.2 hrow)]
  exact ⟨_, _, rfl⟩

/-- A character printed on the row. -/
theorem ShowsRow.print (h : s.ShowsRow row d) (hc : Ordinary c) (hpos : d.pos < vgaWidth) :
    (s.printCharColor c fg bg).ShowsRow row
      (d.stroke (.put (LightNight.cell (vgaMakeColor fg bg) c))) := by
  have hput : (s.setVgaColor fg bg).putChar c = { s.setVgaColor fg bg with
      cells := s.cells.putBoth (ttyBase s.ttyCur) (vgaIndex row d.pos)
        (LightNight.cell (vgaMakeColor fg bg) c)
      cursorCol := d.pos + 1 } := by
    have hcol : ¬vgaWidth ≤ (s.setVgaColor fg bg).cursorCol :=
      Nat.not_le.2 (h.cursorCol.trans_lt hpos)
    have hnext : u8 ((s.setVgaColor fg bg).cursorCol + 1) = d.pos + 1 := by
      rw [← h.cursorCol]
      exact u8_of_le (h.cursorCol.le.trans hpos.le)
    have htarget : vgaIndex (s.setVgaColor fg bg).cursorRow (s.setVgaColor fg bg).cursorCol =
        vgaIndex row d.pos := by
      rw [← h.cursorRow, ← h.cursorCol]
      rfl
    rw [putChar_store _ hc.1 hc.2.1 hc.2.2, if_neg hcol, hnext, htarget]
    rfl
  have hrow : ((s.setVgaColor fg bg).putChar c).cursorRow < vgaHeight := by
    rw [hput]
    exact h.cursorRow.symm ▸ h.row_lt
  obtain ⟨color, backup, heq⟩ := print_frame h.viewing hrow
  rw [heq, hput]
  refine ⟨h.viewing, h.row_lt, h.cursorRow, rfl, hpos, fun i hi ↦ ?_⟩
  change (s.cells.vga.put (vgaIndex row d.pos) _).val (vgaIndex row i) = overlay d.cell d.pos [_] i
  rw [CursorRow.overlay_singleton]
  split
  case isTrue heq => rw [heq, Recorded.put_self]
  case isFalse hne =>
    rw [Recorded.put_of_ne, h.cell i hi]
    exact fun hidx ↦ hne (Prod.mk.inj (vgaIndex_inj hi hpos hidx)).2

/-- A step to the left on the row. -/
theorem ShowsRow.left (h : s.ShowsRow row d) (hpos : 0 < d.pos) :
    s.moveCursorLeft.ShowsRow row (d.stroke .left) := by
  have hle := h.pos_le
  rw [moveCursorLeft, if_pos (h.cursorCol.symm ▸ hpos), h.cursorCol]
  exact ⟨h.viewing, h.row_lt, h.cursorRow, rfl, (Nat.sub_le _ _).trans hle, h.cell⟩

/-- A step to the right on the row. -/
theorem ShowsRow.right (h : s.ShowsRow row d) (hpos : d.pos + 1 < vgaWidth) :
    s.moveCursorRight.ShowsRow row (d.stroke .right) := by
  have hcol : s.cursorCol < vgaWidth - 1 := by
    rw [h.cursorCol]
    omega
  rw [moveCursorRight, if_pos hcol, h.cursorCol]
  exact ⟨h.viewing, h.row_lt, h.cursorRow, rfl, hpos.le, h.cell⟩

/-- **Strokes that stay on the row** draw on it. -/
theorem ShowsRow.draw (fg bg : UInt8) {l : List (Stroke UInt8)} (h : s.ShowsRow row d)
    (hc : ∀ a ∈ l, OrdinaryStroke a) (hin : d.Inside vgaWidth (l.map (strokeCell fg bg))) :
    ((l.map (strokeCall fg bg)).foldl exec s).ShowsRow row (d.draw (l.map (strokeCell fg bg))) := by
  induction l generalizing s d with
  | nil => exact h
  | cons a l ih =>
    obtain ⟨hstays, hin⟩ := hin
    refine ih ?_ (fun b hb ↦ hc b (List.mem_cons_of_mem _ hb)) hin
    cases a with
    | put c => exact h.print (hc _ List.mem_cons_self) hstays
    | left => exact h.left hstays
    | right => exact h.right hstays

/-- **Behind a full row**: a character printed there goes to the next row, and two steps to the left
end at the last cell. -/
theorem ShowsRow.blank_behind (fg bg : UInt8) (h : s.ShowsRow row d) (hc : Ordinary c)
    (hpos : d.pos = vgaWidth) (hrow : row + 1 < vgaHeight) :
    (s.printCharColor c fg bg).moveCursorLeft.moveCursorLeft.ShowsRow row
      ⟨vgaWidth - 1, d.cell⟩ := by
  have hnext : u8 (s.cursorRow + 1) = row + 1 := by
    rw [← h.cursorRow]
    exact u8_of_le (h.cursorRow.le.trans ((Nat.le_of_succ_le hrow.le).trans (by decide)))
  have hput : (s.setVgaColor fg bg).putChar c = { s.setVgaColor fg bg with
      cursorRow := row + 1
      cells := s.cells.putBoth (ttyBase s.ttyCur) (vgaIndex (row + 1) 0)
        (LightNight.cell (vgaMakeColor fg bg) c)
      cursorCol := 1 } := by
    have hcol : vgaWidth ≤ (s.setVgaColor fg bg).cursorCol := (h.cursorCol.trans hpos).ge
    rw [putChar_store _ hc.1 hc.2.1 hc.2.2, if_pos hcol, ← hnext]
    rfl
  have hlt : ((s.setVgaColor fg bg).putChar c).cursorRow < vgaHeight := by
    rw [hput]
    exact hrow
  obtain ⟨color, backup, heq⟩ := print_frame h.viewing hlt
  rw [heq, hput]
  refine ⟨h.viewing, h.row_lt, rfl, rfl, Nat.sub_le _ _, fun i hi ↦ ?_⟩
  change (s.cells.vga.put (vgaIndex (row + 1) 0) _).val (vgaIndex row i) = _
  rw [Recorded.put_of_ne, h.cell i hi]
  intro hidx
  have hsame := (Prod.mk.inj (vgaIndex_inj hi (by decide) hidx)).1
  omega

end Console

end LightNight
