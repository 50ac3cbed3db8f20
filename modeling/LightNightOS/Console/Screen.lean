import LightNightOS.Foundation.Loops
import LightNightOS.Memory.Layout

/-!
# The text console of `console.c`

Four virtual terminals on one VGA text screen of 25 rows of 80 cells. Each terminal has a buffer of
its own in `tty_buf`; the active one is shown, and everything printed goes to its buffer and to the
screen. `tty_buf` is one array of `4 * 2000` cells in memory, and it is kept here as one: cell `i`
of terminal `t` is cell `t * 2000 + i`, and an index past the end of a terminal's row is a cell of
the next one.

Lines that leave the screen at the top go to a history of 1000 lines, which `move_cursor_up` and
`move_cursor_down` open as a view over the screen; `screen_backup` holds what was on the screen.

`uint8_t` values are naturals reduced by `u8`; colours and cells are machine words. The position
sent to the cursor hardware is `hwCursor`.

`ConsoleCall` are the calls that print, clear the screen, switch the terminal, and move or set the
cursor. `ScreenCall` adds three that redraw or scroll the screen as a whole.
-/

namespace LightNight

/-! ### State -/

/-- Reduction of a `uint8_t` result. -/
def u8 (n : ℕ) : ℕ := n % 2 ^ 8

/-- `VGA_WIDTH` -/
abbrev vgaWidth : ℕ := 80

/-- `VGA_HEIGHT` -/
abbrev vgaHeight : ℕ := 25

/-- The number of cells of a screen, `VGA_WIDTH * VGA_HEIGHT`. -/
abbrev screenSize : ℕ := 2000

/-- `TTY_COUNT` -/
abbrev ttyCount : ℕ := 4

/-- `HISTORY_SIZE` -/
def historySize : ℕ := 1000

/-- A terminal. -/
abbrev Tty := Fin ttyCount

/-- The VGA memory and `tty_buf`. -/
structure Cells where
  vga : Recorded UInt16
  ttyBuf : Recorded UInt16

/-- The static variables of `console.c`, the VGA memory and the cursor hardware. `historyReads` are
the slots of the history that were read for the view: a record, which no code reads. -/
structure Console where
  cells : Cells
  ttyRow : Tty → ℕ
  ttyCol : Tty → ℕ
  ttyColor : Tty → UInt8
  ttyCur : Tty
  cursorRow : ℕ
  cursorCol : ℕ
  vgaColor : UInt8
  history : ℕ → ℕ → UInt16
  historyReads : Set ℕ
  historyWritePos : ℕ
  historyCount : ℕ
  isViewingHistory : Bool
  historyViewOffset : ℤ
  screenBackup : ℕ → ℕ → UInt16
  hwCursor : ℕ

/-- The memory of the screen, `VGA_MEMORY`. -/
abbrev VgaMemory := Recorded UInt16

/-- `vga_index` -/
def vgaIndex (row col : ℕ) : ℕ := row * vgaWidth + col

/-- `vga_make_color` -/
def vgaMakeColor (fg bg : UInt8) : UInt8 := (bg <<< 4) ||| (fg &&& 0x0F)

/-- A character in a colour: `(color << 8) | c`. -/
def cell (color c : UInt8) : UInt16 := (color.toUInt16 <<< 8) ||| c.toUInt16

/-- Where the row of a terminal starts in `tty_buf`. -/
def ttyBase (t : Tty) : ℕ := t.val * screenSize

/-- `TBUF()[idx] = v; vga[idx] = v`, with the row of the active terminal at `base`. -/
def Cells.putBoth (c : Cells) (base idx : ℕ) (v : UInt16) : Cells :=
  ⟨c.vga.put idx v, c.ttyBuf.put (base + idx) v⟩

/-- `a[row][col] = v` -/
def putEntry (a : ℕ → ℕ → UInt16) (row col : ℕ) (v : UInt16) : ℕ → ℕ → UInt16 :=
  Function.update a row (Function.update (a row) col v)

namespace Console

variable (s : Console)

/-- `TBUF()[idx]` -/
def tbuf (idx : ℕ) : UInt16 := s.cells.ttyBuf.val (ttyBase s.ttyCur + idx)

/-! ### History and backup -/

/-- `save_line_to_history` -/
def saveLineToHistory (lineNum : ℕ) : Console :=
  { s with
    history := forLoop vgaWidth (fun col history ↦ putEntry history s.historyWritePos col
      (s.cells.vga.val (lineNum * vgaWidth + col))) s.history
    historyWritePos := (s.historyWritePos + 1) % historySize
    historyCount := if s.historyCount < historySize then s.historyCount + 1 else s.historyCount }

/-- `backup_current_screen` -/
def backupCurrentScreen : Console :=
  { s with
    screenBackup := forLoop vgaHeight (fun row ↦ forLoop vgaWidth fun col backup ↦
      putEntry backup row col (s.cells.vga.val (row * vgaWidth + col))) s.screenBackup }

/-- `restore_screen_from_backup` -/
def restoreScreenFromBackup : Console :=
  { s with
    cells := forLoop vgaHeight (fun row ↦ forLoop vgaWidth fun col cells ↦
      cells.putBoth (ttyBase s.ttyCur) (row * vgaWidth + col) (s.screenBackup row col)) s.cells }

/-- `update_cursor` -/
def updateCursor (row col : ℕ) : Console :=
  let row := if vgaHeight ≤ row then vgaHeight - 1 else row
  let col := if vgaWidth ≤ col then vgaWidth - 1 else col
  { s with hwCursor := row * vgaWidth + col }

/-- The line that `show_history_lines` writes below the history. -/
def historyPrompt : List UInt8 :=
  "(History View - Press any key to return)".toList.map fun c ↦ UInt8.ofNat c.toNat

/-- `lines_to_show` -/
def linesToShow : ℕ :=
  if s.historyCount < vgaHeight - 1 then s.historyCount else vgaHeight - 1

/-- `start_index` -/
def startIndex : ℤ :=
  let start := ((s.historyWritePos : ℤ) - s.linesToShow - s.historyViewOffset).tmod historySize
  if start < 0 then start + historySize else start

/-- `hist_index`: the slot that is read for a row of the view. -/
def histIndex (screenRow : ℕ) : ℕ := (s.startIndex.toNat + screenRow) % historySize

/-- `show_history_lines` -/
def showHistoryLines : Console :=
  let blank := cell (vgaMakeColor 0x07 0x00) 0x20
  let vga := forLoop screenSize (fun i (vga : Recorded UInt16) ↦ vga.put i blank) s.cells.vga
  let shown := forLoop s.linesToShow (fun screenRow ↦
    forLoop vgaWidth fun col (shown : Recorded UInt16 × Set ℕ) ↦
      let saved := s.history (s.histIndex screenRow) col
      let ch := saved.toUInt8
      (shown.1.put (screenRow * vgaWidth + col) (if 32 ≤ ch ∧ ch ≤ 126 then saved else blank),
        insert (s.histIndex screenRow) shown.2)) (vga, s.historyReads)
  let promptRow := s.linesToShow
  let promptCol := (vgaWidth - historyPrompt.length) / 2
  let vga := forLoop historyPrompt.length (fun i vga ↦
    if promptCol + i < vgaWidth then
      vga.put (promptRow * vgaWidth + promptCol + i)
        (cell (vgaMakeColor 0x0E 0x00) (historyPrompt.getD i 0))
    else vga) shown.1
  { s with
    cells := { s.cells with vga := vga }
    historyReads := shown.2 }.updateCursor promptRow promptCol

/-- `view_history_up` -/
def viewHistoryUp : Console :=
  if s.historyCount = 0 then s
  else if !s.isViewingHistory then
    { s.backupCurrentScreen with
      isViewingHistory := true
      historyViewOffset := 0 }.showHistoryLines
  else
    let offset := s.historyViewOffset + 1
    let offset := if (s.historyCount : ℤ) - (vgaHeight - 1) < offset then
      (s.historyCount : ℤ) - (vgaHeight - 1) else offset
    let offset := if offset < 0 then 0 else offset
    { s with historyViewOffset := offset }.showHistoryLines

/-- `view_history_down` -/
def viewHistoryDown : Console :=
  if !s.isViewingHistory then s
  else
    let offset := s.historyViewOffset - 1
    if offset < 0 then
      let s := { s with
        isViewingHistory := false
        historyViewOffset := 0 }.restoreScreenFromBackup
      s.updateCursor s.cursorRow s.cursorCol
    else { s with historyViewOffset := offset }.showHistoryLines

/-! ### Printing -/

/-- `set_vga_color` -/
def setVgaColor (fg bg : UInt8) : Console :=
  { s with
    vgaColor := vgaMakeColor fg bg
    ttyColor := Function.update s.ttyColor s.ttyCur (vgaMakeColor fg bg) }

/-- `scroll_screen`: every row is copied to the one above, in place, and the last one cleared. -/
def scrollScreen : Console :=
  let empty := cell s.vgaColor 0x20
  let s := s.saveLineToHistory 0
  let base := ttyBase s.ttyCur
  let cells := forLoop (vgaHeight - 1) (fun row ↦ forLoop vgaWidth fun col cells ↦
    cells.putBoth base (vgaIndex row col)
      (cells.ttyBuf.val (base + vgaIndex (row + 1) col))) s.cells
  let cells := forLoop vgaWidth (fun col cells ↦
    cells.putBoth base (vgaIndex (vgaHeight - 1) col) empty) cells
  { s with
    cells := cells
    cursorRow := vgaHeight - 1
    cursorCol := 0 }.backupCurrentScreen

/-- `clear_screen` -/
def clearScreen : Console :=
  let empty := cell s.vgaColor 0x20
  let s := forLoop vgaHeight (fun row s ↦ s.saveLineToHistory row) s
  let cells := forLoop screenSize (fun i cells ↦
    cells.putBoth (ttyBase s.ttyCur) i empty) s.cells
  let s := { s with
    cells := cells
    cursorRow := 0
    cursorCol := 0 }.updateCursor 0 0
  { s.backupCurrentScreen with isViewingHistory := false }

/-- `console_init` -/
def consoleInit : Console := s.clearScreen

/-- The `switch` of `print_char_color`. -/
def putChar (c : UInt8) : Console :=
  if c = 0x0A then { s with cursorRow := u8 (s.cursorRow + 1), cursorCol := 0 }
  else if c = 0x0D then { s with cursorCol := 0 }
  else if c = 0x09 then { s with cursorCol := u8 ((s.cursorCol + 4) &&& lowMask 2) }
  else
    let s := if vgaWidth ≤ s.cursorCol then
      { s with cursorCol := 0, cursorRow := u8 (s.cursorRow + 1) } else s
    let idx := vgaIndex s.cursorRow s.cursorCol
    { s with
      cells := s.cells.putBoth (ttyBase s.ttyCur) idx (cell s.vgaColor c)
      cursorCol := u8 (s.cursorCol + 1) }

/-- Leave the history view, as `print_char_color` does first. -/
def closeHistory : Console :=
  if s.isViewingHistory then
    let s := { s with
      isViewingHistory := false
      historyViewOffset := 0 }.restoreScreenFromBackup
    s.updateCursor s.cursorRow s.cursorCol
  else s

/-- `print_char_color` -/
def printCharColor (c fg bg : UInt8) : Console :=
  let s := s.closeHistory
  let oldColor := s.vgaColor
  let s := (s.setVgaColor fg bg).putChar c
  let s := if vgaHeight ≤ s.cursorRow then s.scrollScreen else s
  { s with
    vgaColor := oldColor
    ttyColor := Function.update s.ttyColor s.ttyCur oldColor }.backupCurrentScreen

/-! ### Terminals and the cursor -/

/-- `vt_render_active` -/
def vtRenderActive : Console :=
  let vga := forLoop screenSize (fun i (vga : Recorded UInt16) ↦ vga.put i (s.tbuf i)) s.cells.vga
  { s with cells := { s.cells with vga := vga } }.updateCursor s.cursorRow s.cursorCol

/-- The terminal `n` becomes the active one. -/
def activate (n : Tty) : Console :=
  let s := { s with
    ttyRow := Function.update s.ttyRow s.ttyCur s.cursorRow
    ttyCol := Function.update s.ttyCol s.ttyCur s.cursorCol
    ttyColor := Function.update s.ttyColor s.ttyCur s.vgaColor }
  { s with
    ttyCur := n
    cursorRow := s.ttyRow n
    cursorCol := s.ttyCol n
    vgaColor := s.ttyColor n }.vtRenderActive.backupCurrentScreen

/-- `vt_switch` -/
def vtSwitch (ttyNum : ℤ) : Console :=
  if ttyNum < 0 ∨ (ttyCount : ℤ) ≤ ttyNum ∨ ttyNum = (s.ttyCur.val : ℤ) then s
  else s.activate (Fin.ofNat ttyCount ttyNum.toNat)

/-- `set_cursor_row` -/
def setCursorRow (row : ℕ) : Console :=
  if row < vgaHeight then { s with cursorRow := row } else s

/-- `set_cursor_col` -/
def setCursorCol (col : ℕ) : Console :=
  if col < vgaWidth then { s with cursorCol := col } else s

/-- `move_cursor_up` -/
def moveCursorUp : Console :=
  let s := if 0 < s.cursorRow then { s with cursorRow := s.cursorRow - 1 }
    else { s.viewHistoryUp with cursorRow := 0 }
  s.updateCursor s.cursorRow s.cursorCol

/-- `move_cursor_down` -/
def moveCursorDown : Console :=
  let s := if s.cursorRow < vgaHeight - 1 then { s with cursorRow := s.cursorRow + 1 }
    else { s.viewHistoryDown with cursorRow := vgaHeight - 1 }
  s.updateCursor s.cursorRow s.cursorCol

/-- `move_cursor_left` -/
def moveCursorLeft : Console :=
  let s := if 0 < s.cursorCol then { s with cursorCol := s.cursorCol - 1 }
    else if 0 < s.cursorRow then
      { s with cursorRow := s.cursorRow - 1, cursorCol := vgaWidth - 1 } else s
  s.updateCursor s.cursorRow s.cursorCol

/-- `move_cursor_right` -/
def moveCursorRight : Console :=
  let s := if s.cursorCol < vgaWidth - 1 then { s with cursorCol := s.cursorCol + 1 }
    else if s.cursorRow < vgaHeight - 1 then
      { s with cursorRow := s.cursorRow + 1, cursorCol := 0 } else s
  s.updateCursor s.cursorRow s.cursorCol

/-- `scroll_up` -/
def scrollUp : Console :=
  let s := s.saveLineToHistory 0
  let base := ttyBase s.ttyCur
  let cells := forLoop (vgaHeight - 1) (fun row ↦ forLoop vgaWidth fun col cells ↦
    cells.putBoth base (vgaIndex row col)
      (cells.ttyBuf.val (base + vgaIndex (row + 1) col))) s.cells
  let empty := cell s.vgaColor 0x20
  let cells := forLoop vgaWidth (fun col cells ↦
    cells.putBoth base (vgaIndex (vgaHeight - 1) col) empty) cells
  let row :=
    if s.cursorRow = vgaHeight - 1 then s.cursorRow - 1
    else if 0 < s.cursorRow then s.cursorRow - 1 else s.cursorRow
  let s := { s with
    cells := cells
    cursorRow := row }.backupCurrentScreen
  s.updateCursor s.cursorRow s.cursorCol

/-- `scroll_down`: the rows are copied downwards from the last but one up. -/
def scrollDown : Console :=
  let s := s.saveLineToHistory (vgaHeight - 1)
  let base := ttyBase s.ttyCur
  let cells := forLoop (vgaHeight - 1) (fun k ↦ forLoop vgaWidth fun col cells ↦
    cells.putBoth base (vgaIndex (vgaHeight - 2 - k + 1) col)
      (cells.ttyBuf.val (base + vgaIndex (vgaHeight - 2 - k) col))) s.cells
  let empty := cell s.vgaColor 0x20
  let cells := forLoop vgaWidth (fun col cells ↦
    cells.putBoth base (vgaIndex 0 col) empty) cells
  let row :=
    if s.cursorRow = 0 then s.cursorRow + 1
    else if s.cursorRow < vgaHeight - 1 then s.cursorRow + 1 else s.cursorRow
  let s := { s with
    cells := cells
    cursorRow := row }.backupCurrentScreen
  s.updateCursor s.cursorRow s.cursorCol

end Console

/-! ### Calls -/

/-- The calls of the console. -/
inductive ConsoleCall
  | print (c fg bg : UInt8)
  | clear
  | switch (ttyNum : ℤ)
  | up
  | down
  | left
  | right
  | setRow (row : ℕ)
  | setCol (col : ℕ)
  deriving DecidableEq, Repr

/-- Execute a call. -/
def Console.exec (s : Console) : ConsoleCall → Console
  | .print c fg bg => s.printCharColor c fg bg
  | .clear => s.clearScreen
  | .switch ttyNum => s.vtSwitch ttyNum
  | .up => s.moveCursorUp
  | .down => s.moveCursorDown
  | .left => s.moveCursorLeft
  | .right => s.moveCursorRight
  | .setRow row => s.setCursorRow row
  | .setCol col => s.setCursorCol col

/-- The calls of the console, with those that only redraw or scroll the screen. -/
inductive ScreenCall
  | basic (call : ConsoleCall)
  | renderActive
  | scrollUp
  | scrollDown
  deriving DecidableEq, Repr

/-- Execute a call. -/
def Console.perform (s : Console) : ScreenCall → Console
  | .basic call => s.exec call
  | .renderActive => s.vtRenderActive
  | .scrollUp => s.scrollUp
  | .scrollDown => s.scrollDown

/-- The static variables at boot, over any contents of the VGA memory. -/
def Console.boot (vga : ℕ → UInt16) : Console where
  cells := ⟨⟨vga, ∅⟩, ⟨fun _ ↦ 0, ∅⟩⟩
  ttyRow := fun _ ↦ 0
  ttyCol := fun _ ↦ 0
  ttyColor := fun _ ↦ 0
  ttyCur := 0
  cursorRow := 0
  cursorCol := 0
  vgaColor := 0x07
  history := fun _ _ ↦ 0
  historyReads := ∅
  historyWritePos := 0
  historyCount := 0
  isViewingHistory := false
  historyViewOffset := 0
  screenBackup := fun _ _ ↦ 0
  hwCursor := 0

end LightNight
