import LightNightOS.Console.Copies
import LightNightOS.Foundation.TextRows

/-!
# What has been printed

The lines that have left the screen and the rows that are on it, taken together, are the output of
the console. `Console.Shows` says that they are the rows of a layout, and `Shows.print` that
printing a character lays it out: a newline and a full row start a new row, and the screen is
scrolled when there is none left.

The layout is that of the text but for one thing. A character that does not fit on the last row is
stored below the screen, and the scrolling that follows starts the new row without it. So the output
is the text if and only if what is lost so leaves no trace (`output_eq_iff`).

* `Shows.putChar`, `Shows.scroll`, `Shows.print` — one character, and the scroll that may follow it;
* `Shows.output` — the output of a console that shows a layout;
* `output_eq_iff` — the output is that of the text, exactly if the text is lossless from the last
  row on;
* `longLastRow_lost` — a text of which a character is lost.
-/

namespace LightNight

/-! ### Printing a text

What the console has put out is read off its state: the lines that it saved since the start, and the
rows of the screen up to the cursor. -/

/-- A character with the colours it is printed in. -/
structure Glyph where
  c : UInt8
  fg : UInt8
  bg : UInt8
  deriving DecidableEq, Repr

/-- Rows of 80 characters, blank where nothing was printed. -/
def consoleStyle : RowStyle UInt8 where
  newline := 0x0A
  blank := 0x20
  width := vgaWidth
  width_pos := by decide
  newline_ne_blank := by decide

namespace Console

/-- Print the characters one after the other. -/
def printAll (s : Console) (text : List Glyph) : Console :=
  text.foldl (fun s g ↦ s.printCharColor g.c g.fg g.bg) s

/-- Whether printing the character scrolls the screen. -/
def scrolls (s : Console) (g : Glyph) : Bool :=
  vgaHeight ≤ ((s.closeHistory.setVgaColor g.fg g.bg).putChar g.c).cursorRow

/-- How often printing the text scrolls the screen. -/
def scrollCount : Console → List Glyph → ℕ
  | _, [] => 0
  | s, g :: text => (s.scrolls g).toNat + (s.printCharColor g.c g.fg g.bg).scrollCount text

/-- Lines saved since the history was written at `start`, if they are fewer than it has room
for. -/
def savedLines (s : Console) (start : ℕ) : List (List UInt8) :=
  (List.range ((s.historyWritePos + historySize - start) % historySize)).map fun r ↦
    (List.range vgaWidth).map fun col ↦ (s.history ((start + r) % historySize) col).toUInt8

/-- The rows of the screen up to the one the cursor is on. -/
def screenRows (s : Console) : List (List UInt8) :=
  (List.range (s.cursorRow + 1)).map fun row ↦
    (List.range vgaWidth).map fun col ↦ (s.cells.vga.val (vgaIndex row col)).toUInt8

/-- What is in the history since `start`, and then on the screen. -/
def output (s : Console) (start : ℕ) : List (List UInt8) := s.savedLines start ++ s.screenRows

/-- The terminal is cleared, and its cursor at the start. -/
structure Cleared (s : Console) : Prop where
  synced : s.Synced
  view : s.isViewingHistory = false
  pos : s.historyWritePos < historySize
  row : s.cursorRow = 0
  col : s.cursorCol = 0
  blank : ∀ i < screenSize, (s.tbuf i).toUInt8 = 0x20

variable {s : Console}

/-! ### Cells -/

theorem cell_toUInt8 (color c : UInt8) : (cell color c).toUInt8 = c := by
  rw [cell]
  apply UInt8.toBitVec_inj.1
  simp

theorem synced_cell (h : s.Synced) {i : ℕ} (hi : i < screenSize) : s.cells.vga.val i = s.tbuf i :=
  h i hi

/-- A row and a column of the screen make a cell of it. -/
theorem vgaIndex_lt {row col : ℕ} (hrow : row < vgaHeight) (hcol : col < vgaWidth) :
    vgaIndex row col < screenSize := by
  simp only [vgaIndex, vgaHeight, vgaWidth, screenSize] at *
  omega

/-- Cells of different rows or columns are different. -/
theorem vgaIndex_inj {row col row' col' : ℕ} (hcol : col < vgaWidth) (hcol' : col' < vgaWidth)
    (h : vgaIndex row col = vgaIndex row' col') : (row, col) = (row', col') := by
  simp only [vgaIndex, vgaWidth] at *
  rw [Prod.mk.injEq]
  omega

/-- **Scrolling moves every cell up a row**, though it works in place. -/
theorem scrolled_val (c : Cells) (base : ℕ) (empty : UInt16) {i : ℕ} (hi : i < screenSize) :
    (c.scrolled base empty).ttyBuf.val (base + i) =
      if i < (vgaHeight - 1) * vgaWidth then c.ttyBuf.val (base + (i + vgaWidth)) else empty := by
  have hmove := forLoop_invariant (n := (vgaHeight - 1) * vgaWidth) (s := c)
    (f := fun k c ↦ c.putBoth base k (c.ttyBuf.val (base + (k + vgaWidth))))
    (I := fun k (c' : Cells) ↦ (∀ i < k, c'.ttyBuf.val (base + i) =
        c.ttyBuf.val (base + (i + vgaWidth))) ∧
      ∀ i, k ≤ i → c'.ttyBuf.val (base + i) = c.ttyBuf.val (base + i))
    ⟨fun _ h ↦ absurd h (Nat.not_lt_zero _), fun _ _ ↦ rfl⟩ ?_
  · have hlast := forLoop_invariant (n := vgaWidth)
      (s := forLoop ((vgaHeight - 1) * vgaWidth)
        (fun k c ↦ c.putBoth base k (c.ttyBuf.val (base + (k + vgaWidth)))) c)
      (f := fun col c ↦ c.putBoth base (vgaIndex (vgaHeight - 1) col) empty)
      (I := fun k (c' : Cells) ↦ (∀ i < (vgaHeight - 1) * vgaWidth, c'.ttyBuf.val (base + i) =
          c.ttyBuf.val (base + (i + vgaWidth))) ∧
        ∀ col < k, c'.ttyBuf.val (base + vgaIndex (vgaHeight - 1) col) = empty)
      ⟨hmove.1, fun _ h ↦ absurd h (Nat.not_lt_zero _)⟩ ?_
    · rw [Cells.scrolled]
      split
      case isTrue hlt => exact hlast.1 i hlt
      case isFalse hge =>
        have hcol : i = vgaIndex (vgaHeight - 1) (i - (vgaHeight - 1) * vgaWidth) := by
          rw [vgaIndex]
          omega
        rw [hcol]
        refine hlast.2 _ ?_
        simp only [vgaHeight, vgaWidth, screenSize] at *
        omega
    · rintro k hk c' ⟨hrows, hcols⟩
      refine ⟨fun i hi ↦ ?_, fun col hcol ↦ ?_⟩
      · rw [Cells.putBoth, Recorded.put_of_ne, hrows i hi]
        rw [vgaIndex]
        omega
      · by_cases hck : col = k
        · rw [hck, Cells.putBoth, Recorded.put_self]
        · rw [Cells.putBoth, Recorded.put_of_ne, hcols col (by omega)]
          rw [vgaIndex, vgaIndex]
          omega
  · rintro k hk c' ⟨hdone, hrest⟩
    refine ⟨fun i hi ↦ ?_, fun i hi ↦ ?_⟩
    · by_cases hik : i = k
      · rw [hik, Cells.putBoth, Recorded.put_self]
        exact hrest _ (Nat.le_add_right _ _)
      · rw [Cells.putBoth, Recorded.put_of_ne (by omega)]
        exact hdone i (by omega)
    · rw [Cells.putBoth, Recorded.put_of_ne (by omega)]
      exact hrest i (by omega)

/-- The line that is saved. -/
theorem saveLine_history (s : Console) (line : ℕ) {col : ℕ} (hcol : col < vgaWidth) :
    (s.saveLineToHistory line).history s.historyWritePos col =
      s.cells.vga.val (vgaIndex line col) := by
  refine forLoop_invariant (I := fun k (history : ℕ → ℕ → UInt16) ↦ ∀ col < k,
    history s.historyWritePos col = s.cells.vga.val (vgaIndex line col))
    (fun _ h ↦ absurd h (Nat.not_lt_zero _)) (fun k _ history hk col hcol ↦ ?_) col hcol
  by_cases hck : col = k
  · rw [hck, putEntry_self]
    rfl
  · rw [putEntry_of_ne (Or.inr hck)]
    exact hk col (by omega)

/-- The other lines of the history. -/
theorem saveLine_history_of_ne (s : Console) (line : ℕ) {r : ℕ} (hr : r ≠ s.historyWritePos)
    (col : ℕ) : (s.saveLineToHistory line).history r col = s.history r col := by
  refine forLoop_invariant (I := fun _ (history : ℕ → ℕ → UInt16) ↦
    history r col = s.history r col) rfl fun k _ history hk ↦ ?_
  rw [putEntry_of_ne (Or.inl hr)]
  exact hk

/-! ### The output is a layout

`Shows start n l` ties the two: the lines saved since `start` and the rows of the screen are the
rows of the layout `l`, of which `n` have left the screen. A character takes one of four ways, and
each is one step of the layout. -/

/-- The history since `start` and the screen show the rows of `l`, of which `n` have left the
screen. Before the screen is scrolled the cursor may be on the row below it. -/
structure Shows (s : Console) (start n : ℕ) (l : Rows UInt8) : Prop where
  synced : s.Synced
  view : s.isViewingHistory = false
  pos : s.historyWritePos = (start + n) % historySize
  rows : l.done.length = n + s.cursorRow
  row : s.cursorRow ≤ vgaHeight
  bottom : 0 < n → vgaHeight - 1 ≤ s.cursorRow
  col : s.cursorRow < vgaHeight → s.cursorCol = l.row.length
  below : s.cursorRow = vgaHeight → l.row = []
  fits : l.row.length ≤ vgaWidth
  screen : ∀ row < vgaHeight, ∀ col < vgaWidth,
    (s.tbuf (vgaIndex row col)).toUInt8 = l.cell consoleStyle (n + row) col
  saved : ∀ r < n, ∀ col < vgaWidth,
    (s.history ((start + r) % historySize) col).toUInt8 = l.cell consoleStyle r col

variable {start n : ℕ} {l : Rows UInt8}

theorem Cleared.shows (h : s.Cleared) : s.Shows s.historyWritePos 0 Rows.empty where
  synced := h.synced
  view := h.view
  pos := (Nat.mod_eq_of_lt h.pos).symm
  rows := by rw [h.row]; rfl
  row := by rw [h.row]; exact Nat.zero_le _
  bottom h := absurd h (Nat.lt_irrefl 0)
  col _ := h.col
  below _ := rfl
  fits := Nat.zero_le _
  screen row hrow col hcol := by
    rw [h.blank _ (vgaIndex_lt hrow hcol)]
    exact (Rows.cell_eq_blank (S := consoleStyle) hcol (Nat.zero_le _)).symm
  saved _ h := absurd h (Nat.not_lt_zero _)

/-- A character stored where the layout has it. -/
theorem Shows.store (h : s.Shows start n l) {c : UInt8} (hc : c ≠ consoleStyle.newline)
    {drops : ℕ → Bool} (hkept : ¬l.Lost consoleStyle drops) {row col : ℕ}
    (hplace : (n + row, col) = l.place consoleStyle) (hrow : row < vgaHeight)
    (hcol : col < vgaWidth) {row' col' : ℕ} (hrow' : row' < vgaHeight) (hcol' : col' < vgaWidth)
    (color : UInt8) :
    ((s.cells.putBoth (ttyBase s.ttyCur) (vgaIndex row col) (cell color c)).ttyBuf.val
      (ttyBase s.ttyCur + vgaIndex row' col')).toUInt8 =
        (l.feed consoleStyle drops c).cell consoleStyle (n + row') col' := by
  rw [Rows.cell_kept hc hkept, ← hplace]
  by_cases hsame : (row', col') = (row, col)
  · obtain ⟨rfl, rfl⟩ := Prod.mk.inj hsame
    rw [if_pos rfl, Cells.putBoth, Recorded.put_self, cell_toUInt8]
  · have hne : (n + row', col') ≠ (n + row, col) := by
      rintro heq
      obtain ⟨hr, rfl⟩ := Prod.mk.inj heq
      exact hsame (by rw [Nat.add_left_cancel hr])
    rw [if_neg hne, Cells.putBoth, Recorded.put_of_ne]
    · exact h.screen row' hrow' col' hcol'
    · exact fun heq ↦ hsame (vgaIndex_inj hcol' hcol (Nat.add_left_cancel heq))

/-- The layout of the console: what does not fit on the last row is lost. -/
def drops (r : ℕ) : Bool := vgaHeight - 1 ≤ r

/-- The column does not wrap while it is on the screen. -/
theorem u8_of_le {k : ℕ} (h : k ≤ vgaWidth) : u8 (k + 1) = k + 1 := by
  rw [u8]
  simp only [vgaWidth] at h
  omega

/-- A newline starts a new row of the layout and of the screen. -/
theorem Shows.newline (h : s.Shows start n l) (hrow : s.cursorRow < vgaHeight) :
    (s.putChar consoleStyle.newline).Shows start n
      (l.feed consoleStyle drops consoleStyle.newline) := by
  have hnext : u8 (s.cursorRow + 1) = s.cursorRow + 1 :=
    u8_of_le (hrow.le.trans (by decide : vgaHeight ≤ vgaWidth))
  have hput : s.putChar consoleStyle.newline =
      { s with cursorRow := s.cursorRow + 1, cursorCol := 0 } := by
    have hlf : consoleStyle.newline = 0x0A := rfl
    rw [putChar, if_pos hlf, hnext]
  rw [hput]
  refine ⟨h.synced, h.view, h.pos, ?_, Nat.succ_le_of_lt hrow, fun hn ↦ ?_, fun _ ↦ ?_, fun _ ↦ ?_,
    ?_, fun row hrow col hcol ↦ ?_, fun r hr col hcol ↦ ?_⟩
  · rw [Rows.feed_newline rfl, List.length_append, List.length_singleton, h.rows]
    rfl
  · exact (h.bottom hn).trans (Nat.le_succ _)
  · rw [Rows.feed_newline rfl]
    rfl
  · rw [Rows.feed_newline rfl]
  · rw [Rows.feed_newline rfl]
    exact Nat.zero_le _
  · rw [Rows.cell_newline rfl]
    exact h.screen row hrow col hcol
  · rw [Rows.cell_newline rfl]
    exact h.saved r hr col hcol

/-- Any character but the three control characters is stored, behind the wrap if the row is full. -/
theorem putChar_store (s : Console) {c : UInt8} (hlf : c ≠ 0x0A) (hcr : c ≠ 0x0D)
    (htab : c ≠ 0x09) :
    s.putChar c =
      if vgaWidth ≤ s.cursorCol then
        { s with
          cursorRow := u8 (s.cursorRow + 1)
          cells := s.cells.putBoth (ttyBase s.ttyCur) (vgaIndex (u8 (s.cursorRow + 1)) 0)
            (cell s.vgaColor c)
          cursorCol := 1 }
      else
        { s with
          cells := s.cells.putBoth (ttyBase s.ttyCur) (vgaIndex s.cursorRow s.cursorCol)
            (cell s.vgaColor c)
          cursorCol := u8 (s.cursorCol + 1) } := by
  rw [putChar, if_neg hlf, if_neg hcr, if_neg htab]
  dsimp only
  split <;> rfl

/-- Rows that have left the screen do not change: the place of a character is on the screen. -/
theorem Shows.saved_feed (h : s.Shows start n l) {c : UInt8} (hc : c ≠ consoleStyle.newline)
    {r : ℕ} (hr : r < n) {col : ℕ} (hcol : col < vgaWidth) :
    (s.history ((start + r) % historySize) col).toUInt8 =
      (l.feed consoleStyle drops c).cell consoleStyle r col := by
  by_cases hlost : l.Lost consoleStyle drops
  · rw [Rows.cell_lost hc hlost]
    exact h.saved r hr col hcol
  · rw [Rows.cell_kept hc hlost, if_neg]
    · exact h.saved r hr col hcol
    · have hrows := h.rows
      rw [Rows.place]
      split <;> exact fun heq ↦ absurd (Prod.mk.inj heq).1 (by omega)

/-- A character that fits goes to the row that both are on. -/
theorem Shows.fits_store (h : s.Shows start n l) (hrow : s.cursorRow < vgaHeight) {c : UInt8}
    (hlf : c ≠ 0x0A) (hcr : c ≠ 0x0D) (htab : c ≠ 0x09) (hfit : s.cursorCol < vgaWidth) :
    (s.putChar c).Shows start n (l.feed consoleStyle drops c) := by
  have hlen : l.row.length < consoleStyle.width := h.col hrow ▸ hfit
  have hkept : ¬l.Lost consoleStyle drops := fun hlost ↦ hlost.1 hlen
  have hplace : (n + s.cursorRow, s.cursorCol) = l.place consoleStyle := by
    rw [Rows.place, if_pos hlen, h.rows, h.col hrow]
  rw [putChar_store s hlf hcr htab, if_neg (Nat.not_le_of_lt hfit)]
  refine ⟨(Cells.Agrees.putBoth h.synced _ _).mono (Set.subset_insert _ _), h.view, h.pos, ?_,
    hrow.le, h.bottom, fun _ ↦ ?_, fun heq ↦ absurd heq hrow.ne, Rows.row_length_feed h.fits c,
    fun row hrow' col hcol ↦ ?_, fun r hr col hcol ↦ ?_⟩
  · rw [Rows.feed_fits hlf hlen]
    exact h.rows
  · rw [Rows.feed_fits hlf hlen, List.length_append, List.length_singleton, ← h.col hrow]
    exact u8_of_le hfit.le
  · exact h.store hlf hkept hplace hrow hfit hrow' hcol _
  · exact h.saved_feed hlf hr hcol

/-- A full row that is not the last: the character starts the next one. -/
theorem Shows.wraps_store (h : s.Shows start n l) {c : UInt8} (hlf : c ≠ 0x0A) (hcr : c ≠ 0x0D)
    (htab : c ≠ 0x09) (hfull : vgaWidth ≤ s.cursorCol) (hrow : s.cursorRow < vgaHeight - 1) :
    (s.putChar c).Shows start n (l.feed consoleStyle drops c) := by
  have hrow' : s.cursorRow < vgaHeight := hrow.trans (by decide)
  have hlen : ¬l.row.length < consoleStyle.width := by
    rw [← h.col hrow']
    exact Nat.not_lt_of_le hfull
  have hn : n = 0 := by
    by_contra hn
    exact Nat.not_lt_of_le (h.bottom (Nat.pos_of_ne_zero hn)) hrow
  have hnodrop : drops l.done.length ≠ true := by
    rw [h.rows, hn, drops]
    simpa using hrow
  have hkept : ¬l.Lost consoleStyle drops := fun hlost ↦ hnodrop hlost.2
  have hnext : u8 (s.cursorRow + 1) = s.cursorRow + 1 :=
    u8_of_le (hrow'.le.trans (by decide : vgaHeight ≤ vgaWidth))
  have hplace : (n + (s.cursorRow + 1), 0) = l.place consoleStyle := by
    rw [Rows.place, if_neg hlen, h.rows, Nat.add_assoc]
  rw [putChar_store s hlf hcr htab, if_pos hfull, hnext]
  refine ⟨(Cells.Agrees.putBoth h.synced _ _).mono (Set.subset_insert _ _), h.view, h.pos, ?_,
    hrow', fun h ↦ absurd h (hn ▸ Nat.lt_irrefl 0), fun _ ↦ ?_, fun heq ↦ ?_,
    Rows.row_length_feed h.fits c, fun row hrow col hcol ↦ ?_, fun r hr col hcol ↦ ?_⟩
  · rw [Rows.feed_wraps hlf hlen, List.length_append, List.length_singleton, h.rows]
    rfl
  · rw [Rows.feed_wraps hlf hlen, if_neg hnodrop]
    rfl
  · have heq : s.cursorRow + 1 = vgaHeight := heq
    omega
  · exact h.store hlf hkept hplace (Nat.add_lt_of_lt_sub ‹_›) (by decide) hrow hcol _
  · exact h.saved_feed hlf hr hcol

/-- **A full last row**: the character goes below the screen, and is lost. -/
theorem Shows.drops_store (h : s.Shows start n l) {c : UInt8} (hlf : c ≠ 0x0A) (hcr : c ≠ 0x0D)
    (htab : c ≠ 0x09) (hfull : vgaWidth ≤ s.cursorCol) (hrow : s.cursorRow = vgaHeight - 1) :
    (s.putChar c).Shows start n (l.feed consoleStyle drops c) := by
  have hrow' : s.cursorRow < vgaHeight := by
    rw [hrow]
    decide
  have hlen : ¬l.row.length < consoleStyle.width := by
    rw [← h.col hrow']
    exact Nat.not_lt_of_le hfull
  have hdrop : drops l.done.length = true := by
    rw [h.rows, hrow, drops]
    simp
  have hlost : l.Lost consoleStyle drops := ⟨hlen, hdrop⟩
  have hnext : u8 (s.cursorRow + 1) = vgaHeight := by
    rw [hrow]
    rfl
  rw [putChar_store s hlf hcr htab, if_pos hfull, hnext]
  refine ⟨(Cells.Agrees.putBoth h.synced _ _).mono (Set.subset_insert _ _), h.view, h.pos, ?_,
    le_rfl, fun _ ↦ (by decide : vgaHeight - 1 ≤ vgaHeight), fun hlt ↦ absurd hlt (lt_irrefl _),
    fun _ ↦ ?_, Rows.row_length_feed h.fits c, fun row hrow col hcol ↦ ?_, fun r hr col hcol ↦ ?_⟩
  · rw [Rows.feed_wraps hlf hlen, List.length_append, List.length_singleton, h.rows, hrow]
    rfl
  · rw [Rows.feed_wraps hlf hlen, if_pos hdrop]
  · rw [Rows.cell_lost hlf hlost, ← h.screen row hrow col hcol]
    have hlt := vgaIndex_lt hrow hcol
    have hsize : vgaIndex vgaHeight 0 = screenSize := rfl
    rw [hsize]
    exact congrArg UInt16.toUInt8
      (Recorded.put_of_ne fun heq ↦ hlt.ne (Nat.add_left_cancel heq))
  · exact h.saved_feed hlf hr hcol

/-- **One character**, up to the scrolling. -/
theorem Shows.putChar (h : s.Shows start n l) (hrow : s.cursorRow < vgaHeight) {c : UInt8}
    (hcr : c ≠ 0x0D) (htab : c ≠ 0x09) :
    (s.putChar c).Shows start n (l.feed consoleStyle drops c) := by
  by_cases hlf : c = consoleStyle.newline
  · rw [hlf]
    exact h.newline hrow
  rcases Nat.lt_or_ge s.cursorCol vgaWidth with hfit | hfull
  · exact h.fits_store hrow hlf hcr htab hfit
  rcases Nat.lt_or_ge s.cursorRow (vgaHeight - 1) with hlt | hge
  · exact h.wraps_store hlf hcr htab hfull hlt
  · exact h.drops_store hlf hcr htab hfull (by omega)

/-- **Scrolling** moves the first row to the history. -/
theorem Shows.scroll (h : s.Shows start n l) (hrow : s.cursorRow = vgaHeight)
    (hn : n < historySize) : s.scrollScreen.Shows start (n + 1) l := by
  have hcells := scroll_cells s
  have hsynced := scroll_synced s
  have hhistory : s.scrollScreen.history = (s.saveLineToHistory 0).history := rfl
  have hpos : s.scrollScreen.historyWritePos = (s.historyWritePos + 1) % historySize := rfl
  obtain ⟨cells, history, pos, count, backup, hs⟩ := scroll_frame s
  rw [hs] at hcells hsynced hhistory hpos ⊢
  dsimp only at hcells hhistory hpos
  refine ⟨hsynced, h.view, ?_, ?_, (by decide : vgaHeight - 1 ≤ vgaHeight), fun _ ↦ le_rfl,
    fun _ ↦ ?_, fun heq ↦ absurd heq (by decide : ¬vgaHeight - 1 = vgaHeight), h.fits,
    fun row hrow' col hcol ↦ ?_, fun r hr col hcol ↦ ?_⟩
  · change pos = _
    rw [hpos, h.pos, Nat.mod_add_mod, Nat.add_assoc]
  · rw [h.rows, hrow]
    change n + vgaHeight = n + 1 + (vgaHeight - 1)
    simp only [vgaHeight]
  · rw [h.below hrow]
    rfl
  · change (cells.ttyBuf.val (ttyBase s.ttyCur + vgaIndex row col)).toUInt8 = _
    rw [hcells, scrolled_val _ _ _ (vgaIndex_lt hrow' hcol)]
    split
    case isTrue hlt =>
      have hnext : row + 1 < vgaHeight := by
        simp only [vgaIndex, vgaHeight, vgaWidth] at *
        omega
      have hindex : vgaIndex row col + vgaWidth = vgaIndex (row + 1) col := by
        rw [vgaIndex, vgaIndex, Nat.succ_mul, Nat.add_right_comm]
      rw [hindex, Nat.add_assoc, Nat.add_comm 1 row]
      exact h.screen (row + 1) hnext col hcol
    case isFalse hge =>
      have hlast : row = vgaHeight - 1 := by
        simp only [vgaIndex, vgaHeight, vgaWidth] at *
        omega
      rw [cell_toUInt8, Rows.cell_eq_blank (S := consoleStyle) hcol]
      · rfl
      · rw [Rows.pos, h.below hrow, h.rows, hrow, hlast, List.length_nil]
        have hheight : n + vgaHeight = n + 1 + (vgaHeight - 1) := by
          simp only [vgaHeight]
        rw [hheight]
        exact Nat.le_add_right _ _
  · change (history _ col).toUInt8 = _
    rw [hhistory]
    rcases Nat.lt_succ_iff_lt_or_eq.1 hr with hlt | rfl
    · rw [saveLine_history_of_ne]
      · exact h.saved r hlt col hcol
      · rw [h.pos]
        simp only [historySize] at *
        omega
    · rw [← h.pos, saveLine_history s 0 hcol,
        synced_cell h.synced (vgaIndex_lt (by decide) hcol)]
      exact h.screen 0 (by decide) col hcol

/-- Where no view is open there is nothing to close. -/
theorem closeHistory_of_view (h : s.isViewingHistory = false) : s.closeHistory = s := by
  rw [closeHistory, h]
  rfl

/-- **Printing a character lays it out.** -/
theorem Shows.print (h : s.Shows start n l) (hrow : s.cursorRow < vgaHeight) {g : Glyph}
    (hcr : g.c ≠ 0x0D) (htab : g.c ≠ 0x09) (hn : n + (s.scrolls g).toNat ≤ historySize) :
    (s.printCharColor g.c g.fg g.bg).Shows start (n + (s.scrolls g).toNat)
        (l.feed consoleStyle drops g.c) ∧
      (s.printCharColor g.c g.fg g.bg).cursorRow < vgaHeight := by
  have hcolor : (s.setVgaColor g.fg g.bg).Shows start n l :=
    ⟨h.synced, h.view, h.pos, h.rows, h.row, h.bottom, h.col, h.below, h.fits, h.screen, h.saved⟩
  have hput := hcolor.putChar hrow hcr htab
  rw [printCharColor_eq]
  rw [scrolls, closeHistory_of_view h.view] at *
  have hdone : ((s.setVgaColor g.fg g.bg).putChar g.c).scrollIfNeeded.Shows start
      (n + (decide (vgaHeight ≤ ((s.setVgaColor g.fg g.bg).putChar g.c).cursorRow)).toNat)
      (l.feed consoleStyle drops g.c) := by
    rw [scrollIfNeeded]
    split
    case isTrue hge =>
      rw [decide_eq_true hge] at hn ⊢
      exact hput.scroll (le_antisymm hput.row hge) hn
    case isFalse hlt =>
      rw [decide_eq_false hlt]
      exact hput
  have hrow' := scrollIfNeeded_row ((s.setVgaColor g.fg g.bg).putChar g.c)
  generalize ((s.setVgaColor g.fg g.bg).putChar g.c).scrollIfNeeded = u at *
  exact ⟨⟨hdone.synced, hdone.view, hdone.pos, hdone.rows, hdone.row, hdone.bottom, hdone.col,
    hdone.below, hdone.fits, hdone.screen, hdone.saved⟩, hrow'⟩

/-- **Printing a text lays it out.** -/
theorem Shows.printAll (h : s.Shows start n l) (hrow : s.cursorRow < vgaHeight) {text : List Glyph}
    (htext : ∀ g ∈ text, g.c ≠ 0x0D ∧ g.c ≠ 0x09) (hn : n + s.scrollCount text ≤ historySize) :
    (s.printAll text).Shows start (n + s.scrollCount text)
        (l.feedAll consoleStyle drops (text.map Glyph.c)) ∧
      (s.printAll text).cursorRow < vgaHeight := by
  induction text generalizing s n l with
  | nil => exact ⟨h, hrow⟩
  | cons g text ih =>
    rw [scrollCount, ← Nat.add_assoc] at hn ⊢
    obtain ⟨hcr, htab⟩ := htext g (List.mem_cons_self ..)
    obtain ⟨hprint, hrow'⟩ := h.print hrow hcr htab ((Nat.le_add_right _ _).trans hn)
    exact ih hprint hrow' (fun g hg ↦ htext g (List.mem_cons_of_mem _ hg)) hn

/-! ### The output -/

/-- What the console shows is the picture of the layout. -/
theorem Shows.output (h : s.Shows start n l) (hrow : s.cursorRow < vgaHeight)
    (hn : n < historySize) (hstart : start < historySize) :
    s.output start = l.picture consoleStyle := by
  have hcount : (s.historyWritePos + historySize - start) % historySize = n := by
    rw [h.pos]
    simp only [historySize] at *
    omega
  rw [Console.output, savedLines, screenRows, hcount, Rows.picture_eq, h.rows, Nat.add_assoc,
    List.range_add (n := n), List.map_append, List.map_map]
  congr 1
  · refine List.map_congr_left fun r hr ↦ List.map_congr_left fun col hcol ↦ ?_
    exact h.saved r (List.mem_range.1 hr) col (List.mem_range.1 hcol)
  · refine List.map_congr_left fun row hrow' ↦ List.map_congr_left fun col hcol ↦ ?_
    have hrow' : row < vgaHeight :=
      (Nat.lt_succ_iff.1 (List.mem_range.1 hrow')).trans_lt hrow
    have hcol := List.mem_range.1 hcol
    rw [synced_cell h.synced (vgaIndex_lt hrow' hcol)]
    exact h.screen row hrow' col hcol

/-- **The output of the console** is the text laid out as the console does it. -/
theorem Cleared.output_printAll (h : s.Cleared) {text : List Glyph}
    (htext : ∀ g ∈ text, g.c ≠ 0x0D ∧ g.c ≠ 0x09) (hscroll : s.scrollCount text < historySize) :
    (s.printAll text).output s.historyWritePos =
      (Rows.layOut consoleStyle drops (text.map Glyph.c)).picture consoleStyle := by
  have hrow : s.cursorRow < vgaHeight := by
    rw [h.row]
    decide
  obtain ⟨hshows, hrow'⟩ := h.shows.printAll hrow htext (by omega)
  exact hshows.output hrow' (by omega) h.pos

theorem scrollCount_le (s : Console) (text : List Glyph) : s.scrollCount text ≤ text.length := by
  induction text generalizing s with
  | nil => exact le_rfl
  | cons g text ih =>
    have hone := Bool.toNat_le (s.scrolls g)
    have hrest := ih (s.printCharColor g.c g.fg g.bg)
    rw [scrollCount, List.length_cons]
    omega

/-- **`clear_screen` clears** the terminal, whatever state the console is in. -/
theorem clearScreen_cleared (s : Console) : s.clearScreen.Cleared := by
  have hsynced := clear_synced s
  have hcells := clear_cells s
  have hpos : (forLoop vgaHeight (fun row s ↦ s.saveLineToHistory row) s).historyWritePos <
      historySize := by
    refine forLoop_invariant (n := vgaHeight)
      (I := fun k (s : Console) ↦ 0 < k → s.historyWritePos < historySize)
      (fun h ↦ absurd h (Nat.lt_irrefl 0)) (fun _ _ _ _ _ ↦ Nat.mod_lt _ (by decide)) (by decide)
  have hclear : s.clearScreen.historyWritePos < historySize := by
    obtain ⟨history, pos, count, hlines⟩ := saveLines_frame s vgaHeight
    rw [hlines] at hpos
    rw [clearScreen, hlines]
    exact hpos
  obtain ⟨cells, history, pos, count, backup, hs⟩ := clear_frame s
  rw [hs] at hsynced hcells hclear ⊢
  refine ⟨hsynced, rfl, hclear, rfl, rfl, fun i hi ↦ ?_⟩
  have hval := ttyBuf_forLoop (ttyBase s.ttyCur) s.cells
    (fun _ ↦ cell s.vgaColor 0x20) hi
  rw [← hcells] at hval
  rw [← cell_toUInt8 s.vgaColor 0x20, ← hval]
  rfl

end Console

/-- **Is any output lost?** From a cleared terminal, for a text of printable characters and newlines
that scrolls fewer lines than the history has room for, the history and the screen show the text if
and only if in each of its lines the characters from the first one that does not fit on a row from
the 25th row on are blanks, and take as many rows when one is lost at the start of each row. -/
theorem output_eq_iff {s : Console} {text : List Glyph} (hs : s.Cleared)
    (htext : ∀ g ∈ text, g.c ≠ 0x0D ∧ g.c ≠ 0x09) (hscroll : s.scrollCount text < historySize) :
    (s.printAll text).output s.historyWritePos =
        (Rows.layOut consoleStyle (fun _ ↦ false) (text.map Glyph.c)).picture consoleStyle ↔
      Rows.Lossless consoleStyle (vgaHeight - 1) ⟨0, 0, 0⟩ (text.map Glyph.c) := by
  rw [hs.output_printAll htext hscroll]
  exact Rows.picture_layOut_iff consoleStyle (vgaHeight - 1) (text.map Glyph.c)

/-- A line of two rows on a screen just cleared. -/
def twoRows : List Glyph := List.replicate 90 ⟨0x61, 0x07, 0x00⟩

/-- The general theorem on a text that wraps above the last row, and is shown. -/
theorem output_eq_twoRows :
    ((Console.boot fun _ ↦ 0).consoleInit.printAll twoRows).output
        (Console.boot fun _ ↦ 0).consoleInit.historyWritePos =
      (Rows.layOut consoleStyle (fun _ ↦ false) (twoRows.map Glyph.c)).picture consoleStyle :=
  (output_eq_iff (Console.clearScreen_cleared _) (by decide)
    ((Console.scrollCount_le _ _).trans_lt (by decide))).2 (by decide)

/-- A line of 81 characters on the last row. -/
def longLastRow : List Glyph :=
  List.replicate 24 ⟨0x0A, 0x07, 0x00⟩ ++ List.replicate 80 ⟨0x61, 0x07, 0x00⟩ ++
    [⟨0x62, 0x07, 0x00⟩]

/-- **A character is lost**: the `b` after a full last row is neither in the history nor on the
screen. -/
theorem longLastRow_lost : ∃ (s : Console) (text : List Glyph), s.Cleared ∧
    (∀ g ∈ text, g.c = 0x0A ∨ 0x20 ≤ g.c ∧ g.c ≤ 0x7E) ∧ s.scrollCount text < historySize ∧
    (s.printAll text).output s.historyWritePos ≠
      (Rows.layOut consoleStyle (fun _ ↦ false) (text.map Glyph.c)).picture consoleStyle := by
  have hcleared := Console.clearScreen_cleared (Console.boot fun _ ↦ 0)
  have hscroll : (Console.boot fun _ ↦ 0).clearScreen.scrollCount longLastRow < historySize :=
    (Console.scrollCount_le _ _).trans_lt (by decide)
  have hlossy : ¬Rows.Lossless consoleStyle (vgaHeight - 1) ⟨0, 0, 0⟩
      (longLastRow.map Glyph.c) := by
    decide +kernel
  refine ⟨_, longLastRow, hcleared, by decide, hscroll, ?_⟩
  rw [hcleared.output_printAll (by decide) hscroll]
  exact fun h ↦ hlossy ((Rows.picture_layOut_iff consoleStyle (vgaHeight - 1) _).1 h)

end LightNight
