import LightNightOS.Console.Screen
import LightNightOS.Foundation.Runs

/-!
# The three copies of the screen

What is on the screen is kept three times: in the VGA memory, in the active terminal's buffer and in
`screen_backup`. A dozen operations rewrite them, some from the screen to the backup, some from the
backup to the buffer, and the history view is drawn over the screen alone.

`Console.Ok` holds in every reachable state: the cursor is on the screen's rows, the backup is the
active terminal's buffer, and so is the screen unless the view is open. It holds because every loop
that stores to a buffer stores the same value to the screen (`agrees_forLoop`), so no loop's values
need to be known.

`SameBuffers` relates two consoles that differ in what they show only. A call leads related consoles
to related ones (`SameBuffers.perform`), which is why it does not matter whether the history view
was open. `copies_in_step` puts the two together.

* `scroll_synced`, `clear_synced`, `restore_synced`, `render_synced` — the operations that write
  whole rows;
* `Ok.exec`, `Ok.perform` — the invariant, call by call;
* `SameBuffers.perform` — two consoles that differ in the view only are led to such consoles;
* `copies_in_step` — every run.
-/

namespace LightNight

open Transition

/-! ### The screen shows the buffer

All loops that store cells have one form: the same value goes to the screen and to the buffer.
`agrees_forLoop` is the one rule for them. Where the loops run over rows and columns they are first
read as one loop over the cells. -/

/-- The cells in `r` of the screen hold what the same cells from `base` on hold. -/
def Cells.Agrees (base : ℕ) (r : Set ℕ) (c : Cells) : Prop :=
  ∀ i ∈ r, c.vga.val i = c.ttyBuf.val (base + i)

section Agrees

variable {base n : ℕ} {r : Set ℕ} {c : Cells}

/-- Storing one value to both keeps the agreement, and extends it. -/
theorem Cells.Agrees.putBoth (h : c.Agrees base r) (idx : ℕ) (v : UInt16) :
    (c.putBoth base idx v).Agrees base (insert idx r) := by
  intro i hi
  by_cases hidx : i = idx
  · rw [hidx, Cells.putBoth, Recorded.put_self, Recorded.put_self]
  · rw [Cells.putBoth, Recorded.put_of_ne hidx,
      Recorded.put_of_ne fun heq ↦ hidx (Nat.add_left_cancel heq)]
    exact h i ((Set.mem_insert_iff.1 hi).resolve_left hidx)

/-- Agreement on some cells is agreement on fewer. -/
theorem Cells.Agrees.mono {r' : Set ℕ} (h : c.Agrees base r) (hr : r' ⊆ r) : c.Agrees base r' :=
  fun i hi ↦ h i (hr hi)

/-- **A loop that stores the same values to both** makes them agree where it stores. -/
theorem agrees_forLoop (base : ℕ) (h : c.Agrees base r) (idx : ℕ → ℕ) (f : ℕ → Cells → UInt16) :
    (forLoop n (fun k c ↦ c.putBoth base (idx k) (f k c)) c).Agrees base
      (r ∪ idx '' Set.Iio n) := by
  refine forLoop_invariant (I := fun k c ↦ Cells.Agrees base (r ∪ idx '' Set.Iio k) c)
    (h.mono (Set.union_subset le_rfl fun _ ⟨j, hj, _⟩ ↦ absurd hj (Nat.not_lt_zero j)))
    fun k _ c hc ↦ (hc.putBoth (idx k) (f k c)).mono ?_
  rintro i (hi | ⟨j, hj, rfl⟩)
  · exact Or.inr (Or.inl hi)
  · rcases Nat.lt_succ_iff_lt_or_eq.1 hj with hj | rfl
    · exact Or.inr (Or.inr ⟨j, hj, rfl⟩)
    · exact Or.inl rfl

/-- What such a loop stores. -/
theorem ttyBuf_forLoop (base : ℕ) (c : Cells) (f : ℕ → UInt16) {i : ℕ} (hi : i < n) :
    (forLoop n (fun k c ↦ c.putBoth base k (f k)) c).ttyBuf.val (base + i) = f i := by
  refine forLoop_invariant
    (I := fun k (c : Cells) ↦ ∀ i < k, c.ttyBuf.val (base + i) = f i)
    (fun _ h ↦ absurd h (Nat.not_lt_zero _)) (fun k _ c hc i hi ↦ ?_) i hi
  by_cases hik : i = k
  · rw [hik, Cells.putBoth, Recorded.put_self]
  · rw [Cells.putBoth, Recorded.put_of_ne fun heq ↦ hik (Nat.add_left_cancel heq)]
    exact hc i (by omega)

/-- A screen scrolled up by a row: one loop over the cells that move, and one over the last row. -/
def Cells.scrolled (c : Cells) (base : ℕ) (empty : UInt16) : Cells :=
  forLoop vgaWidth (fun col c ↦ c.putBoth base (vgaIndex (vgaHeight - 1) col) empty)
    (forLoop ((vgaHeight - 1) * vgaWidth)
      (fun k c ↦ c.putBoth base k (c.ttyBuf.val (base + (k + vgaWidth)))) c)

/-- After a scroll the whole screen shows the buffer, whatever it showed before. -/
theorem scrolled_agrees (c : Cells) (base : ℕ) (empty : UInt16) :
    (c.scrolled base empty).Agrees base (Set.Iio screenSize) := by
  have hrows := agrees_forLoop base (n := (vgaHeight - 1) * vgaWidth) (c := c) (r := ∅)
    (fun _ h ↦ absurd h (Set.notMem_empty _)) id fun k c ↦ c.ttyBuf.val (base + (k + vgaWidth))
  refine (agrees_forLoop _ (n := vgaWidth) hrows (vgaIndex (vgaHeight - 1)) fun _ _ ↦ empty).mono
    fun i hi ↦ ?_
  have hi : i < 2000 := hi
  rcases Nat.lt_or_ge i ((vgaHeight - 1) * vgaWidth) with hlt | hge
  · exact Or.inl (Or.inr ⟨i, hlt, rfl⟩)
  · simp only [vgaHeight, vgaWidth] at hge
    refine Or.inr ⟨i - 1920, Set.mem_Iio.2 ?_, ?_⟩
    · simp only [vgaWidth]
      omega
    · simp only [vgaHeight, vgaWidth, vgaIndex]
      omega

theorem putEntry_self (a : ℕ → ℕ → UInt16) (row col : ℕ) (v : UInt16) :
    putEntry a row col v row col = v := by
  rw [putEntry, Function.update_self, Function.update_self]

/-- Storing an entry leaves the other entries as they were. -/
theorem putEntry_of_ne {a : ℕ → ℕ → UInt16} {row col row' col' : ℕ} {v : UInt16}
    (h : row' ≠ row ∨ col' ≠ col) : putEntry a row col v row' col' = a row' col' := by
  rw [putEntry]
  by_cases hrow : row' = row
  · rw [hrow, Function.update_self, Function.update_of_ne (h.resolve_left (not_not.2 hrow))]
  · rw [Function.update_of_ne hrow]

/-- What a loop over the cells stores in an array of rows. -/
theorem putEntry_forLoop {w : ℕ} (f : ℕ → UInt16) (a : ℕ → ℕ → UInt16) {i : ℕ} (hi : i < n) :
    forLoop n (fun k a ↦ putEntry a (k / w) (k % w) (f k)) a (i / w) (i % w) = f i := by
  refine forLoop_invariant (I := fun k (a : ℕ → ℕ → UInt16) ↦ ∀ i < k, a (i / w) (i % w) = f i)
    (fun _ h ↦ absurd h (Nat.not_lt_zero _)) (fun k _ a ha i hi ↦ ?_) i hi
  by_cases hik : i = k
  · rw [hik, putEntry_self]
  · have hne : i / w ≠ k / w ∨ i % w ≠ k % w := by
      by_contra hsame
      push Not at hsame
      exact hik (by rw [← Nat.div_add_mod i w, ← Nat.div_add_mod k w, hsame.1, hsame.2])
    rw [putEntry_of_ne hne]
    exact ha i (by omega)

end Agrees

namespace Console

variable {s : Console}

/-- The screen shows the active terminal's buffer. -/
def Synced (s : Console) : Prop := s.cells.Agrees (ttyBase s.ttyCur) (Set.Iio screenSize)

/-- The backup is the active terminal's buffer. -/
def Backed (s : Console) : Prop :=
  ∀ i < screenSize, s.screenBackup (i / vgaWidth) (i % vgaWidth) = s.tbuf i

/-- The backup of a screen that shows the buffer is the buffer. -/
theorem Synced.backup (h : s.Synced) : s.backupCurrentScreen.Backed := by
  intro i hi
  have hgrid : s.backupCurrentScreen.screenBackup = forLoop screenSize
      (fun k backup ↦ putEntry backup (k / vgaWidth) (k % vgaWidth) (s.cells.vga.val k))
      s.screenBackup := by
    rw [backupCurrentScreen]
    dsimp only
    rw [forLoop_grid (fun row col backup ↦ putEntry backup row col
      (s.cells.vga.val (row * vgaWidth + col))) _ (by decide)]
    exact forLoop_congr fun k _ backup ↦ by rw [Nat.div_add_mod']
  rw [hgrid, putEntry_forLoop _ _ hi]
  exact h i hi

/-- `restore_screen_from_backup` as one loop over the cells. -/
theorem restore_cells (s : Console) : s.restoreScreenFromBackup.cells =
    forLoop screenSize (fun k cells ↦ cells.putBoth (ttyBase s.ttyCur) k
      (s.screenBackup (k / vgaWidth) (k % vgaWidth))) s.cells := by
  rw [restoreScreenFromBackup]
  dsimp only
  rw [forLoop_grid (fun row col (cells : Cells) ↦ cells.putBoth (ttyBase s.ttyCur)
    (row * vgaWidth + col) (s.screenBackup row col)) _ (by decide)]
  exact forLoop_congr fun k _ cells ↦ by rw [Nat.div_add_mod']

/-- A loop over all the cells puts the screen in step, whatever it was. -/
theorem agrees_screen {base : ℕ} (c : Cells) (f : ℕ → Cells → UInt16) :
    (forLoop screenSize (fun k c ↦ c.putBoth base k (f k c)) c).Agrees base
      (Set.Iio screenSize) :=
  (agrees_forLoop _ (r := ∅) (fun _ h ↦ absurd h (Set.notMem_empty _)) id f).mono
    (by simp)

/-- After a restore the screen shows the buffer: every value goes to both. -/
theorem restore_synced (s : Console) : s.restoreScreenFromBackup.Synced := by
  rw [Synced, restore_cells]
  exact agrees_screen s.cells _

/-- After a restore the buffer holds what the backup holds. -/
theorem restore_backed (s : Console) : s.restoreScreenFromBackup.Backed := by
  intro i hi
  have h := ttyBuf_forLoop (ttyBase s.ttyCur) s.cells
    (fun k ↦ s.screenBackup (k / vgaWidth) (k % vgaWidth)) hi
  rw [tbuf, restore_cells]
  exact h.symm

/-- The loops of `scroll_screen` over rows and columns as loops over cells. -/
theorem scroll_cells (s : Console) : s.scrollScreen.cells =
    s.cells.scrolled (ttyBase s.ttyCur) (cell s.vgaColor 0x20) := by
  have hgrid := forLoop_grid (n := vgaHeight - 1) (w := vgaWidth) (fun row col (cells : Cells) ↦
    cells.putBoth (ttyBase s.ttyCur) (vgaIndex row col)
      (cells.ttyBuf.val (ttyBase s.ttyCur + vgaIndex (row + 1) col))) s.cells (by decide)
  have hcell : ∀ k, vgaIndex (k / vgaWidth) (k % vgaWidth) = k := fun k ↦ Nat.div_add_mod' k _
  have hbelow : ∀ k, vgaIndex (k / vgaWidth + 1) (k % vgaWidth) = k + vgaWidth := fun k ↦ by
    rw [vgaIndex, Nat.succ_mul, Nat.add_right_comm, Nat.div_add_mod']
  simp only [hcell, hbelow] at hgrid
  rw [Cells.scrolled, ← hgrid]
  rfl

/-- Scrolling stores to the screen what it stores to the buffer. -/
theorem scroll_synced (s : Console) : s.scrollScreen.Synced := by
  rw [Synced, scroll_cells]
  exact scrolled_agrees _ _ _

/-- Saving lines to the history is all the first loop of `clear_screen` does. -/
theorem saveLines_frame (s : Console) (n : ℕ) :
    ∃ history pos count, forLoop n (fun row s ↦ s.saveLineToHistory row) s =
      { s with history := history, historyWritePos := pos, historyCount := count } := by
  refine forLoop_invariant (I := fun _ (s' : Console) ↦ ∃ history pos count, s' =
    { s with history := history, historyWritePos := pos, historyCount := count }) ?_ ?_
  · exact ⟨_, _, _, rfl⟩
  · rintro row - s' ⟨history, pos, count, rfl⟩
    exact ⟨_, _, _, rfl⟩

/-- The cells `clear_screen` stores. -/
theorem clear_cells (s : Console) : s.clearScreen.cells = forLoop screenSize
    (fun i c ↦ c.putBoth (ttyBase s.ttyCur) i (cell s.vgaColor 0x20)) s.cells := by
  obtain ⟨history, pos, count, hlines⟩ := saveLines_frame s vgaHeight
  rw [clearScreen, hlines]
  rfl

/-! Which variables an operation sets. The cells and lines are left open: what they become is the
subject of lemmas of their own. -/

/-- `backup_current_screen` sets the backup, and nothing else. -/
theorem backup_frame (s : Console) : ∃ backup, s.backupCurrentScreen =
    { s with screenBackup := backup } :=
  ⟨_, rfl⟩

/-- `restore_screen_from_backup` sets cells, and nothing else. -/
theorem restore_frame (s : Console) : ∃ cells, s.restoreScreenFromBackup =
    { s with cells := cells } :=
  ⟨_, rfl⟩

/-- `show_history_lines` draws on the screen and moves the hardware cursor; the buffers stay as they
are. -/
theorem showHistory_frame (s : Console) : ∃ vga reads hw, s.showHistoryLines =
    { s with
      cells := ⟨vga, s.cells.ttyBuf⟩
      historyReads := reads
      hwCursor := hw } :=
  ⟨_, _, _, rfl⟩

/-- The blank of `show_history_lines`. -/
def historyBlank : UInt16 := cell (vgaMakeColor 0x07 0x00) 0x20

/-- A saved cell as the view shows it. -/
def shownCell (saved : UInt16) : UInt16 :=
  if 32 ≤ saved.toUInt8 ∧ saved.toUInt8 ≤ 126 then saved else historyBlank

/-- `show_history_lines` draws the slots on a blank screen, and then the prompt below them. -/
theorem showHistory_vga (s : Console) : s.showHistoryLines.cells.vga =
    forLoop historyPrompt.length (fun i vga ↦
      if (vgaWidth - historyPrompt.length) / 2 + i < vgaWidth then
        vga.put (s.linesToShow * vgaWidth + (vgaWidth - historyPrompt.length) / 2 + i)
          (cell (vgaMakeColor 0x0E 0x00) (historyPrompt.getD i 0))
      else vga)
    (forLoop s.linesToShow (fun screenRow ↦ forLoop vgaWidth fun col vga ↦
        vga.put (screenRow * vgaWidth + col) (shownCell (s.history (s.histIndex screenRow) col)))
      (forLoop screenSize (fun i vga ↦ vga.put i historyBlank) s.cells.vga)) := by
  dsimp only [showHistoryLines, updateCursor]
  congr 1
  refine forLoop_rel (R := fun (x : VgaMemory × Set ℕ) vga ↦ x.1 = vga) rfl fun row _ x vga h ↦ ?_
  exact forLoop_rel (R := fun (x : VgaMemory × Set ℕ) vga ↦ x.1 = vga) h fun col _ x vga h ↦ h ▸ rfl

/-- The slots that `show_history_lines` reads. -/
theorem showHistory_reads (s : Console) : s.showHistoryLines.historyReads =
    forLoop s.linesToShow (fun screenRow ↦ forLoop vgaWidth fun _ reads ↦
      insert (s.histIndex screenRow) reads) s.historyReads := by
  dsimp only [showHistoryLines, updateCursor]
  refine forLoop_rel (R := fun (x : VgaMemory × Set ℕ) reads ↦ x.2 = reads) rfl
    fun row _ x reads h ↦ ?_
  exact forLoop_rel (R := fun (x : VgaMemory × Set ℕ) reads ↦ x.2 = reads) h
    fun col _ x reads h ↦ h ▸ rfl

/-- `vt_render_active` draws on the screen and moves the hardware cursor; the buffers stay as they
are. -/
theorem render_frame (s : Console) : ∃ vga hw, s.vtRenderActive =
    { s with
      cells := ⟨vga, s.cells.ttyBuf⟩
      hwCursor := hw } :=
  ⟨_, _, rfl⟩

/-- `scroll_screen` leaves the cursor at the start of the last row, and the view as it was. -/
theorem scroll_frame (s : Console) : ∃ cells history pos count backup, s.scrollScreen =
    { s with
      cells := cells
      history := history
      historyWritePos := pos
      historyCount := count
      screenBackup := backup
      cursorRow := vgaHeight - 1
      cursorCol := 0 } :=
  ⟨_, _, _, _, _, rfl⟩

/-- Switching stores the cursor and the colour of the terminal that is left and takes those of the
other one. No buffer is written. -/
theorem activate_frame (s : Console) (n : Tty) : ∃ vga hw backup, s.activate n =
    { s with
      ttyRow := Function.update s.ttyRow s.ttyCur s.cursorRow
      ttyCol := Function.update s.ttyCol s.ttyCur s.cursorCol
      ttyColor := Function.update s.ttyColor s.ttyCur s.vgaColor
      ttyCur := n
      cursorRow := Function.update s.ttyRow s.ttyCur s.cursorRow n
      cursorCol := Function.update s.ttyCol s.ttyCur s.cursorCol n
      vgaColor := Function.update s.ttyColor s.ttyCur s.vgaColor n
      cells := ⟨vga, s.cells.ttyBuf⟩
      hwCursor := hw
      screenBackup := backup } :=
  ⟨_, _, _, rfl⟩

/-- Scrolling up takes the cursor one row up, where there is one. -/
theorem scrollUp_frame (s : Console) : ∃ cells history pos count backup hw, s.scrollUp =
    { s with
      cells := cells
      history := history
      historyWritePos := pos
      historyCount := count
      screenBackup := backup
      hwCursor := hw
      cursorRow := if s.cursorRow = vgaHeight - 1 then s.cursorRow - 1
        else if 0 < s.cursorRow then s.cursorRow - 1 else s.cursorRow } :=
  ⟨_, _, _, _, _, _, rfl⟩

/-- Scrolling down takes the cursor one row down, where there is one. -/
theorem scrollDown_frame (s : Console) : ∃ cells history pos count backup hw, s.scrollDown =
    { s with
      cells := cells
      history := history
      historyWritePos := pos
      historyCount := count
      screenBackup := backup
      hwCursor := hw
      cursorRow := if s.cursorRow = 0 then s.cursorRow + 1
        else if s.cursorRow < vgaHeight - 1 then s.cursorRow + 1 else s.cursorRow } :=
  ⟨_, _, _, _, _, _, rfl⟩

/-- The variables `clear_screen` does not set, and the cursor. -/
theorem clear_frame (s : Console) : ∃ cells history pos count backup, s.clearScreen =
    { s with
      cells := cells
      history := history
      historyWritePos := pos
      historyCount := count
      screenBackup := backup
      cursorRow := 0
      cursorCol := 0
      hwCursor := 0
      isViewingHistory := false } := by
  obtain ⟨history, pos, count, hlines⟩ := saveLines_frame s vgaHeight
  rw [clearScreen, hlines]
  exact ⟨_, _, _, _, _, rfl⟩

/-- A cleared screen shows the buffer that was cleared with it. -/
theorem clear_synced (s : Console) : s.clearScreen.Synced := by
  have hcur : s.clearScreen.ttyCur = s.ttyCur := by
    obtain ⟨_, _, _, _, _, h⟩ := clear_frame s
    rw [h]
  rw [Synced, clear_cells, hcur]
  exact agrees_screen s.cells _

/-- A terminal that is drawn anew shows its buffer. -/
theorem render_synced (s : Console) : s.vtRenderActive.Synced := by
  have hloop : ∀ i < screenSize, (forLoop screenSize (fun i (vga : Recorded UInt16) ↦
      vga.put i (s.tbuf i)) s.cells.vga).val i = s.tbuf i := by
    refine forLoop_invariant (I := fun k (vga : Recorded UInt16) ↦ ∀ i < k, vga.val i = s.tbuf i)
      (fun _ h ↦ absurd h (Nat.not_lt_zero _)) fun k _ vga hvga i hi ↦ ?_
    by_cases hik : i = k
    · rw [hik, Recorded.put_self]
    · rw [Recorded.put_of_ne hik]
      exact hvga i (by omega)
  rw [Synced, vtRenderActive]
  exact hloop

/-- `scroll_up` moves the cells as `scroll_screen` does. -/
theorem scrollUp_synced (s : Console) : s.scrollUp.Synced :=
  scroll_synced s

/-- `scroll_down` stores to the screen what it stores to the buffer, from the last row up. -/
theorem scrollDown_synced (s : Console) : s.scrollDown.Synced := by
  have hgrid := forLoop_grid (n := vgaHeight - 1) (w := vgaWidth) (fun k col (cells : Cells) ↦
    cells.putBoth (ttyBase s.ttyCur) (vgaIndex (vgaHeight - 2 - k + 1) col)
      (cells.ttyBuf.val (ttyBase s.ttyCur + vgaIndex (vgaHeight - 2 - k) col))) s.cells (by decide)
  have hrows := agrees_forLoop (ttyBase s.ttyCur) (n := (vgaHeight - 1) * vgaWidth)
    (c := s.cells) (r := ∅) (fun _ h ↦ absurd h (Set.notMem_empty _))
    (fun i ↦ vgaIndex (vgaHeight - 2 - i / vgaWidth + 1) (i % vgaWidth)) fun i c ↦
      c.ttyBuf.val (ttyBase s.ttyCur + vgaIndex (vgaHeight - 2 - i / vgaWidth) (i % vgaWidth))
  rw [← hgrid] at hrows
  refine (agrees_forLoop _ (n := vgaWidth) hrows (vgaIndex 0) fun _ _ ↦ cell s.vgaColor 0x20).mono
    fun i hi ↦ ?_
  have hi : i < 2000 := hi
  rcases Nat.lt_or_ge i vgaWidth with hlt | hge
  · exact Or.inr ⟨i, hlt, by rw [vgaIndex, Nat.zero_mul, Nat.zero_add]⟩
  · simp only [vgaWidth] at hge
    refine Or.inl (Or.inr ⟨(24 - i / 80) * 80 + i % 80, Set.mem_Iio.2 ?_, ?_⟩)
    · simp only [vgaHeight, vgaWidth]
      omega
    · simp only [vgaHeight, vgaWidth, vgaIndex]
      omega

/-! ### The invariant

An operation keeps the invariant for one of three reasons. It stores to both copies and takes the
backup from them; it draws on the screen while the view is open; or it puts the backup back, which
is the buffer. -/

/-- What holds in every reachable state. -/
structure Ok (s : Console) : Prop where
  row : s.cursorRow < vgaHeight
  ttyRow : ∀ t, s.ttyRow t < vgaHeight
  backed : s.Backed
  synced : s.isViewingHistory = false → s.Synced

/-- The cursor may move on the screen. -/
theorem Ok.move (h : s.Ok) {row : ℕ} (hrow : row < vgaHeight) (col hw : ℕ) :
    Ok { s with cursorRow := row, cursorCol := col, hwCursor := hw } :=
  ⟨hrow, h.ttyRow, h.backed, h.synced⟩

/-- Clearing the screen establishes the invariant: of the state before, only the rows of the
terminals matter. -/
theorem ok_clearScreen (h : ∀ t, s.ttyRow t < vgaHeight) : s.clearScreen.Ok := by
  have hsynced := clear_synced s
  obtain ⟨history, pos, count, hlines⟩ := saveLines_frame s vgaHeight
  rw [clearScreen, hlines] at hsynced ⊢
  exact ⟨(by decide : 0 < vgaHeight), h, Synced.backup hsynced, fun _ ↦ hsynced⟩

/-- The hardware cursor has no part in the backup. -/
theorem updateCursor_backed (row col : ℕ) : (s.updateCursor row col).Backed ↔ s.Backed := Iff.rfl

/-- The hardware cursor has no part in what the screen shows. -/
theorem updateCursor_synced (row col : ℕ) : (s.updateCursor row col).Synced ↔ s.Synced := Iff.rfl

/-- Taking a backup changes nothing on the screen. -/
theorem backup_synced : s.backupCurrentScreen.Synced ↔ s.Synced := Iff.rfl

/-- Once the view is closed the screen shows the buffer, whether it was open or not. -/
theorem Ok.closeHistory_synced (h : s.Ok) : s.closeHistory.Synced := by
  rw [closeHistory]
  split
  case isTrue => exact (updateCursor_synced _ _).2 (restore_synced _)
  case isFalse hviewing => exact h.synced (by simpa using hviewing)

/-- A character is stored to the buffer and to the screen alike. -/
theorem putChar_synced (h : s.Synced) (c : UInt8) : (s.putChar c).Synced := by
  rw [putChar]
  split
  · exact h
  split
  · exact h
  split
  · exact h
  dsimp only
  split <;> exact (Cells.Agrees.putBoth h _ _).mono (Set.subset_insert _ _)

/-- What a call other than `vt_switch` keeps of the terminals. -/
structure SameTty (s s' : Console) : Prop where
  cur : s'.ttyCur = s.ttyCur
  row : s'.ttyRow = s.ttyRow
  col : s'.ttyCol = s.ttyCol

theorem SameTty.trans {s' s'' : Console} (h : SameTty s s') (h' : SameTty s' s'') :
    SameTty s s'' :=
  ⟨h'.cur.trans h.cur, h'.row.trans h.row, h'.col.trans h.col⟩

theorem closeHistory_sameTty (s : Console) : SameTty s s.closeHistory := by
  rw [closeHistory]
  split <;> exact ⟨rfl, rfl, rfl⟩

/-- Storing a character keeps the terminals; the cursor of the active one is a variable of its
own. -/
theorem putChar_sameTty (s : Console) (c : UInt8) : SameTty s (s.putChar c) := by
  rw [putChar]
  split
  · exact ⟨rfl, rfl, rfl⟩
  split
  · exact ⟨rfl, rfl, rfl⟩
  split
  · exact ⟨rfl, rfl, rfl⟩
  dsimp only
  split <;> exact ⟨rfl, rfl, rfl⟩

/-- The scroll at the end of `print_char_color`. -/
def scrollIfNeeded (s : Console) : Console :=
  if vgaHeight ≤ s.cursorRow then s.scrollScreen else s

/-- `print_char_color` in its stages: the view is closed, the colour set, the character stored, the
screen scrolled, the colour set back, and the backup taken. -/
theorem printCharColor_eq (s : Console) (c fg bg : UInt8) : s.printCharColor c fg bg =
    { ((s.closeHistory.setVgaColor fg bg).putChar c).scrollIfNeeded with
      vgaColor := s.closeHistory.vgaColor
      ttyColor := Function.update
        ((s.closeHistory.setVgaColor fg bg).putChar c).scrollIfNeeded.ttyColor
        ((s.closeHistory.setVgaColor fg bg).putChar c).scrollIfNeeded.ttyCur
        s.closeHistory.vgaColor }.backupCurrentScreen :=
  rfl

theorem scrollIfNeeded_sameTty (s : Console) : SameTty s s.scrollIfNeeded := by
  rw [scrollIfNeeded]
  split <;> exact ⟨rfl, rfl, rfl⟩

/-- After the scroll check the cursor is on the screen again. -/
theorem scrollIfNeeded_row (s : Console) : s.scrollIfNeeded.cursorRow < vgaHeight := by
  rw [scrollIfNeeded]
  split
  case isTrue => exact (by decide : vgaHeight - 1 < vgaHeight)
  case isFalse h => exact Nat.lt_of_not_le h

/-- The scroll check keeps the screen in step with the buffer. -/
theorem scrollIfNeeded_synced (h : s.Synced) : s.scrollIfNeeded.Synced := by
  rw [scrollIfNeeded]
  split
  exacts [scroll_synced s, h]

theorem print_sameTty (s : Console) (c fg bg : UInt8) :
    SameTty s (s.printCharColor c fg bg) := by
  have hcolor : SameTty s.closeHistory (s.closeHistory.setVgaColor fg bg) := ⟨rfl, rfl, rfl⟩
  have h := (((closeHistory_sameTty s).trans hcolor).trans (putChar_sameTty _ c)).trans
    (scrollIfNeeded_sameTty _)
  exact ⟨h.cur, h.row, h.col⟩

/-- After printing the screen shows the buffer, whether the history view was open or not. -/
theorem Ok.print_synced (h : s.Ok) (c fg bg : UInt8) : (s.printCharColor c fg bg).Synced :=
  have hput : ((s.closeHistory.setVgaColor fg bg).putChar c).Synced :=
    putChar_synced (s := s.closeHistory.setVgaColor fg bg) h.closeHistory_synced c
  scrollIfNeeded_synced hput

/-- Printing keeps the invariant. It closes the view, so the screen shows the buffer afterwards in
any case. -/
theorem Ok.print (h : s.Ok) (c fg bg : UInt8) : (s.printCharColor c fg bg).Ok where
  row := scrollIfNeeded_row _
  ttyRow t := by
    rw [(print_sameTty s c fg bg).row]
    exact h.ttyRow t
  backed := by
    have hput : ((s.closeHistory.setVgaColor fg bg).putChar c).Synced :=
      putChar_synced (s := s.closeHistory.setVgaColor fg bg) h.closeHistory_synced c
    exact Synced.backup (scrollIfNeeded_synced hput)
  synced _ := h.print_synced c fg bg

theorem Ok.renderActive (h : s.Ok) : s.vtRenderActive.Ok :=
  ⟨h.row, h.ttyRow, h.backed, fun _ ↦ render_synced s⟩

/-- Activating a terminal draws its buffer and takes the backup of what is drawn. -/
theorem Ok.activate (h : s.Ok) (n : Tty) : (s.activate n).Ok := by
  have hrow : ∀ t, Function.update s.ttyRow s.ttyCur s.cursorRow t < vgaHeight := by
    intro t
    by_cases ht : t = s.ttyCur
    · rw [ht, Function.update_self]
      exact h.row
    · rw [Function.update_of_ne ht]
      exact h.ttyRow t
  rw [Console.activate]
  exact ⟨hrow n, hrow, Synced.backup (render_synced _), fun _ ↦ backup_synced.2 (render_synced _)⟩

theorem Ok.vtSwitch (h : s.Ok) (ttyNum : ℤ) : (s.vtSwitch ttyNum).Ok := by
  rw [Console.vtSwitch]
  split
  exacts [h, h.activate _]

/-- While the view is open the invariant asks nothing of the screen, so drawing on it is
harmless. -/
theorem showHistory_ok (hrow : s.cursorRow < vgaHeight) (htty : ∀ t, s.ttyRow t < vgaHeight)
    (hbacked : s.Backed) (hviewing : s.isViewingHistory = true) : s.showHistoryLines.Ok :=
  ⟨hrow, htty, hbacked, fun h ↦ absurd (hviewing.symm.trans h) Bool.noConfusion⟩

/-- Opening the view takes a backup of a screen that shows the buffer; moving in it takes none. -/
theorem Ok.viewHistoryUp (h : s.Ok) : s.viewHistoryUp.Ok := by
  rw [Console.viewHistoryUp]
  split
  · exact h
  split
  case isTrue hviewing =>
    exact showHistory_ok h.row h.ttyRow (Synced.backup (h.synced (by simpa using hviewing))) rfl
  case isFalse hviewing =>
    exact showHistory_ok h.row h.ttyRow h.backed (by simpa using hviewing)

/-- Leaving the view puts the backup back, which is the buffer. -/
theorem Ok.viewHistoryDown (h : s.Ok) : s.viewHistoryDown.Ok := by
  rw [Console.viewHistoryDown]
  split
  · exact h
  dsimp only
  split
  case isTrue =>
    exact ⟨h.row, h.ttyRow, (updateCursor_backed _ _).2 (restore_backed _),
      fun _ ↦ (updateCursor_synced _ _).2 (restore_synced _)⟩
  case isFalse hviewing _ =>
    exact showHistory_ok h.row h.ttyRow h.backed (by simpa using hviewing)

/-- **Every call keeps the invariant.** -/
theorem Ok.exec (h : s.Ok) (a : ConsoleCall) : (s.exec a).Ok := by
  have hrow := h.row
  cases a with
  | print c fg bg => exact h.print c fg bg
  | clear => exact ok_clearScreen h.ttyRow
  | switch ttyNum => exact h.vtSwitch ttyNum
  | up =>
    rw [Console.exec, moveCursorUp]
    split
    · exact h.move (show s.cursorRow - 1 < vgaHeight by omega) _ _
    · exact h.viewHistoryUp.move (show 0 < vgaHeight by decide) _ _
  | down =>
    rw [Console.exec, moveCursorDown]
    split
    · exact h.move (show s.cursorRow + 1 < vgaHeight by omega) _ _
    · exact h.viewHistoryDown.move (show vgaHeight - 1 < vgaHeight by decide) _ _
  | left =>
    rw [Console.exec, moveCursorLeft]
    split
    · exact h.move hrow _ _
    split
    · exact h.move (show s.cursorRow - 1 < vgaHeight by omega) _ _
    · exact h.move hrow _ _
  | right =>
    rw [Console.exec, moveCursorRight]
    split
    · exact h.move hrow _ _
    split
    · exact h.move (show s.cursorRow + 1 < vgaHeight by omega) _ _
    · exact h.move hrow _ _
  | setRow row =>
    rw [Console.exec, setCursorRow]
    split
    case isTrue hlt => exact h.move hlt _ _
    case isFalse => exact h
  | setCol col =>
    rw [Console.exec, setCursorCol]
    split
    · exact h.move hrow _ _
    · exact h

theorem Ok.scrollUp (h : s.Ok) : s.scrollUp.Ok := by
  have hrow := h.row
  have hsynced := scrollUp_synced s
  rw [Console.scrollUp] at hsynced ⊢
  refine ⟨?_, h.ttyRow, (updateCursor_backed _ _).2 (Synced.backup (backup_synced.1
    ((updateCursor_synced _ _).1 hsynced))), fun _ ↦ hsynced⟩
  change (if _ then _ else if _ then _ else _) < _
  split
  · exact (Nat.sub_le _ _).trans_lt hrow
  split
  · exact (Nat.sub_le _ _).trans_lt hrow
  · exact hrow

theorem Ok.scrollDown (h : s.Ok) : s.scrollDown.Ok := by
  have hrow := h.row
  have hsynced := scrollDown_synced s
  rw [Console.scrollDown] at hsynced ⊢
  refine ⟨?_, h.ttyRow, (updateCursor_backed _ _).2 (Synced.backup (backup_synced.1
    ((updateCursor_synced _ _).1 hsynced))), fun _ ↦ hsynced⟩
  change (if _ then _ else if _ then _ else _) < _
  split
  case isTrue hzero =>
    rw [hzero]
    decide
  split
  case isTrue hlt =>
    have hlt : s.cursorRow < vgaHeight - 1 := hlt
    exact Nat.add_lt_of_lt_sub hlt
  case isFalse => exact hrow

theorem Ok.perform (h : s.Ok) (a : ScreenCall) : (s.perform a).Ok := by
  cases a with
  | basic call => exact h.exec call
  | renderActive => exact h.renderActive
  | scrollUp => exact h.scrollUp
  | scrollDown => exact h.scrollDown

/-- `console_init` establishes the invariant, whatever is in the video memory. -/
theorem ok_boot (vga : ℕ → UInt16) : (boot vga).consoleInit.Ok :=
  ok_clearScreen fun _ ↦ (by decide : 0 < vgaHeight)

/-! ### What does not depend on the view

The screen is only read to be copied to the history or to the backup, the history is only drawn on
the screen, and the backup is only put back to the buffer that it is a copy of. So the buffers, the
cursor and the colours after a call are a function of the buffers, the cursor and the colours before
it. -/

/-- The two consoles have the same terminals, buffers, cursor and colours; their screens, backups
and histories may differ. -/
structure SameBuffers (s s' : Console) : Prop where
  ttyBuf : s'.cells.ttyBuf.val = s.cells.ttyBuf.val
  ttyRow : s'.ttyRow = s.ttyRow
  ttyCol : s'.ttyCol = s.ttyCol
  ttyColor : s'.ttyColor = s.ttyColor
  ttyCur : s'.ttyCur = s.ttyCur
  cursorRow : s'.cursorRow = s.cursorRow
  cursorCol : s'.cursorCol = s.cursorCol
  vgaColor : s'.vgaColor = s.vgaColor

namespace SameBuffers

variable {s' s'' : Console}

theorem refl (s : Console) : SameBuffers s s := ⟨rfl, rfl, rfl, rfl, rfl, rfl, rfl, rfl⟩

theorem symm (h : SameBuffers s s') : SameBuffers s' s :=
  ⟨h.ttyBuf.symm, h.ttyRow.symm, h.ttyCol.symm, h.ttyColor.symm, h.ttyCur.symm, h.cursorRow.symm,
    h.cursorCol.symm, h.vgaColor.symm⟩

theorem trans (h : SameBuffers s s') (h' : SameBuffers s' s'') : SameBuffers s s'' :=
  ⟨h'.ttyBuf.trans h.ttyBuf, h'.ttyRow.trans h.ttyRow, h'.ttyCol.trans h.ttyCol,
    h'.ttyColor.trans h.ttyColor, h'.ttyCur.trans h.ttyCur, h'.cursorRow.trans h.cursorRow,
    h'.cursorCol.trans h.cursorCol, h'.vgaColor.trans h.vgaColor⟩

/-- The same values in all buffers. -/
def SameVal (c' c : Cells) : Prop := c'.ttyBuf.val = c.ttyBuf.val

/-- Storing the same value to the same cell. -/
theorem putBoth_val {c c' : Cells} (h : SameVal c' c) (base idx : ℕ) {v v' : UInt16}
    (hv : v' = v) : SameVal (c'.putBoth base idx v') (c.putBoth base idx v) := by
  rw [SameVal, Cells.putBoth, Cells.putBoth, Recorded.put, Recorded.put, hv]
  exact congrArg (fun f ↦ Function.update f (base + idx) v) h

/-- Scrolling the same values gives the same values. -/
theorem scrolled_val {c c' : Cells} (h : SameVal c' c) (base : ℕ) (v : UInt16) :
    SameVal (c'.scrolled base v) (c.scrolled base v) := by
  refine forLoop_rel (R := SameVal) (forLoop_rel (R := SameVal) h ?_) ?_
  · exact fun _ _ _ _ h ↦ putBoth_val h _ _ (congrFun h _)
  · exact fun _ _ _ _ h ↦ putBoth_val h _ _ rfl

end SameBuffers

/-- Restoring the screen from the backup changes nothing in the buffers. -/
theorem Backed.restore (h : s.Backed) :
    s.restoreScreenFromBackup.cells.ttyBuf.val = s.cells.ttyBuf.val := by
  rw [restore_cells]
  refine forLoop_invariant (I := fun _ (c : Cells) ↦ c.ttyBuf.val = s.cells.ttyBuf.val) rfl
    fun k hk c hc ↦ ?_
  rw [h k hk]
  change Function.update c.ttyBuf.val _ _ = _
  rw [hc]
  exact Function.update_eq_self _ _

/-- Closing the view restores a backup that is the buffer, so no buffer changes. -/
theorem Ok.closeHistory_sameBuffers (h : s.Ok) : SameBuffers s s.closeHistory := by
  rw [closeHistory]
  split
  · have hbacked : Backed { s with isViewingHistory := false, historyViewOffset := 0 } := h.backed
    have hval := hbacked.restore
    obtain ⟨_, hs⟩ := restore_frame { s with isViewingHistory := false, historyViewOffset := 0 }
    rw [hs] at hval ⊢
    exact ⟨hval, rfl, rfl, rfl, rfl, rfl, rfl, rfl⟩
  · exact .refl s

section Congruence

variable {s' : Console}

/-- What a character does to the buffer does not depend on the screen. -/
theorem SameBuffers.putChar (h : SameBuffers s s') (c : UInt8) :
    SameBuffers (s.putChar c) (s'.putChar c) := by
  have hcolor := h.vgaColor
  rw [Console.putChar, Console.putChar, h.cursorRow, h.cursorCol]
  split
  · exact ⟨h.ttyBuf, h.ttyRow, h.ttyCol, h.ttyColor, h.ttyCur, rfl, rfl, hcolor⟩
  split
  · exact ⟨h.ttyBuf, h.ttyRow, h.ttyCol, h.ttyColor, h.ttyCur, rfl, rfl, hcolor⟩
  split
  · exact ⟨h.ttyBuf, h.ttyRow, h.ttyCol, h.ttyColor, h.ttyCur, rfl, rfl, hcolor⟩
  dsimp only
  split
  · refine ⟨?_, h.ttyRow, h.ttyCol, h.ttyColor, h.ttyCur, rfl, rfl, hcolor⟩
    rw [h.ttyCur]
    exact putBoth_val h.ttyBuf _ _ (by rw [hcolor])
  · refine ⟨?_, h.ttyRow, h.ttyCol, h.ttyColor, h.ttyCur, h.cursorRow, ?_, hcolor⟩
    · rw [h.ttyCur, h.cursorRow, h.cursorCol]
      exact putBoth_val h.ttyBuf _ _ (by rw [hcolor])
    · rw [h.cursorCol]

/-- Scrolling moves the cells of the buffer, whatever the screen shows. -/
theorem SameBuffers.scrollScreen (h : SameBuffers s s') :
    SameBuffers s.scrollScreen s'.scrollScreen := by
  have hcells : s'.scrollScreen.cells.ttyBuf.val = s.scrollScreen.cells.ttyBuf.val := by
    rw [scroll_cells, scroll_cells, h.ttyCur, h.vgaColor]
    exact scrolled_val h.ttyBuf _ _
  obtain ⟨_, _, _, _, _, hs⟩ := scroll_frame s
  obtain ⟨_, _, _, _, _, hs'⟩ := scroll_frame s'
  rw [hs, hs'] at hcells ⊢
  exact ⟨hcells, h.ttyRow, h.ttyCol, h.ttyColor, h.ttyCur, rfl, rfl, h.vgaColor⟩

theorem SameBuffers.scrollIfNeeded (h : SameBuffers s s') :
    SameBuffers s.scrollIfNeeded s'.scrollIfNeeded := by
  rw [Console.scrollIfNeeded, Console.scrollIfNeeded, h.cursorRow]
  split
  exacts [h.scrollScreen, h]

/-- **Printing** gives the same buffers and the same cursor, whether a history view is open or
not. -/
theorem SameBuffers.print (h : SameBuffers s s') (hs : s.Ok) (hs' : s'.Ok) (c fg bg : UInt8) :
    SameBuffers (s.printCharColor c fg bg) (s'.printCharColor c fg bg) := by
  have hclosed := hs.closeHistory_sameBuffers.symm.trans (h.trans hs'.closeHistory_sameBuffers)
  have hcolor : SameBuffers (s.closeHistory.setVgaColor fg bg)
      (s'.closeHistory.setVgaColor fg bg) :=
    ⟨hclosed.ttyBuf, hclosed.ttyRow, hclosed.ttyCol,
      by simp only [setVgaColor, hclosed.ttyColor, hclosed.ttyCur], hclosed.ttyCur,
      hclosed.cursorRow, hclosed.cursorCol, rfl⟩
  have hdone := (hcolor.putChar c).scrollIfNeeded
  rw [printCharColor_eq, printCharColor_eq]
  generalize ((s.closeHistory.setVgaColor fg bg).putChar c).scrollIfNeeded = u at *
  generalize ((s'.closeHistory.setVgaColor fg bg).putChar c).scrollIfNeeded = u' at *
  have hcolors : Function.update u'.ttyColor u'.ttyCur s'.closeHistory.vgaColor =
      Function.update u.ttyColor u.ttyCur s.closeHistory.vgaColor := by
    rw [hdone.ttyColor, hdone.ttyCur, hclosed.vgaColor]
  exact ⟨hdone.ttyBuf, hdone.ttyRow, hdone.ttyCol, hcolors, hdone.ttyCur, hdone.cursorRow,
    hdone.cursorCol, hclosed.vgaColor⟩

theorem SameBuffers.clearScreen (h : SameBuffers s s') :
    SameBuffers s.clearScreen s'.clearScreen := by
  have hcells : s'.clearScreen.cells.ttyBuf.val = s.clearScreen.cells.ttyBuf.val := by
    rw [clear_cells, clear_cells, h.ttyCur, h.vgaColor]
    exact forLoop_rel (R := SameVal) h.ttyBuf fun _ _ _ _ h ↦ putBoth_val h _ _ rfl
  obtain ⟨_, _, _, _, _, hs⟩ := clear_frame s
  obtain ⟨_, _, _, _, _, hs'⟩ := clear_frame s'
  rw [hs, hs'] at hcells ⊢
  exact ⟨hcells, h.ttyRow, h.ttyCol, h.ttyColor, h.ttyCur, rfl, rfl, h.vgaColor⟩

theorem SameBuffers.renderActive (h : SameBuffers s s') :
    SameBuffers s.vtRenderActive s'.vtRenderActive := by
  obtain ⟨_, _, hs⟩ := render_frame s
  obtain ⟨_, _, hs'⟩ := render_frame s'
  rw [hs, hs']
  exact ⟨h.ttyBuf, h.ttyRow, h.ttyCol, h.ttyColor, h.ttyCur, h.cursorRow, h.cursorCol, h.vgaColor⟩

theorem backup_sameBuffers (s : Console) : SameBuffers s s.backupCurrentScreen := by
  obtain ⟨_, hs⟩ := backup_frame s
  rw [hs]
  exact ⟨rfl, rfl, rfl, rfl, rfl, rfl, rfl, rfl⟩

theorem SameBuffers.backup (h : SameBuffers s s') :
    SameBuffers s.backupCurrentScreen s'.backupCurrentScreen :=
  ((backup_sameBuffers s).symm.trans h).trans (backup_sameBuffers s')

/-- Switching reads the saved cursors only, which are the same. -/
theorem SameBuffers.activate (h : SameBuffers s s') (n : Tty) :
    SameBuffers (s.activate n) (s'.activate n) := by
  rw [Console.activate, Console.activate, h.ttyRow, h.ttyCol, h.ttyColor, h.ttyCur, h.cursorRow,
    h.cursorCol, h.vgaColor]
  refine SameBuffers.backup (renderActive ?_)
  exact ⟨h.ttyBuf, rfl, rfl, rfl, rfl, rfl, rfl, rfl⟩

theorem SameBuffers.vtSwitch (h : SameBuffers s s') (ttyNum : ℤ) :
    SameBuffers (s.vtSwitch ttyNum) (s'.vtSwitch ttyNum) := by
  rw [Console.vtSwitch, Console.vtSwitch, h.ttyCur]
  split
  exacts [h, h.activate _]

theorem showHistory_sameBuffers (s : Console) : SameBuffers s s.showHistoryLines := by
  obtain ⟨_, _, _, hs⟩ := showHistory_frame s
  rw [hs]
  exact ⟨rfl, rfl, rfl, rfl, rfl, rfl, rfl, rfl⟩

/-- Opening the view or going further up in it leaves the buffers alone. -/
theorem viewHistoryUp_sameBuffers (s : Console) : SameBuffers s s.viewHistoryUp := by
  rw [viewHistoryUp]
  split
  · exact .refl s
  split
  · obtain ⟨_, hs⟩ := backup_frame s
    rw [hs]
    refine SameBuffers.trans ?_ (showHistory_sameBuffers _)
    exact ⟨rfl, rfl, rfl, rfl, rfl, rfl, rfl, rfl⟩
  · refine SameBuffers.trans ?_ (showHistory_sameBuffers _)
    exact ⟨rfl, rfl, rfl, rfl, rfl, rfl, rfl, rfl⟩

theorem Ok.viewHistoryDown_sameBuffers (h : s.Ok) : SameBuffers s s.viewHistoryDown := by
  rw [Console.viewHistoryDown]
  split
  · exact .refl s
  dsimp only
  split
  · have hbacked : Backed { s with isViewingHistory := false, historyViewOffset := 0 } := h.backed
    have hval := hbacked.restore
    obtain ⟨_, hs⟩ := restore_frame
      { s with isViewingHistory := false, historyViewOffset := 0 }
    rw [hs] at hval ⊢
    exact ⟨hval, rfl, rfl, rfl, rfl, rfl, rfl, rfl⟩
  · refine SameBuffers.trans ?_ (showHistory_sameBuffers _)
    exact ⟨rfl, rfl, rfl, rfl, rfl, rfl, rfl, rfl⟩

theorem SameBuffers.scrollUp (h : SameBuffers s s') : SameBuffers s.scrollUp s'.scrollUp := by
  have hcells : ∀ u : Console, u.scrollUp.cells = u.scrollScreen.cells := fun _ ↦ rfl
  have hval : s'.scrollUp.cells.ttyBuf.val = s.scrollUp.cells.ttyBuf.val := by
    rw [hcells, hcells]
    exact h.scrollScreen.ttyBuf
  obtain ⟨_, _, _, _, _, _, hs⟩ := scrollUp_frame s
  obtain ⟨_, _, _, _, _, _, hs'⟩ := scrollUp_frame s'
  rw [hs, hs'] at hval ⊢
  refine ⟨hval, h.ttyRow, h.ttyCol, h.ttyColor, h.ttyCur, ?_, h.cursorCol, h.vgaColor⟩
  dsimp only
  rw [h.cursorRow]

theorem SameBuffers.scrollDown (h : SameBuffers s s') :
    SameBuffers s.scrollDown s'.scrollDown := by
  have hcells : ∀ u : Console, u.scrollDown.cells = forLoop vgaWidth (fun col c ↦
      c.putBoth (ttyBase u.ttyCur) (vgaIndex 0 col) (cell u.vgaColor 0x20))
      (forLoop (vgaHeight - 1) (fun k ↦ forLoop vgaWidth fun col c ↦
        c.putBoth (ttyBase u.ttyCur) (vgaIndex (vgaHeight - 2 - k + 1) col)
          (c.ttyBuf.val (ttyBase u.ttyCur + vgaIndex (vgaHeight - 2 - k) col))) u.cells) :=
    fun _ ↦ rfl
  have hval : s'.scrollDown.cells.ttyBuf.val = s.scrollDown.cells.ttyBuf.val := by
    rw [hcells, hcells, h.ttyCur, h.vgaColor]
    refine forLoop_rel (R := SameVal) (forLoop_rel (R := SameVal) h.ttyBuf ?_) ?_
    · intro k _ _ _ h
      exact forLoop_rel (R := SameVal) h fun _ _ _ _ h ↦ putBoth_val h _ _ (congrFun h _)
    · exact fun _ _ _ _ h ↦ putBoth_val h _ _ rfl
  obtain ⟨_, _, _, _, _, _, hs⟩ := scrollDown_frame s
  obtain ⟨_, _, _, _, _, _, hs'⟩ := scrollDown_frame s'
  rw [hs, hs'] at hval ⊢
  refine ⟨hval, h.ttyRow, h.ttyCol, h.ttyColor, h.ttyCur, ?_, h.cursorCol, h.vgaColor⟩
  dsimp only
  rw [h.cursorRow]

theorem SameBuffers.updateCursor (h : SameBuffers s s') (row col row' col' : ℕ) :
    SameBuffers (s.updateCursor row col) (s'.updateCursor row' col') :=
  ⟨h.ttyBuf, h.ttyRow, h.ttyCol, h.ttyColor, h.ttyCur, h.cursorRow, h.cursorCol, h.vgaColor⟩

/-- Moving both cursors to one place. -/
theorem SameBuffers.move (h : SameBuffers s s') (row col : ℕ) :
    SameBuffers { s with cursorRow := row, cursorCol := col }
      { s' with cursorRow := row, cursorCol := col } :=
  ⟨h.ttyBuf, h.ttyRow, h.ttyCol, h.ttyColor, h.ttyCur, rfl, rfl, h.vgaColor⟩

/-- Moving both cursors to one row. -/
theorem SameBuffers.moveRow (h : SameBuffers s s') (row : ℕ) :
    SameBuffers { s with cursorRow := row } { s' with cursorRow := row } :=
  ⟨h.ttyBuf, h.ttyRow, h.ttyCol, h.ttyColor, h.ttyCur, rfl, h.cursorCol, h.vgaColor⟩

/-- Moving both cursors to one column. -/
theorem SameBuffers.moveCol (h : SameBuffers s s') (col : ℕ) :
    SameBuffers { s with cursorCol := col } { s' with cursorCol := col } :=
  ⟨h.ttyBuf, h.ttyRow, h.ttyCol, h.ttyColor, h.ttyCur, h.cursorRow, rfl, h.vgaColor⟩

theorem SameBuffers.moveCursorUp (h : SameBuffers s s') :
    SameBuffers s.moveCursorUp s'.moveCursorUp := by
  have hview := (viewHistoryUp_sameBuffers s).symm.trans (h.trans (viewHistoryUp_sameBuffers s'))
  rw [Console.moveCursorUp, Console.moveCursorUp]
  refine SameBuffers.updateCursor ?_ _ _ _ _
  by_cases hrow : 0 < s.cursorRow
  · rw [if_pos hrow, if_pos (h.cursorRow ▸ hrow), h.cursorRow]
    exact h.moveRow _
  · rw [if_neg hrow, if_neg (h.cursorRow ▸ hrow)]
    exact hview.moveRow 0

/-- Down either moves the cursor or the view, and the view has no part in the buffers. -/
theorem SameBuffers.moveCursorDown (h : SameBuffers s s') (hs : s.Ok) (hs' : s'.Ok) :
    SameBuffers s.moveCursorDown s'.moveCursorDown := by
  have hview := hs.viewHistoryDown_sameBuffers.symm.trans (h.trans hs'.viewHistoryDown_sameBuffers)
  rw [Console.moveCursorDown, Console.moveCursorDown]
  refine SameBuffers.updateCursor ?_ _ _ _ _
  by_cases hrow : s.cursorRow < vgaHeight - 1
  · rw [if_pos hrow, if_pos (h.cursorRow ▸ hrow), h.cursorRow]
    exact h.moveRow _
  · rw [if_neg hrow, if_neg (h.cursorRow ▸ hrow)]
    exact hview.moveRow _

theorem SameBuffers.moveCursorLeft (h : SameBuffers s s') :
    SameBuffers s.moveCursorLeft s'.moveCursorLeft := by
  rw [Console.moveCursorLeft, Console.moveCursorLeft, h.cursorRow, h.cursorCol]
  refine SameBuffers.updateCursor ?_ _ _ _ _
  split
  · exact h.move _ _
  split
  exacts [h.move _ _, h]

theorem SameBuffers.moveCursorRight (h : SameBuffers s s') :
    SameBuffers s.moveCursorRight s'.moveCursorRight := by
  rw [Console.moveCursorRight, Console.moveCursorRight, h.cursorRow, h.cursorCol]
  refine SameBuffers.updateCursor ?_ _ _ _ _
  split
  · exact h.move _ _
  split
  exacts [h.move _ _, h]

/-- **Buffers, terminals and cursor after a call do not depend on the view**: they are the same for
two consoles that had the same, whatever their screens show. -/
theorem SameBuffers.perform (h : SameBuffers s s') (hs : s.Ok) (hs' : s'.Ok) (a : ScreenCall) :
    SameBuffers (s.perform a) (s'.perform a) := by
  match a with
  | .renderActive => exact h.renderActive
  | .scrollUp => exact h.scrollUp
  | .scrollDown => exact h.scrollDown
  | .basic (.print c fg bg) => exact h.print hs hs' c fg bg
  | .basic .clear => exact h.clearScreen
  | .basic (.switch ttyNum) => exact h.vtSwitch ttyNum
  | .basic .up => exact h.moveCursorUp
  | .basic .down => exact h.moveCursorDown hs hs'
  | .basic .left => exact h.moveCursorLeft
  | .basic .right => exact h.moveCursorRight
  | .basic (.setRow row) =>
    rw [Console.perform, Console.perform, exec, exec, setCursorRow, setCursorRow]
    split
    exacts [h.moveRow row, h]
  | .basic (.setCol col) =>
    rw [Console.perform, Console.perform, exec, exec, setCursorCol, setCursorCol]
    split
    exacts [h.moveCol col, h]

end Congruence

/-! ### Every run -/

/-- Storing a character neither opens nor closes the view. -/
theorem putChar_view (s : Console) (c : UInt8) :
    (s.putChar c).isViewingHistory = s.isViewingHistory := by
  rw [putChar]
  split
  · rfl
  split
  · rfl
  split
  · rfl
  dsimp only
  split <;> rfl

theorem scrollIfNeeded_view (s : Console) :
    s.scrollIfNeeded.isViewingHistory = s.isViewingHistory := by
  rw [scrollIfNeeded]
  split
  · obtain ⟨_, _, _, _, _, hs⟩ := scroll_frame s
    rw [hs]
  · rfl

/-- Before a character is stored the view is closed. -/
theorem closeHistory_view (s : Console) : s.closeHistory.isViewingHistory = false := by
  rw [closeHistory]
  split
  · obtain ⟨_, hs⟩ := restore_frame { s with isViewingHistory := false, historyViewOffset := 0 }
    rw [hs]
    rfl
  case isFalse h => simpa using h

/-- Printing closes the view. -/
theorem print_view (s : Console) (c fg bg : UInt8) :
    (s.printCharColor c fg bg).isViewingHistory = false := by
  have hview : ((s.closeHistory.setVgaColor fg bg).putChar c).scrollIfNeeded.isViewingHistory =
      false := by
    rw [scrollIfNeeded_view, putChar_view]
    exact closeHistory_view s
  rw [printCharColor_eq]
  exact hview

/-- A console with nothing to view does not open the view. -/
theorem perform_view (hview : s.isViewingHistory = false) (a : ScreenCall) :
    ({ s with historyCount := 0 }.perform a).isViewingHistory = false := by
  generalize hu : { s with historyCount := 0 } = u
  have hview : u.isViewingHistory = false := hu ▸ hview
  have hcount : u.historyCount = 0 := hu ▸ rfl
  match a with
  | .renderActive =>
    obtain ⟨_, _, hs⟩ := render_frame u
    rw [perform, hs]
    exact hview
  | .scrollUp =>
    obtain ⟨_, _, _, _, _, _, hs⟩ := scrollUp_frame u
    rw [perform, hs]
    exact hview
  | .scrollDown =>
    obtain ⟨_, _, _, _, _, _, hs⟩ := scrollDown_frame u
    rw [perform, hs]
    exact hview
  | .basic (.print c fg bg) => exact print_view u c fg bg
  | .basic .clear =>
    obtain ⟨_, _, _, _, _, hs⟩ := clear_frame u
    rw [perform, exec, hs]
  | .basic (.switch ttyNum) =>
    rw [perform, exec, vtSwitch]
    split
    · exact hview
    · obtain ⟨_, _, _, hs⟩ := activate_frame u (Fin.ofNat ttyCount ttyNum.toNat)
      rw [hs]
      exact hview
  | .basic .up =>
    rw [perform, exec, moveCursorUp, viewHistoryUp, if_pos hcount]
    split <;> exact hview
  | .basic .down =>
    have hdown : u.viewHistoryDown = u := by rw [viewHistoryDown, hview, Bool.not_false, if_pos rfl]
    rw [perform, exec, moveCursorDown, hdown]
    split <;> exact hview
  | .basic .left =>
    rw [perform, exec, moveCursorLeft]
    split
    · exact hview
    split <;> exact hview
  | .basic .right =>
    rw [perform, exec, moveCursorRight]
    split
    · exact hview
    split <;> exact hview
  | .basic (.setRow row) =>
    rw [perform, exec, setCursorRow]
    split <;> exact hview
  | .basic (.setCol col) =>
    rw [perform, exec, setCursorCol]
    split <;> exact hview

end Console

/-- One call. -/
def ScreenStep (s : Console) (a : ScreenCall) (s' : Console) : Prop := s' = s.perform a

/-- The same call on a console whose history view never opens: `view_history_up` finds no lines. -/
def UnopenedStep (s : Console) (a : ScreenCall) (s' : Console) : Prop :=
  s' = { s with historyCount := 0 }.perform a

/-- The same screen, active buffer and cursor. -/
structure SamePicture (s s' : Console) : Prop where
  screen : ∀ i < screenSize, s'.cells.vga.val i = s.cells.vga.val i
  buffer : ∀ i < screenSize, s'.tbuf i = s.tbuf i
  cursorRow : s'.cursorRow = s.cursorRow
  cursorCol : s'.cursorCol = s.cursorCol

/-- Two screens that show the same buffer are the same picture. -/
theorem Console.SameBuffers.samePicture {s s' : Console} (h : s.SameBuffers s') (hs : s.Synced)
    (hs' : s'.Synced) : SamePicture s s' := by
  have hbuffer : ∀ i < screenSize, s'.tbuf i = s.tbuf i := by
    intro i _
    rw [tbuf, tbuf, h.ttyBuf, h.ttyCur]
  exact ⟨fun i hi ↦ (hs' i hi).trans ((hbuffer i hi).trans (hs i hi).symm), hbuffer, h.cursorRow,
    h.cursorCol⟩

/-- **Screen, buffer and backup stay in step.** In every state reached from `console_init` the
backup is the active terminal's buffer, and so is the screen unless the history view is open. And
had the view never been opened in that run, the cursor would be in the same place, and printing a
character would give the same screen, buffer and cursor. -/
theorem copies_in_step {vga : ℕ → UInt16} {calls : List ScreenCall} {s : Console}
    (hrun : Run ScreenStep (Console.boot vga).consoleInit calls s) :
    s.Backed ∧ (s.isViewingHistory = false → s.Synced) ∧
      ∃ s', Run UnopenedStep (Console.boot vga).consoleInit calls s' ∧
        s'.isViewingHistory = false ∧ s'.cursorRow = s.cursorRow ∧ s'.cursorCol = s.cursorCol ∧
        ∀ c fg bg, SamePicture (s.printCharColor c fg bg) (s'.printCharColor c fg bg) := by
  have hinit := Console.ok_boot vga
  have hview : (Console.boot vga).consoleInit.isViewingHistory = false := by
    obtain ⟨_, _, _, _, _, hs⟩ := Console.clear_frame (Console.boot vga)
    rw [Console.consoleInit, hs]
  obtain ⟨s', hrun', hs, hs', hsame, hclosed⟩ := hrun.simulates UnopenedStep (n := calls.length)
    (R := fun _ s s' ↦ s.Ok ∧ s'.Ok ∧ s.SameBuffers s' ∧ s'.isViewingHistory = false)
    (fun {_ s a t s'} _ ⟨hs, hs', hsame, hclosed⟩ hstep ↦ by
      have hu : Console.Ok { s' with historyCount := 0 } :=
        ⟨hs'.row, hs'.ttyRow, hs'.backed, hs'.synced⟩
      have hsame : s.SameBuffers { s' with historyCount := 0 } :=
        ⟨hsame.ttyBuf, hsame.ttyRow, hsame.ttyCol, hsame.ttyColor, hsame.ttyCur, hsame.cursorRow,
          hsame.cursorCol, hsame.vgaColor⟩
      rw [hstep]
      exact ⟨_, rfl, hs.perform a, hu.perform a, hsame.perform hs hu a,
        Console.perform_view hclosed a⟩)
    ⟨hinit, hinit, .refl _, hview⟩ le_rfl
  exact ⟨hs.backed, hs.synced, s', hrun', hclosed, hsame.cursorRow, hsame.cursorCol,
    fun c fg bg ↦ (hsame.print hs hs' c fg bg).samePicture (hs.print_synced c fg bg)
      (hs'.print_synced c fg bg)⟩

theorem copies_in_step_viewed : ∃ s : Console, s.isViewingHistory = true ∧
    s.Backed ∧ (s.isViewingHistory = false → s.Synced) ∧
      ∃ s', Run UnopenedStep (Console.boot fun _ ↦ 0).consoleInit [.basic .up] s' ∧
        s'.isViewingHistory = false ∧ s'.cursorRow = s.cursorRow ∧ s'.cursorCol = s.cursorCol ∧
        ∀ c fg bg, SamePicture (s.printCharColor c fg bg) (s'.printCharColor c fg bg) :=
  ⟨((Console.boot fun _ ↦ 0).consoleInit).perform (.basic .up), by decide,
    copies_in_step (Run.single rfl)⟩

end LightNight
