import LightNightOS.Console.Output
import LightNightOS.Foundation.RingLog

/-!
# The scrollback view

The lines that leave the screen are kept in a ring of 1000 rows. `Saved s lines` says that `lines`
are all that `save_line_to_history` was ever called for, up to the state `s`, whatever else the
console did; it relates every reachable state to such a list (`saved_of_run`), and the ring holds
the last of them (`Saved.ring`). `scrollback_view` says what the view shows after it was opened and
Up was pressed some more times, and that `show_history_lines` has read no slot for it but those of
the lines kept.

* `Saved.ring` — the ring holds the last of the saved lines;
* `showHistory_row`, `histIndex_eq` — the row of the view, and the slot it is read from;
* `viewing_iterate`, `reads_iterate` — Up, any number of times;
* `scrollback_view` — every reachable state.
-/

namespace LightNight

open Transition

/-- A row of cells. -/
abbrev SavedLine : Type := ℕ → UInt16

namespace Console

/-- A row of the screen. -/
def screenLine (s : Console) (lineNum : ℕ) : SavedLine :=
  fun col ↦ s.cells.vga.val (lineNum * vgaWidth + col)

/-- The lines that were saved, oldest first: by `save_line_to_history`, from an empty history on.
Nothing else sets the history. -/
inductive Saved : Console → List SavedLine → Prop
  | empty {s : Console} (hcount : s.historyCount = 0) (hpos : s.historyWritePos = 0) : Saved s []
  | save {s : Console} {lines : List SavedLine} (h : Saved s lines) (lineNum : ℕ) :
      Saved (s.saveLineToHistory lineNum) (lines ++ [s.screenLine lineNum])
  | other {s t : Console} {lines : List SavedLine} (h : Saved s lines)
    (hhistory : t.history = s.history)
      (hpos : t.historyWritePos = s.historyWritePos) (hcount : t.historyCount = s.historyCount) :
      Saved t lines

/-- The slot of the line number `i` of those kept. -/
def keptSlot (s : Console) (i : ℕ) : ℕ :=
  (s.historyWritePos + historySize - s.historyCount + i) % historySize

variable {s t : Console} {lines : List SavedLine} {k : ℕ}

/-! ### The ring

`history_write_pos` and `history_count` are those of a ring buffer (`RingHolds`); a row of it is
compared on its 80 cells. -/

/-- The cells of a row that matter. -/
def SameLine (row line : SavedLine) : Prop := ∀ col < vgaWidth, row col = line col

/-- **The ring** holds the last 1000 lines that were saved. -/
theorem Saved.ring (h : Saved s lines) :
    RingHolds SameLine historySize s.history s.historyWritePos s.historyCount lines := by
  induction h with
  | empty hcount hpos =>
    rw [hcount, hpos]
    exact .nil _ _ _
  | @save s lines _ lineNum ih =>
    refine ih.push (fun col hcol ↦ saveLine_history s lineNum hcol) fun r hr line hline col hcol ↦
      ?_
    rw [saveLine_history_of_ne s lineNum hr]
    exact hline col hcol
  | other _ hhistory hpos hcount ih =>
    rw [hhistory, hpos, hcount]
    exact ih

/-! ### The view on the screen

The loops of `show_history_lines` in closed form: the row `screen_row` of the screen shows the slot
that `start_index` and `screen_row` give. -/

/-- The view shows as many lines as are kept, up to 24. -/
theorem linesToShow_eq (s : Console) : s.linesToShow = min 24 s.historyCount := by
  rw [linesToShow]
  simp only [vgaHeight]
  split <;> omega

/-- **A row of the view** is a slot, cell by cell. -/
theorem showHistory_row (s : Console) {r col : ℕ} (hr : r < s.linesToShow) (hcol : col < vgaWidth) :
    s.showHistoryLines.cells.vga.val (vgaIndex r col) =
      shownCell (s.history (s.histIndex r) col) := by
  have hwidth : vgaWidth = 80 := rfl
  rw [showHistory_vga, vgaIndex]
  generalize forLoop screenSize (fun i (vga : Recorded UInt16) ↦ vga.put i historyBlank)
    s.cells.vga = blank
  -- the prompt is below the rows
  refine forLoop_invariant (I := fun _ (vga : Recorded UInt16) ↦ vga.val (r * vgaWidth + col) =
    shownCell (s.history (s.histIndex r) col)) ?_ fun i _ vga hvga ↦ ?_
  · rw [forLoop_grid (fun row col (vga : Recorded UInt16) ↦ vga.put (row * vgaWidth + col)
      (shownCell (s.history (s.histIndex row) col))) blank (by decide)]
    have hcells := forLoop_invariant (n := s.linesToShow * vgaWidth) (s := blank)
      (f := fun i vga ↦ vga.put (i / vgaWidth * vgaWidth + i % vgaWidth)
        (shownCell (s.history (s.histIndex (i / vgaWidth)) (i % vgaWidth))))
      (I := fun k (vga : Recorded UInt16) ↦ ∀ i < k, vga.val i =
        shownCell (s.history (s.histIndex (i / vgaWidth)) (i % vgaWidth)))
      (fun i hi ↦ absurd hi (Nat.not_lt_zero i)) fun k _ vga hvga i hi ↦ by
        rw [Nat.div_add_mod']
        by_cases hik : i = k
        · rw [hik, Recorded.put_self]
        · rw [Recorded.put_of_ne hik]
          exact hvga i (by omega)
    have hlt : r * vgaWidth + col < s.linesToShow * vgaWidth := by
      have := Nat.mul_le_mul_right vgaWidth (Nat.succ_le_of_lt hr)
      rw [Nat.succ_mul] at this
      omega
    have hdiv : (r * vgaWidth + col) / vgaWidth = r := by
      rw [Nat.mul_comm, Nat.mul_add_div (by decide), Nat.div_eq_of_lt hcol, Nat.add_zero]
    have hmod : (r * vgaWidth + col) % vgaWidth = col := by
      rw [Nat.mul_comm, Nat.mul_add_mod, Nat.mod_eq_of_lt hcol]
    have hcell := hcells _ hlt
    rwa [hdiv, hmod] at hcell
  · split
    · rw [Recorded.put_of_ne, hvga]
      have := Nat.mul_le_mul_right vgaWidth (Nat.succ_le_of_lt hr)
      rw [Nat.succ_mul] at this
      omega
    · exact hvga

/-! ### The offset

The offset is bounded by the number of lines kept beyond the rows of the view, so the slots that are
shown are among those kept. The C remainder of a negative start has to be brought back into the
ring. -/

/-- The slot of a row, when the view does not go beyond the lines kept. -/
theorem histIndex_eq {offset r : ℕ} (hpos : s.historyWritePos < historySize)
    (hcount : s.historyCount ≤ historySize) (hoffset : s.historyViewOffset = offset)
    (hle : offset ≤ s.historyCount - 24) :
    s.histIndex r = s.keptSlot (s.historyCount - min 24 s.historyCount - offset + r) := by
  have hsize : historySize = 1000 := rfl
  have hlines := s.linesToShow_eq
  rw [histIndex, keptSlot]
  generalize hn : s.linesToShow = n at hlines
  obtain ⟨w, hw⟩ : ∃ w : ℕ, w = s.historyWritePos := ⟨_, rfl⟩
  rw [← hw] at hpos ⊢
  -- the start is between -1000 and 999, and a C remainder of it has the same sign
  have hstart : s.startIndex.toNat = (w + historySize - n - offset) % historySize := by
    rw [startIndex, hn, hoffset, ← hw, hsize]
    have hsplit : (w : ℤ) - n - offset < 0 ∨ 0 ≤ (w : ℤ) - n - offset := by omega
    obtain hneg | hnonneg := hsplit
    · have htmod : ((w : ℤ) - n - offset).tmod (1000 : ℕ) = -((n + offset - w : ℕ) % 1000 : ℕ) := by
        have hcast : (w : ℤ) - n - offset = -((n + offset - w : ℕ) : ℤ) := by omega
        rw [hcast, Int.neg_tmod, Int.ofNat_tmod]
      simp only [htmod]
      split <;> omega
    · have htmod : ((w : ℤ) - n - offset).tmod (1000 : ℕ) = ((w - n - offset : ℕ) % 1000 : ℕ) := by
        have hcast : (w : ℤ) - n - offset = ((w - n - offset : ℕ) : ℤ) := by omega
        rw [hcast, Int.ofNat_tmod]
      simp only [htmod]
      split <;> omega
  rw [hstart, Nat.mod_add_mod]
  congr 1
  omega

/-- The slots that `show_history_lines` reads are those of its rows. -/
theorem showHistory_reads_subset (s : Console) : s.showHistoryLines.historyReads ⊆
    s.historyReads ∪ s.histIndex '' Set.Iio s.linesToShow := by
  rw [showHistory_reads]
  refine forLoop_invariant
    (I := fun _ reads ↦ reads ⊆ s.historyReads ∪ s.histIndex '' Set.Iio s.linesToShow)
    Set.subset_union_left fun r hr reads hreads ↦ ?_
  exact forLoop_invariant
    (I := fun _ reads ↦ reads ⊆ s.historyReads ∪ s.histIndex '' Set.Iio s.linesToShow)
    hreads fun _ _ reads hreads ↦ Set.insert_subset (Or.inr ⟨r, hr, rfl⟩) hreads

/-! ### Opening the view, and Up -/

/-- The slots of the lines kept. -/
def keptSlots (s : Console) : Set ℕ := s.keptSlot '' Set.Iio s.historyCount

/-- The variables of the ring are in range. -/
structure RingInRange (s : Console) : Prop where
  pos : s.historyWritePos < historySize
  count : s.historyCount ≤ historySize

/-- The view is open, `k` lines further up than it was opened, over the ring of `s`. -/
structure Viewing (s : Console) (k : ℕ) (t : Console) : Prop where
  view : t.isViewingHistory = true
  row : t.cursorRow = 0
  history : t.history = s.history
  pos : t.historyWritePos = s.historyWritePos
  count : t.historyCount = s.historyCount
  offset : t.historyViewOffset = (min k (s.historyCount - 24) : ℕ)
  index : ∀ r, t.histIndex r = s.keptSlot (s.historyCount - min 24 s.historyCount -
    min k (s.historyCount - 24) + r)
  shown : ∀ r < t.linesToShow, ∀ col < vgaWidth,
    t.cells.vga.val (vgaIndex r col) = shownCell (t.history (t.histIndex r) col)
  reads : t.historyReads ⊆ s.historyReads ∪ s.keptSlots

/-- The view is drawn anew with the offset `u` has. -/
theorem viewing_of_show {u : Console} (hring : s.RingInRange) (hview : u.isViewingHistory = true)
    (hhistory : u.history = s.history) (hpos : u.historyWritePos = s.historyWritePos)
    (hcount : u.historyCount = s.historyCount)
    (hoffset : u.historyViewOffset = (min k (s.historyCount - 24) : ℕ))
    (hreads : u.historyReads ⊆ s.historyReads ∪ s.keptSlots) :
    s.Viewing k ({ u.showHistoryLines with cursorRow := 0 }.updateCursor 0 u.cursorCol) := by
  have hindex : ∀ r, u.histIndex r = s.keptSlot (s.historyCount - min 24 s.historyCount -
      min k (s.historyCount - 24) + r) := fun r ↦ by
    rw [histIndex_eq (hpos ▸ hring.pos) (hcount ▸ hring.count) hoffset
      (by rw [hcount]; exact Nat.min_le_right _ _), keptSlot, keptSlot, hpos, hcount]
  have hdrawn : u.showHistoryLines.historyReads ⊆ s.historyReads ∪ s.keptSlots := by
    refine u.showHistory_reads_subset.trans (Set.union_subset hreads ?_)
    rintro _ ⟨r, hr, rfl⟩
    rw [Set.mem_Iio, linesToShow_eq, hcount] at hr
    exact Or.inr ⟨_, Set.mem_Iio.2 (by omega), (hindex r).symm⟩
  have hshown := @u.showHistory_row
  obtain ⟨vga, reads, hw, hs⟩ := showHistory_frame u
  rw [hs] at hshown hdrawn ⊢
  exact ⟨hview, rfl, hhistory, hpos, hcount, hoffset, hindex, fun r hr col hcol ↦ hshown hr hcol,
    hdrawn⟩

/-- Up opens the view. -/
theorem viewing_open (hring : s.RingInRange) (hpos : 0 < s.historyCount)
    (hclosed : s.isViewingHistory = false) (hrow : s.cursorRow = 0) :
    s.Viewing 0 s.moveCursorUp := by
  have hup : s.moveCursorUp = { ({ s.backupCurrentScreen with
      isViewingHistory := true
      historyViewOffset := 0 }).showHistoryLines with
        cursorRow := 0 }.updateCursor 0 s.cursorCol := by
    rw [moveCursorUp, if_neg (by omega), viewHistoryUp, if_neg (by omega), hclosed]
    rfl
  rw [hup]
  exact viewing_of_show hring rfl rfl rfl rfl (by rw [Nat.zero_min]; rfl) Set.subset_union_left

/-- Up in the view. -/
theorem Viewing.up (h : s.Viewing k t) (hring : s.RingInRange) (hpos : 0 < s.historyCount) :
    s.Viewing (k + 1) t.moveCursorUp := by
  have hcount := h.count
  obtain ⟨offset, hoffset, hup⟩ : ∃ offset : ℤ, offset = (min (k + 1) (s.historyCount - 24) : ℕ) ∧
      t.moveCursorUp = { { t with historyViewOffset := offset }.showHistoryLines with
        cursorRow := 0 }.updateCursor 0 t.cursorCol := by
    have hold := h.offset
    rw [moveCursorUp, if_neg (by rw [h.row]; exact lt_irrefl 0), viewHistoryUp, if_neg (by omega),
      h.view]
    refine ⟨_, ?_, rfl⟩
    simp only [vgaHeight, hold, hcount]
    split_ifs <;> omega
  rw [hup]
  exact viewing_of_show hring h.view h.history h.pos h.count hoffset h.reads

/-- **The view is open**, and Up has been pressed `k` more times. -/
theorem viewing_iterate (hring : s.RingInRange) (hpos : 0 < s.historyCount)
    (hclosed : s.isViewingHistory = false) (hrow : s.cursorRow = 0) (k : ℕ) :
    s.Viewing k (moveCursorUp^[k + 1] s) := by
  induction k with
  | zero => exact viewing_open hring hpos hclosed hrow
  | succ k ih =>
    rw [Function.iterate_succ_apply']
    exact ih.up hring hpos

/-- Without lines nothing is opened, and nothing is read. -/
theorem reads_iterate (hzero : s.historyCount = 0) (k : ℕ) :
    (moveCursorUp^[k] s).historyCount = 0 ∧ (moveCursorUp^[k] s).historyReads = s.historyReads := by
  induction k with
  | zero => exact ⟨hzero, rfl⟩
  | succ k ih =>
    rw [Function.iterate_succ_apply', moveCursorUp]
    split
    · exact ih
    · rw [viewHistoryUp, if_pos ih.1]
      exact ih

/-! ### Every reachable state -/

/-- The part of the state that the history is. -/
structure SameHistory (s t : Console) : Prop where
  history : t.history = s.history
  pos : t.historyWritePos = s.historyWritePos
  count : t.historyCount = s.historyCount

theorem SameHistory.refl (s : Console) : s.SameHistory s := ⟨rfl, rfl, rfl⟩

theorem SameHistory.trans {s t u : Console} (h : s.SameHistory t) (h' : t.SameHistory u) :
    s.SameHistory u :=
  ⟨h'.history.trans h.history, h'.pos.trans h.pos, h'.count.trans h.count⟩

/-- The log is carried along by whatever leaves the history alone. -/
theorem Saved.frame (h : s.Saved lines) (hst : s.SameHistory t) : t.Saved lines :=
  .other h hst.history hst.pos hst.count

/-- A character is stored on the screen, not in the history. -/
theorem putChar_history (s : Console) (c : UInt8) : s.SameHistory (s.putChar c) := by
  rw [putChar]
  split
  · exact ⟨rfl, rfl, rfl⟩
  split
  · exact ⟨rfl, rfl, rfl⟩
  split
  · exact ⟨rfl, rfl, rfl⟩
  dsimp only
  split <;> exact ⟨rfl, rfl, rfl⟩

/-- The view reads the history and changes nothing in it. -/
theorem viewHistoryUp_history (s : Console) : s.SameHistory s.viewHistoryUp := by
  rw [viewHistoryUp]
  split
  · exact .refl s
  split
  all_goals
    obtain ⟨_, _, _, hs⟩ := showHistory_frame _
    rw [hs]
    exact ⟨rfl, rfl, rfl⟩

/-- The same, where the view is moved down or left. -/
theorem viewHistoryDown_history (s : Console) : s.SameHistory s.viewHistoryDown := by
  rw [viewHistoryDown]
  split
  · exact .refl s
  dsimp only
  split
  · exact ⟨rfl, rfl, rfl⟩
  · obtain ⟨_, _, _, hs⟩ := showHistory_frame _
    rw [hs]
    exact ⟨rfl, rfl, rfl⟩

/-- Up moves the cursor or the view; neither writes the history. -/
theorem moveCursorUp_history (s : Console) : s.SameHistory s.moveCursorUp := by
  rw [moveCursorUp]
  split
  · exact ⟨rfl, rfl, rfl⟩
  · obtain ⟨hhistory, hpos, hcount⟩ := viewHistoryUp_history s
    exact ⟨hhistory, hpos, hcount⟩

/-- Down moves the cursor or the view; neither writes the history. -/
theorem moveCursorDown_history (s : Console) : s.SameHistory s.moveCursorDown := by
  rw [moveCursorDown]
  split
  · exact ⟨rfl, rfl, rfl⟩
  · obtain ⟨hhistory, hpos, hcount⟩ := viewHistoryDown_history s
    exact ⟨hhistory, hpos, hcount⟩

/-- The lines of a scroll. -/
theorem Saved.scrollScreen (h : s.Saved lines) :
    s.scrollScreen.Saved (lines ++ [s.screenLine 0]) :=
  .other (.save h 0) rfl rfl rfl

/-- The lines of `print_char_color`: one, if the screen is scrolled. -/
theorem Saved.printCharColor (h : s.Saved lines) (c fg bg : UInt8) :
    ∃ lines, (s.printCharColor c fg bg).Saved lines := by
  have hclose : s.SameHistory s.closeHistory := by
    rw [closeHistory]
    split <;> exact ⟨rfl, rfl, rfl⟩
  have hcolor : (s.closeHistory.setVgaColor fg bg).Saved lines :=
    (h.frame hclose).frame ⟨rfl, rfl, rfl⟩
  have hput := hcolor.frame (putChar_history _ c)
  simp only [Console.printCharColor]
  split
  · exact ⟨_, hput.scrollScreen.frame ⟨rfl, rfl, rfl⟩⟩
  · exact ⟨_, hput.frame ⟨rfl, rfl, rfl⟩⟩

/-- The lines of `clear_screen`: the whole screen. -/
theorem Saved.clearScreen (h : s.Saved lines) : ∃ lines, s.clearScreen.Saved lines := by
  have hloop : ∃ lines,
      (forLoop vgaHeight (fun row (s : Console) ↦ s.saveLineToHistory row) s).Saved
      lines :=
    forLoop_invariant (I := fun _ (s : Console) ↦ ∃ lines, s.Saved lines) ⟨lines, h⟩
      fun row _ s ⟨lines, h⟩ ↦ ⟨_, h.save row⟩
  rw [Console.clearScreen]
  generalize forLoop vgaHeight (fun row (s : Console) ↦ s.saveLineToHistory row) s = t at hloop ⊢
  obtain ⟨lines', hlines⟩ := hloop
  exact ⟨lines', hlines.frame ⟨rfl, rfl, rfl⟩⟩

/-- **Every call** saves lines or leaves the history alone. -/
theorem Saved.perform (h : s.Saved lines) (call : ScreenCall) :
    ∃ lines, (s.perform call).Saved lines := by
  rcases call with (⟨c, fg, bg⟩ | _ | ttyNum | _ | _ | _ | _ | row | col) | _ | _ | _
  · exact h.printCharColor c fg bg
  · exact h.clearScreen
  · refine ⟨lines, ?_⟩
    rw [Console.perform, exec, vtSwitch]
    split
    · exact h
    · obtain ⟨_, _, _, hs⟩ := activate_frame s (Fin.ofNat ttyCount ttyNum.toNat)
      rw [hs]
      exact h.frame ⟨rfl, rfl, rfl⟩
  · exact ⟨lines, h.frame s.moveCursorUp_history⟩
  · exact ⟨lines, h.frame s.moveCursorDown_history⟩
  · refine ⟨lines, h.frame ?_⟩
    rw [Console.perform, exec, moveCursorLeft]
    split_ifs <;> exact ⟨rfl, rfl, rfl⟩
  · refine ⟨lines, h.frame ?_⟩
    rw [Console.perform, exec, moveCursorRight]
    split_ifs <;> exact ⟨rfl, rfl, rfl⟩
  · refine ⟨lines, h.frame ?_⟩
    rw [Console.perform, exec, setCursorRow]
    split <;> exact ⟨rfl, rfl, rfl⟩
  · refine ⟨lines, h.frame ?_⟩
    rw [Console.perform, exec, setCursorCol]
    split <;> exact ⟨rfl, rfl, rfl⟩
  · exact ⟨lines, h.frame ⟨rfl, rfl, rfl⟩⟩
  · exact ⟨_, (h.save 0).frame ⟨rfl, rfl, rfl⟩⟩
  · exact ⟨_, (h.save (vgaHeight - 1)).frame ⟨rfl, rfl, rfl⟩⟩

/-- The lines saved in a run from `console_init` on. -/
theorem saved_of_run {vga : ℕ → UInt16} {calls : List ScreenCall}
    (hrun : Run ScreenStep (Console.boot vga).consoleInit calls s) : ∃ lines, s.Saved lines := by
  refine hrun.invariant (I := fun s ↦ ∃ lines, s.Saved lines) ?_
    (Saved.clearScreen (.empty rfl rfl))
  rintro s call t ⟨lines, h⟩ rfl
  exact h.perform call

end Console

/-- **The scrollback view.** After any lines were saved, with `c` of them kept, the view is opened
and Up is pressed `k` more times. Row `r` of the screen then shows the line number
`c - min 24 c - min k (c - 24) + r` of those kept, 0 being the oldest, with blanks for what cannot
be printed; and of the history no slot was read on the way but those of the lines kept. -/
theorem scrollback_view {s : Console} {lines : List SavedLine} (hsaved : s.Saved lines)
    (hclosed : s.isViewingHistory = false) (hrow : s.cursorRow = 0) (k : ℕ) :
    (∀ r < min 24 s.historyCount, ∃ line,
      (lines.rtake s.historyCount)[s.historyCount - min 24 s.historyCount -
        min k (s.historyCount - 24) + r]? = some line ∧
      ∀ col < vgaWidth, (Console.moveCursorUp^[k + 1] s).cells.vga.val (vgaIndex r col) =
        Console.shownCell (line col)) ∧
    (Console.moveCursorUp^[k + 1] s).historyReads ⊆ s.historyReads ∪ s.keptSlots := by
  have hkept := hsaved.ring
  have hsize : historySize = 1000 := rfl
  have hcount := hkept.count_eq
  have hring : s.RingInRange :=
    ⟨by rw [hkept.pos_eq]; exact Nat.mod_lt _ (by decide), by omega⟩
  rcases Nat.eq_zero_or_pos s.historyCount with hzero | hpos
  · refine ⟨fun r hr ↦ absurd hr (by omega), ?_⟩
    rw [(Console.reads_iterate hzero (k + 1)).2]
    exact Set.subset_union_left
  have hview := Console.viewing_iterate hring hpos hclosed hrow k
  generalize Console.moveCursorUp^[k + 1] s = t at hview
  refine ⟨fun r hr ↦ ?_, hview.reads⟩
  obtain ⟨line, hline, hslot⟩ := hkept.kept (i := s.historyCount - min 24 s.historyCount -
    min k (s.historyCount - 24) + r) (by omega)
  refine ⟨line, hline, fun col hcol ↦ ?_⟩
  rw [hview.shown r (by rw [Console.linesToShow_eq, hview.count]; exact hr) col hcol, hview.index,
    hview.history]
  exact congrArg Console.shownCell (hslot col hcol)

/-- A screen whose rows are filled with `A`, `B` and so on. -/
def letterScreen : Console := Console.boot fun i ↦ 0x0741 + UInt16.ofNat (i / vgaWidth)

/-- Thirty of its rows are saved: all of them, and the first five again. -/
def thirtySaved : Console := forLoop 30 (fun n s ↦ s.saveLineToHistory (n % vgaHeight)) letterScreen

/-- What was saved. -/
def thirtyLines : List SavedLine :=
  (List.range 30).map fun n ↦ letterScreen.screenLine (n % vgaHeight)

theorem thirtySaved_saved : thirtySaved.Saved thirtyLines := by
  have hloop : ∀ n, (forLoop n (fun n (s : Console) ↦ s.saveLineToHistory (n % vgaHeight))
      letterScreen).cells = letterScreen.cells ∧
      (forLoop n (fun n (s : Console) ↦ s.saveLineToHistory (n % vgaHeight)) letterScreen).Saved
        ((List.range n).map fun n ↦ letterScreen.screenLine (n % vgaHeight)) := by
    intro n
    induction n with
    | zero => exact ⟨rfl, .empty rfl rfl⟩
    | succ n ih =>
      rw [forLoop]
      generalize forLoop n (fun n (s : Console) ↦ s.saveLineToHistory (n % vgaHeight))
        letterScreen = s at ih
      obtain ⟨hcells, hsaved⟩ := ih
      have hline : s.screenLine (n % vgaHeight) = letterScreen.screenLine (n % vgaHeight) := by
        funext col
        rw [Console.screenLine, Console.screenLine, hcells]
      rw [List.range_succ, List.map_append, List.map_singleton, ← hline]
      exact ⟨hcells, hsaved.save _⟩
  exact (hloop 30).2

/-- The general theorem on these lines, three lines further up: the view starts with the fourth row,
and ends with the second one. -/
theorem scrollback_view_thirty : thirtySaved.historyCount = 30 ∧
    (∀ r < 24, ∃ line, (thirtyLines.rtake 30)[30 - 24 - 3 + r]? = some line ∧
      ∀ col < vgaWidth, (Console.moveCursorUp^[3 + 1] thirtySaved).cells.vga.val (vgaIndex r col) =
        Console.shownCell (line col)) ∧
    (Console.moveCursorUp^[3 + 1] thirtySaved).historyReads ⊆
      thirtySaved.historyReads ∪ thirtySaved.keptSlots := by
  have hcount : thirtySaved.historyCount = 30 := by decide +kernel
  have hclosed : thirtySaved.isViewingHistory = false := by decide +kernel
  have hrow : thirtySaved.cursorRow = 0 := by decide +kernel
  have hview := scrollback_view thirtySaved_saved hclosed hrow 3
  rw [hcount] at hview
  exact ⟨hcount, hview⟩

end LightNight
