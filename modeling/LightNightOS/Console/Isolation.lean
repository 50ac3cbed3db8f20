import LightNightOS.Console.Copies

/-!
# Isolation of the terminals

A call writes only cells `0` to `1999` of the active terminal's row and of the screen
(`Console.Isolated`) unless it prints a character with the cursor behind the last column of the last
row. There the wrap moves the cursor to row 25, and the character is stored before the scroll check
looks at the row: to cell 2000, which is cell `0` of the next terminal. `Ok.isolated_iff` is that
equivalence, and `terminal_isolation` adds what isolation is for: a terminal that is left and come
back to shows what it showed.

* `target_lt` — where the cell of a character is inside the screen;
* `exec_within` — any call that meets the condition;
* `Ok.isolated_iff` — one call, both ways;
* `terminal_isolation` — every run that meets the condition;
* `corner_print_hits_next_terminal` — the print in the corner.
-/

namespace LightNight

open Transition

/-! ### What is written

A cell array records what was stored to (`Recorded`), so `Cells.Within t` is about the stores and
not about the values: a store of the value that was there counts. -/

/-- The cells of a terminal in `tty_buf`. -/
def ttyCells (t : Tty) : Set ℕ := Set.Ico (ttyBase t) (ttyBase t + screenSize)

/-- From `c` to `c'` only cells of the screen and of the terminal `t` are stored to. -/
structure Cells.Within (t : Tty) (c c' : Cells) : Prop where
  vga : Recorded.Within (Set.Iio screenSize) c.vga c'.vga
  ttyBuf : Recorded.Within (ttyCells t) c.ttyBuf c'.ttyBuf

namespace Cells.Within

variable {t : Tty} {c c' c'' : Cells} {n : ℕ}

theorem refl (t : Tty) (c : Cells) : Within t c c := ⟨.refl _ _, .refl _ _⟩

theorem trans (h : Within t c c') (h' : Within t c' c'') : Within t c c'' :=
  ⟨h.vga.trans h'.vga, h.ttyBuf.trans h'.ttyBuf⟩

/-- One cell of the terminal, and the same cell of the screen. -/
theorem putBoth {idx : ℕ} (h : idx < screenSize) (c : Cells) (v : UInt16) :
    Within t c (c.putBoth (ttyBase t) idx v) :=
  ⟨.put (Set.mem_Iio.2 h) _ _, .put (Set.mem_Ico.2 ⟨Nat.le_add_right _ _,
    Nat.add_lt_add_left h _⟩) _ _⟩

theorem forLoop {body : ℕ → Cells → Cells} (h : ∀ k < n, ∀ c, Within t c (body k c)) (c : Cells) :
    Within t c (forLoop n body c) :=
  forLoop_invariant (I := fun _ c' ↦ Within t c c') (refl t c) fun k hk _ hc ↦ hc.trans (h k hk _)

end Cells.Within

/-- Rows and columns of the screen are cells of the screen. -/
theorem vgaIndex_lt {row col : ℕ} (hrow : row < vgaHeight) (hcol : col < vgaWidth) :
    row * vgaWidth + col < screenSize := by
  simp only [vgaHeight, vgaWidth, screenSize] at *
  omega

namespace Console

variable {s : Console}

/-- A restore writes the active terminal and the screen. -/
theorem restore_within (s : Console) :
    s.cells.Within s.ttyCur s.restoreScreenFromBackup.cells :=
  .forLoop (fun _ hrow _ ↦ .forLoop (fun _ hcol _ ↦ .putBoth (vgaIndex_lt hrow hcol) _ _) _) _

theorem scroll_within (s : Console) : s.cells.Within s.ttyCur s.scrollScreen.cells :=
  (Cells.Within.forLoop (fun _ hrow _ ↦ .forLoop (fun _ hcol _ ↦
    .putBoth (vgaIndex_lt (Nat.lt_succ_of_lt hrow) hcol) _ _) _) _).trans
    (.forLoop (fun _ hcol _ ↦ .putBoth (vgaIndex_lt (by decide) hcol) _ _) _)

theorem clear_within (s : Console) : s.cells.Within s.ttyCur s.clearScreen.cells := by
  obtain ⟨history, pos, count, hlines⟩ := saveLines_frame s vgaHeight
  rw [clearScreen, hlines]
  exact .forLoop (fun _ hi _ ↦ .putBoth hi _ _) _

/-- The history view is drawn on the screen only. -/
theorem showHistory_within (s : Console) (t : Tty) :
    s.cells.Within t s.showHistoryLines.cells := by
  refine ⟨?_, .refl _ _⟩
  have hrow : s.linesToShow < vgaHeight := by
    rw [linesToShow]
    simp only [vgaHeight]
    split <;> omega
  rw [showHistory_vga]
  refine ((Recorded.Within.forLoop (fun _ hi _ ↦ .put (Set.mem_Iio.2 hi) _ _) _).trans
    (.forLoop (fun _ hk _ ↦ .forLoop (fun _ hcol _ ↦ .put (Set.mem_Iio.2
      (vgaIndex_lt (hk.trans hrow) hcol)) _ _) _) _)).trans (.forLoop (fun i _ vga ↦ ?_) _)
  split
  case isTrue hcol =>
    refine .put (Set.mem_Iio.2 ?_) _ _
    rw [Nat.add_assoc]
    exact vgaIndex_lt hrow hcol
  case isFalse => exact .refl _ _

theorem render_within (s : Console) (t : Tty) : s.cells.Within t s.vtRenderActive.cells :=
  ⟨.forLoop (fun _ hi _ ↦ .put (Set.mem_Iio.2 hi) _ _) _, .refl _ _⟩

end Console

/-! ### What each call writes

A call may find any record of earlier stores (`recording`), which it does not read. `CellGuard` is
the one thing that has to be known of the state: the cell that a printed character goes to is one of
the 2000. -/

namespace Console

variable {s : Console}

theorem closeHistory_within (s : Console) : s.cells.Within s.ttyCur s.closeHistory.cells := by
  rw [closeHistory]
  split
  · exact restore_within { s with isViewingHistory := false, historyViewOffset := 0 }
  · exact .refl _ _

theorem scrollIfNeeded_within (s : Console) : s.cells.Within s.ttyCur s.scrollIfNeeded.cells := by
  rw [scrollIfNeeded]
  split
  exacts [scroll_within s, .refl _ _]

/-- The characters that are stored in a cell. -/
def Ordinary (c : UInt8) : Prop := c ≠ 0x0A ∧ c ≠ 0x0D ∧ c ≠ 0x09

instance (c : UInt8) : Decidable (Ordinary c) := inferInstanceAs (Decidable (_ ∧ _))

/-- The cell a character is stored in. -/
def target (s : Console) : ℕ :=
  if vgaWidth ≤ s.cursorCol then vgaIndex (u8 (s.cursorRow + 1)) 0
  else vgaIndex s.cursorRow s.cursorCol

/-- What printing a character stores. -/
theorem putChar_cells (s : Console) (c : UInt8) : (s.putChar c).cells =
    if Ordinary c then s.cells.putBoth (ttyBase s.ttyCur) s.target (cell s.vgaColor c)
    else s.cells := by
  rw [putChar]
  by_cases hnl : c = 0x0A
  · rw [if_pos hnl, if_neg fun h ↦ h.1 hnl]
  rw [if_neg hnl]
  by_cases hcr : c = 0x0D
  · rw [if_pos hcr, if_neg fun h ↦ h.2.1 hcr]
  rw [if_neg hcr]
  by_cases htab : c = 0x09
  · rw [if_pos htab, if_neg fun h ↦ h.2.2 htab]
  rw [if_neg htab, if_pos (show Ordinary c from ⟨hnl, hcr, htab⟩), target]
  dsimp only
  split <;> rfl

/-- **The corner.** With the cursor on a row of the screen, the cell is one of the screen unless the
cursor is behind the last column of the last row. -/
theorem target_lt (hrow : s.cursorRow < vgaHeight) :
    s.target < screenSize ↔ ¬(vgaWidth ≤ s.cursorCol ∧ s.cursorRow = vgaHeight - 1) := by
  have hu : u8 (s.cursorRow + 1) = s.cursorRow + 1 := by
    simp only [vgaHeight] at hrow
    exact Nat.mod_eq_of_lt (by omega)
  rw [target]
  simp only [vgaWidth, vgaHeight, screenSize, vgaIndex] at *
  split <;> omega

/-- The condition on a call: no character is printed with the cursor behind the last column of the
last row. -/
def CellGuard (s : Console) : ConsoleCall → Prop
  | .print c _ _ => Ordinary c → ¬(vgaWidth ≤ s.cursorCol ∧ s.cursorRow = vgaHeight - 1)
  | _ => True

instance (s : Console) (a : ConsoleCall) : Decidable (s.CellGuard a) := by
  cases a <;> simp only [CellGuard] <;> infer_instance

/-- The same console with other records of what has been stored so far. -/
def recording (s : Console) (vga tty : Set ℕ) : Console :=
  { s with cells := ⟨⟨s.cells.vga.val, vga⟩, ⟨s.cells.ttyBuf.val, tty⟩⟩ }

/-- **Isolation of a call**: it stores only to cells of the screen and of the active terminal, and
the buffers of the other terminals stay as they are. -/
structure Isolated (s : Console) (a : ConsoleCall) : Prop where
  within : ∀ vga tty, (s.recording vga tty).cells.Within s.ttyCur
    ((s.recording vga tty).exec a).cells
  others : ∀ t ≠ s.ttyCur, ∀ i < screenSize,
    (s.exec a).cells.ttyBuf.val (ttyBase t + i) = s.cells.ttyBuf.val (ttyBase t + i)

/-- Closing the view sets cells, the view itself and the hardware cursor. -/
theorem closeHistory_frame (s : Console) : ∃ cells viewing offset hw, s.closeHistory =
    { s with
      cells := cells
      isViewingHistory := viewing
      historyViewOffset := offset
      hwCursor := hw } := by
  rw [closeHistory]
  split <;> exact ⟨_, _, _, _, rfl⟩

/-- Before the scroll, `print_char_color` has stored what `putChar` stores. -/
theorem print_cells (s : Console) (c fg bg : UInt8) : (s.printCharColor c fg bg).cells =
    ((s.closeHistory.setVgaColor fg bg).putChar c).scrollIfNeeded.cells :=
  rfl

/-- A character that is printed on the screen is stored in the active terminal. -/
theorem print_within (hrow : s.cursorRow < vgaHeight) {c fg bg : UInt8}
    (hguard : s.CellGuard (.print c fg bg)) :
    s.cells.Within s.ttyCur (s.printCharColor c fg bg).cells := by
  have hclose := closeHistory_within s
  obtain ⟨cells, viewing, offset, hw, hs⟩ := closeHistory_frame s
  rw [print_cells]
  rw [hs] at hclose ⊢
  generalize hu : setVgaColor _ fg bg = u
  have hcells : u.cells = cells := hu ▸ rfl
  have hcur : u.ttyCur = s.ttyCur := hu ▸ rfl
  have hput : u.cells.Within u.ttyCur (u.putChar c).cells := by
    rw [putChar_cells]
    split
    case isTrue hc =>
      have hguard : ¬(vgaWidth ≤ u.cursorCol ∧ u.cursorRow = vgaHeight - 1) := hu ▸ hguard hc
      exact .putBoth ((target_lt (hu ▸ hrow)).2 hguard) _ _
    case isFalse => exact .refl _ _
  have hscroll := scrollIfNeeded_within (u.putChar c)
  rw [(putChar_sameTty u c).cur] at hscroll
  rw [hcells, hcur] at hput
  rw [hcur] at hscroll
  exact (hclose.trans hput).trans hscroll

theorem showHistory_offset_within (s : Console) (t : Tty) (offset : ℤ) :
    s.cells.Within t { s with historyViewOffset := offset }.showHistoryLines.cells :=
  showHistory_within { s with historyViewOffset := offset } t

/-- Opening the view, or moving in it, writes the screen only. -/
theorem viewHistoryUp_within (s : Console) (t : Tty) :
    s.cells.Within t s.viewHistoryUp.cells := by
  rw [viewHistoryUp]
  split
  · exact .refl _ _
  split
  · obtain ⟨backup, hs⟩ := backup_frame s
    rw [hs]
    exact showHistory_within { s with
      screenBackup := backup
      isViewingHistory := true
      historyViewOffset := 0 } t
  · exact showHistory_offset_within s t _

/-- Leaving the view restores the active terminal. -/
theorem viewHistoryDown_within (s : Console) :
    s.cells.Within s.ttyCur s.viewHistoryDown.cells := by
  rw [viewHistoryDown]
  split
  · exact .refl _ _
  dsimp only
  split
  · exact restore_within { s with isViewingHistory := false, historyViewOffset := 0 }
  · exact showHistory_offset_within s _ _

theorem activate_within (s : Console) (n t : Tty) : s.cells.Within t (s.activate n).cells := by
  rw [activate]
  exact render_within { s with
    ttyRow := _
    ttyCol := _
    ttyColor := _
    ttyCur := n
    cursorRow := _
    cursorCol := _
    vgaColor := _ } t

/-- **A guarded call stores only to cells of the screen and of the active terminal.** -/
theorem exec_within (hrow : s.cursorRow < vgaHeight) {a : ConsoleCall} (hguard : s.CellGuard a) :
    s.cells.Within s.ttyCur (s.exec a).cells := by
  cases a with
  | print c fg bg => exact print_within hrow hguard
  | clear => exact clear_within s
  | switch ttyNum =>
    rw [exec, vtSwitch]
    split
    · exact .refl _ _
    · exact activate_within s _ _
  | up =>
    rw [exec, moveCursorUp]
    split
    · exact .refl _ _
    · exact viewHistoryUp_within s _
  | down =>
    rw [exec, moveCursorDown]
    split
    · exact .refl _ _
    · exact viewHistoryDown_within s
  | left =>
    rw [exec, moveCursorLeft]
    split
    · exact .refl _ _
    split <;> exact .refl _ _
  | right =>
    rw [exec, moveCursorRight]
    split
    · exact .refl _ _
    split <;> exact .refl _ _
  | setRow row =>
    rw [exec, setCursorRow]
    split <;> exact .refl _ _
  | setCol col =>
    rw [exec, setCursorCol]
    split <;> exact .refl _ _

/-- What is stored before a scroll stays recorded. -/
theorem scrollIfNeeded_stored {i : ℕ} (hi : i ∈ s.cells.vga.stored) :
    i ∈ s.scrollIfNeeded.cells.vga.stored := by
  rw [scrollIfNeeded]
  split
  · rw [scroll_cells]
    have hput : ∀ (c : Cells) (base idx : ℕ) (v : UInt16), i ∈ c.vga.stored →
        i ∈ (c.putBoth base idx v).vga.stored := fun _ _ _ _ h ↦ Set.mem_insert_of_mem _ h
    refine forLoop_invariant (I := fun _ (c : Cells) ↦ i ∈ c.vga.stored)
      (forLoop_invariant (I := fun _ (c : Cells) ↦ i ∈ c.vga.stored) hi ?_) ?_
    all_goals exact fun _ _ c h ↦ hput c _ _ _ h
  · exact hi

/-- Printing a character stores to its cell. -/
theorem print_stores (s : Console) {c : UInt8} (hc : Ordinary c) (fg bg : UInt8) :
    s.target ∈ (s.printCharColor c fg bg).cells.vga.stored := by
  obtain ⟨cells, viewing, offset, hw, hs⟩ := closeHistory_frame s
  rw [print_cells, hs]
  generalize hu : setVgaColor _ fg bg = u
  have htarget : u.target = s.target := hu ▸ rfl
  refine scrollIfNeeded_stored ?_
  rw [putChar_cells, if_pos hc, htarget]
  exact Set.mem_insert _ _

/-- The cells of one terminal are not those of another. -/
theorem notMem_ttyCells {t t' : Tty} (h : t ≠ t') {i : ℕ} (hi : i < screenSize) :
    ttyBase t + i ∉ ttyCells t' := by
  rintro ⟨hlo, hhi⟩
  refine h (Fin.ext ?_)
  simp only [ttyBase, screenSize] at *
  omega

/-- **A call is isolated exactly when the guard holds.** -/
theorem Ok.isolated_iff (h : s.Ok) (a : ConsoleCall) : s.Isolated a ↔ s.CellGuard a := by
  constructor
  · intro hiso
    cases a with
    | print c fg bg =>
      intro hc hcorner
      have hstored := (hiso.within ∅ ∅).vga.stored (print_stores (s.recording ∅ ∅) hc fg bg)
      have hlt : s.target < screenSize := hstored.resolve_left (Set.notMem_empty _)
      exact (target_lt h.row).1 hlt hcorner
    | _ => exact trivial
  · exact fun hguard ↦ ⟨fun vga tty ↦ exec_within (s := s.recording vga tty) h.row hguard,
      fun t ht i hi ↦ (exec_within h.row hguard).ttyBuf.frame _ (notMem_ttyCells ht hi)⟩

/-! ### Leaving a terminal and coming back

While another terminal is active nothing writes the cells of the one that was left, and its cursor
and colour are in the variables that only a switch away from it stores to. -/

/-- What a call other than `vt_switch` keeps of the terminals. -/
theorem exec_sameTty (s : Console) {a : ConsoleCall} (ha : ∀ n, a ≠ .switch n) :
    SameTty s (s.exec a) := by
  have hup : SameTty s s.viewHistoryUp := by
    have h := viewHistoryUp_sameBuffers s
    exact ⟨h.ttyCur, h.ttyRow, h.ttyCol⟩
  have hdown : SameTty s s.viewHistoryDown := by
    rw [viewHistoryDown]
    split
    · exact ⟨rfl, rfl, rfl⟩
    dsimp only
    split <;> exact ⟨rfl, rfl, rfl⟩
  cases a with
  | print c fg bg => exact print_sameTty s c fg bg
  | clear =>
    obtain ⟨_, _, _, _, _, hs⟩ := clear_frame s
    rw [exec, hs]
    exact ⟨rfl, rfl, rfl⟩
  | switch n => exact absurd rfl (ha n)
  | up =>
    rw [exec, moveCursorUp]
    split
    exacts [⟨rfl, rfl, rfl⟩, ⟨hup.cur, hup.row, hup.col⟩]
  | down =>
    rw [exec, moveCursorDown]
    split
    exacts [⟨rfl, rfl, rfl⟩, ⟨hdown.cur, hdown.row, hdown.col⟩]
  | left =>
    rw [exec, moveCursorLeft]
    split
    · exact ⟨rfl, rfl, rfl⟩
    split <;> exact ⟨rfl, rfl, rfl⟩
  | right =>
    rw [exec, moveCursorRight]
    split
    · exact ⟨rfl, rfl, rfl⟩
    split <;> exact ⟨rfl, rfl, rfl⟩
  | setRow row =>
    rw [exec, setCursorRow]
    split <;> exact ⟨rfl, rfl, rfl⟩
  | setCol col =>
    rw [exec, setCursorCol]
    split <;> exact ⟨rfl, rfl, rfl⟩

/-- What is kept of a terminal `t` while others are used: its buffer, and its cursor, which is in
the saved cursors until `t` is active again. -/
structure Kept (t : Tty) (s u : Console) : Prop where
  buffer : ∀ i < screenSize,
    u.cells.ttyBuf.val (ttyBase t + i) = s.cells.ttyBuf.val (ttyBase t + i)
  away : u.ttyCur ≠ t → u.ttyRow t = s.cursorRow ∧ u.ttyCol t = s.cursorCol
  back : u.ttyCur = t → u.cursorRow = s.cursorRow ∧ u.cursorCol = s.cursorCol ∧ u.Synced

/-- Switching between other terminals keeps the terminal that was left. -/
theorem Kept.switch {t : Tty} {u : Console} (h : Kept t s u) (hu : u.ttyCur ≠ t) (n : ℤ) :
    Kept t s (u.vtSwitch n) := by
  rw [vtSwitch]
  split
  · exact h
  obtain ⟨hrow, hcol⟩ := h.away hu
  have hsynced : (u.activate (Fin.ofNat ttyCount n.toNat)).Synced := by
    rw [activate]
    exact backup_synced.2 (render_synced _)
  obtain ⟨_, _, _, hs⟩ := activate_frame u (Fin.ofNat ttyCount n.toNat)
  rw [hs] at hsynced ⊢
  have hkept : Function.update u.ttyRow u.ttyCur u.cursorRow t = s.cursorRow ∧
      Function.update u.ttyCol u.ttyCur u.cursorCol t = s.cursorCol := by
    rw [Function.update_of_ne hu.symm, Function.update_of_ne hu.symm]
    exact ⟨hrow, hcol⟩
  refine ⟨h.buffer, fun _ ↦ hkept, fun hcur ↦ ?_⟩
  have hcur : Fin.ofNat ttyCount n.toNat = t := hcur
  rw [hcur] at hsynced ⊢
  exact ⟨hkept.1, hkept.2, hsynced⟩

/-- Switching away keeps the terminal that was active. -/
theorem kept_switch_away {n : ℤ} (h : (s.vtSwitch n).ttyCur ≠ s.ttyCur) :
    Kept s.ttyCur s (s.vtSwitch n) := by
  rw [vtSwitch] at h ⊢
  split at h
  · exact absurd rfl h
  case isFalse hn =>
    rw [if_neg hn]
    obtain ⟨_, _, _, hs⟩ := activate_frame s (Fin.ofNat ttyCount n.toNat)
    rw [hs] at h ⊢
    exact ⟨fun _ _ ↦ rfl, fun _ ↦ ⟨Function.update_self _ _ _, Function.update_self _ _ _⟩,
      fun hcur ↦ absurd hcur h⟩

/-- **One guarded call on another terminal keeps `t`.** -/
theorem Kept.exec {t : Tty} {u : Console} (h : Kept t s u) (hu : u.ttyCur ≠ t) (hok : u.Ok)
    {a : ConsoleCall} (hguard : u.CellGuard a) : Kept t s (u.exec a) := by
  by_cases ha : ∀ n, a ≠ .switch n
  · have hsame := exec_sameTty u ha
    have hothers := ((hok.isolated_iff a).2 hguard).others t hu.symm
    refine ⟨fun i hi ↦ (hothers i hi).trans (h.buffer i hi), fun _ ↦ ?_, fun hcur ↦ ?_⟩
    · rw [hsame.row, hsame.col]
      exact h.away hu
    · exact absurd (hsame.cur.symm.trans hcur) hu
  · push Not at ha
    obtain ⟨n, rfl⟩ := ha
    exact h.switch hu n

end Console

/-- One call. -/
def ConsoleStep (s : Console) (a : ConsoleCall) (s' : Console) : Prop := s' = s.exec a

/-- `s'` shows what the terminal of `s` showed: its buffer, which was also on the screen unless the
history view was open, with the cursor where it was. -/
structure Restored (s s' : Console) : Prop where
  buffer : ∀ i < screenSize, s'.tbuf i = s.tbuf i
  screen : ∀ i < screenSize, s'.cells.vga.val i = s.tbuf i
  same : s.isViewingHistory = false → ∀ i < screenSize, s'.cells.vga.val i = s.cells.vga.val i
  cursorRow : s'.cursorRow = s.cursorRow
  cursorCol : s'.cursorCol = s.cursorCol

/-- **Terminal isolation.** In every state reached from `console_init` by guarded calls, a call is
isolated if and only if the guard holds of it. And after a switch away from a terminal and any
guarded calls on others, up to the switch back, the terminal shows what it showed. -/
theorem terminal_isolation {vga : ℕ → UInt16} {calls : List ConsoleCall} {s : Console}
    (hrun : Run (Guarded Console.CellGuard ConsoleStep) (Console.boot vga).consoleInit calls s) :
    (∀ a, s.Isolated a ↔ s.CellGuard a) ∧
      ∀ (n : ℤ) (calls' : List ConsoleCall) (s' : Console), (s.vtSwitch n).ttyCur ≠ s.ttyCur →
        Run (Guarded (fun u a ↦ u.CellGuard a ∧ u.ttyCur ≠ s.ttyCur) ConsoleStep)
          (s.vtSwitch n) calls' s' → s'.ttyCur = s.ttyCur → Restored s s' := by
  have hok : s.Ok := hrun.invariant (I := Console.Ok)
    (fun h ⟨_, hstep⟩ ↦ hstep ▸ h.exec _) (Console.ok_boot vga)
  refine ⟨hok.isolated_iff, fun n calls' s' haway hrun' hback ↦ ?_⟩
  obtain ⟨-, hkept⟩ := hrun'.invariant (I := fun u ↦ u.Ok ∧ Console.Kept s.ttyCur s u)
    (fun {u a v} ⟨hu, hkept⟩ ⟨⟨hguard, hne⟩, hstep⟩ ↦ by
      rw [hstep]
      exact ⟨hu.exec a, hkept.exec hne hu hguard⟩)
    ⟨hok.vtSwitch n, Console.kept_switch_away haway⟩
  obtain ⟨hrow, hcol, hsynced⟩ := hkept.back hback
  have hbuffer : ∀ i < screenSize, s'.tbuf i = s.tbuf i := by
    intro i hi
    rw [Console.tbuf, hback]
    exact hkept.buffer i hi
  have hscreen : ∀ i < screenSize, s'.cells.vga.val i = s.tbuf i :=
    fun i hi ↦ (hsynced i hi).trans (hbuffer i hi)
  exact ⟨hbuffer, hscreen, fun hview i hi ↦ (hscreen i hi).trans (hok.synced hview i hi).symm,
    hrow, hcol⟩

/-- Printing 'A' on the first terminal, 'B' on the second, and coming back. -/
theorem terminal_isolation_two_terminals :
    let s := ((Console.boot fun _ ↦ 0).consoleInit).exec (.print 0x41 7 0)
    Restored s (((s.exec (.switch 1)).exec (.print 0x42 7 0)).exec (.switch 0)) := by
  intro s
  have hrun : Run (Guarded Console.CellGuard ConsoleStep) (Console.boot fun _ ↦ 0).consoleInit
      [.print 0x41 7 0] s := Run.single ⟨by decide, rfl⟩
  refine (terminal_isolation hrun).2 1 [.print 0x42 7 0, .switch 0] _ (by decide) ?_ (by decide)
  exact ((Run.nil _).snoc ⟨⟨by decide, by decide⟩, rfl⟩).snoc ⟨⟨trivial, by decide⟩, rfl⟩

/-- At the corner the character goes to the first cell of the next terminal. -/
theorem Console.corner_print {s : Console} {c : UInt8} (hc : Console.Ordinary c) (fg bg : UInt8)
    (hcorner : vgaWidth ≤ s.cursorCol ∧ s.cursorRow = vgaHeight - 1) :
    (s.printCharColor c fg bg).cells.ttyBuf.val (ttyBase s.ttyCur + screenSize) =
      cell (vgaMakeColor fg bg) c := by
  obtain ⟨cells, viewing, offset, hw, hs⟩ := closeHistory_frame s
  rw [print_cells, hs]
  generalize hu : setVgaColor _ fg bg = u
  have hcur : u.ttyCur = s.ttyCur := hu ▸ rfl
  have hcolor : u.vgaColor = vgaMakeColor fg bg := hu ▸ rfl
  have htarget : u.target = screenSize := by
    have htarget : u.target = s.target := hu ▸ rfl
    rw [htarget, target, if_pos hcorner.1, hcorner.2]
    rfl
  have hout : ttyBase s.ttyCur + screenSize ∉ ttyCells (u.putChar c).ttyCur := by
    rw [(putChar_sameTty u c).cur, hcur]
    exact fun h ↦ Nat.lt_irrefl _ h.2
  rw [(scrollIfNeeded_within (u.putChar c)).ttyBuf.frame _ hout, putChar_cells, if_pos hc, htarget,
    hcur, hcolor]
  exact Recorded.put_self _ _ _

/-- With the cursor behind the last column of the last row, a character printed on the first
terminal is stored to the first cell of the second. -/
theorem corner_print_hits_next_terminal : ∃ s : Console,
    Run ConsoleStep (Console.boot fun _ ↦ 0).consoleInit
        [.setRow 24, .setCol 79, .print 0x09 7 0] s ∧
      ¬s.Isolated (.print 0x42 7 0) ∧ s.cells.ttyBuf.val (ttyBase 1) = 0 ∧
      (s.exec (.print 0x42 7 0)).cells.ttyBuf.val (ttyBase 1) = 0x0742 := by
  let s₀ := (Console.boot fun _ ↦ 0).consoleInit
  let s₂ := (s₀.exec (.setRow 24)).exec (.setCol 79)
  let s := s₂.exec (.print 0x09 7 0)
  have hok₂ : s₂.Ok := ((Console.ok_boot _).exec _).exec _
  have hcur : s.ttyCur = 0 := by decide
  have hcorner : vgaWidth ≤ s.cursorCol ∧ s.cursorRow = vgaHeight - 1 := by decide
  have hout : ttyBase 1 ∉ ttyCells 0 :=
    Console.notMem_ttyCells (show (1 : Tty) ≠ 0 by decide) (show 0 < screenSize by decide)
  refine ⟨s, ((Run.single rfl).snoc rfl).snoc rfl, fun h ↦ ?_, ?_, ?_⟩
  · exact ((hok₂.exec _).isolated_iff _).1 h (by decide) hcorner
  · have hclear : s₀.cells.ttyBuf.val (ttyBase 1) = 0 :=
      (Console.clear_within (Console.boot fun _ ↦ 0)).ttyBuf.frame _ hout
    have htab : s.cells.ttyBuf.val (ttyBase 1) = s₂.cells.ttyBuf.val (ttyBase 1) :=
      (Console.exec_within (s := s₂) hok₂.row (by decide)).ttyBuf.frame _ hout
    exact htab.trans hclear
  · have hcell := Console.corner_print (s := s) (c := 0x42) (by decide) 7 0 hcorner
    rw [hcur] at hcell
    exact hcell

end LightNight
