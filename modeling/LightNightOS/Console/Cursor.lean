import LightNightOS.Console.Isolation

/-!
# The cursor stays on the screen

The row of the cursor is always one of the screen (`Console.Ok`). The column is at most 80, where 80
is the pending wrap, except after a tab that is printed at the pending wrap: it rounds 84 down to a
multiple of 4, and nothing wraps it. `cursor_onScreen` is the invariant for runs without such a tab,
with the proof that the condition is exact.

* `print_col_le`, `exec_col_le` — a character and a call, both ways;
* `OnScreen.exec_iff` — all terminals at once;
* `tab_leaves_screen` — a tab at the pending wrap.
-/

namespace LightNight

open Transition

namespace Console

variable {s : Console} {c : UInt8}

/-- The active cursor and all saved ones are on the screen, or behind the last column. -/
structure OnScreen (s : Console) : Prop where
  row : s.cursorRow < vgaHeight
  col : s.cursorCol ≤ vgaWidth
  ttyRow : ∀ t, s.ttyRow t < vgaHeight
  ttyCol : ∀ t, s.ttyCol t ≤ vgaWidth

/-- A tab is not printed at the pending wrap. -/
def TabGuard (s : Console) : ConsoleCall → Prop
  | .print c _ _ => c = 0x09 → s.cursorCol < vgaWidth
  | _ => True

instance : ∀ (s : Console) (a : ConsoleCall), Decidable (s.TabGuard a)
  | s, .print c _ _ => inferInstanceAs (Decidable (c = 0x09 → s.cursorCol < vgaWidth))
  | _, .clear | _, .switch _ | _, .up | _, .down | _, .left | _, .right | _, .setRow _
  | _, .setCol _ => instDecidableTrue

/-! ### Printing -/

/-- The column behind a tab. -/
theorem tab_col (h : s.cursorCol ≤ vgaWidth) :
    u8 ((s.cursorCol + 4) &&& lowMask 2) = (s.cursorCol + 4) / 4 * 4 := by
  simp only [vgaWidth] at h
  rw [and_lowMask (by omega) (by decide), u8]
  omega

/-- A character moves the column past 80 only if it is a tab at the pending wrap. -/
theorem putChar_col_le (h : s.cursorCol ≤ vgaWidth) :
    (s.putChar c).cursorCol ≤ vgaWidth ↔ (c = 0x09 → s.cursorCol < vgaWidth) := by
  have hwidth : vgaWidth = 80 := rfl
  rw [putChar]
  split
  case isTrue hnl =>
    exact iff_of_true (Nat.zero_le _) fun htab ↦ absurd (hnl.symm.trans htab) (by decide)
  split
  case isTrue hcr =>
    exact iff_of_true (Nat.zero_le _) fun htab ↦ absurd (hcr.symm.trans htab) (by decide)
  split
  case isTrue htab =>
    dsimp only
    rw [tab_col h, forall_prop_of_true htab]
    omega
  case isFalse htab =>
    refine iff_of_true ?_ fun h ↦ absurd h htab
    dsimp only
    split
    case isTrue => exact (by decide : u8 (0 + 1) ≤ vgaWidth)
    case isFalse hlt =>
      have hcol : u8 (s.cursorCol + 1) = s.cursorCol + 1 := by
        rw [u8]
        omega
      exact hcol.trans_le (by omega)

/-- A tab does not change the row. -/
theorem putChar_tab_row (s : Console) : (s.putChar 0x09).cursorRow = s.cursorRow := rfl

theorem scrollIfNeeded_col_le (h : s.cursorCol ≤ vgaWidth) :
    s.scrollIfNeeded.cursorCol ≤ vgaWidth := by
  rw [scrollIfNeeded]
  split
  · exact Nat.zero_le vgaWidth
  · exact h

/-- **Printing** keeps the column on the screen unless it prints a tab at the pending wrap. -/
theorem print_col_le (hrow : s.cursorRow < vgaHeight) (hcol : s.cursorCol ≤ vgaWidth)
    (fg bg : UInt8) :
    (s.printCharColor c fg bg).cursorCol ≤ vgaWidth ↔ (c = 0x09 → s.cursorCol < vgaWidth) := by
  obtain ⟨cells, viewing, offset, hw, hs⟩ := closeHistory_frame s
  have hclosed : (s.closeHistory.setVgaColor fg bg).cursorCol = s.cursorCol := by
    rw [hs]
    rfl
  have hclosedRow : (s.closeHistory.setVgaColor fg bg).cursorRow = s.cursorRow := by
    rw [hs]
    rfl
  have hput := putChar_col_le (s := s.closeHistory.setVgaColor fg bg) (c := c) (by rwa [hclosed])
  rw [hclosed] at hput
  have hprint : (s.printCharColor c fg bg).cursorCol =
      ((s.closeHistory.setVgaColor fg bg).putChar c).scrollIfNeeded.cursorCol := by
    rw [printCharColor_eq]
    rfl
  rw [hprint, ← hput]
  refine ⟨fun h ↦ ?_, scrollIfNeeded_col_le⟩
  by_cases htab : c = 0x09
  · subst htab
    rwa [scrollIfNeeded, if_neg (by rw [putChar_tab_row, hclosedRow]; omega)] at h
  · exact hput.2 fun h ↦ absurd h htab

/-! ### Every call -/

/-- Of the calls that stay on their terminal, `TabGuard` names those that keep the column on the
screen. -/
theorem exec_col_le (hrow : s.cursorRow < vgaHeight) (hcol : s.cursorCol ≤ vgaWidth)
    {a : ConsoleCall} (ha : ∀ n, a ≠ .switch n) :
    (s.exec a).cursorCol ≤ vgaWidth ↔ s.TabGuard a := by
  have hwidth : vgaWidth = 80 := rfl
  cases a with
  | print c fg bg => exact print_col_le hrow hcol fg bg
  | clear =>
    obtain ⟨_, _, _, _, _, hs⟩ := clear_frame s
    rw [exec, hs]
    exact iff_of_true (Nat.zero_le _) trivial
  | switch n => exact absurd rfl (ha n)
  | up =>
    refine iff_of_true ?_ trivial
    rw [exec, moveCursorUp]
    split
    · exact hcol
    · have h := viewHistoryUp_sameBuffers s
      exact h.cursorCol.trans_le hcol
  | down =>
    refine iff_of_true ?_ trivial
    rw [exec, moveCursorDown]
    split
    · exact hcol
    · have hdown : s.viewHistoryDown.cursorCol = s.cursorCol := by
        rw [viewHistoryDown]
        split
        · rfl
        dsimp only
        split <;> rfl
      exact hdown.trans_le hcol
  | left =>
    refine iff_of_true ?_ trivial
    rw [exec, moveCursorLeft]
    split
    · exact (Nat.sub_le _ _).trans hcol
    split
    · exact (by decide : vgaWidth - 1 ≤ vgaWidth)
    · exact hcol
  | right =>
    refine iff_of_true ?_ trivial
    rw [exec, moveCursorRight]
    split
    case isTrue hlt => exact (by omega : s.cursorCol + 1 ≤ vgaWidth)
    split
    · exact Nat.zero_le vgaWidth
    · exact hcol
  | setRow row =>
    refine iff_of_true ?_ trivial
    rw [exec, setCursorRow]
    split <;> exact hcol
  | setCol col =>
    refine iff_of_true ?_ trivial
    rw [exec, setCursorCol]
    split
    case isTrue hlt => exact hlt.le
    case isFalse => exact hcol

/-- The cursor of the other terminal was on the screen when it was left. -/
theorem OnScreen.activate (h : s.OnScreen) (n : Tty) : (s.activate n).OnScreen := by
  obtain ⟨_, _, _, hs⟩ := activate_frame s n
  have hrow (t : Tty) : Function.update s.ttyRow s.ttyCur s.cursorRow t < vgaHeight := by
    by_cases ht : t = s.ttyCur
    · rw [ht, Function.update_self]
      exact h.row
    · rw [Function.update_of_ne ht]
      exact h.ttyRow t
  have hcol (t : Tty) : Function.update s.ttyCol s.ttyCur s.cursorCol t ≤ vgaWidth := by
    by_cases ht : t = s.ttyCur
    · rw [ht, Function.update_self]
      exact h.col
    · rw [Function.update_of_ne ht]
      exact h.ttyCol t
  rw [hs]
  exact ⟨hrow n, hcol n, hrow, hcol⟩

/-- **One call.** -/
theorem OnScreen.exec_iff (h : s.OnScreen) (hok : s.Ok) (a : ConsoleCall) :
    (s.exec a).OnScreen ↔ s.TabGuard a := by
  by_cases ha : ∀ n, a ≠ .switch n
  · have hsame := exec_sameTty s ha
    have hiff := exec_col_le h.row h.col ha
    refine ⟨fun ht ↦ hiff.1 ht.col, fun hguard ↦ ⟨(hok.exec a).row, hiff.2 hguard, ?_, ?_⟩⟩
    · rw [hsame.row]
      exact h.ttyRow
    · rw [hsame.col]
      exact h.ttyCol
  · push Not at ha
    obtain ⟨n, rfl⟩ := ha
    refine iff_of_true ?_ trivial
    rw [exec, vtSwitch]
    split
    exacts [h, h.activate _]

/-- After `console_init` all cursors are at the start of the screen. -/
theorem onScreen_init (vga : ℕ → UInt16) : (boot vga).consoleInit.OnScreen := by
  obtain ⟨_, _, _, _, _, hs⟩ := clear_frame (boot vga)
  rw [consoleInit, hs]
  exact ⟨(by decide : 0 < vgaHeight), Nat.zero_le _, fun _ ↦ (by decide : 0 < vgaHeight),
    fun _ ↦ Nat.zero_le _⟩

end Console

/-- **The cursor stays on the screen** in every run in which no tab is printed at the pending wrap:
row below 25 and column at most 80, for the active and all saved cursors. And a call in a state
reached so keeps it there if and only if it is not such a tab. -/
theorem cursor_onScreen {vga : ℕ → UInt16} {calls : List ConsoleCall} {s : Console}
    (hrun : Run (Guarded Console.TabGuard ConsoleStep) (Console.boot vga).consoleInit calls s) :
    s.OnScreen ∧ ∀ a, (s.exec a).OnScreen ↔ s.TabGuard a := by
  obtain ⟨hscreen, hok⟩ := hrun.invariant (I := fun s ↦ s.OnScreen ∧ s.Ok)
    (fun {u a v} ⟨hscreen, hok⟩ ⟨hguard, hstep⟩ ↦ by
      rw [hstep]
      exact ⟨(hscreen.exec_iff hok a).2 hguard, hok.exec a⟩)
    ⟨Console.onScreen_init vga, Console.ok_boot vga⟩
  exact ⟨hscreen, hscreen.exec_iff hok⟩

/-- `A` in the last column: the wrap is pending, and a tab would leave the screen. -/
theorem cursor_onScreen_pending :
    let s := ((Console.boot fun _ ↦ 0).consoleInit.exec (.setCol 79)).exec (.print 0x41 7 0)
    s.OnScreen ∧ ∀ a, (s.exec a).OnScreen ↔ s.TabGuard a :=
  @cursor_onScreen _ [.setCol 79, .print 0x41 7 0] _
    ((Run.single ⟨by decide, rfl⟩).snoc ⟨by decide, rfl⟩)

/-- A tab at the pending wrap. -/
theorem tab_leaves_screen : ∃ s, Run ConsoleStep (Console.boot fun _ ↦ 0).consoleInit
    [.setCol 79, .print 0x41 7 0, .print 0x09 7 0] s ∧ s.cursorCol = 84 ∧ ¬s.OnScreen := by
  have hcol : ((((Console.boot fun _ ↦ 0).consoleInit.exec (.setCol 79)).exec
      (.print 0x41 7 0)).exec (.print 0x09 7 0)).cursorCol = 84 := by decide
  refine ⟨_, ((Run.single rfl).snoc rfl).snoc rfl, hcol, fun h ↦ ?_⟩
  have hle := h.col
  rw [hcol] at hle
  exact absurd hle (by decide)

end LightNight
