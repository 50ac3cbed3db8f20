import LightNightOS.Console.Row
import LightNightOS.Shell.Characters

/-!
# The line on the screen

The shell never tells the console where to go: it prints, and steps to the left as often as it
reckons it is away from where the cursor belongs. Every editing key comes down to one such redrawing
(`redrawing`): step back to some character of the line, print the new line from there on and some
blanks behind it, and step back to the cursor. `Redraws` says which characters and how many steps,
and `RowLine.redraw` that this is enough.

`history_show` steps back by the length of the line, as if the cursor were at its end. That is the
condition of `screen_matches`; the other cases are those of a line that fills the row, where the
cursor or the blank behind the line would have to be on the next row.

* `RowLine.redraw` — a redrawing takes a row that shows one line to a row that shows another;
* `HasLine.insertChar`, `HasLine.erase`, `HasLine.replaceLine` — the redrawing that each key asks
  for;
* `Shown.key` — the invariant, key by key, with the condition that a key needs;
* `screen_matches` — every run that meets the conditions, from a fresh prompt on;
* `recall_over_prompt` — a recall with the cursor inside the line, which writes over the prompt.
-/

namespace LightNight

open CharArray Transition

/-! ### Sessions -/

/-- The column after the prompt. -/
abbrev promptEnd : ℕ := prompt.length

/-- The shell, and the console it prints on. -/
structure Session where
  shell : Shell
  console : Console

/-- The character in a cell of the screen. -/
def Console.charAt (s : Console) (row col : ℕ) : UInt8 :=
  (s.cells.vga.val (vgaIndex row col)).toUInt8

namespace Session

/-- One key: the console executes the calls that the shell makes. -/
def press (u : Session) (c : UInt8) : Option Session :=
  (u.shell.shellProcessInput c).map fun t ↦
    ⟨t, (t.output.drop u.shell.output.length).foldl Console.exec u.console⟩

/-- One key as a step. -/
def Step (u : Session) (c : UInt8) (v : Session) : Prop := u.press c = some v

/-- The prompt and the line fit on one row. -/
def Fits (u : Session) : Prop := (promptEnd : ℤ) + u.shell.cmdPos ≤ vgaWidth

/-- A key other than Enter, after which the line fits. -/
def EditStep (u : Session) (c : UInt8) (v : Session) : Prop :=
  c ≠ newline ∧ u.Step c v ∧ v.Fits

/-- The shell is at an empty line, behind a prompt on a row that is otherwise blank. -/
structure FreshPrompt (u : Session) : Prop where
  reached : u.shell.Reached
  pos : u.shell.cmdPos = 0
  cursor : u.shell.cursorPos = 0
  viewing : u.console.isViewingHistory = false
  row : u.console.cursorRow < vgaHeight
  col : u.console.cursorCol = promptEnd
  shown : ∀ i < vgaWidth, u.console.charAt u.console.cursorRow i = prompt.getD i 0x20

/-- The screen matches the buffer; the prompt is the one of `start`. -/
structure Matches (start u : Session) : Prop where
  row : u.console.cursorRow = start.console.cursorRow
  col : (u.console.cursorCol : ℤ) = promptEnd + u.shell.cursorPos
  line : ∀ i : ℕ, (i : ℤ) < u.shell.cmdPos →
    u.console.charAt u.console.cursorRow (promptEnd + i) = u.shell.cmdBuffer i
  blank : ∀ i : ℕ, (promptEnd : ℤ) + u.shell.cmdPos ≤ i → i < vgaWidth →
    u.console.charAt u.console.cursorRow i = 0x20
  prompt : ∀ i < promptEnd, u.console.cells.vga.val (vgaIndex u.console.cursorRow i) =
    start.console.cells.vga.val (vgaIndex u.console.cursorRow i)

/-- A line is recalled only with the cursor at the end of the line that is edited; Right and End do
not take the cursor behind the last column; and a line that fills the last row of the screen was not
made by inserting a character before its end. -/
def RowGuard (u : Session) (c : UInt8) : Prop :=
  (c = keyUp ∨ c = keyDown → 0 < u.shell.historyCount → u.shell.cursorPos = u.shell.cmdPos) ∧
  (u.shell.cursorPos < u.shell.cmdPos →
    (c = keyRight → promptEnd + u.shell.cursorPos + 1 < vgaWidth) ∧
    (c = keyEnd → promptEnd + u.shell.cmdPos < vgaWidth) ∧
    (32 ≤ c ∧ c ≤ 126 → promptEnd + u.shell.cmdPos + 1 < vgaWidth ∨
      u.console.cursorRow + 1 < vgaHeight))

instance (u : Session) (c : UInt8) : Decidable (u.RowGuard c) := inferInstanceAs (Decidable (_ ∧ _))

instance (u : Session) : Decidable u.Fits := inferInstanceAs (Decidable (_ ≤ _))

end Session

/-! ### Redrawing on a row

All keys draw in one way, with two numbers and a text as parameters. On a row the drawing comes to a
row with the text written over it; behind the last column it would go on in the next row. -/

/-- Step back, print, and step back again. -/
def redrawing (back : ℕ) (text : List UInt8) (again : ℕ) : List ConsoleCall :=
  List.replicate back .left ++ printk text ++ List.replicate again .left

/-- The cell a character is shown in. -/
def glyph (c : UInt8) : UInt16 := cell (vgaMakeColor vgaLightGrey vgaBlack) c

theorem glyph_toUInt8 (c : UInt8) : (glyph c).toUInt8 = c := Console.cell_toUInt8 _ c

section Row

variable {s : Console} {row back again : ℕ} {d : CursorRow UInt16} {text : List UInt8}

/-- The strokes of a redrawing. -/
def redrawStrokes (back : ℕ) (text : List UInt8) (again : ℕ) : List (Stroke UInt8) :=
  List.replicate back .left ++ text.map .put ++ List.replicate again .left

theorem redrawing_eq (back : ℕ) (text : List UInt8) (again : ℕ) :
    redrawing back text again =
      (redrawStrokes back text again).map (Console.strokeCall vgaLightGrey vgaBlack) := by
  simp only [redrawing, redrawStrokes, printk, List.map_append, List.map_replicate, List.map_map]
  rfl

/-- The strokes of a redrawing: steps to the left, characters, and steps to the left. -/
theorem redrawStrokes_cells (back : ℕ) (text : List UInt8) (again : ℕ) :
    (redrawStrokes back text again).map (Console.strokeCell vgaLightGrey vgaBlack) =
      List.replicate back .left ++ (text.map glyph).map .put ++ List.replicate again .left := by
  simp only [redrawStrokes, List.map_append, List.map_replicate, List.map_map]
  rfl

/-- **Redrawing on the row** writes the text over it. -/
theorem Console.ShowsRow.redrawing (h : s.ShowsRow row d) (htext : ∀ c ∈ text, Ordinary c)
    (hback : back ≤ d.pos) (hfit : d.pos - back + text.length ≤ vgaWidth)
    (hagain : again ≤ d.pos - back + text.length) :
    ((redrawing back text again).foldl exec s).ShowsRow row
      ⟨d.pos - back + text.length - again, overlay d.cell (d.pos - back) (text.map glyph)⟩ := by
  have hdraw : d.draw (List.replicate back .left ++ (text.map glyph).map .put ++
      List.replicate again .left) =
        ⟨d.pos - back + text.length - again, overlay d.cell (d.pos - back) (text.map glyph)⟩ := by
    rw [CursorRow.draw_append, CursorRow.draw_append, CursorRow.draw_lefts, CursorRow.draw_puts,
      CursorRow.draw_lefts, List.length_map]
  rw [redrawing_eq, ← hdraw, ← redrawStrokes_cells]
  refine h.draw _ _ (fun a ha ↦ ?_) ?_
  · simp only [redrawStrokes, List.mem_append, List.mem_map] at ha
    rcases ha with (ha | ⟨c, hc, rfl⟩) | ha
    · exact (List.eq_of_mem_replicate ha).symm ▸ trivial
    · exact htext c hc
    · exact (List.eq_of_mem_replicate ha).symm ▸ trivial
  · rw [redrawStrokes_cells, CursorRow.inside_append, CursorRow.inside_append,
      CursorRow.draw_append, CursorRow.draw_lefts, CursorRow.draw_puts, List.length_map]
    refine ⟨⟨CursorRow.inside_lefts hback, CursorRow.inside_puts ?_⟩,
      CursorRow.inside_lefts hagain⟩
    rwa [List.length_map]

/-- Moving the cursor on the row, one way or the other. -/
theorem Console.ShowsRow.moves (h : s.ShowsRow row d) {right left : ℕ}
    (hright : right = 0 ∨ d.pos + right < vgaWidth) (hleft : left ≤ d.pos + right) :
    ((List.replicate right ConsoleCall.right ++
      List.replicate left ConsoleCall.left).foldl exec s).ShowsRow row
      ⟨d.pos + right - left, d.cell⟩ := by
  have hdraw : d.draw (List.replicate right .right ++ List.replicate left .left) =
      ⟨d.pos + right - left, d.cell⟩ := by
    rw [CursorRow.draw_append, CursorRow.draw_rights, CursorRow.draw_lefts]
  have hstrokes :=
    h.draw 0 0 (l := List.replicate right Stroke.right ++ List.replicate left Stroke.left)
    (fun a ha ↦ ?_) ?_
  · rw [← hdraw]
    rw [List.map_append, List.map_append, List.map_replicate, List.map_replicate,
      List.map_replicate, List.map_replicate] at hstrokes
    exact hstrokes
  · rcases List.mem_append.1 ha with ha | ha <;>
      exact (List.eq_of_mem_replicate ha).symm ▸ trivial
  · rw [List.map_append, List.map_replicate, List.map_replicate, CursorRow.inside_append]
    refine ⟨CursorRow.inside_rights hright, ?_⟩
    have hrights : d.draw (List.replicate right .right) = ⟨d.pos + right, d.cell⟩ :=
      CursorRow.draw_rights right
    exact hrights.symm ▸ CursorRow.inside_lefts hleft

/-- Printing to the last cell of the row and a blank behind it, and stepping back over both: the
blank goes to the next row, and the cursor comes back to this one. -/
theorem Console.ShowsRow.redrawing_behind (h : s.ShowsRow row d) (htext : ∀ c ∈ text, Ordinary c)
    (hfit : d.pos + text.length = vgaWidth) (hagain : again < text.length)
    (hrow : row + 1 < vgaHeight) :
    ((LightNight.redrawing 0 (text ++ [0x20]) (again + 2)).foldl exec s).ShowsRow row
      ⟨d.pos + text.length - 1 - again, overlay d.cell d.pos (text.map glyph)⟩ := by
  have hfull := h.redrawing htext (Nat.zero_le d.pos) hfit.le (Nat.zero_le _)
  have hpos : d.pos - 0 + text.length - 0 = vgaWidth := hfit
  have hblank := hfull.blank_behind vgaLightGrey vgaBlack (show Ordinary 0x20 by decide) hpos hrow
  have hback := hblank.redrawing (show ∀ c ∈ ([] : List UInt8), Ordinary c by simp)
    (show again ≤ vgaWidth - 1 by omega) (show vgaWidth - 1 - again + 0 ≤ vgaWidth by omega)
    (Nat.zero_le _)
  have hsplit : LightNight.redrawing 0 (text ++ [0x20]) (again + 2) =
      LightNight.redrawing 0 text 0 ++ (printChar 0x20 :: .left :: .left ::
        LightNight.redrawing again [] 0) := by
    simp [LightNight.redrawing, printk, List.replicate_succ]
  have hcalls : ∀ (t : Console) (l : List ConsoleCall),
      (printChar 0x20 :: .left :: .left :: l).foldl exec t =
        l.foldl exec
          (t.printCharColor 0x20 vgaLightGrey vgaBlack).moveCursorLeft.moveCursorLeft := by
    intro t l
    simp only [List.foldl_cons, printChar, exec]
  rw [List.map_nil, CursorRow.overlay_nil, List.length_nil] at hback
  rw [hsplit, List.foldl_append, hcalls, hfit]
  exact hback

end Row

/-! ### The line on the row -/

/-- The row shows the line behind the prompt, and blanks behind the line. -/
structure RowLine (start : ℕ → UInt16) (text : List UInt8) (cells : ℕ → UInt16) : Prop where
  prompt : ∀ i < promptEnd, cells i = start i
  line : ∀ i, promptEnd + i < vgaWidth → (cells (promptEnd + i)).toUInt8 = text.getD i 0x20

/-- **A redrawing that is enough**: from where the old and the new line differ to the end of the new
one, and blanks over what the old one had behind that. -/
theorem RowLine.redraw {start cells : ℕ → UInt16} {text text' : List UInt8} {p k : ℕ}
    (h : RowLine start text cells) (hp : p ≤ text'.length) (hsame : text'.take p = text.take p)
    (hk : text.length ≤ text'.length + k) :
    RowLine start text'
      (overlay cells (promptEnd + p) ((text'.drop p ++ List.replicate k 0x20).map glyph)) where
  prompt i hi := (CursorRow.overlay_of_lt (by omega)).trans (h.prompt i hi)
  line i hi := by
    rcases Nat.lt_or_ge i p with hlt | hge
    · have hchar : text'[i]? = text[i]? := by
        rw [← List.getElem?_take_of_lt hlt, hsame, List.getElem?_take_of_lt hlt]
      rw [CursorRow.overlay_of_lt (by omega), h.line i hi, List.getD_eq_getElem?_getD,
        List.getD_eq_getElem?_getD, hchar]
    · obtain ⟨j, rfl⟩ := Nat.exists_eq_add_of_le hge
      rw [← Nat.add_assoc, CursorRow.overlay_add, List.getD_eq_getElem?_getD, List.getElem?_map]
      have hblank : (text'.drop p ++ List.replicate k 0x20)[j]? =
          if p + j < text'.length then text'[p + j]? else
            if p + j < text'.length + k then some 0x20 else none := by
        rw [List.getElem?_append, List.length_drop, List.getElem?_drop, List.getElem?_replicate]
        split_ifs <;> first | rfl | omega
      rw [hblank]
      split_ifs with hin hend
      · rw [List.getD_eq_getElem?_getD, List.getElem?_eq_getElem hin]
        exact glyph_toUInt8 _
      · rw [List.getD_eq_default _ _ (Nat.not_lt.1 hin)]
        exact glyph_toUInt8 _
      · rw [List.getD_eq_default _ _ (Nat.not_lt.1 hin), Option.map_none, Option.getD_none,
          Nat.add_assoc, h.line _ hi, List.getD_eq_default _ _ (by omega)]

/-! ### What a key redraws

Which redrawing each key asks for, from the line and the cursor before it. The line in memory and
the line on the row are then changed by the same description. -/

namespace Shell

/-- The line is a text, with the cursor at `cur`. At a fresh prompt the buffer may still hold a
command that was executed. -/
structure HasLine (s : Shell) (text : List UInt8) (cur : ℕ) : Prop where
  position : s.At text.length cur
  shows : Shows s.cmdBuffer text
  nonzero : 0 ∉ text
  zero : text ≠ [] → s.cmdBuffer text.length = 0

/-- The line changes from `text` to `text'`, and is redrawn from character `p` on with `k` blanks
behind it. -/
structure Redraws (s t : Shell) (text text' : List UInt8) (cur cur' p k : ℕ) : Prop where
  line : t.HasLine text' cur'
  same : text'.take p = text.take p
  p_le : p ≤ cur
  p_le' : p ≤ cur'
  covers : text.length ≤ text'.length + k
  output : t.output = s.output ++
    redrawing (cur - p) (text'.drop p ++ List.replicate k 0x20) (text'.length + k - cur')

variable {s t : Shell} {text text' rest : List UInt8} {cur : ℕ} {c : UInt8}

/-- `redraw_from_cursor` prints the rest of the line. -/
theorem HasLine.rest_eq (h : s.HasLine text cur) (hrest : Rest s.cmdBuffer text.length cur rest) :
    rest = text.drop cur := by
  rw [Rest] at hrest
  split at hrest
  case isFalse hge =>
    rw [List.drop_of_length_le (Nat.not_lt.1 hge)]
    exact (Option.some.inj hrest).symm
  case isTrue hlt =>
    have hlen : cur + (text.drop cur).length = text.length := by
      rw [List.length_drop]
      omega
    have hholds : HoldsString maxCmdLen s.cmdBuffer cur (text.drop cur) := by
      refine HoldsString.of_getElem (by rw [hlen]; exact h.position.lt) ?_ fun j hj ↦ ?_
      · rw [hlen]
        exact h.zero (List.ne_nil_of_length_pos (Nat.zero_lt_of_lt hlt))
      · rw [List.getElem_drop]
        exact ⟨h.shows _ (by omega), fun hzero ↦ h.nonzero (hzero ▸ List.getElem_mem _)⟩
    rw [hholds.stringAt_eq] at hrest
    exact (Option.some.inj hrest).symm

/-- What a key prints is a redrawing of the rest of the line and one blank. -/
theorem redrawCalls_eq (rest : List UInt8) (steps : ℕ) :
    redrawCalls rest steps = redrawing 0 (rest ++ [0x20]) (steps + 1) := by
  simp [redrawCalls, redrawing, printk]

/-- Inserting a character redraws the line from the cursor on. -/
theorem HasLine.insertChar (h : s.HasLine text cur) (hroom : text.length < maxCmdLen - 1)
    (hc : 32 ≤ c ∧ c ≤ 126) : ∃ t, s.insertChar c = some t ∧
      Redraws s t text (text.insertIdx cur c) cur (cur + 1) cur
        (if cur < text.length then 1 else 0) := by
  have hle := h.position.cursor_le
  have hlen := List.length_insertIdx_of_le_length hle c
  obtain ⟨rest, hrest, heq⟩ := h.position.insertChar hroom hc
  have hne : c ≠ 0 := by
    rintro rfl
    exact absurd hc.1 (by decide)
  have hline : ∀ {t : Shell}, t.cmdBuffer = inserted s.cmdBuffer cur text.length c →
      t.cmdPos = (text.length + 1 : ℕ) → t.cursorPos = (cur + 1 : ℕ) →
      t.HasLine (text.insertIdx cur c) (cur + 1) := by
    intro t hbuffer hpos hcur
    refine ⟨⟨by rw [hpos, hlen], hcur, by omega, by rw [hlen]; omega⟩, ?_, ?_, fun _ ↦ ?_⟩
    · rw [hbuffer]
      exact h.shows.insertIdx hle fun i hi ↦ inserted_of_le _ _ _ hi
    · intro hmem
      rcases (List.mem_insertIdx hle).1 hmem with heq | hmem
      exacts [hne heq.symm, h.nonzero hmem]
    · rw [hbuffer, hlen]
      exact inserted_last _ _ _ _
  refine ⟨_, heq, hline rfl rfl rfl, List.take_insertIdx_eq_take_of_le _ _ _ _ le_rfl, le_rfl,
    Nat.le_succ _, by omega, ?_⟩
  have hdrop : (text.insertIdx cur c).drop cur = c :: (text.insertIdx cur c).drop (cur + 1) := by
    rw [List.drop_eq_getElem_cons (by omega), List.getElem_insertIdx_self]
  rw [emit, hdrop, Nat.sub_self, hlen]
  split
  case isTrue hlt =>
    have hrest' : rest = (text.insertIdx cur c).drop (cur + 1) :=
      (hline (t := { s with
        cmdBuffer := inserted s.cmdBuffer cur text.length c
        cmdPos := (text.length + 1 : ℕ)
        cursorPos := (cur + 1 : ℕ) }) rfl rfl rfl).rest_eq (by rw [hlen]; exact hrest)
    have hsteps : text.length + 1 + 1 - (cur + 1) = text.length - cur + 1 := by omega
    rw [redrawCalls_eq, hrest', hsteps]
    rfl
  case isFalse hge =>
    have hend : cur = text.length := by omega
    have hnil : (text.insertIdx cur c).drop (cur + 1) = [] :=
      List.drop_of_length_le (by omega)
    rw [hnil, hend, Nat.add_zero, Nat.sub_self]
    rfl

/-- A character is taken out, one blank behind the line. -/
theorem HasLine.erase (h : s.HasLine text cur) {p : ℕ} (hp : p < text.length) (hcur : p ≤ cur)
    (hrest : Rest (deleted s.cmdBuffer p (text.length - 1)) (text.length - 1) p rest)
    (hbuffer : t.cmdBuffer = deleted s.cmdBuffer p (text.length - 1))
    (hpos : t.cmdPos = (text.length - 1 : ℕ)) (hcursor : t.cursorPos = p)
    (hout : t.output = s.output ++ (List.replicate (cur - p) .left ++
      redrawCalls rest (text.length - 1 - p))) :
    Redraws s t text (text.eraseIdx p) cur p p 1 := by
  have hlen := List.length_eraseIdx_of_lt hp
  have hlt := h.position.lt
  have hline : t.HasLine (text.eraseIdx p) p := by
    refine ⟨⟨by rw [hpos, hlen], hcursor, by omega, by omega⟩, ?_, ?_, fun _ ↦ ?_⟩
    · rw [hbuffer]
      exact h.shows.eraseIdx hp fun i hi ↦ deleted_of_lt _ _ hi
    · exact fun hmem ↦ h.nonzero (List.mem_of_mem_eraseIdx hmem)
    · rw [hbuffer, hlen]
      exact deleted_last _ _ _
  refine ⟨hline, List.take_eraseIdx_eq_take_of_le _ _ _ le_rfl, hcur, le_rfl, by omega, ?_⟩
  have hrest' : rest = (text.eraseIdx p).drop p :=
    hline.rest_eq (by rw [hbuffer, hlen]; exact hrest)
  have hsteps : text.length - 1 + 1 - p = text.length - 1 - p + 1 := by omega
  rw [hout, redrawCalls_eq, hrest', hlen, hsteps]
  simp [redrawing]

/-- Deleting a character redraws the line from the cursor on, and one blank behind it. -/
theorem HasLine.deleteChar (h : s.HasLine text cur) (hlt : cur < text.length) :
    ∃ t, s.deleteChar = some t ∧ Redraws s t text (text.eraseIdx cur) cur cur cur 1 := by
  obtain ⟨rest, hrest, heq⟩ := h.position.deleteChar hlt
  exact ⟨_, heq, h.erase hlt le_rfl hrest rfl rfl h.position.cursor (by rw [Nat.sub_self]; rfl)⟩

/-- Backspace steps back first, and then redraws as a delete does. -/
theorem HasLine.backspaceChar (h : s.HasLine text cur) (hpos : 0 < cur) :
    ∃ t, s.backspaceChar = some t ∧
      Redraws s t text (text.eraseIdx (cur - 1)) cur (cur - 1) (cur - 1) 1 := by
  have hle := h.position.cursor_le
  obtain ⟨rest, hrest, heq⟩ := h.position.backspaceChar hpos
  have hback : cur - (cur - 1) = 1 := by omega
  have hsteps : text.length - 1 - (cur - 1) = text.length - cur := by omega
  exact ⟨_, heq, h.erase (by omega) (Nat.sub_le _ _) hrest rfl rfl rfl
    (by rw [hback, hsteps]; rfl)⟩

/-- A line that is copied to the buffer. -/
theorem hasLine_copied {cmd : ℕ → UInt8} (hcmd : HoldsString maxCmdLen cmd 0 text) (s : Shell)
    (out : List ConsoleCall) : HasLine { s with
      cmdBuffer := fun j ↦ if j ≤ text.length then cmd j else s.cmdBuffer j
      cmdPos := text.length
      cursorPos := text.length
      output := out } text text.length := by
  have hlt := hcmd.lt
  have hcopy := hcmd.copy (m := maxCmdLen) s.cmdBuffer (by omega)
  refine ⟨⟨rfl, rfl, le_rfl, by omega⟩, fun i hi ↦ ?_, fun hmem ↦ ?_, fun _ ↦ ?_⟩
  · have := (hcopy.getElem hi).1
    rwa [Nat.zero_add] at this
  · obtain ⟨j, hj, hzero⟩ := List.mem_iff_getElem.1 hmem
    exact (hcopy.getElem hj).2 hzero
  · have := hcopy.zero
    rwa [Nat.zero_add] at this

/-- A line is recalled, with the cursor at the end of the one that is edited. -/
theorem HasLine.replaceLine (h : s.HasLine text cur) (hend : cur = text.length) {cmd : ℕ → UInt8}
    (hcmd : HoldsString maxCmdLen cmd 0 text') : ∃ t, s.replaceLine cmd = some t ∧
      Redraws s t text text' cur text'.length 0 (text.length - text'.length) := by
  refine ⟨_, h.position.replaceLine hcmd, hasLine_copied hcmd s _, rfl, Nat.zero_le _,
    Nat.zero_le _, by omega, ?_⟩
  have hagain : text'.length + (text.length - text'.length) - text'.length =
      text.length - text'.length := by omega
  rw [hagain, hend]
  change s.output ++ replaceCalls text.length text' = _
  rw [replaceCalls]
  split
  case isTrue hshort =>
    simp [redrawing, printk, List.append_assoc]
  case isFalse hlong =>
    have hzero : text.length - text'.length = 0 := by omega
    simp [redrawing, printk, hzero]

end Shell

/-! ### The invariant

`Shown` says that the row of the cursor shows the prompt and the line, and that the cursor of the
console is that of the line. Every key keeps it where the redrawing stays on the row and the cursor
is where the key takes it to be. -/

namespace Session

/-- The shell is sound, its line is `text`, and the line is on the row of the prompt, with the
cursor where it belongs. -/
structure Shown (start u : Session) (text : List UInt8) (cur : ℕ) : Prop where
  bounds : u.shell.InBounds
  textual : u.shell.Textual
  line : u.shell.HasLine text cur
  row : ∃ d, u.console.ShowsRow start.console.cursorRow d ∧ d.pos = promptEnd + cur ∧
    RowLine (fun i ↦ start.console.cells.vga.val (vgaIndex start.console.cursorRow i)) text d.cell

variable {start u v : Session} {text text' : List UInt8} {cur cur' p k : ℕ} {c : UInt8}

/-- Where the row shows the line, the screen does what is asked of it. -/
theorem Shown.matches (h : start.Shown u text cur) (hfits : u.Fits) : Matches start u := by
  obtain ⟨d, hrow, hpos, hprompt, hline⟩ := h.row
  have hat := h.line.position
  rw [Fits, hat.pos] at hfits
  have hchar : ∀ i < vgaWidth, u.console.charAt u.console.cursorRow i = (d.cell i).toUInt8 := by
    intro i hi
    rw [Console.charAt, hrow.cursorRow, hrow.cell i hi]
  refine ⟨hrow.cursorRow, ?_, fun i hi ↦ ?_, fun i hi hlt ↦ ?_, fun i hi ↦ ?_⟩
  · rw [hrow.cursorCol, hpos, hat.cursor]
    rfl
  · rw [hat.pos, Int.ofNat_lt] at hi
    rw [hchar _ (by omega), hline i (by omega), h.line.shows i hi, List.getD_eq_getElem _ _ hi]
  · rw [hat.pos] at hi
    obtain ⟨j, rfl⟩ := Nat.exists_eq_add_of_le (show promptEnd ≤ i by omega)
    rw [hchar _ hlt, hline j hlt, List.getD_eq_default _ _ (by omega)]
  · have hlt : i < vgaWidth := by omega
    rw [hrow.cursorRow, hrow.cell i hlt, hprompt i hi]

/-- The characters of the line do not move the cursor otherwise than by one. -/
theorem ordinary_of_textual {s : Shell} (h : s.HasLine text cur) (ht : s.Textual) :
    ∀ c ∈ text, Console.Ordinary c := by
  intro c hc
  obtain ⟨i, hi, rfl⟩ := List.mem_iff_getElem.1 hc
  have hne : text[i] ≠ 0 := fun hzero ↦ h.nonzero (hzero ▸ hc)
  have hbyte := ht.buffer i
  rw [h.shows i hi] at hbyte
  have hprintable := hbyte.resolve_left hne
  refine ⟨?_, ?_, ?_⟩ <;>
  · intro heq
    rw [heq] at hprintable
    exact absurd hprintable.1 (by decide)

/-- The calls of a step are those the shell has made. -/
theorem Step.console_eq (h : u.Step c v) {t : Shell} {calls : List ConsoleCall}
    (ht : u.shell.shellProcessInput c = some t) (hout : t.output = u.shell.output ++ calls) :
    v.shell = t ∧ v.console = calls.foldl Console.exec u.console := by
  rw [Step, press, ht, Option.map_some, hout, List.drop_left] at h
  obtain rfl := Option.some.inj h
  exact ⟨rfl, rfl⟩

/-- **A redrawing keeps the line on the screen**, if it stays on the row, or if it only puts the
blank behind a full row to the next one. -/
theorem Shown.redraws (h : start.Shown u text cur) (hbounds : v.shell.InBounds)
    (htextual : v.shell.Textual) (hredraws : Shell.Redraws u.shell v.shell text text' cur cur' p k)
    (hconsole : v.console = (redrawing (cur - p) (text'.drop p ++ List.replicate k 0x20)
      (text'.length + k - cur')).foldl Console.exec u.console)
    (hfit : promptEnd + text'.length + k ≤ vgaWidth ∨
      promptEnd + text'.length = vgaWidth ∧ k = 1 ∧ cur = p ∧ cur' = cur + 1 ∧
        text'.length = text.length + 1 ∧ cur < text.length ∧
        start.console.cursorRow + 1 < vgaHeight) :
    start.Shown v text' cur' := by
  obtain ⟨d, hrow, hpos, hline⟩ := h.row
  have hp := hredraws.p_le
  have hp' := hredraws.p_le'
  have hle' := hredraws.line.position.cursor_le
  have hdrop : (text'.drop p).length = text'.length - p := List.length_drop
  have hordinary := ordinary_of_textual hredraws.line htextual
  have htail : ∀ c ∈ text'.drop p, Console.Ordinary c :=
    fun c hc ↦ hordinary c (List.mem_of_mem_drop hc)
  have hstart : d.pos - (cur - p) = promptEnd + p := by omega
  refine ⟨hbounds, htextual, hredraws.line, ?_⟩
  rw [hconsole]
  rcases hfit with hfit | ⟨hfull, rfl, rfl, rfl, hlen, hlt, hnext⟩
  · have hlength : (text'.drop p ++ List.replicate k 0x20).length = text'.length - p + k := by
      rw [List.length_append, hdrop, List.length_replicate]
    refine ⟨_, hrow.redrawing (fun c hc ↦ ?_) (by omega) (by omega) (by omega), ?_, ?_⟩
    · rcases List.mem_append.1 hc with hc | hc
      · exact htail c hc
      · exact (List.eq_of_mem_replicate hc).symm ▸ (by decide)
    · simp only [hstart, hlength]
      omega
    · simp only [hstart]
      exact hline.redraw (by omega) hredraws.same hredraws.covers
  · have hagain : text'.length + 1 - (cur + 1) = text'.length - cur - 2 + 2 := by omega
    have hbehind := hrow.redrawing_behind htail (by omega)
      (show text'.length - cur - 2 < _ by omega) hnext
    rw [Nat.sub_self, hagain]
    refine ⟨_, hbehind, ?_, ?_⟩
    · simp only [hdrop]
      omega
    · have hsame := hline.redraw (k := 0) (by omega) hredraws.same (by omega)
      rw [List.replicate_zero, List.append_nil] at hsame
      simpa only [hpos] using hsame

/-- A key that only moves the cursor, on the row. -/
theorem Shown.moves (h : start.Shown u text cur) (hbounds : v.shell.InBounds)
    (htextual : v.shell.Textual) {right left : ℕ} (hbuffer : v.shell.cmdBuffer = u.shell.cmdBuffer)
    (hpos : v.shell.cmdPos = u.shell.cmdPos)
    (hcursor : v.shell.cursorPos = (cur + right - left : ℕ))
    (hle : cur + right - left ≤ text.length)
    (hconsole : v.console =
      (List.replicate right ConsoleCall.right ++
        List.replicate left ConsoleCall.left).foldl Console.exec u.console)
    (hright : right = 0 ∨ promptEnd + cur + right < vgaWidth) (hleft : left ≤ cur + right) :
    start.Shown v text (cur + right - left) := by
  obtain ⟨d, hrow, hd, hline⟩ := h.row
  have hat := h.line.position
  refine ⟨hbounds, htextual, ⟨⟨hpos.trans hat.pos, hcursor, hle, hat.lt⟩, ?_, h.line.nonzero, ?_⟩,
    ⟨d.pos + right - left, d.cell⟩, ?_, ?_, hline⟩
  · rw [hbuffer]
    exact h.line.shows
  · rw [hbuffer]
    exact h.line.zero
  · rw [hconsole]
    exact hrow.moves (by rwa [hd]) (by omega)
  · change d.pos + right - left = promptEnd + (cur + right - left)
    omega

/-- A key that does nothing. -/
theorem Shown.same (h : start.Shown u text cur) (hshell : v.shell = u.shell)
    (hconsole : v.console = u.console) : start.Shown v text cur := by
  obtain ⟨hbounds, htextual, hline, hrow⟩ := h
  rw [← hshell] at hbounds htextual hline
  rw [← hconsole] at hrow
  exact ⟨hbounds, htextual, hline, hrow⟩

/-- A key without an effect on the shell. -/
theorem Shown.idle (h : start.Shown u text cur) (hstep : u.Step c v)
    (hkey : u.shell.shellProcessInput c = some u.shell) : start.Shown v text cur := by
  obtain ⟨hshell, hconsole⟩ := hstep.console_eq hkey (List.append_nil u.shell.output).symm
  exact h.same hshell hconsole

/-- The invariant is kept by a key that redraws. -/
theorem Shown.redrawn (h : start.Shown u text cur) (hstep : u.Step c v) {t : Shell}
    (hkey : u.shell.shellProcessInput c = some t)
    (hredraws : Shell.Redraws u.shell t text text' cur cur' p k)
    (hfit : promptEnd + text'.length + k ≤ vgaWidth ∨
      promptEnd + text'.length = vgaWidth ∧ k = 1 ∧ cur = p ∧ cur' = cur + 1 ∧
        text'.length = text.length + 1 ∧ cur < text.length ∧
        start.console.cursorRow + 1 < vgaHeight) :
    start.Shown v text' cur' := by
  obtain ⟨hshell, hconsole⟩ := hstep.console_eq hkey hredraws.output
  obtain ⟨t', ht', hbounds⟩ := h.bounds.key c
  obtain rfl : t = t' := Option.some.inj (hkey.symm.trans ht')
  have htextual := h.textual.key h.bounds hkey
  rw [← hshell] at hbounds htextual hredraws
  exact h.redraws hbounds htextual hredraws hconsole hfit

/-- The invariant is kept by a key that moves the cursor. -/
theorem Shown.moved (h : start.Shown u text cur) (hstep : u.Step c v) (right left : ℕ) {q : ℤ}
    (hkey : u.shell.shellProcessInput c = some { u.shell with
      cursorPos := q
      output := u.shell.output ++ (List.replicate right ConsoleCall.right ++
        List.replicate left ConsoleCall.left) })
    (hq : q = (cur + right - left : ℕ)) (hle : cur + right - left ≤ text.length)
    (hright : right = 0 ∨ promptEnd + cur + right < vgaWidth) (hleft : left ≤ cur + right) :
    start.Shown v text (cur + right - left) := by
  obtain ⟨hshell, hconsole⟩ := hstep.console_eq hkey rfl
  obtain ⟨t, ht, hbounds⟩ := h.bounds.key c
  obtain rfl := Option.some.inj (hkey.symm.trans ht)
  have htextual := h.textual.key h.bounds hkey
  rw [← hshell] at hbounds htextual
  exact h.moves hbounds htextual (hshell ▸ rfl) (hshell ▸ rfl) (hshell ▸ hq) hle hconsole hright
    hleft

/-- Recall, with the cursor at the end of the line. -/
theorem Shown.recall (h : start.Shown u text cur) (hstep : u.Step c v) (hfits : u.Fits)
    (hfits' : v.Fits) (hcount : 0 < u.shell.historyCount)
    (hend : u.shell.cursorPos = u.shell.cmdPos) {direction : ℤ}
    (hkey : u.shell.shellProcessInput c = u.shell.historyShow direction) :
    ∃ text' cur', start.Shown v text' cur' := by
  have hat := h.line.position
  rw [hat.cursor, hat.pos] at hend
  obtain ⟨w, cmd, heq, hrecall⟩ := h.bounds.historyShow_eq hcount direction
  obtain ⟨text', htext'⟩ := exists_holdsString hrecall.terminated
  have hline : w.HasLine text cur :=
    ⟨⟨hrecall.pos.trans hat.pos, hrecall.cursor.trans hat.cursor, hat.cursor_le, hat.lt⟩,
      hrecall.buffer ▸ h.line.shows, h.line.nonzero, hrecall.buffer ▸ h.line.zero⟩
  obtain ⟨t, ht, hredraws⟩ := hline.replaceLine (Int.ofNat_inj.1 hend) htext'
  have hredraws : Shell.Redraws u.shell t text text' cur text'.length 0
      (text.length - text'.length) :=
    ⟨hredraws.line, hredraws.same, hredraws.p_le, hredraws.p_le', hredraws.covers,
      hrecall.output ▸ hredraws.output⟩
  have hkey : u.shell.shellProcessInput c = some t := hkey.trans (heq.trans ht)
  have hshell := (hstep.console_eq hkey hredraws.output).1
  rw [Fits, hat.pos] at hfits
  rw [Fits, hshell, hredraws.line.position.pos] at hfits'
  exact ⟨_, _, h.redrawn hstep hkey hredraws (Or.inl (by omega))⟩

/-- The keys from `KEY_UP` to `KEY_DEL`. -/
theorem Shown.specialKey (h : start.Shown u text cur) (hfits : u.Fits) (hguard : u.RowGuard c)
    (hstep : u.Step c v) (hfits' : v.Fits)
    (hkey : u.shell.shellProcessInput c = u.shell.specialKey c) :
    ∃ text' cur', start.Shown v text' cur' := by
  have hat := h.line.position
  have hle := hat.cursor_le
  obtain ⟨hrecall, hbefore⟩ := hguard
  rw [hat.cursor, hat.pos] at hbefore
  rw [Shell.specialKey] at hkey
  split at hkey
  · split at hkey
    case isTrue hpos =>
      rw [hat.cursor] at hpos
      have hback : u.shell.cursorPos - 1 = (cur + 0 - 1 : ℕ) := by
        rw [hat.cursor]
        omega
      exact ⟨_, _, h.moved hstep 0 1 hkey hback (by omega) (Or.inl rfl)
        (by omega)⟩
    case isFalse => exact ⟨_, _, h.idle hstep hkey⟩
  split at hkey
  case isTrue hc =>
    split at hkey
    case isTrue hlt =>
      rw [hat.cursor, hat.pos] at hlt
      have hroom := (hbefore hlt).1 hc
      have hnext : u.shell.cursorPos + 1 = (cur + 1 - 0 : ℕ) := by
        rw [hat.cursor]
        rfl
      exact ⟨_, _, h.moved hstep 1 0 hkey hnext (by omega) (Or.inr (by omega))
        (Nat.zero_le _)⟩
    case isFalse => exact ⟨_, _, h.idle hstep hkey⟩
  split at hkey
  case isTrue hc =>
    split at hkey
    case isTrue hcount =>
      exact h.recall hstep hfits hfits' hcount (hrecall (Or.inl hc) hcount) hkey
    case isFalse => exact ⟨_, _, h.idle hstep hkey⟩
  split at hkey
  case isTrue hc =>
    split at hkey
    case isTrue hcount =>
      exact h.recall hstep hfits hfits' hcount (hrecall (Or.inr hc) hcount) hkey
    case isFalse => exact ⟨_, _, h.idle hstep hkey⟩
  split at hkey
  · rw [Shell.moveCursorTo_eq le_rfl (by rw [hat.pos]; omega)] at hkey
    exact ⟨_, _, h.moved hstep _ _ hkey (by rw [hat.cursor]; omega) (by rw [hat.cursor]; omega)
      (Or.inl (by rw [hat.cursor]; omega)) (by rw [hat.cursor]; omega)⟩
  split at hkey
  case isTrue hc =>
    rw [Shell.moveCursorTo_eq (by rw [hat.pos]; omega) le_rfl] at hkey
    have hright : (u.shell.cmdPos - u.shell.cursorPos).toNat = 0 ∨
        promptEnd + cur + (u.shell.cmdPos - u.shell.cursorPos).toNat < vgaWidth := by
      rw [hat.pos, hat.cursor]
      rcases Nat.lt_or_ge cur text.length with hlt | hge
      · have hroom := (hbefore (Int.ofNat_lt.2 hlt)).2.1 hc
        omega
      · omega
    exact ⟨_, _, h.moved hstep _ _ hkey (by rw [hat.pos, hat.cursor]; omega)
      (by rw [hat.pos, hat.cursor]; omega) hright (by rw [hat.pos, hat.cursor]; omega)⟩
  by_cases hlt : cur < text.length
  · obtain ⟨t, ht, hredraws⟩ := h.line.deleteChar hlt
    have hlen := List.length_eraseIdx_of_lt hlt
    rw [Fits, hat.pos] at hfits
    exact ⟨_, _, h.redrawn hstep (hkey.trans ht) hredraws (Or.inl (by omega))⟩
  · rw [Shell.deleteChar, if_neg (by rw [hat.cursor, hat.pos]; omega)] at hkey
    exact ⟨_, _, h.idle hstep hkey⟩

/-- **One key.** -/
theorem Shown.key (h : start.Shown u text cur) (hfits : u.Fits) (hguard : u.RowGuard c)
    (hstep : u.EditStep c v) : ∃ text' cur', start.Shown v text' cur' := by
  obtain ⟨hne, hstep, hfits'⟩ := hstep
  have hat := h.line.position
  have hle := hat.cursor_le
  have hkey := Eq.refl (u.shell.shellProcessInput c)
  conv_rhs at hkey => rw [Shell.shellProcessInput]
  split at hkey
  · exact ⟨_, _, h.idle hstep hkey⟩
  split at hkey
  · exact h.specialKey hfits hguard hstep hfits' hkey
  split at hkey
  · by_cases hpos : 0 < cur
    · obtain ⟨t, ht, hredraws⟩ := h.line.backspaceChar hpos
      have hlen := List.length_eraseIdx_of_lt (show cur - 1 < text.length by omega)
      rw [Fits, hat.pos] at hfits
      exact ⟨_, _, h.redrawn hstep (hkey.trans ht) hredraws (Or.inl (by omega))⟩
    · rw [Shell.backspaceChar, if_neg (by rw [hat.cursor]; omega)] at hkey
      exact ⟨_, _, h.idle hstep hkey⟩
  by_cases hcond : u.shell.cmdPos < maxCmdLen - 1 ∧ 32 ≤ c ∧ c ≤ 126
  · have hroom : text.length < maxCmdLen - 1 := by
      have := hcond.1
      rw [hat.pos] at this
      omega
    obtain ⟨t, ht, hredraws⟩ := h.line.insertChar hroom hcond.2
    have hkey := hkey.trans ht
    have hlen := List.length_insertIdx_of_le_length hle c
    have hshell := (hstep.console_eq hkey hredraws.output).1
    rw [Fits, hshell, hredraws.line.position.pos] at hfits'
    refine ⟨_, _, h.redrawn hstep hkey hredraws ?_⟩
    split
    case isFalse => exact Or.inl (by omega)
    case isTrue hlt =>
      have hnext := (hguard.2 (by rw [hat.cursor, hat.pos]; omega)).2.2 hcond.2
      obtain ⟨d, hrow, -⟩ := h.row
      rw [hat.pos, hrow.cursorRow] at hnext
      rcases Nat.lt_or_ge (promptEnd + text.length + 1) vgaWidth with hroom | hfull
      · exact Or.inl (by omega)
      · exact Or.inr ⟨by omega, rfl, rfl, rfl, by omega, hlt, hnext.resolve_left (by omega)⟩
  · rw [Shell.insertChar, if_neg hcond] at hkey
    exact ⟨_, _, h.idle hstep hkey⟩

/-- A fresh prompt shows the empty line. -/
theorem FreshPrompt.showsEmpty (h : u.FreshPrompt) : u.Shown u [] 0 := by
  obtain ⟨hbounds, htextual⟩ := h.reached.sound
  have hline : u.shell.HasLine [] 0 :=
    ⟨⟨h.pos, h.cursor, le_rfl, by decide⟩, fun _ hi ↦ absurd hi (Nat.not_lt_zero _),
      List.not_mem_nil, fun hne ↦ absurd rfl hne⟩
  refine ⟨hbounds, htextual, hline,
    ⟨promptEnd, fun i ↦ u.console.cells.vga.val (vgaIndex u.console.cursorRow i)⟩,
    ⟨h.viewing, h.row, rfl, h.col, (by decide : promptEnd ≤ vgaWidth), fun _ _ ↦ rfl⟩, rfl,
      fun _ _ ↦ rfl, fun i hi ↦ ?_⟩
  rw [List.getD_nil]
  exact (h.shown _ hi).trans (List.getD_eq_default _ _ (Nat.le_add_right _ _))

end Session

/-! ### After `shell_init` -/

/-- Rows whose last row is known. -/
theorem eq_mk_of_row {α : Type*} {r : Rows α} {row : List α} (h : r.row = row) :
    r = ⟨r.done, row⟩ := by
  rw [← h]

/-- A text that ends with a prompt, printed on a cleared screen that holds all of it. -/
theorem Console.fresh_of_layout (s : Console) {text : List UInt8} {done : List (List UInt8)}
    (htext : ∀ c ∈ text, c ≠ 0x0D ∧ c ≠ 0x09) (hlen : text.length ≤ historySize)
    (hlayout : Rows.empty.feedAll consoleStyle drops text = ⟨done, prompt⟩)
    (hdone : done.length < vgaHeight) {t : Console}
    (ht : t = (printk text).foldl exec s.clearScreen) :
    t.isViewingHistory = false ∧ t.cursorRow < vgaHeight ∧ t.cursorCol = promptEnd ∧
      ∀ i < vgaWidth, t.charAt t.cursorRow i = prompt.getD i 0x20 := by
  let glyphs : List Glyph := text.map fun c ↦ ⟨c, vgaLightGrey, vgaBlack⟩
  have hprinted : t = s.clearScreen.printAll glyphs := by
    simp only [ht, printk, List.foldl_map, printAll, glyphs]
    rfl
  have hglyphs : ∀ g ∈ glyphs, g.c ≠ 0x0D ∧ g.c ≠ 0x09 := by
    intro g hg
    obtain ⟨c, hc, rfl⟩ := List.mem_map.1 hg
    exact htext c hc
  have hchars : glyphs.map Glyph.c = text := by
    rw [List.map_map]
    exact List.map_id text
  have hcount : s.clearScreen.scrollCount glyphs ≤ historySize :=
    (scrollCount_le _ _).trans (by rwa [List.length_map])
  have hclear := s.clearScreen_cleared
  obtain ⟨hshows, hrow⟩ :=
    hclear.shows.printAll (by rw [hclear.row]; decide) hglyphs (by rwa [Nat.zero_add])
  rw [hchars, hlayout] at hshows
  -- nothing has scrolled: with fewer rows than the screen has, the cursor would be at the bottom
  have hnone : s.clearScreen.scrollCount glyphs = 0 := by
    by_contra hne
    have hge := hshows.bottom (by omega)
    have hrows : done.length = _ := hshows.rows
    simp only [vgaHeight] at hge hdone
    omega
  have hcursor : done.length = (s.clearScreen.printAll glyphs).cursorRow := by
    have hrows : done.length = _ := hshows.rows
    rwa [hnone, Nat.add_zero, Nat.zero_add] at hrows
  rw [hprinted]
  refine ⟨hshows.view, hrow, hshows.col hrow, fun i hi ↦ ?_⟩
  have hcell := hshows.screen _ hrow i hi
  rw [hnone, ← hcursor, Nat.add_zero, Nat.zero_add] at hcell
  rw [charAt, ← hcursor, synced_cell hshows.synced (vgaIndex_lt hdone hi), hcell, Rows.cell,
    Rows.all, List.getD_append_right _ _ _ _ le_rfl, Nat.sub_self, List.getD_cons_zero]
  rfl

/-- What `shell_init` prints. -/
def banner : List UInt8 :=
  ascii "=== LightNightOS Shell (with cursor movement) ===\n" ++
    ascii "Type 'help' for available commands\n" ++
    ascii "=================================================\n\n" ++ prompt

/-- The shell and the console when `shell_init` has run, on a console in any state. -/
def Session.init (s : Console) : Session :=
  ⟨Shell.boot.shellInit, Shell.boot.shellInit.output.foldl Console.exec s⟩

/-- What `shell_init` prints: a cleared screen and a greeting. -/
theorem shellInit_output : Shell.boot.shellInit.output = .clear :: printk banner := by
  rw [Shell.shellInit, Shell.boot, banner]
  simp only [printk, List.map_append, List.nil_append]

/-- **`shell_init` leaves a fresh prompt**, whatever was on the screen. -/
theorem Session.freshPrompt_init (s : Console) : (Session.init s).FreshPrompt := by
  have hdone : (Rows.empty.feedAll consoleStyle Console.drops banner).done.length < vgaHeight := by
    decide +kernel
  have hlast : (Rows.empty.feedAll consoleStyle Console.drops banner).row = prompt := by
    decide +kernel
  have hconsole : (Session.init s).console = (printk banner).foldl Console.exec s.clearScreen := by
    rw [Session.init]
    simp only [shellInit_output, List.foldl_cons]
    rfl
  obtain ⟨hview, hrow, hcol, hshown⟩ := s.fresh_of_layout (by decide +kernel)
    (by decide +kernel) (eq_mk_of_row hlast) hdone hconsole
  exact ⟨⟨[], Run.nil _⟩, rfl, rfl, hview, hrow, hcol, hshown⟩

/-- **The screen matches the buffer.** From a fresh prompt, after any keys other than Enter, as long
as the line fits on the row and the keys meet the condition, the cursor and the row of the prompt
are as the shell's variables say. -/
theorem screen_matches {u v : Session} {keys : List UInt8} (hfresh : u.FreshPrompt)
    (hrun : Run (Guarded Session.RowGuard Session.EditStep) u keys v) : Session.Matches u v := by
  have hfits : u.Fits := by
    rw [Session.Fits, hfresh.pos]
    decide
  obtain ⟨⟨text, cur, hshown⟩, hfits⟩ : (∃ text cur, u.Shown v text cur) ∧ v.Fits := by
    refine hrun.invariant (I := fun w ↦ (∃ text cur, u.Shown w text cur) ∧ w.Fits) ?_
      ⟨⟨_, _, hfresh.showsEmpty⟩, hfits⟩
    rintro w c w' ⟨⟨text, cur, hshown⟩, hfits⟩ ⟨hguard, hstep⟩
    exact ⟨hshown.key hfits hguard hstep, hstep.2.2⟩
  exact hshown.matches hfits

/-- Keys that meet the condition, one after the other. -/
theorem Session.edits_of_foldlM {u v : Session} {keys : List UInt8}
    (h : (keys.foldlM (fun u c ↦ if u.RowGuard c ∧ c ≠ newline then (u.press c).filter (·.Fits)
      else none) u) = some v) :
    Run (Guarded Session.RowGuard Session.EditStep) u keys v := by
  refine (Run.of_foldlM h).mono fun {u c v} hstep ↦ ?_
  obtain ⟨⟨hguard, hne⟩, hpress⟩ := Option.ite_none_right_eq_some.1 hstep
  obtain ⟨hpress, hfits⟩ := Option.filter_eq_some_iff.1 hpress
  exact ⟨hguard, hne, hpress, of_decide_eq_true hfits⟩

/-- The general theorem when the shell has started: `a` and `b` are typed, and `c` between them. -/
theorem screen_matches_insert : ∃ v,
    Run (Guarded Session.RowGuard Session.EditStep) (Session.init (Console.boot fun _ ↦ 0))
      [0x61, 0x62, keyLeft, 0x63] v ∧
    v.shell.cmdPos = 3 ∧ v.shell.cursorPos = 2 ∧
    Session.Matches (Session.init (Console.boot fun _ ↦ 0)) v := by
  have hkeys : (([0x61, 0x62, keyLeft, 0x63].foldlM
      (fun u c ↦ if u.RowGuard c ∧ c ≠ newline then (u.press c).filter (·.Fits) else none)
      (Session.init (Console.boot fun _ ↦ 0))).map fun v ↦ (v.shell.cmdPos, v.shell.cursorPos)) =
      some (3, 2) := by
    decide +kernel
  obtain ⟨v, hv, hpos⟩ := Option.map_eq_some_iff.1 hkeys
  have hrun := Session.edits_of_foldlM hv
  exact ⟨v, hrun, congrArg Prod.fst hpos, congrArg Prod.snd hpos,
    screen_matches (Session.freshPrompt_init _) hrun⟩

/-- What has been printed when `a` was entered as a command. -/
def unknownCommand : List UInt8 :=
  banner ++ ascii "a\n" ++ ascii "Unknown command: 'a'\n" ++
    ascii "Type 'help' for available commands\n" ++ prompt

/-- The shell after some keys from boot. -/
def Shell.typed (keys : List UInt8) : Option Shell :=
  keys.foldlM Shell.shellProcessInput Shell.boot.shellInit

/-- One more key, as a step of the session. -/
theorem Session.step_of_typed {u : Session} {keys : List UInt8} (c : UInt8) (pos cursor : ℤ)
    (calls : List ConsoleCall) (h : Shell.typed keys = some u.shell)
    (hnext : (Shell.typed (keys ++ [c])).map (fun t ↦ (t.cmdPos, t.cursorPos, t.output)) =
      some (pos, cursor, u.shell.output ++ calls)) :
    ∃ v, Shell.typed (keys ++ [c]) = some v.shell ∧ u.Step c v ∧ v.shell.cmdPos = pos ∧
      v.shell.cursorPos = cursor ∧ v.shell.output = u.shell.output ++ calls ∧
      v.console = calls.foldl Console.exec u.console := by
  obtain ⟨t, ht, hproj⟩ := Option.map_eq_some_iff.1 hnext
  obtain ⟨hpos, hrest⟩ := Prod.mk.inj hproj
  obtain ⟨hcursor, hout⟩ := Prod.mk.inj hrest
  have hkey : u.shell.shellProcessInput c = some t := by
    rw [Shell.typed] at h
    rw [Shell.typed, List.foldlM_append, h] at ht
    simpa using ht
  refine ⟨⟨t, calls.foldl Console.exec u.console⟩, ht, ?_, hpos, hcursor, hout, rfl⟩
  rw [Session.Step, Session.press, hkey, Option.map_some, hout, List.drop_left]

/-- **A line recalled with the cursor inside the line.** Behind the prompt after the command `a`,
the keys `b`, Left and Up show `a` one column too far to the left, over the prompt. -/
theorem recall_over_prompt : ∃ u v : Session, u.FreshPrompt ∧
    Run Session.EditStep u [0x62, 0x03, 0x01] v ∧ v.shell.cursorPos = 1 ∧
      v.console.cursorCol = promptEnd ∧ ¬Session.Matches u v := by
  have hfirst : (Shell.typed [0x61, newline]).map (fun t ↦ (t.cmdPos, t.cursorPos, t.output)) =
      some (0, 0, .clear :: printk unknownCommand) := by decide +kernel
  obtain ⟨t, ht, hproj⟩ := Option.map_eq_some_iff.1 hfirst
  obtain ⟨hpos, hrest⟩ := Prod.mk.inj hproj
  obtain ⟨hcursor, hout⟩ := Prod.mk.inj hrest
  let u : Session := ⟨t, t.output.foldl Console.exec (Console.boot fun _ ↦ 0)⟩
  have hconsole : u.console =
      (printk unknownCommand).foldl Console.exec (Console.boot fun _ ↦ 0).clearScreen := by
    simp only [u, hout, List.foldl_cons]
    rfl
  have hdone : (Rows.empty.feedAll consoleStyle Console.drops unknownCommand).done.length <
      vgaHeight := by decide +kernel
  have hlast : (Rows.empty.feedAll consoleStyle Console.drops unknownCommand).row = prompt := by
    decide +kernel
  obtain ⟨hview, hrow, hcol, hshown⟩ := (Console.boot fun _ ↦ 0).fresh_of_layout
    (by decide +kernel) (by decide +kernel) (eq_mk_of_row hlast) hdone hconsole
  have hfresh : u.FreshPrompt :=
    ⟨⟨_, Run.of_foldlM ht⟩, hpos, hcursor, hview, hrow, hcol, hshown⟩
  obtain ⟨v₁, ht₁, hstep₁, hpos₁, -, hout₁, hconsole₁⟩ := Session.step_of_typed (u := u) 0x62 1 1
    [printChar 0x62] ht (by rw [hout]; decide +kernel)
  obtain ⟨v₂, ht₂, hstep₂, hpos₂, -, hout₂, hconsole₂⟩ := Session.step_of_typed 0x03 1 0
    [.left] ht₁ (by rw [hout₁, hout]; decide +kernel)
  obtain ⟨v₃, -, hstep₃, hpos₃, hcursor₃, -, hconsole₃⟩ := Session.step_of_typed 0x01 1 1
    [.left, printChar 0x61] ht₂ (by rw [hout₂, hout₁, hout]; decide +kernel)
  have hfits : ∀ {v : Session}, v.shell.cmdPos = 1 → v.Fits := by
    intro v hv
    rw [Session.Fits, hv]
    decide
  have hrun : Run Session.EditStep u [0x62, 0x03, 0x01] v₃ :=
    Run.cons ⟨by decide, hstep₁, hfits hpos₁⟩ (Run.cons ⟨by decide, hstep₂, hfits hpos₂⟩
      (Run.single ⟨by decide, hstep₃, hfits hpos₃⟩))
  obtain ⟨⟨pos, cells⟩, hd, hpos, -⟩ := hfresh.showsEmpty.row
  obtain rfl : pos = 2 := hpos
  let strokes : List (Stroke UInt8) := [.put 0x62, .left, .left, .put 0x61]
  have hcalls : v₃.console =
      (strokes.map (Console.strokeCall vgaLightGrey vgaBlack)).foldl Console.exec u.console := by
    have hlist : strokes.map (Console.strokeCall vgaLightGrey vgaBlack) =
      ([printChar 0x62] ++ [.left]) ++ [.left, printChar 0x61] := rfl
    rw [hlist, List.foldl_append, List.foldl_append, ← hconsole₁, ← hconsole₂, ← hconsole₃]
  have hinside : CursorRow.Inside vgaWidth ⟨2, cells⟩
      (strokes.map (Console.strokeCell vgaLightGrey vgaBlack)) :=
    ⟨(by decide : 2 < 80), (by decide : 0 < 3), (by decide : 0 < 2), (by decide : 1 < 80), trivial⟩
  have hordinary : ∀ a ∈ strokes, Console.OrdinaryStroke a := by
    simp [strokes, Console.OrdinaryStroke, Console.Ordinary]
  have hcol₃ : v₃.console.cursorCol = promptEnd := by
    rw [hcalls]
    exact (hd.draw _ _ hordinary hinside).cursorCol
  refine ⟨u, v₃, hfresh, hrun, hcursor₃, hcol₃, fun hmatches ↦ ?_⟩
  have hcol := hmatches.col
  rw [hcol₃, hcursor₃] at hcol
  omega

end LightNight
