import LightNightOS.Foundation.LineEditor
import LightNightOS.Shell.Input

/-!
# The line editor of the shell is the ideal one

What each editing key does to `cmd_buffer`, `cmd_pos` and `cursor_pos` is said once, by a lemma for
each branch of `shell_process_input`: a position in the line, one loop that moves characters by one,
and a zero behind the line. `ShowsLine` relates that to a line of at most 127 characters with a
cursor, and `editor_refines` lifts it to every sequence of keys.

* `At.insertChar`, `At.deleteChar`, `At.backspaceChar` — the keys that change the line, computed;
* `ShowsLine.key` — one key, on both sides;
* `editor_refines` — every sequence of keys, from an empty line on, whatever is left over in the
  buffer.
-/

namespace LightNight

open CharArray Transition

namespace Shell

variable {s t : Shell} {len cur : ℕ} {c : UInt8}

/-- The line has `len` characters, and the cursor is in front of character `cur`. -/
structure At (s : Shell) (len cur : ℕ) : Prop where
  pos : s.cmdPos = len
  cursor : s.cursorPos = cur
  cursor_le : cur ≤ len
  lt : len < maxCmdLen

/-! ### The editing keys

Each branch of the code is computed once, from a position in the line, as an array in closed form
and the calls that redraw it. -/

/-- `cmd_buffer` when character `cur` has been taken out and `last` are left. -/
def deleted (b : ℕ → UInt8) (cur last : ℕ) : ℕ → UInt8 :=
  Function.update (fun j ↦ if cur ≤ j ∧ j < last then b (j + 1) else b j) last 0

/-- `cmd_buffer` when `c` has been put in front of character `cur` of `len`. -/
def inserted (b : ℕ → UInt8) (cur len : ℕ) (c : UInt8) : ℕ → UInt8 :=
  Function.update
    (Function.update (fun j ↦ if cur < j ∧ j ≤ len then b (j - 1) else b j) cur c) (len + 1) 0

theorem deleted_last (b : ℕ → UInt8) (cur last : ℕ) : deleted b cur last last = 0 :=
  Function.update_self _ _ _

theorem deleted_of_lt (b : ℕ → UInt8) (cur : ℕ) {last i : ℕ} (hi : i < last) :
    deleted b cur last i = if cur ≤ i then b (i + 1) else b i := by
  rw [deleted, Function.update_of_ne (Nat.ne_of_lt hi)]
  exact if_congr (and_iff_left hi) rfl rfl

theorem inserted_last (b : ℕ → UInt8) (cur len : ℕ) (c : UInt8) :
    inserted b cur len c (len + 1) = 0 :=
  Function.update_self _ _ _

theorem inserted_of_le (b : ℕ → UInt8) (cur : ℕ) {len i : ℕ} (c : UInt8) (hi : i ≤ len) :
    inserted b cur len c i = if i = cur then c else if cur < i then b (i - 1) else b i := by
  rw [inserted, Function.update_of_ne (by omega)]
  by_cases heq : i = cur
  · rw [heq, Function.update_self, if_pos rfl]
  · rw [Function.update_of_ne heq, if_neg heq]
    exact if_congr (and_iff_left hi) rfl rfl

/-- What `redraw_from_cursor` prints of the line. -/
def Rest (b : ℕ → UInt8) (len cur : ℕ) (rest : List UInt8) : Prop :=
  (if cur < len then stringAt maxCmdLen b cur else some []) = some rest

/-- The calls of `redraw_from_cursor`: the rest of the line, a blank behind it, and back. -/
def redrawCalls (rest : List UInt8) (steps : ℕ) : List ConsoleCall :=
  printk rest ++ printChar 0x20 :: List.replicate (steps + 1) .left

/-- `redraw_from_cursor` reads the line up to its zero. -/
theorem At.redraw (h : s.At len cur) (hzero : s.cmdBuffer len = 0) :
    ∃ rest, Rest s.cmdBuffer len cur rest ∧
      s.redrawFromCursor = some (s.emit (redrawCalls rest (len - cur))) := by
  have hle := h.cursor_le
  have hblank : s.cmdPos + 1 - s.cursorPos - (s.cmdPos - s.cursorPos) = 1 := by omega
  have hback : (s.cmdPos - s.cursorPos + 1).toNat = len - cur + 1 := by
    rw [h.pos, h.cursor]
    omega
  obtain ⟨rest, hrest, hshown⟩ : ∃ rest, Rest s.cmdBuffer len cur rest ∧
      (if s.cursorPos < s.cmdPos then (stringAt maxCmdLen s.cmdBuffer s.cursorPos).map printk
        else some []) = some (printk rest) := by
    obtain ⟨text, htext⟩ := exists_holdsString ⟨len, h.cursor_le, h.lt, hzero⟩
    rw [h.cursor, h.pos, htext.stringAt_eq]
    by_cases hlt : cur < len
    · rw [if_pos (Int.ofNat_lt.2 hlt)]
      exact ⟨text, by rw [Rest, if_pos hlt, htext.stringAt_eq], rfl⟩
    · rw [if_neg (by omega)]
      exact ⟨[], if_neg hlt, rfl⟩
  refine ⟨rest, hrest, ?_⟩
  rw [redrawFromCursor, hshown]
  simp only [Option.bind_eq_bind, Option.bind_some, hblank, hback]
  rw [redrawCalls, ← List.singleton_append, ← List.append_assoc]
  rfl

/-- Del in closed form: the characters behind the cursor move up, and the rest of the line
is drawn again. -/
theorem At.deleteChar (h : s.At len cur) (hlt : cur < len) : ∃ rest,
    Rest (deleted s.cmdBuffer cur (len - 1)) (len - 1) cur rest ∧
    s.deleteChar = some ({ s with
      cmdBuffer := deleted s.cmdBuffer cur (len - 1)
      cmdPos := (len - 1 : ℕ) }.emit (redrawCalls rest (len - 1 - cur))) := by
  have hlen := h.lt
  have hlast : s.cmdPos - 1 = (len - 1 : ℕ) := by
    rw [h.pos]
    omega
  have hshift := @shiftLeft_eq maxCmdLen s.cmdBuffer cur (len - 1) (by omega)
  obtain ⟨rest, hrest, hredraw⟩ := At.redraw
    (s := { s with cmdBuffer := deleted s.cmdBuffer cur (len - 1), cmdPos := (len - 1 : ℕ) })
    ⟨rfl, h.cursor, by omega, by omega⟩ (deleted_last _ _ _)
  refine ⟨rest, hrest, ?_⟩
  rw [Shell.deleteChar, if_pos (by rw [h.cursor, h.pos]; omega), hlast, h.cursor, hshift]
  simp only [Option.bind_eq_bind, Option.bind_some]
  rw [store_natCast (by omega), Option.bind_some]
  rw [← h.cursor]
  exact hredraw

/-- Backspace in closed form: it is Del one place to the left. -/
theorem At.backspaceChar (h : s.At len cur) (hpos : 0 < cur) : ∃ rest,
    Rest (deleted s.cmdBuffer (cur - 1) (len - 1)) (len - 1) (cur - 1) rest ∧
    s.backspaceChar = some ({ s with
      cmdBuffer := deleted s.cmdBuffer (cur - 1) (len - 1)
      cmdPos := (len - 1 : ℕ)
      cursorPos := (cur - 1 : ℕ) }.emit (.left :: redrawCalls rest (len - cur))) := by
  have hlen := h.lt
  have hle := h.cursor_le
  have hlast : s.cmdPos - 1 = (len - 1 : ℕ) := by
    rw [h.pos]
    omega
  have hback : s.cursorPos - 1 = (cur - 1 : ℕ) := by
    rw [h.cursor]
    omega
  have hshift := @shiftLeft_eq maxCmdLen s.cmdBuffer (cur - 1) (len - 1) (by omega)
  have hsteps : len - 1 - (cur - 1) = len - cur := by omega
  obtain ⟨rest, hrest, hredraw⟩ := At.redraw (s := { s with
    cmdBuffer := deleted s.cmdBuffer (cur - 1) (len - 1)
    cmdPos := (len - 1 : ℕ)
    cursorPos := (cur - 1 : ℕ) }.emit [.left])
    ⟨rfl, rfl, by omega, by omega⟩ (deleted_last _ _ _)
  refine ⟨rest, hrest, ?_⟩
  rw [Shell.backspaceChar, if_pos (by rw [h.cursor]; omega), hback, hlast]
  simp only [hshift, Option.bind_eq_bind, Option.bind_some]
  rw [store_natCast (by omega), Option.bind_some]
  rw [hsteps] at hredraw
  refine hredraw.trans (congrArg some ?_)
  rw [emit, emit, emit, List.append_assoc]
  rfl

/-- A printable character in closed form: the characters from the cursor on move back, and the rest
of the line is drawn again. -/
theorem At.insertChar (h : s.At len cur) (hroom : len < maxCmdLen - 1) (hc : 32 ≤ c ∧ c ≤ 126) :
    ∃ rest, Rest (inserted s.cmdBuffer cur len c) (len + 1) (cur + 1) rest ∧
    s.insertChar c = some ({ s with
      cmdBuffer := inserted s.cmdBuffer cur len c
      cmdPos := (len + 1 : ℕ)
      cursorPos := (cur + 1 : ℕ) }.emit
        (printChar c :: if cur < len then redrawCalls rest (len - cur) else [])) := by
  have hle := h.cursor_le
  have hshift : (if s.cursorPos < s.cmdPos then
      shiftRight maxCmdLen s.cmdBuffer s.cursorPos s.cmdPos else some s.cmdBuffer) =
        some fun j ↦ if cur < j ∧ j ≤ len then s.cmdBuffer (j - 1) else s.cmdBuffer j := by
    rw [h.cursor, h.pos]
    by_cases hlt : cur < len
    · rw [if_pos (Int.ofNat_lt.2 hlt), shiftRight_eq hle h.lt]
    · rw [if_neg (by omega)]
      exact congrArg some (funext fun j ↦ (if_neg (by omega)).symm)
  have hnext : s.cmdPos + 1 = (len + 1 : ℕ) := by
    rw [h.pos]
    rfl
  have hcursor : s.cursorPos + 1 = (cur + 1 : ℕ) := by
    rw [h.cursor]
    rfl
  have hstore : ∀ b, store maxCmdLen b s.cursorPos c = some (Function.update b cur c) := by
    intro b
    rw [h.cursor, store_natCast (by omega)]
  have hsteps : len + 1 - (cur + 1) = len - cur := by omega
  obtain ⟨rest, hrest, hredraw⟩ := At.redraw (s := { s with
    cmdBuffer := inserted s.cmdBuffer cur len c
    cmdPos := (len + 1 : ℕ)
    cursorPos := (cur + 1 : ℕ) }.emit [printChar c])
    ⟨rfl, rfl, by omega, by omega⟩ (inserted_last _ _ _ _)
  refine ⟨rest, hrest, ?_⟩
  rw [Shell.insertChar, if_pos ⟨by rw [h.pos]; omega, hc⟩, hshift]
  simp only [Option.bind_eq_bind, Option.bind_some]
  rw [hstore, Option.bind_some, hnext, store_natCast (by omega), Option.bind_some, hcursor]
  rw [hsteps] at hredraw
  by_cases hlt : cur < len
  · rw [if_pos hlt]
    refine (if_pos (show ((cur + 1 : ℕ) : ℤ) < (len + 1 : ℕ) by omega)).trans
      (hredraw.trans (congrArg some ?_))
    rw [emit, emit, emit, List.append_assoc]
    rfl
  · rw [if_neg hlt]
    exact if_neg (show ¬((cur + 1 : ℕ) : ℤ) < (len + 1 : ℕ) by omega)

/-! ### The shell and the ideal editor

`ShowsLine` relates the array and the two positions to a line with a cursor. A key on both sides
keeps the relation, so the text after any sequence of keys is that of the editor. -/

/-- The byte `shell_process_input` is given for a key. -/
def keyCode : EditKey UInt8 → UInt8
  | .insert c => c
  | .backspace => LightNight.backspace
  | .delete => keyDel
  | .left => keyLeft
  | .right => keyRight
  | .home => keyHome
  | .toEnd => keyEnd

/-- A key that inserts is printable. -/
def Printable : EditKey UInt8 → Prop
  | .insert c => 32 ≤ c ∧ c ≤ 126
  | _ => True

/-- The shell shows the line: `cmd_buffer[0..cmd_pos)` is its text, `cursor_pos` its cursor. -/
structure ShowsLine (s : Shell) (l : Line UInt8 (maxCmdLen - 1)) : Prop where
  active : s.shellActive = true
  pos : s.cmdPos = l.text.length
  cursor : s.cursorPos = l.cursor
  text : Shows s.cmdBuffer l.text

variable {l : Line UInt8 (maxCmdLen - 1)}

theorem ShowsLine.at (h : s.ShowsLine l) : s.At l.text.length l.cursor :=
  ⟨h.pos, h.cursor, l.cursor_le, Nat.lt_of_le_of_lt l.length_le (by decide)⟩

/-- One more key was taken: the line is shown, and if its text changed a zero is behind it. -/
def Takes (l l' : Line UInt8 (maxCmdLen - 1)) (result : Option Shell) : Prop :=
  ∃ t, result = some t ∧ t.ShowsLine l' ∧ (l'.text ≠ l.text → t.cmdBuffer l'.text.length = 0)

theorem ShowsLine.deleteChar (h : s.ShowsLine l) : Takes l l.delete s.deleteChar := by
  rw [Line.delete]
  split
  case isTrue hlt =>
    obtain ⟨rest, -, heq⟩ := h.at.deleteChar hlt
    have hlen := List.length_eraseIdx_of_lt hlt
    exact ⟨_, heq, ⟨h.active, by rw [hlen]; rfl, h.cursor,
      h.text.eraseIdx hlt fun i hi ↦ deleted_of_lt _ _ hi⟩,
      fun _ ↦ by rw [hlen]; exact deleted_last _ _ _⟩
  case isFalse hge =>
    refine ⟨s, if_neg ?_, h, fun hne ↦ absurd rfl hne⟩
    rw [h.cursor, h.pos]
    omega

theorem ShowsLine.backspaceChar (h : s.ShowsLine l) : Takes l l.backspace s.backspaceChar := by
  rw [Line.backspace]
  split
  case isTrue hpos =>
    obtain ⟨rest, -, heq⟩ := h.at.backspaceChar hpos
    have hlt : l.cursor - 1 < l.text.length := by
      have := l.cursor_le
      omega
    have hlen := List.length_eraseIdx_of_lt hlt
    exact ⟨_, heq, ⟨h.active, by rw [hlen]; rfl, rfl,
      h.text.eraseIdx hlt fun i hi ↦ deleted_of_lt _ _ hi⟩,
      fun _ ↦ by rw [hlen]; exact deleted_last _ _ _⟩
  case isFalse hzero =>
    refine ⟨s, if_neg ?_, h, fun hne ↦ absurd rfl hne⟩
    rw [h.cursor]
    omega

theorem ShowsLine.insertChar (h : s.ShowsLine l) (hc : 32 ≤ c ∧ c ≤ 126) :
    Takes l (l.insert c) (s.insertChar c) := by
  rw [Line.insert]
  split
  case isTrue hroom =>
    obtain ⟨rest, -, heq⟩ := h.at.insertChar hroom hc
    have hlen := List.length_insertIdx_of_le_length l.cursor_le c
    exact ⟨_, heq, ⟨h.active, by rw [hlen]; rfl, rfl,
      h.text.insertIdx l.cursor_le fun i hi ↦ inserted_of_le _ _ _ hi⟩,
      fun _ ↦ by rw [hlen]; exact inserted_last _ _ _ _⟩
  case isFalse hfull =>
    refine ⟨s, if_neg ?_, h, fun hne ↦ absurd rfl hne⟩
    rw [h.pos]
    omega

/-- Moving the cursor. -/
theorem ShowsLine.moveTo (h : s.ShowsLine l) {cursor : ℕ} (hle : cursor ≤ l.text.length)
    (out : List ConsoleCall) {p : ℤ} (hp : p = cursor) :
    Takes l (l.moveTo cursor hle) (some { s with cursorPos := p, output := out }) :=
  ⟨_, rfl, ⟨h.active, h.pos, hp, h.text⟩, fun hne ↦ absurd rfl hne⟩

/-- `move_cursor_to` within the line: it steps one way, or the other. -/
theorem moveCursorTo_eq {p : ℤ} (hp : 0 ≤ p) (hle : p ≤ s.cmdPos) : s.moveCursorTo p = { s with
    cursorPos := p
    output := s.output ++ (List.replicate (p - s.cursorPos).toNat .right ++
      List.replicate (s.cursorPos - p).toNat .left) } := by
  rw [moveCursorTo]
  simp only [if_neg (Int.not_lt.2 hp), if_neg (Int.not_lt.2 hle)]
  split
  case isTrue hright =>
    have hleft : (s.cursorPos - p).toNat = 0 := by omega
    rw [hleft, List.replicate_zero, List.append_nil]
    rfl
  case isFalse hleft =>
    have hright : (p - s.cursorPos).toNat = 0 := by omega
    rw [hright, List.replicate_zero, List.nil_append, neg_sub]
    rfl

/-- **One key.** -/
theorem ShowsLine.key (h : s.ShowsLine l) {k : EditKey UInt8} (hk : Printable k) :
    Takes l (l.edit k) (s.shellProcessInput (keyCode k)) := by
  rw [shellProcessInput, h.active]
  cases k with
  | insert c =>
    have hlo : 32 ≤ c.toNat := UInt8.le_iff_toNat_le.1 hk.1
    have hne : ∀ d : UInt8, d.toNat < 32 → c ≠ d := by
      rintro _ hd rfl
      omega
    have hspecial : ¬(keyUp ≤ c ∧ c ≤ keyDel) := by
      rintro ⟨-, hle⟩
      have hle := UInt8.le_iff_toNat_le.1 hle
      have hdel : keyDel.toNat = 7 := rfl
      omega
    rw [keyCode, Bool.not_true, if_neg Bool.false_ne_true, if_neg hspecial,
      if_neg (hne newline (by decide)), if_neg (hne LightNight.backspace (by decide))]
    exact h.insertChar hk
  | backspace => exact h.backspaceChar
  | delete => exact h.deleteChar
  | left =>
    change Takes l _ (if 0 < s.cursorPos then _ else _)
    split
    case isTrue hpos =>
      rw [h.cursor] at hpos
      exact h.moveTo (p := s.cursorPos - 1) _ _ (by rw [h.cursor]; omega)
    case isFalse hzero =>
      rw [h.cursor] at hzero
      exact h.moveTo _ s.output (p := s.cursorPos) (by rw [h.cursor]; omega)
  | right =>
    have hle := l.cursor_le
    change Takes l _ (if s.cursorPos < s.cmdPos then _ else _)
    split
    case isTrue hlt =>
      rw [h.cursor, h.pos] at hlt
      exact h.moveTo (p := s.cursorPos + 1) _ _ (by rw [h.cursor]; omega)
    case isFalse hge =>
      rw [h.cursor, h.pos] at hge
      exact h.moveTo _ s.output (p := s.cursorPos) (by rw [h.cursor]; omega)
  | home =>
    change Takes l _ (some (s.moveCursorTo 0))
    rw [moveCursorTo_eq le_rfl (by rw [h.pos]; omega)]
    exact h.moveTo _ _ rfl
  | toEnd =>
    change Takes l _ (some (s.moveCursorTo s.cmdPos))
    rw [moveCursorTo_eq (by rw [h.pos]; omega) le_rfl]
    exact h.moveTo _ _ h.pos

/-- What the shell shows of a line that was typed. -/
theorem ShowsLine.keys {keys : List (EditKey UInt8)} (h : s.ShowsLine l)
    (hkeys : ∀ k ∈ keys, Printable k) : ∃ t, Run Step s (keys.map keyCode) t ∧
      t.ShowsLine (keys.foldl Line.edit l) := by
  induction keys generalizing s l with
  | nil => exact ⟨s, Run.nil s, h⟩
  | cons k keys ih =>
    obtain ⟨u, hstep, hu, -⟩ := h.key (hkeys k List.mem_cons_self)
    obtain ⟨t, hrun, ht⟩ := ih hu fun k hk ↦ hkeys k (List.mem_cons_of_mem _ hk)
    exact ⟨t, Run.cons hstep hrun, ht⟩

end Shell

/-- The shell is deterministic: a key leads to one state. -/
theorem Shell.step_unique {s t t' : Shell} {c : UInt8} (h : Shell.Step s c t)
    (h' : Shell.Step s c t') : t = t' :=
  Option.some.inj (h.symm.trans h')

/-- **The line editor is the ideal one.** From an empty line, with any bytes left over in
`cmd_buffer`, every sequence of editing keys is taken; `cmd_buffer[0..cmd_pos)` and `cursor_pos` are
then the text and the cursor of the ideal editor after the same keys, and after a key that changes
the text `cmd_buffer[cmd_pos]` is zero. -/
theorem editor_refines {s : Shell} (hactive : s.shellActive = true) (hpos : s.cmdPos = 0)
    (hcursor : s.cursorPos = 0) {keys : List (EditKey UInt8)}
    (hkeys : ∀ k ∈ keys, Shell.Printable k) :
    (∃ t, Run Shell.Step s (keys.map Shell.keyCode) t) ∧
    ∀ t, Run Shell.Step s (keys.map Shell.keyCode) t →
      t.ShowsLine (Line.typed (maxCmdLen - 1) keys) ∧
      ∀ k u, Shell.Printable k → Shell.Step t (Shell.keyCode k) u →
        (Line.typed (maxCmdLen - 1) (keys ++ [k])).text ≠ (Line.typed (maxCmdLen - 1) keys).text →
          u.cmdBuffer u.cmdPos.toNat = 0 := by
  have hempty : s.ShowsLine Line.empty :=
    ⟨hactive, hpos, hcursor, fun _ hi ↦ absurd hi (Nat.not_lt_zero _)⟩
  obtain ⟨t, hrun, ht⟩ := hempty.keys hkeys
  refine ⟨⟨t, hrun⟩, fun t' hrun' ↦ ?_⟩
  obtain rfl := hrun.unique hrun' Shell.step_unique
  refine ⟨ht, fun k u hk hstep hne ↦ ?_⟩
  obtain ⟨u', hstep', hu, hzero⟩ := ht.key hk
  obtain rfl := Shell.step_unique hstep hstep'
  rw [Line.typed, List.foldl_append] at hne
  rw [hu.pos, Int.toNat_natCast]
  exact hzero hne

/-- A shell whose line is empty, over bytes left from before. -/
def staleShell : Shell where
  cmdHistory := fun _ _ ↦ 0
  historyCount := 0
  historyCurrent := -1
  cmdBuffer := fun _ ↦ 0x78
  cmdPos := 0
  cursorPos := 0
  shellActive := true
  savedCmd := fun _ ↦ 0
  savedCmdPos := 0
  output := []

/-- The general theorem on `ab`, Left and Backspace. -/
theorem editor_refines_staleShell : ∃ t,
    Run Shell.Step staleShell [0x61, 0x62, 0x03, 0x08] t ∧
      t.ShowsLine (Line.typed _ [.insert 0x61, .insert 0x62, .left, .backspace]) := by
  have hkeys : ∀ k ∈ [EditKey.insert 0x61, .insert 0x62, .left, .backspace], Shell.Printable k := by
    simp [Shell.Printable]
  obtain ⟨⟨t, hrun⟩, hall⟩ := editor_refines (s := staleShell) rfl rfl rfl hkeys
  exact ⟨t, hrun, (hall t hrun).1⟩

end LightNight
