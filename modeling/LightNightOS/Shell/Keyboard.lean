import LightNightOS.Console.Cursor
import LightNightOS.Shell.Calls

/-!
# The keyboard of `keyboard.c`

`keyboard_handler_c` reads scan codes as long as the controller has some, and turns each into keys
of the shell, a switch of the terminal, or, while the shell is not active, calls of the console. The
codes that the controller gives to one interrupt are a list here.

How the codes are spread over interrupts does not matter (`keyboardHandlerC_batches`): between two
of them only the cursor of the hardware is set, and nothing reads it. And no sequence of codes takes
the screen away from the terminal that is active (`keyboard_presents`).

* `keyboardHandlerC_batches` — any two ways of spreading the codes over interrupts end in the same
  session;
* `keyboard_types` — the keys of the shell behind any codes, in order;
* `Sound.scan`, `keyboard_presents` — one code, and every list of batches of codes.
-/

namespace LightNight

open CharArray Transition

/-! ### Scan codes

A code is a release, which is ignored, a switch of the terminal, or a key: of the shell while that
is active, and of the console otherwise. A code that stands for no key does nothing. -/

/-- `map[]` of `scancode_to_char` -/
def scancodeMap : List UInt8 :=
  [0, 27] ++ ascii "1234567890-=" ++ [backspace] ++
  [0x09] ++ ascii "qwertyuiop[]" ++ [newline, 0] ++
  ascii "asdfghjkl;'`" ++ [0] ++ ascii "\\" ++
  ascii "zxcvbnm,./" ++ [0, 0, 0] ++ ascii " "

/-- `scancode_to_char` -/
def scancodeToChar (scancode : UInt8) : UInt8 :=
  if scancode.toNat < scancodeMap.length then scancodeMap.getD scancode.toNat 0 else 0

/-- The key of the shell for a scan code. -/
def shellKey (scancode : UInt8) : Option UInt8 :=
  if scancode = 0x48 then some keyUp
  else if scancode = 0x50 then some keyDown
  else if scancode = 0x4B then some keyLeft
  else if scancode = 0x4D then some keyRight
  else if scancode = 0x47 then some keyHome
  else if scancode = 0x4F then some keyEnd
  else if scancode = 0x53 then some keyDel
  else
    let c := scancodeToChar scancode
    if c ≠ 0 then some c else none

/-- The calls of the console for a scan code, while the shell is not active. -/
def plainCalls (s : Console) (scancode : UInt8) : List ConsoleCall :=
  (if scancode = 0x0E then
    let col := s.cursorCol
    if 0 < col then [.setCol (col - 1), printChar 0x20, .setCol (col - 1)] else []
  else
    let c := scancodeToChar scancode
    if c ≠ 0 then [printChar c] else []) ++
  if scancode = 0x48 then [.up]
  else if scancode = 0x50 then [.down]
  else if scancode = 0x4B then [.left]
  else if scancode = 0x4D then [.right]
  else []

/-- The key that the shell gets for a scan code: none for a key that is let go, or for F1 to F4. -/
def typedKey (scancode : UInt8) : Option UInt8 :=
  if scancode &&& 0x80 ≠ 0 ∨ 0x3B ≤ scancode ∧ scancode ≤ 0x3E then none else shellKey scancode

namespace Session

/-- The calls of the console that are not the shell's. -/
def perform (u : Session) (calls : List ConsoleCall) : Session :=
  { u with console := calls.foldl Console.exec u.console }

/-- The body of the loop of `keyboard_handler_c`. -/
def scan (u : Session) (scancode : UInt8) : Option Session :=
  if scancode &&& 0x80 ≠ 0 then some u
  else if 0x3B ≤ scancode ∧ scancode ≤ 0x3E then some (u.perform [.switch (scancode - 0x3B).toNat])
  else if u.shell.shellActive then
    match shellKey scancode with
    | some c => u.press c
    | none => some u
  else some (u.perform (plainCalls u.console scancode))

/-- `update_cursor(get_cursor_row(), get_cursor_col())` -/
def showCursor (u : Session) : Session :=
  { u with console := u.console.updateCursor u.console.cursorRow u.console.cursorCol }

/-- `keyboard_handler_c`, with the scan codes that it reads until the controller has no more. -/
def keyboardHandlerC (u : Session) (scancodes : List UInt8) : Option Session :=
  (scancodes.foldlM scan u).map showCursor

/-- The shell and the console when `shell_init` returns, for the console it is called on. -/
def started (console : Console) : Session :=
  showCursor ⟨Shell.boot.shellInit, Shell.boot.shellInit.output.foldl Console.exec console⟩

end Session

/-! ### The cursor of the hardware

`AlikeBut` relates consoles that differ in the hardware cursor alone. Every operation of the console
keeps it, since none of them reads that cursor. -/

namespace Console

variable {s t : Console}

/-- The same console, but for the cursor of the hardware. -/
def AlikeBut (s t : Console) : Prop := ∃ hw, t = { s with hwCursor := hw }

theorem AlikeBut.refl (s : Console) : AlikeBut s s := ⟨s.hwCursor, rfl⟩

theorem AlikeBut.updateCursor (h : AlikeBut s t) (row col : ℕ) :
    s.updateCursor row col = t.updateCursor row col := by
  obtain ⟨hw, rfl⟩ := h
  rfl

theorem AlikeBut.closeHistory (h : AlikeBut s t) : AlikeBut s.closeHistory t.closeHistory := by
  obtain ⟨hw, rfl⟩ := h
  rw [Console.closeHistory, Console.closeHistory]
  dsimp only
  split
  · exact ⟨_, rfl⟩
  · exact ⟨_, rfl⟩

theorem AlikeBut.putChar (h : AlikeBut s t) (c : UInt8) : AlikeBut (s.putChar c) (t.putChar c) := by
  obtain ⟨hw, rfl⟩ := h
  rw [Console.putChar, Console.putChar]
  dsimp only
  split
  · exact ⟨_, rfl⟩
  split
  · exact ⟨_, rfl⟩
  split
  · exact ⟨_, rfl⟩
  · split <;> exact ⟨_, rfl⟩

theorem AlikeBut.backup (h : AlikeBut s t) :
    AlikeBut s.backupCurrentScreen t.backupCurrentScreen := by
  obtain ⟨hw, rfl⟩ := h
  rw [backupCurrentScreen, backupCurrentScreen]
  exact ⟨hw, rfl⟩

theorem AlikeBut.saveLine (h : AlikeBut s t) (line : ℕ) :
    AlikeBut (s.saveLineToHistory line) (t.saveLineToHistory line) := by
  obtain ⟨hw, rfl⟩ := h
  rw [saveLineToHistory, saveLineToHistory]
  exact ⟨hw, rfl⟩

theorem AlikeBut.scrollScreen (h : AlikeBut s t) : AlikeBut s.scrollScreen t.scrollScreen := by
  have hsaved := h.saveLine 0
  obtain ⟨hw, rfl⟩ := h
  rw [Console.scrollScreen, Console.scrollScreen]
  obtain ⟨hw', hsaved⟩ := hsaved
  rw [hsaved]
  refine AlikeBut.backup ⟨hw', ?_⟩
  dsimp only

theorem AlikeBut.clearScreen (h : AlikeBut s t) : AlikeBut s.clearScreen t.clearScreen := by
  have hlines : ∀ n, AlikeBut (forLoop n (fun row s ↦ s.saveLineToHistory row) s)
      (forLoop n (fun row s ↦ s.saveLineToHistory row) t) := fun n ↦
    forLoop_rel h fun row _ _ _ hst ↦ hst.saveLine row
  obtain ⟨hw', hlines⟩ := hlines vgaHeight
  obtain ⟨hw, rfl⟩ := h
  rw [Console.clearScreen, Console.clearScreen, hlines]
  refine ⟨0, ?_⟩
  dsimp only [Console.updateCursor, backupCurrentScreen]
  rfl

theorem AlikeBut.print (h : AlikeBut s t) (c fg bg : UInt8) :
    AlikeBut (s.printCharColor c fg bg) (t.printCharColor c fg bg) := by
  have hcolor : AlikeBut (s.closeHistory.setVgaColor fg bg) (t.closeHistory.setVgaColor fg bg) := by
    obtain ⟨hw, hclose⟩ := h.closeHistory
    rw [hclose]
    exact ⟨hw, rfl⟩
  have hput := hcolor.putChar c
  have hscroll : AlikeBut ((s.closeHistory.setVgaColor fg bg).putChar c).scrollIfNeeded
      ((t.closeHistory.setVgaColor fg bg).putChar c).scrollIfNeeded := by
    obtain ⟨hw, heq⟩ := hput
    rw [scrollIfNeeded, scrollIfNeeded, heq]
    split
    · exact AlikeBut.scrollScreen ⟨hw, rfl⟩
    · exact ⟨hw, rfl⟩
  obtain ⟨hw, heq⟩ := hscroll
  obtain ⟨hw', hclose⟩ := h.closeHistory
  rw [printCharColor_eq, printCharColor_eq, heq]
  refine AlikeBut.backup ⟨hw, ?_⟩
  rw [hclose]

theorem AlikeBut.showHistory (h : AlikeBut s t) :
    AlikeBut s.showHistoryLines t.showHistoryLines := by
  obtain ⟨hw, rfl⟩ := h
  rw [showHistoryLines, showHistoryLines]
  exact ⟨_, rfl⟩

theorem AlikeBut.viewHistoryUp (h : AlikeBut s t) : AlikeBut s.viewHistoryUp t.viewHistoryUp := by
  obtain ⟨hw', hbackup⟩ := h.backup
  obtain ⟨hw, rfl⟩ := h
  rw [Console.viewHistoryUp, Console.viewHistoryUp, hbackup]
  dsimp only
  split
  · exact ⟨hw, rfl⟩
  split
  · exact AlikeBut.showHistory ⟨hw', rfl⟩
  · exact AlikeBut.showHistory ⟨hw, rfl⟩

theorem AlikeBut.viewHistoryDown (h : AlikeBut s t) :
    AlikeBut s.viewHistoryDown t.viewHistoryDown := by
  obtain ⟨hw, rfl⟩ := h
  rw [Console.viewHistoryDown, Console.viewHistoryDown]
  dsimp only
  split
  · exact ⟨hw, rfl⟩
  split
  · exact ⟨_, rfl⟩
  · exact AlikeBut.showHistory ⟨hw, rfl⟩

theorem AlikeBut.moveCursorUp (h : AlikeBut s t) : AlikeBut s.moveCursorUp t.moveCursorUp := by
  obtain ⟨hw', hview⟩ := h.viewHistoryUp
  obtain ⟨hw, rfl⟩ := h
  rw [Console.moveCursorUp, Console.moveCursorUp, hview]
  dsimp only
  split <;> exact ⟨_, rfl⟩

theorem AlikeBut.moveCursorDown (h : AlikeBut s t) :
    AlikeBut s.moveCursorDown t.moveCursorDown := by
  obtain ⟨hw', hview⟩ := h.viewHistoryDown
  obtain ⟨hw, rfl⟩ := h
  rw [Console.moveCursorDown, Console.moveCursorDown, hview]
  dsimp only
  split <;> exact ⟨_, rfl⟩

theorem AlikeBut.moveCursorLeft (h : AlikeBut s t) :
    AlikeBut s.moveCursorLeft t.moveCursorLeft := by
  obtain ⟨hw, rfl⟩ := h
  rw [Console.moveCursorLeft, Console.moveCursorLeft]
  dsimp only
  split
  · exact ⟨_, rfl⟩
  · split <;> exact ⟨_, rfl⟩

theorem AlikeBut.moveCursorRight (h : AlikeBut s t) :
    AlikeBut s.moveCursorRight t.moveCursorRight := by
  obtain ⟨hw, rfl⟩ := h
  rw [Console.moveCursorRight, Console.moveCursorRight]
  dsimp only
  split
  · exact ⟨_, rfl⟩
  · split <;> exact ⟨_, rfl⟩

theorem AlikeBut.activate (h : AlikeBut s t) (n : Tty) :
    AlikeBut (s.activate n) (t.activate n) := by
  obtain ⟨hw, rfl⟩ := h
  rw [Console.activate, Console.activate]
  exact ⟨_, rfl⟩

/-- **Nothing reads the cursor of the hardware.** -/
theorem AlikeBut.exec (h : AlikeBut s t) (a : ConsoleCall) : AlikeBut (s.exec a) (t.exec a) := by
  cases a with
  | print c fg bg => exact h.print c fg bg
  | clear => exact h.clearScreen
  | switch n =>
    have hactivate := h.activate (Fin.ofNat ttyCount n.toNat)
    obtain ⟨hw, rfl⟩ := h
    show AlikeBut (s.vtSwitch n) (Console.vtSwitch _ n)
    rw [vtSwitch, vtSwitch]
    dsimp only
    split
    exacts [⟨hw, rfl⟩, hactivate]
  | up => exact h.moveCursorUp
  | down => exact h.moveCursorDown
  | left => exact h.moveCursorLeft
  | right => exact h.moveCursorRight
  | setRow row =>
    obtain ⟨hw, rfl⟩ := h
    show AlikeBut (s.setCursorRow row) (Console.setCursorRow _ row)
    rw [setCursorRow, setCursorRow]
    split <;> exact ⟨hw, rfl⟩
  | setCol col =>
    obtain ⟨hw, rfl⟩ := h
    show AlikeBut (s.setCursorCol col) (Console.setCursorCol _ col)
    rw [setCursorCol, setCursorCol]
    split <;> exact ⟨hw, rfl⟩

/-- Nor does any sequence of calls. -/
theorem AlikeBut.calls (h : AlikeBut s t) (calls : List ConsoleCall) :
    AlikeBut (calls.foldl Console.exec s) (calls.foldl Console.exec t) := by
  induction calls generalizing s t with
  | nil => exact h
  | cons a calls ih => exact ih (h.exec a)

theorem AlikeBut.row (h : AlikeBut s t) : t.cursorRow = s.cursorRow := by
  obtain ⟨hw, rfl⟩ := h
  rfl

theorem AlikeBut.col (h : AlikeBut s t) : t.cursorCol = s.cursorCol := by
  obtain ⟨hw, rfl⟩ := h
  rfl

end Console

namespace Session

variable {u v w : Session}

/-- Consoles that are alike are the same once the cursor is shown. -/
theorem showCursor_eq {s : Shell} {console console' : Console} (h : console.AlikeBut console') :
    showCursor ⟨s, console⟩ = showCursor ⟨s, console'⟩ := by
  rw [showCursor, showCursor]
  dsimp only
  rw [h.updateCursor, h.row, h.col]

theorem showCursor_showCursor (u : Session) : u.showCursor.showCursor = u.showCursor := rfl

/-- **One scan code** after the cursor was shown. -/
theorem scan_showCursor (u : Session) (scancode : UInt8) :
    (u.showCursor.scan scancode).map showCursor = (u.scan scancode).map showCursor := by
  have halike : u.showCursor.console.AlikeBut u.console := ⟨u.console.hwCursor, rfl⟩
  rw [scan, scan]
  split
  · rfl
  split
  · exact congrArg some (showCursor_eq (halike.calls _))
  show Option.map _ (if u.shell.shellActive = true then _ else _) = _
  split
  · cases shellKey scancode with
    | none => rfl
    | some c =>
      show ((u.showCursor.press c).map showCursor) = (u.press c).map showCursor
      rw [press, press, Option.map_map, Option.map_map]
      refine Option.map_congr fun t _ ↦ ?_
      exact showCursor_eq (halike.calls _)
  · exact congrArg some (showCursor_eq (halike.calls _))

/-- Setting the hardware cursor before some codes makes no difference once it is set after them. -/
theorem foldlM_showCursor (u : Session) (scancodes : List UInt8) :
    (scancodes.foldlM scan u.showCursor).map showCursor =
      (scancodes.foldlM scan u).map showCursor := by
  induction scancodes generalizing u with
  | nil => rfl
  | cons scancode scancodes ih =>
    -- the rest of the codes does not see whether the cursor was shown in front of it
    have hrest : ∀ r : Option Session, (r.bind (scancodes.foldlM scan)).map showCursor =
        ((r.map showCursor).bind (scancodes.foldlM scan)).map showCursor := by
      intro r
      cases r with
      | none => rfl
      | some v => exact (ih v).symm
    rw [List.foldlM_cons, List.foldlM_cons]
    show ((u.showCursor.scan scancode).bind _).map showCursor =
      ((u.scan scancode).bind _).map showCursor
    rw [hrest, scan_showCursor, ← hrest]

/-- Two interrupts are as good as one. -/
theorem keyboardHandlerC_append (u : Session) (scancodes scancodes' : List UInt8) :
    u.keyboardHandlerC (scancodes ++ scancodes') =
      (u.keyboardHandlerC scancodes).bind fun v ↦ v.keyboardHandlerC scancodes' := by
  rw [keyboardHandlerC, keyboardHandlerC, List.foldlM_append, Option.bind_map]
  show Option.map showCursor (Option.bind _ _) = _
  rw [Option.map_bind]
  exact Option.bind_congr fun v _ ↦ (foldlM_showCursor v scancodes').symm

/-- **The interrupts do not matter.** However the scan codes are spread over the interrupts of the
keyboard, the shell and the console end as if one interrupt had read them all; and if that fails, so
do these. -/
theorem keyboardHandlerC_batches (u : Session) (scancodes : List UInt8)
    (batches : List (List UInt8)) :
    (scancodes :: batches).foldlM keyboardHandlerC u =
      u.keyboardHandlerC (scancodes :: batches).flatten := by
  induction batches generalizing u scancodes with
  | nil =>
    rw [List.foldlM_cons, List.flatten_singleton]
    exact Option.bind_fun_some _
  | cons batch batches ih =>
    rw [List.foldlM_cons, List.flatten_cons, keyboardHandlerC_append]
    exact Option.bind_congr fun v _ ↦ ih v batch

end Session

/-! ### The keys -/

namespace Session

variable {u : Session}

/-- **One scan code**, as the shell sees it. -/
theorem scan_types (h : u.shell.Reached) (scancode : UInt8) : ∃ v, u.scan scancode = some v ∧
    Run Shell.Step u.shell (typedKey scancode).toList v.shell := by
  obtain ⟨lines, hlogged⟩ := h.logged
  rw [scan, typedKey]
  split
  case isTrue hbreak =>
    rw [if_pos (Or.inl hbreak)]
    exact ⟨u, rfl, .nil _⟩
  case isFalse hmake =>
  split
  case isTrue hswitch =>
    rw [if_pos (Or.inr hswitch)]
    exact ⟨_, rfl, .nil _⟩
  case isFalse hplain =>
  rw [if_neg (not_or.2 ⟨hmake, hplain⟩), if_pos hlogged.active]
  cases shellKey scancode with
  | none => exact ⟨u, rfl, .nil _⟩
  | some c =>
    obtain ⟨t, ht, -⟩ := h.sound.1.key c
    exact ⟨_, congrArg (Option.map _) ht, .single ht⟩

/-- A batch of codes types the keys that the codes stand for. -/
theorem scans_type (h : u.shell.Reached) (scancodes : List UInt8) :
    ∃ v, scancodes.foldlM scan u = some v ∧
    Run Shell.Step u.shell (scancodes.filterMap typedKey) v.shell := by
  induction scancodes generalizing u with
  | nil => exact ⟨u, rfl, .nil _⟩
  | cons scancode scancodes ih =>
    obtain ⟨v, hv, hfirst⟩ := scan_types h scancode
    obtain ⟨keys, hkeys⟩ := h
    obtain ⟨w, hw, hrest⟩ := ih ⟨_, hkeys.append hfirst⟩
    refine ⟨w, by rw [List.foldlM_cons, hv]; exact hw, ?_⟩
    have hcons : (scancode :: scancodes).filterMap typedKey =
        (typedKey scancode).toList ++ scancodes.filterMap typedKey := by
      rw [List.filterMap_cons]
      cases typedKey scancode <;> rfl
    rw [hcons]
    exact hfirst.append hrest

/-- **What is typed is what the shell gets.** Any interrupts with any scan codes are handled, on any
console, and the shell goes through the run of their keys in order: the terminal that is switched
to, the codes of keys that are let go, and where one interrupt ends do not matter to it. -/
theorem keyboard_types (console : Console) (batches : List (List UInt8)) :
    ∃ v, batches.foldlM keyboardHandlerC (started console) = some v ∧
      Run Shell.Step Shell.boot.shellInit (batches.flatten.filterMap typedKey) v.shell := by
  have hbatches : ∀ u : Session, u.shell.Reached → ∃ v, batches.foldlM keyboardHandlerC u = some v ∧
      Run Shell.Step u.shell (batches.flatten.filterMap typedKey) v.shell := by
    induction batches with
    | nil => exact fun u _ ↦ ⟨u, rfl, .nil _⟩
    | cons batch batches ih =>
      intro u hu
      obtain ⟨v, hv, hfirst⟩ := scans_type hu batch
      obtain ⟨keys, hkeys⟩ := hu
      obtain ⟨w, hw, hrest⟩ := ih v.showCursor ⟨_, hkeys.append hfirst⟩
      refine ⟨w, ?_, ?_⟩
      · rw [List.foldlM_cons]
        show (Option.map showCursor (batch.foldlM Session.scan u)).bind _ = _
        rw [hv]
        exact hw
      · rw [List.flatten_cons, List.filterMap_append]
        exact hfirst.append hrest
  exact hbatches (started console) ⟨[], .nil _⟩

end Session

/-! ### The screen

A session is `Sound` when the shell is in a state that it can reach, and the console is in step,
with the cursor on the screen and no view open. The shell never asks for a tab or for another row,
which are the calls that could end this. -/

namespace Console

variable {s : Console}

/-- Only a step up or down opens the history view. -/
theorem exec_closed (hclosed : s.isViewingHistory = false) {a : ConsoleCall} (hup : a ≠ .up)
    (hdown : a ≠ .down) : (s.exec a).isViewingHistory = false := by
  cases a with
  | print c fg bg => exact print_view s c fg bg
  | clear =>
    obtain ⟨_, _, _, _, _, hs⟩ := clear_frame s
    rw [exec, hs]
  | switch n =>
    rw [exec, vtSwitch]
    split
    · exact hclosed
    · obtain ⟨_, _, _, hs⟩ := activate_frame s (Fin.ofNat ttyCount n.toNat)
      rw [hs]
      exact hclosed
  | up => exact absurd rfl hup
  | down => exact absurd rfl hdown
  | left =>
    rw [exec, moveCursorLeft]
    split
    · exact hclosed
    · split <;> exact hclosed
  | right =>
    rw [exec, moveCursorRight]
    split
    · exact hclosed
    · split <;> exact hclosed
  | setRow row =>
    rw [exec, setCursorRow]
    split <;> exact hclosed
  | setCol col =>
    rw [exec, setCursorCol]
    split <;> exact hclosed

/-- The screen shows the active terminal, and the cursor is on it. -/
structure Steady (s : Console) : Prop where
  ok : s.Ok
  onScreen : s.OnScreen
  closed : s.isViewingHistory = false

/-- A call that neither steps up or down nor prints a tab. -/
def Steadfast : ConsoleCall → Prop
  | .print c _ _ => c ≠ 0x09
  | .up | .down => False
  | _ => True

/-- A call that stays on its terminal and on the screen keeps the console in step. -/
theorem Steady.exec (h : s.Steady) {a : ConsoleCall} (ha : Steadfast a) : (s.exec a).Steady where
  ok := h.ok.exec a
  onScreen := by
    refine (h.onScreen.exec_iff h.ok a).2 ?_
    cases a with
    | print c fg bg => exact fun htab ↦ absurd htab ha
    | _ => trivial
  closed := by
    refine exec_closed h.closed ?_ ?_
    · rintro rfl
      exact ha
    · rintro rfl
      exact ha

theorem Steady.calls (h : s.Steady) {calls : List ConsoleCall} (hcalls : ∀ a ∈ calls, Steadfast a) :
    (calls.foldl Console.exec s).Steady := by
  induction calls generalizing s with
  | nil => exact h
  | cons a calls ih =>
    obtain ⟨ha, hrest⟩ := List.forall_mem_cons.1 hcalls
    exact ih (h.exec ha) hrest

/-- Every call that the shell makes is of that kind. -/
theorem steadfast_of_shellCall {a : ConsoleCall} (ha : ShellCall a) : Steadfast a := by
  cases a with
  | print c fg bg =>
    rintro rfl
    exact absurd ha.1 (by decide)
  | up => exact ha
  | down => exact ha
  | _ => trivial

end Console

namespace Session

variable {u v : Session} {scancode : UInt8}

/-- The shell has been started, and the console is steady. -/
structure Sound (u : Session) : Prop where
  reached : u.shell.Reached
  steady : u.console.Steady

theorem Sound.showCursor (h : u.Sound) : u.showCursor.Sound := by
  obtain ⟨hreached, hok, hscreen, hclosed⟩ := h
  exact ⟨hreached, ⟨hok.row, hok.ttyRow, hok.backed, hok.synced⟩,
    ⟨hscreen.row, hscreen.col, hscreen.ttyRow, hscreen.ttyCol⟩, hclosed⟩

/-- A key of the shell is processed, and what the shell asks of the console keeps it in step. -/
theorem Sound.press (h : u.Sound) (c : UInt8) : ∃ v, u.press c = some v ∧ v.Sound := by
  obtain ⟨keys, hrun⟩ := h.reached
  obtain ⟨t, ht, -⟩ := h.reached.sound.1.key c
  obtain ⟨calls, hout, hcalls⟩ := h.reached.calls ht
  refine ⟨_, congrArg (Option.map _) ht, ⟨keys ++ [c], hrun.snoc ht⟩, ?_⟩
  show Console.Steady (List.foldl _ _ (t.output.drop u.shell.output.length))
  rw [hout, List.drop_left]
  exact h.steady.calls fun a ha ↦ Console.steadfast_of_shellCall (hcalls a ha)

/-- **One scan code.** -/
theorem Sound.scan (h : u.Sound) (scancode : UInt8) : ∃ v, u.scan scancode = some v ∧ v.Sound := by
  obtain ⟨lines, hlogged⟩ := h.reached.logged
  rw [Session.scan]
  split
  · exact ⟨u, rfl, h⟩
  split
  · exact ⟨_, rfl, h.reached, h.steady.calls (List.forall_mem_singleton.2 trivial)⟩
  rw [if_pos hlogged.active]
  cases shellKey scancode with
  | none => exact ⟨u, rfl, h⟩
  | some c => exact h.press c

/-- Any batch of codes is processed, and leaves the session sound. -/
theorem Sound.scans (h : u.Sound) (scancodes : List UInt8) :
    ∃ v, scancodes.foldlM Session.scan u = some v ∧ v.Sound := by
  induction scancodes generalizing u with
  | nil => exact ⟨u, rfl, h⟩
  | cons scancode scancodes ih =>
    obtain ⟨v, hv, hsound⟩ := h.scan scancode
    obtain ⟨w, hw, hend⟩ := ih hsound
    exact ⟨w, by rw [List.foldlM_cons, hv]; exact hw, hend⟩

/-- What is to be seen is the terminal that is active: its buffer, and the cursor where it is, or on
the last column while the wrap is pending. -/
structure Presents (u : Session) : Prop where
  closed : u.console.isViewingHistory = false
  cells : ∀ i < screenSize, u.console.cells.vga.val i = u.console.tbuf i
  row : u.console.cursorRow < vgaHeight
  col : u.console.cursorCol ≤ vgaWidth
  cursor : u.console.hwCursor =
    vgaIndex u.console.cursorRow (min u.console.cursorCol (vgaWidth - 1))

/-- In a sound session the screen shows the terminal that is active. -/
theorem Sound.presents (h : u.Sound) : u.showCursor.Presents := by
  have hrow := h.steady.ok.row
  refine ⟨h.steady.closed, fun i hi ↦ h.steady.ok.synced h.steady.closed i hi, hrow,
    h.steady.onScreen.col, ?_⟩
  -- what `update_cursor` cuts off is a column behind the last one
  show (if vgaHeight ≤ u.console.cursorRow then _ else _) * vgaWidth +
    (if vgaWidth ≤ u.console.cursorCol then _ else _) =
    vgaIndex u.console.cursorRow (min u.console.cursorCol (vgaWidth - 1))
  rw [if_neg (Nat.not_le.2 hrow), vgaIndex]
  split <;> omega

/-- The start of the shell clears the screen, whatever was on it. -/
theorem sound_started {console : Console} (hok : console.Ok) (hscreen : console.OnScreen) :
    (started console).Sound ∧ (started console).Presents := by
  have hclear : (console.exec .clear).Steady := by
    refine ⟨hok.exec _, (hscreen.exec_iff hok _).2 trivial, ?_⟩
    obtain ⟨_, _, _, _, _, hs⟩ := Console.clear_frame console
    rw [Console.exec, hs]
  have hprints : ∀ a ∈ Shell.boot.shellInit.output.drop 1, Console.Steadfast a := by
    refine fun a ha ↦ Console.steadfast_of_shellCall ?_
    have htext : ∀ c ∈ ascii "=== LightNightOS Shell (with cursor movement) ===\n" ++
        ascii "Type 'help' for available commands\n" ++
        ascii "=================================================\n\n" ++ prompt, Legible c := by
          decide +kernel
    refine shellCall_printk htext a ?_
    rwa [Shell.printk_append, Shell.printk_append, Shell.printk_append]
  have hsound : Sound ⟨Shell.boot.shellInit,
      Shell.boot.shellInit.output.foldl Console.exec console⟩ :=
    ⟨⟨[], .nil _⟩, hclear.calls hprints⟩
  exact ⟨hsound.showCursor, hsound.presents⟩

/-- The same after any prints of the boot. -/
theorem sound_of_boot {vga : ℕ → UInt16} {calls : List ConsoleCall} {console : Console}
    (hrun : Run (Guarded Console.TabGuard ConsoleStep) (Console.boot vga).consoleInit
      calls console) :
    (started console).Sound ∧ (started console).Presents := by
  obtain ⟨hscreen, hok⟩ := hrun.invariant (I := fun s ↦ s.OnScreen ∧ s.Ok)
    (fun hs hstep ↦ by
      obtain ⟨hscreen, hok⟩ := hs
      obtain ⟨hguard, hstep⟩ := hstep
      rw [hstep]
      exact ⟨(hscreen.exec_iff hok _).2 hguard, hok.exec _⟩)
    ⟨Console.onScreen_init vga, Console.ok_boot vga⟩
  exact sound_started hok hscreen

/-- **The screen is the active terminal's**, and stays it: after any prints of the boot, and any
interrupts with any scan codes from the start of the shell on, no array is left, and what is to be
seen is the buffer of the active terminal with its cursor. -/
theorem keyboard_presents {vga : ℕ → UInt16} {calls : List ConsoleCall} {console : Console}
    (hrun : Run (Guarded Console.TabGuard ConsoleStep) (Console.boot vga).consoleInit calls console)
    (batches : List (List UInt8)) :
    ∃ v, batches.foldlM keyboardHandlerC (started console) = some v ∧
      v.shell.shellActive = true ∧ v.shell.InBounds ∧ v.Presents := by
  have hkept : ∀ u : Session, u.Sound → u.Presents →
      ∃ v, batches.foldlM keyboardHandlerC u = some v ∧ v.Sound ∧ v.Presents := by
    induction batches with
    | nil => exact fun u hu hpresents ↦ ⟨u, rfl, hu, hpresents⟩
    | cons batch batches ih =>
      intro u hu _
      obtain ⟨w, hw, hsound⟩ := hu.scans batch
      obtain ⟨v, hv, hend⟩ := ih w.showCursor hsound.showCursor hsound.presents
      refine ⟨v, ?_, hend⟩
      rw [List.foldlM_cons]
      show (Option.map showCursor (batch.foldlM Session.scan u)).bind _ = _
      rw [hw]
      exact hv
  obtain ⟨hstart, hfirst⟩ := sound_of_boot hrun
  obtain ⟨v, hv, hsound, hpresents⟩ := hkept _ hstart hfirst
  obtain ⟨lines, hlogged⟩ := hsound.reached.logged
  exact ⟨v, hv, hlogged.active, hlogged.bounds, hpresents⟩

/-- A console that one letter was printed on. -/
def sampleConsole : Console := ((Console.boot fun _ ↦ 0).consoleInit).exec (printChar 0x4B)

/-- The console after a character was printed on it. -/
theorem run_sampleConsole :
    Run (Guarded Console.TabGuard ConsoleStep) (Console.boot fun _ ↦ 0).consoleInit
      [printChar 0x4B] sampleConsole :=
  Run.single ⟨(fun htab ↦ absurd htab (by decide)), rfl⟩

/-- The key `a`, then F2 and Enter in one interrupt. -/
theorem keyboard_presents_switch :
    ∃ v, [[0x1E, 0x9E], [0x3C, 0x1C]].foldlM keyboardHandlerC (started sampleConsole) = some v ∧
      v.shell.shellActive = true ∧ v.shell.InBounds ∧ v.Presents :=
  keyboard_presents run_sampleConsole [[0x1E, 0x9E], [0x3C, 0x1C]]

end Session

end LightNight
