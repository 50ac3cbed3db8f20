import LightNightOS.Console.Screen
import LightNightOS.Foundation.CharArrays
import LightNightOS.Foundation.Runs

/-!
# The shell of `shell.c`

The line editor, the history and the commands, driven by `shell_process_input` one key at a time.
The arrays are read and written through `load`, `store` and the string functions over them, so a
function is `none` exactly where the code would leave an array. Pointers into `cmd_buffer` are
indices.

`output` is the one field the code does not have: the calls of the console that have been made, in
order. No function reads it. `history_saved_current` is set by `shell_init` and never used.

A `char` is signed in the code. The comparisons below come out the same on the unsigned value, since
they all bound it from above.

* `shellProcessInput` — one key, from `enter` and `specialKey` to the editing of the line;
* `executeCommand`, `dispatch`, `parseArguments` — a command, from the line to the table of
  commands;
* `historyAdd`, `historyShow` — the history, to which lines are added and from which they are
  recalled.
-/

namespace LightNight

open CharArray

/-! ### Constants -/

/-- `MAX_CMD_LEN` -/
abbrev maxCmdLen : ℕ := 128

/-- `MAX_ARGS` -/
abbrev maxArgs : ℕ := 16

/-- `MAX_CMD_HISTORY` -/
abbrev maxCmdHistory : ℕ := 50

abbrev keyUp : UInt8 := 0x01
abbrev keyDown : UInt8 := 0x02
abbrev keyLeft : UInt8 := 0x03
abbrev keyRight : UInt8 := 0x04
abbrev keyHome : UInt8 := 0x05
abbrev keyEnd : UInt8 := 0x06
abbrev keyDel : UInt8 := 0x07

/-- `'\b'` -/
abbrev backspace : UInt8 := 0x08

/-- `'\n'` -/
abbrev newline : UInt8 := 0x0A

/-- `VGA_LIGHT_GREY` -/
def vgaLightGrey : UInt8 := 7

/-- `VGA_BLACK` -/
def vgaBlack : UInt8 := 0

/-- The characters of a string constant. -/
def ascii (s : String) : List UInt8 := s.toList.map fun c ↦ UInt8.ofNat c.toNat

/-- `PROMPT` -/
def prompt : List UInt8 := ascii "> "

/-! ### State -/

/-- `print_char` -/
def printChar (c : UInt8) : ConsoleCall := .print c vgaLightGrey vgaBlack

/-- `printk`, of a text without directives. -/
def printk (text : List UInt8) : List ConsoleCall := text.map printChar

/-- The static variables of `shell.c`. -/
structure Shell where
  cmdHistory : ℕ → ℕ → UInt8
  historyCount : ℤ
  historyCurrent : ℤ
  cmdBuffer : ℕ → UInt8
  cmdPos : ℤ
  cursorPos : ℤ
  shellActive : Bool
  savedCmd : ℕ → UInt8
  savedCmdPos : ℤ
  /-- The calls of the console made so far (a history of the run, read by no code). -/
  output : List ConsoleCall

/-- `cmd_history[i]` -/
def historyRow (rows : ℕ → ℕ → UInt8) (i : ℤ) : Option (ℕ → UInt8) :=
  if 0 ≤ i ∧ i < maxCmdHistory then some (rows i.toNat) else none

/-- `str_copy(cmd_history[i], src)` -/
def copyToRow (rows : ℕ → ℕ → UInt8) (i : ℤ) (src : ℕ → UInt8) : Option (ℕ → ℕ → UInt8) := do
  let dest ← historyRow rows i
  let dest ← strCopy maxCmdLen dest maxCmdLen src
  return Function.update rows i.toNat dest

/-! ### Words -/

/-- The state of `parse_arguments`: the line, `argv`, `argc` and `in_arg`. -/
structure Parse where
  line : ℕ → UInt8
  argv : ℕ → Option ℤ
  argc : ℤ
  inArg : Bool

/-- `argv[i] = p` -/
def setArg (argv : ℕ → Option ℤ) (i : ℤ) (p : Option ℤ) : Option (ℕ → Option ℤ) :=
  if 0 ≤ i ∧ i < maxArgs then some (Function.update argv i.toNat p) else none

/-- The pointer `argv[i]`, where it is followed. -/
def Parse.arg (p : Parse) (i : ℤ) : Option ℤ :=
  if 0 ≤ i ∧ i < maxArgs then p.argv i.toNat else none

/-- The loop of `parse_arguments` on a line of any size, with `cmdline` at `i`. -/
def parseFromIn (size : ℕ) : ℕ → ℤ → Parse → Option Parse
  | 0, _, _ => none
  | k + 1, i, p => (load size p.line i).bind fun c ↦
      if c ≠ 0 ∧ p.argc < maxArgs - 1 then
        if c = 0x20 ∨ c = 0x09 then
          if p.inArg then (store size p.line i 0).bind fun line ↦
            parseFromIn size k (i + 1) { p with line := line, inArg := false }
          else parseFromIn size k (i + 1) p
        else if p.inArg then parseFromIn size k (i + 1) p
        else (setArg p.argv p.argc (some i)).bind fun argv ↦
          parseFromIn size k (i + 1) { p with argv := argv, argc := p.argc + 1, inArg := true }
      else some p

/-- `parse_arguments(cmdline, argv)`, for a line of any size and whatever `argv` holds before. -/
def parseArgumentsIn (size : ℕ) (line : ℕ → UInt8) (argv : ℕ → Option ℤ) : Option Parse := do
  let p ← parseFromIn size size 0 ⟨line, argv, 0, false⟩
  let argv ← setArg p.argv p.argc none
  return { p with argv := argv }

/-- `parse_arguments(cmd_buffer, argv)`. What `argv` holds before is never read. -/
def parseArguments (line : ℕ → UInt8) : Option Parse := parseArgumentsIn maxCmdLen line fun _ ↦ none

/-! ### Commands -/

/-- The functions of the table `commands`. -/
inductive Command
  | echo
  | help
  | clear
  deriving DecidableEq, Repr

/-- `commands[]`: name, description and function. -/
def commands : List (String × String × Command) :=
  [("echo", "Print arguments", .echo), ("help", "Show help", .help),
    ("clear", "Clear screen", .clear)]

namespace Shell

variable (s : Shell)

/-- Calls of the console. -/
def emit (calls : List ConsoleCall) : Shell := { s with output := s.output ++ calls }

/-- `cmd_echo` -/
def cmdEcho (p : Parse) : Option Shell :=
  (forLoopM (p.argc - 1).toNat (fun k s ↦ do
    let i : ℤ := k + 1
    let arg ← p.arg i
    let text ← stringAt maxCmdLen p.line arg
    let s := emit s (printk text)
    return if i < p.argc - 1 then s.emit (printk (ascii " ")) else s) s).map
      fun s ↦ s.emit (printk (ascii "\n"))

/-- `cmd_help`; `%-10s` pads the name. -/
def cmdHelp : Shell :=
  s.emit (printk (ascii "Available commands:\n") ++ commands.flatMap fun (name, description, _) ↦
    printk (ascii "  " ++ (ascii name).rightpad 10 0x20 ++ ascii " - " ++ ascii description ++
      ascii "\n"))

/-- `commands[i].func(argc, argv)` -/
def runCommand (p : Parse) : Command → Option Shell
  | .echo => s.cmdEcho p
  | .help => some s.cmdHelp
  | .clear => some (s.emit [.clear])

/-- The search for `argv[0]` in the table. -/
def dispatch (p : Parse) : List (String × String × Command) → Option Shell
  | [] => do
    let arg ← p.arg 0
    let text ← stringAt maxCmdLen p.line arg
    return s.emit (printk (ascii "Unknown command: '" ++ text ++ ascii "'\n") ++
      printk (ascii "Type 'help' for available commands\n"))
  | (name, _, command) :: rest => do
    let arg ← p.arg 0
    let order ← strcmp maxCmdLen p.line arg (name.length + 1) fun i ↦ (ascii name).getD i 0
    if order = 0 then s.runCommand p command else dispatch p rest

/-! ### History -/

/-- `history_count > 0` and `strcmp(cmd_history[history_count - 1], cmd) == 0` -/
def isLastEntry (cmd : ℕ → UInt8) : Option Bool :=
  if 0 < s.historyCount then do
    let row ← historyRow s.cmdHistory (s.historyCount - 1)
    let order ← strcmp maxCmdLen row 0 maxCmdLen cmd
    return order = 0
  else some false

/-- `if (history_count >= MAX_CMD_HISTORY)`: the rows move up by one. -/
def makeRoom : Option Shell :=
  if maxCmdHistory ≤ s.historyCount then
    (forLoopM (maxCmdHistory - 1) (fun i rows ↦
      (historyRow rows (i + 1)).bind (copyToRow rows i)) s.cmdHistory).map
        fun rows ↦ { s with cmdHistory := rows, historyCount := maxCmdHistory - 1 }
  else some s

/-- `history_add(cmd_buffer)` -/
def historyAdd : Option Shell := do
  let first ← load maxCmdLen s.cmdBuffer 0
  if first = 0 then some s
  else
    let same ← s.isLastEntry s.cmdBuffer
    if same then some s
    else
      let s ← s.makeRoom
      let rows ← copyToRow s.cmdHistory s.historyCount s.cmdBuffer
      return { s with cmdHistory := rows, historyCount := s.historyCount + 1 }

/-- `str_copy(saved_cmd, cmd_buffer); saved_cmd_pos = cmd_pos;` -/
def saveCmd : Option Shell :=
  (strCopy maxCmdLen s.savedCmd maxCmdLen s.cmdBuffer).map
    fun saved ↦ { s with savedCmd := saved, savedCmdPos := s.cmdPos }

/-- The index `history_show` goes to. -/
def newIndex (direction : ℤ) : ℤ :=
  let i := if direction = 1 then
      if s.historyCurrent < s.historyCount - 1 then s.historyCurrent + 1 else s.historyCurrent
    else if -1 < s.historyCurrent then s.historyCurrent - 1 else s.historyCurrent
  let i := if i < -1 then -1 else i
  if s.historyCount ≤ i then s.historyCount - 1 else i

/-- The line `history_show` shows, if there is one. -/
def showCmd : Option (Option (ℕ → UInt8)) :=
  if 0 ≤ s.historyCurrent ∧ s.historyCurrent < s.historyCount then
    (historyRow s.cmdHistory s.historyCurrent).map some
  else if s.historyCurrent = -1 then some (some s.savedCmd)
  else some none

/-- `if (show_cmd != NULL)`: the line takes the place of the one on the screen. -/
def replaceLine (cmd : ℕ → UInt8) : Option Shell := do
  let newLen ← strlen maxCmdLen cmd
  let oldLen := s.cmdPos
  let s := s.emit (List.replicate oldLen.toNat .left)
  let buffer ← strCopy maxCmdLen s.cmdBuffer maxCmdLen cmd
  let s := { s with cmdBuffer := buffer, cmdPos := newLen, cursorPos := newLen }
  let text ← stringAt maxCmdLen s.cmdBuffer 0
  let s := s.emit (printk text)
  let diff := oldLen - newLen
  return if newLen < oldLen then
    s.emit (List.replicate diff.toNat (printChar 0x20) ++
      List.replicate diff.toNat .left)
  else s

/-- `history_show` -/
def historyShow (direction : ℤ) : Option Shell :=
  if s.historyCount = 0 then some s
  else do
    let s ← (if s.historyCurrent = -1 ∧ direction = 1 then s.saveCmd else some s)
    let s := { s with historyCurrent := s.newIndex direction }
    let cmd ← s.showCmd
    match cmd with
    | none => some s
    | some cmd => s.replaceLine cmd

/-! ### Editing -/

/-- `move_cursor_to` -/
def moveCursorTo (newPos : ℤ) : Shell :=
  let newPos := if newPos < 0 then 0 else newPos
  let newPos := if s.cmdPos < newPos then s.cmdPos else newPos
  let steps := newPos - s.cursorPos
  let s := if 0 < steps then s.emit (List.replicate steps.toNat .right)
    else s.emit (List.replicate (-steps).toNat .left)
  { s with cursorPos := newPos }

/-- `redraw_from_cursor` -/
def redrawFromCursor : Option Shell := do
  let charsToRedraw := s.cmdPos - s.cursorPos
  let shown ← (if s.cursorPos < s.cmdPos then
      (stringAt maxCmdLen s.cmdBuffer s.cursorPos).map printk
    else some [])
  let oldLength := s.cmdPos + 1 - s.cursorPos
  let spacesNeeded := oldLength - charsToRedraw
  let totalPrinted := charsToRedraw + spacesNeeded
  return s.emit (shown ++ List.replicate spacesNeeded.toNat (printChar 0x20) ++
    List.replicate totalPrinted.toNat .left)

/-- `case KEY_DEL` -/
def deleteChar : Option Shell :=
  if s.cursorPos < s.cmdPos then do
    let buffer ← shiftLeft maxCmdLen s.cmdBuffer s.cursorPos (s.cmdPos - 1)
    let cmdPos := s.cmdPos - 1
    let buffer ← store maxCmdLen buffer cmdPos 0
    { s with cmdBuffer := buffer, cmdPos := cmdPos }.redrawFromCursor
  else some s

/-- `case '\b'` -/
def backspaceChar : Option Shell :=
  if 0 < s.cursorPos then do
    let cursorPos := s.cursorPos - 1
    let cmdPos := s.cmdPos - 1
    let buffer ← shiftLeft maxCmdLen s.cmdBuffer cursorPos cmdPos
    let buffer ← store maxCmdLen buffer cmdPos 0
    let s := { s with cmdBuffer := buffer, cmdPos := cmdPos, cursorPos := cursorPos }
    (s.emit [.left]).redrawFromCursor
  else some s

/-- `default`: a printable character is inserted. -/
def insertChar (c : UInt8) : Option Shell :=
  if s.cmdPos < maxCmdLen - 1 ∧ 32 ≤ c ∧ c ≤ 126 then do
    let buffer ← (if s.cursorPos < s.cmdPos then
        shiftRight maxCmdLen s.cmdBuffer s.cursorPos s.cmdPos
      else some s.cmdBuffer)
    let buffer ← store maxCmdLen buffer s.cursorPos c
    let cmdPos := s.cmdPos + 1
    let buffer ← store maxCmdLen buffer cmdPos 0
    let cursorPos := s.cursorPos + 1
    let s := { s with cmdBuffer := buffer, cmdPos := cmdPos, cursorPos := cursorPos }
    let s := s.emit [printChar c]
    if s.cursorPos < s.cmdPos then s.redrawFromCursor else some s
  else some s

/-! ### Keys -/

/-- `execute_command` -/
def executeCommand : Option Shell :=
  if s.cmdPos = 0 then some s
  else do
    let buffer ← store maxCmdLen s.cmdBuffer s.cmdPos 0
    let s ← { s with cmdBuffer := buffer }.historyAdd
    let p ← parseArguments s.cmdBuffer
    let s := { s with cmdBuffer := p.line }
    if p.argc = 0 then some s
    else
      let s ← s.dispatch p commands
      return s.emit (printk prompt)

/-- `case '\n'` -/
def enter : Option Shell :=
  if 0 < s.cmdPos then do
    let buffer ← store maxCmdLen s.cmdBuffer s.cmdPos 0
    let s := { s with cmdBuffer := buffer }
    let s ← (s.emit (printk (ascii "\n"))).executeCommand
    return { s with cmdPos := 0, cursorPos := 0 }
  else some (s.emit (printk (ascii "\n") ++ printk prompt))

/-- `switch (c)` for the keys from `KEY_UP` to `KEY_DEL`. -/
def specialKey (c : UInt8) : Option Shell :=
  if c = keyLeft then
    if 0 < s.cursorPos then
      some ({ s with cursorPos := s.cursorPos - 1 }.emit [.left])
    else some s
  else if c = keyRight then
    if s.cursorPos < s.cmdPos then
      some ({ s with cursorPos := s.cursorPos + 1 }.emit [.right])
    else some s
  else if c = keyUp then
    if 0 < s.historyCount then s.historyShow 1 else some s
  else if c = keyDown then
    if 0 < s.historyCount then s.historyShow (-1) else some s
  else if c = keyHome then some (s.moveCursorTo 0)
  else if c = keyEnd then some (s.moveCursorTo s.cmdPos)
  else s.deleteChar

/-- `shell_process_input` -/
def shellProcessInput (c : UInt8) : Option Shell :=
  if !s.shellActive then some s
  else if keyUp ≤ c ∧ c ≤ keyDel then s.specialKey c
  else if c = newline then s.enter
  else if c = backspace then s.backspaceChar
  else s.insertChar c

/-- `shell_init`; `update_cursor` moves the cursor of the hardware to where it is. -/
def shellInit : Shell :=
  { s with
    shellActive := true
    cmdPos := 0
    cursorPos := 0
    cmdBuffer := Function.update s.cmdBuffer 0 0
    savedCmd := Function.update s.savedCmd 0 0
    savedCmdPos := 0
    historyCount := 0
    historyCurrent := -1
    output := s.output ++ .clear ::
      (printk (ascii "=== LightNightOS Shell (with cursor movement) ===\n") ++
        printk (ascii "Type 'help' for available commands\n") ++
        printk (ascii "=================================================\n\n") ++
        printk prompt) }

/-- One key as a step. -/
def Step (s : Shell) (c : UInt8) (t : Shell) : Prop := s.shellProcessInput c = some t

end Shell

end LightNight
