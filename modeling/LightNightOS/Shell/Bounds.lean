import LightNightOS.Shell.CommandLog
import LightNightOS.Shell.Editing
import Mathlib.Data.List.OfFn

/-!
# The shell stays inside its arrays

A step of the shell that succeeds has stayed inside every array it read or wrote, since each access
checks its index. So it is enough that no step fails. `InBounds` is the invariant that proves it:
the positions are within the line, and each array that is read as a string has a zero byte. Every
function succeeds under it, and every key keeps it (`InBounds.key`), whatever the key and the mode.

* `parseArguments_ok`, `prints_dispatch` — the interpreter, on any line with a zero;
* `InBounds.historyShow_eq`, `InBounds.enter_eq` — recall and Enter, computed;
* `shell_inBounds` — every sequence of keys.
-/

namespace LightNight

open CharArray Transition

/-! ### Words

The scan of the line writes a zero behind each word and remembers where the word began. Both are
places in the line, and the number of words is bounded by a check before each of them. -/

/-- What `parse_arguments` keeps: the byte at `z` is zero, and the pointers in `argv` are in front
of it. -/
structure ParseOk (z : ℕ) (p : Parse) : Prop where
  lt : z < maxCmdLen
  zero : p.line z = 0
  args : ∃ n : ℕ, p.argc = n ∧ n ≤ maxArgs - 1 ∧ ∀ a < n, ∃ q ≤ z, p.argv a = some (q : ℤ)

namespace ParseOk

variable {z : ℕ} {p : Parse}

/-- Overwriting a character with a zero. -/
theorem cut (h : ParseOk z p) (i : ℕ) :
    ParseOk z { p with line := Function.update p.line i 0, inArg := false } := by
  refine ⟨h.lt, ?_, h.args⟩
  by_cases hi : z = i
  · rw [hi]
    exact Function.update_self _ _ _
  · exact (Function.update_of_ne hi _ _).trans h.zero

/-- A new pointer. -/
theorem push (h : ParseOk z p) {i : ℕ} (hi : i ≤ z) (hlt : p.argc < maxArgs - 1) :
    ∃ argv, setArg p.argv p.argc (some i) = some argv ∧
      ParseOk z { p with argv := argv, argc := p.argc + 1, inArg := true } := by
  obtain ⟨n, hn, -, hargs⟩ := h.args
  rw [hn] at hlt ⊢
  refine ⟨_, if_pos ⟨by omega, by omega⟩, h.lt, h.zero, n + 1, rfl, by omega, fun a ha ↦ ?_⟩
  change ∃ q ≤ z, Function.update p.argv ((n : ℤ).toNat) (some (i : ℤ)) a = some (q : ℤ)
  rw [Int.toNat_natCast]
  by_cases heq : a = n
  · exact ⟨i, hi, by rw [heq, Function.update_self]⟩
  · rw [Function.update_of_ne heq]
    exact hargs a (by omega)

/-- The loop of `parse_arguments` ends at the zero at the latest. -/
theorem parseFrom {k i : ℕ} (h : ParseOk z p) (hi : i ≤ z) (hk : z < i + k) :
    ∃ p', parseFromIn maxCmdLen k i p = some p' ∧ ParseOk z p' := by
  induction k generalizing i p with
  | zero => omega
  | succ k ih =>
    have hlt := h.lt
    rw [parseFromIn, load_natCast (by omega), Option.bind_some]
    split
    case isFalse => exact ⟨p, rfl, h⟩
    case isTrue hcond =>
      have hne : i ≠ z := fun heq ↦ hcond.1 (heq ▸ h.zero)
      have hnext : ((i : ℤ) + 1) = (i + 1 : ℕ) := rfl
      have hrec : ∀ {p}, ParseOk z p → ∃ p', parseFromIn maxCmdLen k (i + 1) p = some p' ∧
          ParseOk z p' := by
        intro p hp
        rw [hnext]
        exact ih hp (by omega) (by omega)
      split
      · split
        · rw [store_natCast (by omega), Option.bind_some]
          exact hrec (h.cut i)
        · exact hrec h
      · split
        · exact hrec h
        · obtain ⟨argv, hset, hp⟩ := h.push hi hcond.2
          rw [hset, Option.bind_some]
          exact hrec hp

/-- Following a pointer in `argv`. -/
theorem arg (h : ParseOk z p) {a : ℕ} (ha : (a : ℤ) < p.argc) :
    ∃ q, p.arg a = some q ∧ ∃ text, stringAt maxCmdLen p.line q = some text ∧
      ∀ {n : ℕ} {b text'}, HoldsString n b 0 text' →
        ∃ d, strcmp maxCmdLen p.line q n b = some d := by
  obtain ⟨n, hn, hle, hargs⟩ := h.args
  obtain ⟨q, hq, heq⟩ := hargs a (by omega)
  obtain ⟨text, htext⟩ := exists_holdsString ⟨z, hq, h.lt, h.zero⟩
  refine ⟨q, ?_, text, htext.stringAt_eq, fun hb ↦ ?_⟩
  · rw [Parse.arg, if_pos ⟨Int.natCast_nonneg a, by omega⟩, Int.toNat_natCast, heq]
  · obtain ⟨d, hd, -⟩ := htext.strcmp_eq hb
    exact ⟨d, hd⟩

end ParseOk

/-- `parse_arguments` on a terminated line. -/
theorem parseArguments_ok {line : ℕ → UInt8} (h : Terminated maxCmdLen line 0) :
    ∃ p z, parseArguments line = some p ∧ ParseOk z p := by
  obtain ⟨z, -, hz, hzero⟩ := h
  have hstart : ParseOk z ⟨line, fun _ ↦ none, 0, false⟩ :=
    ⟨hz, hzero, 0, rfl, Nat.zero_le _, fun a ha ↦ absurd ha (Nat.not_lt_zero a)⟩
  obtain ⟨p, hp, hok⟩ :
      ∃ p, parseFromIn maxCmdLen maxCmdLen 0 ⟨line, fun _ ↦ none, 0, false⟩ = some p ∧
      ParseOk z p :=
    hstart.parseFrom (i := 0) (Nat.zero_le z) (by rwa [Nat.zero_add])
  obtain ⟨n, hn, hle, hargs⟩ := hok.args
  have hset : setArg p.argv p.argc none = some (Function.update p.argv n none) := by
    have hlt : n < maxArgs := Nat.lt_succ_of_le hle
    rw [setArg, hn, if_pos ⟨Int.natCast_nonneg n, Int.ofNat_lt.2 hlt⟩, Int.toNat_natCast]
  refine ⟨{ p with argv := Function.update p.argv n none }, z, ?_, hok.lt, hok.zero, n, hn, hle,
    fun a ha ↦ ?_⟩
  · simp only [parseArguments, parseArgumentsIn, hp, hset, Option.bind_eq_bind, Option.bind_some]
    rfl
  · obtain ⟨q, hq, heq⟩ := hargs a ha
    exact ⟨q, hq, (Function.update_of_ne (Nat.ne_of_lt ha) _ _).trans heq⟩

namespace Shell

variable {s : Shell} {p : Parse} {z len cur : ℕ} {c : UInt8}

/-! ### Commands -/

/-- A call of the console has been made, and nothing else. -/
def Prints (s : Shell) (result : Option Shell) : Prop :=
  ∃ out, result = some { s with output := out }

/-- `echo` reads the arguments that there are, and prints. -/
theorem prints_cmdEcho (h : ParseOk z p) (hargc : 0 < p.argc) : s.Prints (s.cmdEcho p) := by
  obtain ⟨u, hloop, out, rfl⟩ := forLoopM_invariant (n := (p.argc - 1).toNat) (s := s)
    (f := fun k s ↦ do
      let i : ℤ := k + 1
      let arg ← p.arg i
      let text ← stringAt maxCmdLen p.line arg
      let s := emit s (printk text)
      return if i < p.argc - 1 then s.emit (printk (ascii " ")) else s)
    (I := fun _ u ↦ ∃ out, u = { s with output := out }) ⟨_, rfl⟩ fun k hk u hu ↦ by
      obtain ⟨out, rfl⟩ := hu
      obtain ⟨q, hq, text, htext, -⟩ := h.arg (a := k + 1) (by omega)
      rw [Nat.cast_succ] at hq
      simp only [hq, htext, Option.bind_eq_bind, Option.bind_some]
      refine ⟨_, rfl, ?_⟩
      split
      exacts [⟨_, rfl⟩, ⟨_, rfl⟩]
  rw [cmdEcho, hloop]
  exact ⟨_, rfl⟩

/-- Every command of the table prints and does nothing else. -/
theorem prints_runCommand (h : ParseOk z p) (hargc : 0 < p.argc) (command : Command) :
    s.Prints (s.runCommand p command) := by
  cases command with
  | echo => exact prints_cmdEcho h hargc
  | help => exact ⟨_, rfl⟩
  | clear => exact ⟨_, rfl⟩

/-- The name of a command, as a string constant. -/
theorem holdsString_ascii {name : String} (hname : 0 ∉ ascii name) :
    HoldsString (name.length + 1) (fun i ↦ (ascii name).getD i 0) 0 (ascii name) := by
  have hlen : (ascii name).length = name.length := by
    rw [ascii, List.length_map, String.length_toList]
  refine HoldsString.of_getElem (by omega) ?_ fun j hj ↦ ?_
  · rw [Nat.zero_add]
    exact List.getD_eq_default _ _ le_rfl
  · have hget : (ascii name).getD (0 + j) 0 = (ascii name)[j] := by
      rw [Nat.zero_add]
      exact List.getD_eq_getElem _ _ hj
    exact ⟨hget, fun heq ↦ hname (heq ▸ List.getElem_mem hj)⟩

theorem prints_dispatch (h : ParseOk z p) (hargc : 0 < p.argc)
    {table : List (String × String × Command)} (htable : ∀ entry ∈ table, 0 ∉ ascii entry.1) :
    s.Prints (s.dispatch p table) := by
  obtain ⟨q, hq, text, htext, hcmp⟩ := h.arg (a := 0) hargc
  have hq : p.arg 0 = some (q : ℤ) := hq
  induction table with
  | nil =>
    simp only [dispatch, hq, htext, Option.bind_eq_bind, Option.bind_some]
    exact ⟨_, rfl⟩
  | cons entry table ih =>
    obtain ⟨name, description, command⟩ := entry
    obtain ⟨d, hd⟩ := hcmp (holdsString_ascii (htable _ List.mem_cons_self))
    simp only [dispatch, hq, hd, Option.bind_eq_bind, Option.bind_some]
    split
    · exact prints_runCommand h hargc command
    · exact ih fun entry hentry ↦ htable entry (List.mem_cons_of_mem _ hentry)

/-! ### History -/

/-- The rows that are used each hold a string. -/
structure RowsOk (rows : ℕ → ℕ → UInt8) (count : ℤ) : Prop where
  nonneg : 0 ≤ count
  le : count ≤ maxCmdHistory
  row : ∀ i : ℕ, (i : ℤ) < count → Terminated maxCmdLen (rows i) 0

/-- The lines that the rows hold. -/
theorem RowsOk.exists_log {rows : ℕ → ℕ → UInt8} {count : ℤ} (h : RowsOk rows count) :
    ∃ log, HoldsLog rows count log := by
  obtain ⟨n, hn⟩ := Int.eq_ofNat_of_zero_le h.nonneg
  have hle := h.le
  have hstring : ∀ i : Fin n, ∃ text, HoldsString maxCmdLen (rows i) 0 text :=
    fun i ↦ exists_holdsString (h.row i (by rw [hn]; exact Int.ofNat_lt.2 i.isLt))
  choose text htext using hstring
  refine ⟨List.ofFn text, by rw [List.length_ofFn, hn], by rw [List.length_ofFn]; omega,
    fun i hi ↦ ?_⟩
  rw [List.getElem_ofFn]
  exact htext ⟨i, by rwa [List.length_ofFn] at hi⟩

theorem HoldsLog.rowsOk {rows : ℕ → ℕ → UInt8} {count : ℤ} {log : List (List UInt8)}
    (h : HoldsLog rows count log) : RowsOk rows count where
  nonneg := h.count ▸ Int.natCast_nonneg _
  le := by
    have hcount := h.count
    have hle := h.le
    omega
  row i hi := (h.row i (by rw [h.count] at hi; exact Int.ofNat_lt.1 hi)).terminated

/-! ### The invariant -/

/-- The positions are in the line, and what is read as a string ends inside its array. -/
structure InBounds (s : Shell) : Prop where
  cursor_nonneg : 0 ≤ s.cursorPos
  cursor_le : s.cursorPos ≤ s.cmdPos
  pos_le : s.cmdPos ≤ maxCmdLen - 1
  history : RowsOk s.cmdHistory s.historyCount
  current : -1 ≤ s.historyCurrent
  buffer : Terminated maxCmdLen s.cmdBuffer 0
  saved : Terminated maxCmdLen s.savedCmd 0

/-- A result of a key that is in bounds. -/
def Keeps (result : Option Shell) : Prop := ∃ t, result = some t ∧ t.InBounds

theorem InBounds.keeps (h : s.InBounds) : Keeps (some s) := ⟨s, rfl, h⟩

/-- The positions are a length and a place within it. -/
theorem InBounds.at (h : s.InBounds) : ∃ len cur, s.At len cur := by
  obtain ⟨cur, hcur⟩ := Int.eq_ofNat_of_zero_le h.cursor_nonneg
  obtain ⟨len, hlen⟩ := Int.eq_ofNat_of_zero_le (h.cursor_nonneg.trans h.cursor_le)
  have hle := h.cursor_le
  have hlt := h.pos_le
  rw [hcur, hlen] at hle
  rw [hlen] at hlt
  exact ⟨len, cur, hlen, hcur, Int.ofNat_le.1 hle, by simp only [maxCmdLen] at *; omega⟩

/-- A new line with a cursor in it. -/
theorem InBounds.edit (h : s.InBounds) {buffer : ℕ → UInt8} {len cur : ℕ} {out : List ConsoleCall}
    (hle : cur ≤ len) (hlt : len < maxCmdLen) (hzero : buffer len = 0) :
    { s with cmdBuffer := buffer, cmdPos := len, cursorPos := cur, output := out }.InBounds where
  cursor_nonneg := Int.natCast_nonneg cur
  cursor_le := Int.ofNat_le.2 hle
  pos_le := by
    simp only [maxCmdLen] at *
    omega
  history := h.history
  current := h.current
  buffer := ⟨len, Nat.zero_le _, hlt, hzero⟩
  saved := h.saved

/-- Moving the cursor. -/
theorem InBounds.move (h : s.InBounds) {p : ℤ} {out : List ConsoleCall} (hp : 0 ≤ p)
    (hle : p ≤ s.cmdPos) : { s with cursorPos := p, output := out }.InBounds :=
  { h with cursor_nonneg := hp, cursor_le := hle }

/-! ### Recall

The index of the history goes up and down between -1 and the newest entry, and `new_index` cuts it
to that. The line that is shown is a row of the history, or the line that was saved. -/

theorem newIndex_ge (s : Shell) (h : 0 < s.historyCount) (direction : ℤ) :
    -1 ≤ s.newIndex direction := by
  rw [newIndex]
  split_ifs <;> omega

/-- The calls that replace a line of `oldLen` characters on the screen. -/
def replaceCalls (oldLen : ℕ) (text : List UInt8) : List ConsoleCall :=
  List.replicate oldLen .left ++ printk text ++ if text.length < oldLen then
    List.replicate (oldLen - text.length) (printChar 0x20) ++
      List.replicate (oldLen - text.length) .left
  else []

/-- The line that is recalled takes the place of the one that is edited. -/
theorem At.replaceLine (h : s.At len cur) {cmd : ℕ → UInt8} {text : List UInt8}
    (htext : HoldsString maxCmdLen cmd 0 text) : s.replaceLine cmd = some ({ s with
      cmdBuffer := fun j ↦ if j ≤ text.length then cmd j else s.cmdBuffer j
      cmdPos := text.length
      cursorPos := text.length }.emit (replaceCalls len text)) := by
  have hlt := htext.lt
  have hcopy := htext.strCopy_eq (m := maxCmdLen) s.cmdBuffer (by omega)
  have hread := (htext.copy (m := maxCmdLen) s.cmdBuffer (by omega)).stringAt_eq
  rw [Nat.cast_zero] at hread
  have hemit : ∀ calls, (s.emit calls).cmdBuffer = s.cmdBuffer := fun _ ↦ rfl
  simp only [Shell.replaceLine, htext.strlen_eq, hemit, hcopy, hread, Option.bind_eq_bind,
    Option.bind_some, replaceCalls, h.pos, Int.toNat_natCast]
  by_cases hshort : text.length < len
  · rw [if_pos hshort, if_pos (Int.ofNat_lt.2 hshort), ← Int.ofNat_sub hshort.le, Int.toNat_natCast]
    simp only [emit, List.append_assoc]
    rfl
  · rw [if_neg hshort, if_neg (fun hcast ↦ hshort (Int.ofNat_lt.1 hcast))]
    simp only [emit, List.append_assoc, List.append_nil]
    rfl

theorem InBounds.replaceLine (h : s.InBounds) {cmd : ℕ → UInt8}
    (hcmd : Terminated maxCmdLen cmd 0) : Keeps (s.replaceLine cmd) := by
  obtain ⟨text, htext⟩ := exists_holdsString hcmd
  obtain ⟨len, cur, hat⟩ := h.at
  have hlt := htext.lt
  have hzero := (htext.copy (m := maxCmdLen) s.cmdBuffer (by omega)).zero
  rw [Nat.zero_add] at hzero
  exact ⟨_, hat.replaceLine htext, h.edit le_rfl (by omega) hzero⟩

theorem newIndex_lt (s : Shell) (direction : ℤ) : s.newIndex direction < s.historyCount := by
  rw [newIndex]
  split_ifs <;> omega

/-- What `history_show` has done when it replaces the line by `cmd`. What is edited has not been
touched until then. -/
structure Recall (s : Shell) (direction : ℤ) (u : Shell) (cmd : ℕ → UInt8) : Prop where
  bounds : u.InBounds
  buffer : u.cmdBuffer = s.cmdBuffer
  pos : u.cmdPos = s.cmdPos
  cursor : u.cursorPos = s.cursorPos
  output : u.output = s.output
  active : u.shellActive = s.shellActive
  history : u.cmdHistory = s.cmdHistory
  count : u.historyCount = s.historyCount
  current : u.historyCurrent = s.newIndex direction
  saved : if s.historyCurrent = -1 ∧ direction = 1 then
      strCopy maxCmdLen s.savedCmd maxCmdLen s.cmdBuffer = some u.savedCmd
    else u.savedCmd = s.savedCmd
  shown : cmd = if u.historyCurrent = -1 then u.savedCmd else s.cmdHistory u.historyCurrent.toNat
  terminated : Terminated maxCmdLen cmd 0

/-- **Recall**: with a history, there is always a line to show, and it takes the place of the one
that is edited. -/
theorem InBounds.historyShow_eq (h : s.InBounds) (hpos : 0 < s.historyCount) (direction : ℤ) :
    ∃ (u : Shell) (cmd : ℕ → UInt8), s.historyShow direction = u.replaceLine cmd ∧
      Recall s direction u cmd := by
  rw [Shell.historyShow, if_neg (Int.ne_of_gt hpos)]
  obtain ⟨saved, hu, hterminated, hsaved⟩ : ∃ saved,
      (if s.historyCurrent = -1 ∧ direction = 1 then s.saveCmd else some s) =
        some { s with
          savedCmd := saved
          savedCmdPos := if s.historyCurrent = -1 ∧ direction = 1 then s.cmdPos
            else s.savedCmdPos } ∧
      Terminated maxCmdLen saved 0 ∧
      if s.historyCurrent = -1 ∧ direction = 1 then
        strCopy maxCmdLen s.savedCmd maxCmdLen s.cmdBuffer = some saved
      else saved = s.savedCmd := by
    split
    · obtain ⟨saved, hcopy, hsaved⟩ := exists_strCopy s.savedCmd h.buffer le_rfl
      exact ⟨saved, by rw [saveCmd, hcopy, Option.map_some], hsaved, hcopy⟩
    · exact ⟨s.savedCmd, rfl, h.saved, rfl⟩
  generalize (if s.historyCurrent = -1 ∧ direction = 1 then s.cmdPos else s.savedCmdPos) =
    savedPos at hu
  have hge := newIndex_ge s hpos direction
  have hlt := newIndex_lt s direction
  have hmoved : { s with
      savedCmd := saved, savedCmdPos := savedPos,
      historyCurrent := s.newIndex direction }.InBounds :=
    { h with current := hge, saved := hterminated }
  refine ⟨_, if s.newIndex direction = -1 then saved
    else s.cmdHistory (s.newIndex direction).toNat, ?_,
    hmoved, rfl, rfl, rfl, rfl, rfl, rfl, rfl, rfl, hsaved, rfl, ?_⟩
  · rw [hu]
    simp only [Option.bind_eq_bind, Option.bind_some]
    have hindex : { s with savedCmd := saved, savedCmdPos := savedPos }.newIndex direction =
        s.newIndex direction := rfl
    rw [hindex, showCmd]
    dsimp only
    by_cases hsaved : s.newIndex direction = -1
    · rw [if_neg (by omega), if_pos hsaved, if_pos hsaved, Option.bind_some]
    · obtain ⟨n, hn⟩ := Int.eq_ofNat_of_zero_le (a := s.newIndex direction) (by omega)
      have hle := h.history.le
      have hrow : historyRow s.cmdHistory (s.newIndex direction) = some (s.cmdHistory n) := by
        rw [hn]
        exact historyRow_natCast (by omega)
      rw [if_pos ⟨by omega, hlt⟩, if_neg hsaved, hrow, Option.map_some, Option.bind_some, hn,
        Int.toNat_natCast]
  · split
    · exact hterminated
    · obtain ⟨n, hn⟩ := Int.eq_ofNat_of_zero_le (a := s.newIndex direction) (by omega)
      rw [hn] at hlt ⊢
      exact h.history.row n hlt

/-- Recalling a line stays inside the arrays, whichever way it goes. -/
theorem InBounds.historyShow (h : s.InBounds) (direction : ℤ) :
    Keeps (s.historyShow direction) := by
  rcases Int.lt_or_eq_of_le h.history.nonneg with hpos | hzero
  · obtain ⟨u, cmd, heq, hrecall⟩ := h.historyShow_eq hpos direction
    rw [heq]
    exact hrecall.bounds.replaceLine hrecall.terminated
  · rw [Shell.historyShow, if_pos hzero.symm]
    exact h.keeps

/-! ### Enter

The line is cut at its end, added to the history unless it repeats the last entry, and cut into
words in place. A command prints, and changes no array. -/

/-- The line as a string. -/
def cutLine (s : Shell) : ℕ → UInt8 := Function.update s.cmdBuffer s.cmdPos.toNat 0

/-- The zero that Enter stores behind the line is inside the buffer. -/
theorem InBounds.store_cut (h : s.InBounds) :
    store maxCmdLen s.cmdBuffer s.cmdPos 0 = some s.cutLine ∧
    Terminated maxCmdLen s.cutLine 0 := by
  obtain ⟨len, cur, hat⟩ := h.at
  have hcut : s.cutLine = Function.update s.cmdBuffer len 0 := by
    rw [cutLine, hat.pos, Int.toNat_natCast]
  rw [hcut, hat.pos, store_natCast hat.lt]
  exact ⟨rfl, len, Nat.zero_le _, hat.lt, Function.update_self _ _ _⟩

/-- What `history_add` does with the line of `s`, whatever it and the history are. -/
def Adds (s : Shell) (rows : ℕ → ℕ → UInt8) (k : ℤ) : Prop :=
  ∀ {log : List (List UInt8)} {text : List UInt8}, HoldsLog s.cmdHistory s.historyCount log →
    HoldsString maxCmdLen s.cutLine 0 text → HoldsLog rows k (offered log text)

/-- `execute_command` adds the line to the history, cuts it into words, and prints. -/
theorem InBounds.executeCommand_eq (h : s.InBounds) (hpos : 0 < s.cmdPos) : ∃ rows k line out,
    s.executeCommand = some { s with
      cmdBuffer := line, cmdHistory := rows, historyCount := k, output := out } ∧
    s.Adds rows k ∧ Terminated maxCmdLen line 0 := by
  obtain ⟨hstore, hcut⟩ := h.store_cut
  obtain ⟨log, hlog⟩ := h.history.exists_log
  obtain ⟨text, htext⟩ := exists_holdsString hcut
  obtain ⟨rows, k, hadd, -⟩ := historyAdd_holds (s := { s with cmdBuffer := s.cutLine }) hlog htext
  have hadds : s.Adds rows k := by
    intro log' text' hlog' htext'
    obtain ⟨rows', k', hadd', hrows'⟩ :=
      historyAdd_holds (s := { s with cmdBuffer := s.cutLine }) hlog' htext'
    have heq := Option.some.inj (hadd.symm.trans hadd')
    have hrows : rows = rows' := congrArg Shell.cmdHistory heq
    have hcount : k = k' := congrArg Shell.historyCount heq
    rwa [hrows, hcount]
  obtain ⟨p, z, hparse, hok⟩ := parseArguments_ok hcut
  rw [Shell.executeCommand, if_neg hpos.ne']
  simp only [hstore, hadd, hparse, Option.bind_eq_bind, Option.bind_some]
  split
  · exact ⟨rows, k, p.line, s.output, rfl, hadds, z, Nat.zero_le _, hok.lt, hok.zero⟩
  case isFalse hne =>
    obtain ⟨n, hn, -⟩ := hok.args
    obtain ⟨out, hdispatch⟩ := prints_dispatch (s := { s with
      cmdBuffer := p.line, cmdHistory := rows, historyCount := k }) hok (by omega)
      (show ∀ entry ∈ commands, 0 ∉ ascii entry.1 by decide)
    rw [hdispatch]
    exact ⟨rows, k, p.line, _, rfl, hadds, z, Nat.zero_le _, hok.lt, hok.zero⟩

/-- **Enter** on a line that is not empty. -/
theorem InBounds.enter_eq (h : s.InBounds) (hpos : 0 < s.cmdPos) : ∃ rows k line out,
    s.enter = some { s with
      cmdBuffer := line
      cmdPos := 0
      cursorPos := 0
      cmdHistory := rows
      historyCount := k
      output := out } ∧
    s.Adds rows k ∧ Terminated maxCmdLen line 0 := by
  obtain ⟨hstore, hcut⟩ := h.store_cut
  have hbounds : ({ s with cmdBuffer := s.cutLine }.emit (printk (ascii "\n"))).InBounds :=
    { h with buffer := hcut }
  obtain ⟨rows, k, line, out, hexec, hadds, hline⟩ := hbounds.executeCommand_eq hpos
  have htwice : ({ s with cmdBuffer := s.cutLine }.emit (printk (ascii "\n"))).cutLine =
    s.cutLine :=
    Function.update_idem _ _ _
  rw [Shell.enter, if_pos hpos]
  simp only [hstore, Option.bind_eq_bind, Option.bind_some, hexec]
  refine ⟨rows, k, line, out, rfl, fun hlog htext ↦ hadds hlog ?_, hline⟩
  rwa [htwice]

/-- Enter stays inside the arrays, and leaves an empty line. -/
theorem InBounds.enter (h : s.InBounds) : Keeps s.enter := by
  by_cases hpos : 0 < s.cmdPos
  · obtain ⟨rows, k, line, out, heq, hadds, hline⟩ := h.enter_eq hpos
    obtain ⟨log, hlog⟩ := h.history.exists_log
    obtain ⟨text, htext⟩ := exists_holdsString h.store_cut.2
    exact ⟨_, heq, { h with
      cursor_nonneg := le_rfl
      cursor_le := le_rfl
      pos_le := (by decide : (0 : ℤ) ≤ maxCmdLen - 1)
      history := (hadds hlog htext).rowsOk
      buffer := hline }⟩
  · rw [Shell.enter, if_neg hpos]
    exact ⟨_, rfl, { h with }⟩

/-! ### Every key -/

theorem InBounds.deleteChar (h : s.InBounds) : Keeps s.deleteChar := by
  obtain ⟨len, cur, hat⟩ := h.at
  have hlen := hat.lt
  by_cases hlt : cur < len
  · obtain ⟨rest, -, heq⟩ := hat.deleteChar hlt
    refine ⟨_, heq, ?_⟩
    rw [emit, hat.cursor]
    exact h.edit (by omega) (by omega) (deleted_last _ _ _)
  · rw [Shell.deleteChar, if_neg (by rw [hat.cursor, hat.pos]; omega)]
    exact h.keeps

theorem InBounds.backspaceChar (h : s.InBounds) : Keeps s.backspaceChar := by
  obtain ⟨len, cur, hat⟩ := h.at
  have hlen := hat.lt
  have hle := hat.cursor_le
  by_cases hpos : 0 < cur
  · obtain ⟨rest, -, heq⟩ := hat.backspaceChar hpos
    exact ⟨_, heq, h.edit (by omega) (by omega) (deleted_last _ _ _)⟩
  · rw [Shell.backspaceChar, if_neg (by rw [hat.cursor]; omega)]
    exact h.keeps

/-- A character is stored only where the line has room for it and its zero. -/
theorem InBounds.insertChar (h : s.InBounds) (c : UInt8) : Keeps (s.insertChar c) := by
  obtain ⟨len, cur, hat⟩ := h.at
  by_cases hcond : s.cmdPos < maxCmdLen - 1 ∧ 32 ≤ c ∧ c ≤ 126
  · have hroom : len < maxCmdLen - 1 := by
      have := hcond.1
      rw [hat.pos] at this
      omega
    obtain ⟨rest, -, heq⟩ := hat.insertChar hroom hcond.2
    have hle := hat.cursor_le
    exact ⟨_, heq, h.edit (by omega) (by omega) (inserted_last _ _ _ _)⟩
  · rw [Shell.insertChar, if_neg hcond]
    exact h.keeps

/-- The keys that move the cursor, delete, or recall a line. -/
theorem InBounds.specialKey (h : s.InBounds) (c : UInt8) : Keeps (s.specialKey c) := by
  have hcursor := h.cursor_nonneg
  have hle := h.cursor_le
  have hmove : ∀ {p : ℤ}, 0 ≤ p → p ≤ s.cmdPos → Keeps (some (s.moveCursorTo p)) := by
    intro p hp hle
    exact ⟨_, congrArg some (moveCursorTo_eq hp hle), h.move hp hle⟩
  rw [Shell.specialKey]
  split
  · split
    · exact ⟨_, rfl, h.move (p := s.cursorPos - 1) (by omega) (by omega)⟩
    · exact h.keeps
  split
  · split
    · exact ⟨_, rfl, h.move (p := s.cursorPos + 1) (by omega) (by omega)⟩
    · exact h.keeps
  split
  · split
    exacts [h.historyShow 1, h.keeps]
  split
  · split
    exacts [h.historyShow (-1), h.keeps]
  split
  · exact hmove le_rfl (hcursor.trans hle)
  split
  · exact hmove (hcursor.trans hle) le_rfl
  · exact h.deleteChar

/-- **Every key succeeds**, and keeps the invariant. -/
theorem InBounds.key (h : s.InBounds) (c : UInt8) : Keeps (s.shellProcessInput c) := by
  rw [shellProcessInput]
  split
  · exact h.keeps
  split
  · exact h.specialKey c
  split
  · exact h.enter
  split
  exacts [h.backspaceChar, h.insertChar c]

/-- `shell_init` -/
theorem inBounds_shellInit (s : Shell) : s.shellInit.InBounds := by
  have hzero : ∀ b : ℕ → UInt8, Terminated maxCmdLen (Function.update b 0 0) 0 :=
    fun b ↦ ⟨0, le_rfl, by decide, Function.update_self _ _ _⟩
  have hlen : (0 : ℤ) ≤ maxCmdLen - 1 := by decide
  have hrows : RowsOk s.cmdHistory 0 :=
    ⟨le_rfl, by decide, fun i hi ↦ absurd hi (not_lt_of_ge (Int.natCast_nonneg i))⟩
  exact ⟨le_rfl, le_rfl, hlen, hrows, le_rfl, hzero _, hzero _⟩

end Shell

/-- **The shell stays in bounds.** After `shell_init`, in every state reached by any input bytes,
the positions, the history counters and the zero bytes are as they should be, and no further byte
makes the shell leave an array. -/
theorem shell_inBounds (s : Shell) {cs : List UInt8} {t : Shell}
    (hrun : Run Shell.Step s.shellInit cs t) : t.InBounds ∧ ∀ c, ∃ u, Shell.Step t c u := by
  have hbounds : t.InBounds := by
    refine hrun.invariant (I := Shell.InBounds) ?_ s.inBounds_shellInit
    intro s c t h hstep
    obtain ⟨u, hu, hbounds⟩ := h.key c
    exact Shell.step_unique hu hstep ▸ hbounds
  refine ⟨hbounds, fun c ↦ ?_⟩
  obtain ⟨u, hu, -⟩ := hbounds.key c
  exact ⟨u, hu⟩

/-- The general theorem after `a` and Up were typed. -/
theorem shell_inBounds_staleShell : ∃ t, Run Shell.Step staleShell.shellInit [0x61, 0x01] t ∧
    t.InBounds ∧ ∀ c, ∃ u, Shell.Step t c u := by
  have hrun : ∃ t, Run Shell.Step staleShell.shellInit [0x61, 0x01] t :=
    ⟨_, Run.cons rfl (Run.single rfl)⟩
  obtain ⟨t, hrun⟩ := hrun
  exact ⟨t, hrun, shell_inBounds staleShell hrun⟩

end LightNight
