import LightNightOS.Shell.Bounds

/-!
# What the shell's arrays hold

From boot on, every byte of the line, of the saved line and of the history is zero or printable
(`Textual`), whatever keys come: a character is stored only if it is printable, and everything else
is a zero or a copy. So what the shell prints of a line never moves the cursor otherwise than by
one.

`Reached` are the states that the shell can get to from the boot, by any keys. Together with
`Bounds` this is what the other modules use of such a state (`Reached.sound`): every access is
inside its array, and what is printed is legible.

* `Textual.historyAdd`, `Textual.executeCommand` — the history and the words of the line;
* `Textual.key` — any key.
-/

namespace LightNight

open CharArray Transition

/-- A byte of a line: its end, or a printable character. -/
def TextByte (c : UInt8) : Prop := c = 0 ∨ 32 ≤ c ∧ c ≤ 126

theorem textByte_zero : TextByte 0 := Or.inl rfl

namespace Shell

/-- The static variables of `shell.c` at boot. -/
def boot : Shell where
  cmdHistory := fun _ _ ↦ 0
  historyCount := 0
  historyCurrent := -1
  cmdBuffer := fun _ ↦ 0
  cmdPos := 0
  cursorPos := 0
  shellActive := false
  savedCmd := fun _ ↦ 0
  savedCmdPos := 0
  output := []

/-- The arrays hold text. -/
structure Textual (s : Shell) : Prop where
  buffer : Every TextByte s.cmdBuffer
  saved : Every TextByte s.savedCmd
  history : ∀ i, Every TextByte (s.cmdHistory i)

variable {s t : Shell} {c : UInt8} {p p' : Parse}

/-! ### History -/

/-- A row of the history holds text, if all rows do. -/
theorem historyRow_every {rows : ℕ → ℕ → UInt8} {i : ℤ} {row : ℕ → UInt8}
    (h : ∀ i, Every TextByte (rows i)) (heq : historyRow rows i = some row) :
    Every TextByte row := by
  rw [historyRow] at heq
  split at heq
  · exact Option.some.inj heq ▸ h _
  · exact nomatch heq

/-- Copying text to a row of the history leaves all rows with text. -/
theorem copyToRow_every {rows rows' : ℕ → ℕ → UInt8} {i : ℤ} {src : ℕ → UInt8}
    (h : ∀ i, Every TextByte (rows i)) (hsrc : Every TextByte src)
    (heq : copyToRow rows i src = some rows') : ∀ i, Every TextByte (rows' i) := by
  obtain ⟨row, hrow, heq⟩ := Option.bind_eq_some_iff.1 heq
  obtain ⟨dest, hcopy, heq⟩ := Option.bind_eq_some_iff.1 heq
  obtain rfl := Option.some.inj heq
  intro j
  by_cases hj : j = i.toNat
  · rw [hj, Function.update_self]
    exact (historyRow_every h hrow).strCopy hsrc hcopy
  · rw [Function.update_of_ne hj]
    exact h j

theorem Textual.makeRoom (h : s.Textual) (heq : s.makeRoom = some t) : t.Textual := by
  rw [Shell.makeRoom] at heq
  split at heq
  · obtain ⟨rows, hloop, rfl⟩ := Option.map_eq_some_iff.1 heq
    refine ⟨h.buffer, h.saved, ?_⟩
    refine forLoopM_of_eq_some (I := fun rows ↦ ∀ i, Every TextByte (rows i)) hloop h.history ?_
    intro k rows rows' hrows hbody
    obtain ⟨row, hrow, hcopy⟩ := Option.bind_eq_some_iff.1 hbody
    exact copyToRow_every hrows (historyRow_every hrows hrow) hcopy
  · exact Option.some.inj heq ▸ h

/-- `history_add` sets the history only, to text. -/
theorem Textual.historyAdd (h : s.Textual) (heq : s.historyAdd = some t) : t.Textual := by
  rw [Shell.historyAdd] at heq
  obtain ⟨first, -, heq⟩ := Option.bind_eq_some_iff.1 heq
  split at heq
  · exact Option.some.inj heq ▸ h
  obtain ⟨same, -, heq⟩ := Option.bind_eq_some_iff.1 heq
  split at heq
  · exact Option.some.inj heq ▸ h
  obtain ⟨u, hroom, heq⟩ := Option.bind_eq_some_iff.1 heq
  obtain ⟨rows, hcopy, heq⟩ := Option.bind_eq_some_iff.1 heq
  obtain rfl := Option.some.inj heq
  have hu := h.makeRoom hroom
  exact ⟨hu.buffer, hu.saved, copyToRow_every hu.history hu.buffer hcopy⟩

/-! ### Commands -/

/-- The scan of a line writes zeros only, so that text stays text. -/
theorem parseFrom_every {k : ℕ} {i : ℤ} (h : Every TextByte p.line)
    (heq : parseFromIn maxCmdLen k i p = some p') : Every TextByte p'.line := by
  induction k generalizing i p with
  | zero => exact nomatch heq
  | succ k ih =>
    rw [parseFromIn] at heq
    obtain ⟨c, -, heq⟩ := Option.bind_eq_some_iff.1 heq
    split at heq
    case isFalse => exact Option.some.inj heq ▸ h
    split at heq
    · split at heq
      · obtain ⟨line, hstore, heq⟩ := Option.bind_eq_some_iff.1 heq
        exact ih (h.store textByte_zero hstore) heq
      · exact ih h heq
    · split at heq
      · exact ih h heq
      · obtain ⟨argv, -, heq⟩ := Option.bind_eq_some_iff.1 heq
        refine ih ?_ heq
        exact h

theorem parseArguments_every {line : ℕ → UInt8} (h : Every TextByte line)
    (heq : parseArguments line = some p) : Every TextByte p.line := by
  obtain ⟨q, hloop, heq⟩ := Option.bind_eq_some_iff.1 heq
  obtain ⟨argv, -, heq⟩ := Option.bind_eq_some_iff.1 heq
  obtain rfl := Option.some.inj heq
  exact show Every TextByte q.line from parseFrom_every h hloop

/-- Commands print, and change nothing. -/
theorem runCommand_frame {command : Command} (heq : s.runCommand p command = some t) :
    ∃ out, t = { s with output := out } := by
  cases command with
  | echo =>
    obtain ⟨u, hloop, rfl⟩ := Option.map_eq_some_iff.1 heq
    obtain ⟨out, rfl⟩ :=
      forLoopM_of_eq_some (I := fun u ↦ ∃ out, u = { s with output := out }) hloop
      ⟨_, rfl⟩ fun k u u' ⟨out, hu⟩ hbody ↦ by
        obtain ⟨arg, -, hbody⟩ := Option.bind_eq_some_iff.1 hbody
        obtain ⟨text, -, hbody⟩ := Option.bind_eq_some_iff.1 hbody
        obtain rfl := Option.some.inj hbody
        rw [hu]
        split
        exacts [⟨_, rfl⟩, ⟨_, rfl⟩]
    exact ⟨_, rfl⟩
  | help => exact ⟨_, (Option.some.inj heq).symm⟩
  | clear => exact ⟨_, (Option.some.inj heq).symm⟩

theorem dispatch_frame {table : List (String × String × Command)}
    (heq : s.dispatch p table = some t) : ∃ out, t = { s with output := out } := by
  induction table with
  | nil =>
    obtain ⟨arg, -, heq⟩ := Option.bind_eq_some_iff.1 heq
    obtain ⟨text, -, heq⟩ := Option.bind_eq_some_iff.1 heq
    exact ⟨_, (Option.some.inj heq).symm⟩
  | cons entry table ih =>
    obtain ⟨name, description, command⟩ := entry
    obtain ⟨arg, -, heq⟩ := Option.bind_eq_some_iff.1 heq
    obtain ⟨order, -, heq⟩ := Option.bind_eq_some_iff.1 heq
    split at heq
    exacts [runCommand_frame heq, ih heq]

/-- Running a command copies the line to the history and writes zeros into the line. -/
theorem Textual.executeCommand (h : s.Textual) (heq : s.executeCommand = some t) : t.Textual := by
  rw [Shell.executeCommand] at heq
  split at heq
  · exact Option.some.inj heq ▸ h
  obtain ⟨buffer, hstore, heq⟩ := Option.bind_eq_some_iff.1 heq
  obtain ⟨u, hadd, heq⟩ := Option.bind_eq_some_iff.1 heq
  obtain ⟨p, hparse, heq⟩ := Option.bind_eq_some_iff.1 heq
  have hcut : { s with cmdBuffer := buffer }.Textual :=
    ⟨h.buffer.store textByte_zero hstore, h.saved, h.history⟩
  have hu := hcut.historyAdd hadd
  have hline := parseArguments_every hu.buffer hparse
  split at heq
  · exact Option.some.inj heq ▸ ⟨hline, hu.saved, hu.history⟩
  · obtain ⟨v, hdispatch, heq⟩ := Option.bind_eq_some_iff.1 heq
    obtain ⟨out, rfl⟩ := dispatch_frame hdispatch
    exact Option.some.inj heq ▸ ⟨hline, hu.saved, hu.history⟩

theorem Textual.enter (h : s.Textual) (heq : s.enter = some t) : t.Textual := by
  rw [Shell.enter] at heq
  split at heq
  · obtain ⟨buffer, hstore, heq⟩ := Option.bind_eq_some_iff.1 heq
    obtain ⟨u, hexec, heq⟩ := Option.bind_eq_some_iff.1 heq
    have hcut : ({ s with cmdBuffer := buffer }.emit (printk (ascii "\n"))).Textual :=
      ⟨h.buffer.store textByte_zero hstore, h.saved, h.history⟩
    have hu := hcut.executeCommand hexec
    exact Option.some.inj heq ▸ ⟨hu.buffer, hu.saved, hu.history⟩
  · exact Option.some.inj heq ▸ ⟨h.buffer, h.saved, h.history⟩

/-! ### Editing -/

/-- Closing a gap moves characters that were there. -/
theorem deleted_every {b : ℕ → UInt8} (h : Every TextByte b) (cur last : ℕ) :
    Every TextByte (deleted b cur last) := by
  refine Every.update (fun j ↦ ?_) textByte_zero _
  split
  exacts [h _, h _]

/-- Making room moves characters that were there, and the new one is printable. -/
theorem inserted_every {b : ℕ → UInt8} (h : Every TextByte b) (cur len : ℕ) (hc : TextByte c) :
    Every TextByte (inserted b cur len c) := by
  refine Every.update (Every.update (fun j ↦ ?_) hc _) textByte_zero _
  split
  exacts [h _, h _]

/-- The line `history_show` shows is text. -/
theorem Textual.showCmd (h : s.Textual) {cmd : ℕ → UInt8} (heq : s.showCmd = some (some cmd)) :
    Every TextByte cmd := by
  rw [Shell.showCmd] at heq
  split at heq
  · obtain ⟨row, hrow, hcmd⟩ := Option.map_eq_some_iff.1 heq
    exact Option.some.inj hcmd ▸ historyRow_every h.history hrow
  split at heq
  · exact Option.some.inj (Option.some.inj heq) ▸ h.saved
  · cases heq

theorem Textual.replaceLine (h : s.Textual) {cmd : ℕ → UInt8} (hcmd : Every TextByte cmd)
    (heq : s.replaceLine cmd = some t) : t.Textual := by
  rw [Shell.replaceLine] at heq
  obtain ⟨newLen, -, heq⟩ := Option.bind_eq_some_iff.1 heq
  obtain ⟨buffer, hcopy, heq⟩ := Option.bind_eq_some_iff.1 heq
  obtain ⟨text, -, heq⟩ := Option.bind_eq_some_iff.1 heq
  have hbuffer : Every TextByte buffer := h.buffer.strCopy hcmd hcopy
  obtain rfl := Option.some.inj heq
  split
  exacts [⟨hbuffer, h.saved, h.history⟩, ⟨hbuffer, h.saved, h.history⟩]

theorem Textual.saveCmd (h : s.Textual) (heq : s.saveCmd = some t) : t.Textual := by
  obtain ⟨saved, hcopy, rfl⟩ := Option.map_eq_some_iff.1 heq
  exact ⟨h.buffer, h.saved.strCopy h.buffer hcopy, h.history⟩

/-- Recalling copies a row of the history, or the saved line. -/
theorem Textual.historyShow (h : s.Textual) {direction : ℤ}
    (heq : s.historyShow direction = some t) : t.Textual := by
  rw [Shell.historyShow] at heq
  split at heq
  · exact Option.some.inj heq ▸ h
  obtain ⟨u, hsave, heq⟩ := Option.bind_eq_some_iff.1 heq
  obtain ⟨cmd, hcmd, heq⟩ := Option.bind_eq_some_iff.1 heq
  have hu : u.Textual := by
    split at hsave
    · exact h.saveCmd hsave
    · exact Option.some.inj hsave ▸ h
  have hmoved : { u with historyCurrent := u.newIndex direction }.Textual :=
    ⟨hu.buffer, hu.saved, hu.history⟩
  cases cmd with
  | none => exact Option.some.inj heq ▸ hmoved
  | some cmd => exact hmoved.replaceLine (hmoved.showCmd hcmd) heq

theorem Textual.specialKey (h : s.Textual) (hb : s.InBounds) (heq : s.specialKey c = some t) :
    t.Textual := by
  have hcursor := hb.cursor_nonneg
  have hle := hb.cursor_le
  have hmove : ∀ {p : ℤ}, 0 ≤ p → p ≤ s.cmdPos → (s.moveCursorTo p).Textual := by
    intro p hp hle
    rw [moveCursorTo_eq hp hle]
    exact ⟨h.buffer, h.saved, h.history⟩
  rw [Shell.specialKey] at heq
  split at heq
  · split at heq <;> exact Option.some.inj heq ▸ ⟨h.buffer, h.saved, h.history⟩
  split at heq
  · split at heq <;> exact Option.some.inj heq ▸ ⟨h.buffer, h.saved, h.history⟩
  split at heq
  · split at heq
    exacts [h.historyShow heq, Option.some.inj heq ▸ h]
  split at heq
  · split at heq
    exacts [h.historyShow heq, Option.some.inj heq ▸ h]
  split at heq
  · exact Option.some.inj heq ▸ hmove le_rfl (hcursor.trans hle)
  split at heq
  · exact Option.some.inj heq ▸ hmove (hcursor.trans hle) le_rfl
  obtain ⟨len, cur, hat⟩ := hb.at
  by_cases hlt : cur < len
  · obtain ⟨rest, -, hdelete⟩ := hat.deleteChar hlt
    rw [hdelete] at heq
    exact Option.some.inj heq ▸ ⟨deleted_every h.buffer _ _, h.saved, h.history⟩
  · rw [Shell.deleteChar, if_neg (by rw [hat.cursor, hat.pos]; omega)] at heq
    exact Option.some.inj heq ▸ h

/-- **Every key** leaves text in the arrays. -/
theorem Textual.key (h : s.Textual) (hb : s.InBounds) (heq : s.shellProcessInput c = some t) :
    t.Textual := by
  obtain ⟨len, cur, hat⟩ := hb.at
  rw [shellProcessInput] at heq
  split at heq
  · exact Option.some.inj heq ▸ h
  split at heq
  · exact h.specialKey hb heq
  split at heq
  · exact h.enter heq
  split at heq
  · by_cases hpos : 0 < cur
    · obtain ⟨rest, -, hback⟩ := hat.backspaceChar hpos
      rw [hback] at heq
      exact Option.some.inj heq ▸ ⟨deleted_every h.buffer _ _, h.saved, h.history⟩
    · rw [Shell.backspaceChar, if_neg (by rw [hat.cursor]; omega)] at heq
      exact Option.some.inj heq ▸ h
  · by_cases hcond : s.cmdPos < maxCmdLen - 1 ∧ 32 ≤ c ∧ c ≤ 126
    · have hroom : len < maxCmdLen - 1 := by
        have := hcond.1
        rw [hat.pos] at this
        omega
      obtain ⟨rest, -, hinsert⟩ := hat.insertChar hroom hcond.2
      rw [hinsert] at heq
      exact Option.some.inj heq ▸
        ⟨inserted_every h.buffer _ _ (Or.inr hcond.2), h.saved, h.history⟩
    · rw [Shell.insertChar, if_neg hcond] at heq
      exact Option.some.inj heq ▸ h

/-- The shell has been started, and some keys have been pressed. -/
def Reached (s : Shell) : Prop := ∃ keys, Run Step boot.shellInit keys s

/-- In every state reached the arrays hold text, and every access has been inside. -/
theorem Reached.sound (h : s.Reached) : s.InBounds ∧ s.Textual := by
  obtain ⟨keys, hrun⟩ := h
  have hzero : ∀ b : ℕ → UInt8, Every TextByte b → Every TextByte (Function.update b 0 0) :=
    fun b hb ↦ hb.update textByte_zero 0
  have hstart : boot.shellInit.InBounds ∧ boot.shellInit.Textual :=
    ⟨boot.inBounds_shellInit, hzero _ fun _ ↦ textByte_zero, hzero _ fun _ ↦ textByte_zero,
      fun _ _ ↦ textByte_zero⟩
  refine hrun.invariant (I := fun s ↦ s.InBounds ∧ s.Textual) ?_ hstart
  rintro s c t ⟨hb, ht⟩ hstep
  obtain ⟨u, hu, hbounds⟩ := hb.key c
  obtain rfl := step_unique hu hstep
  exact ⟨hbounds, ht.key hb hstep⟩

end Shell

end LightNight
