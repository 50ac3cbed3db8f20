import LightNightOS.Shell.ScreenLine

/-!
# The command history

What each key does to the history, to the saved line and to the line that is edited (`key_cases`),
and what follows for whole runs: the history is the bounded log of the lines that were submitted
(`history_bounded_log`).

* `key_cases` — the four kinds of keys;
* `Logged.step` — one key, with the line that it may submit;
* `history_bounded_log` — every sequence of keys.
-/

namespace LightNight

open CharArray Transition

namespace Shell

variable {s t u : Shell} {text : List UInt8} {log lines : List (List UInt8)} {cur : ℕ} {c : UInt8}
  {keys : List UInt8}

/-- The line that is edited: `cmd_buffer[0..cmd_pos)`. -/
def line (s : Shell) : List UInt8 := (List.range s.cmdPos.toNat).map s.cmdBuffer

/-- The line that a key submits, which is Enter on a line that is not empty. -/
def submitted (s : Shell) (c : UInt8) : List (List UInt8) :=
  if c = newline ∧ 0 < s.cmdPos then [s.line] else []

/-- One key, and the lines submitted so far. -/
def logKey (u : Shell × List (List UInt8)) (c : UInt8) : Option (Shell × List (List UInt8)) :=
  (u.1.shellProcessInput c).map fun t ↦ (t, u.2 ++ u.1.submitted c)

/-- One key as a step. -/
def LogStep (u : Shell × List (List UInt8)) (c : UInt8) (v : Shell × List (List UInt8)) : Prop :=
  logKey u c = some v

/-! ### What a key does

A key edits the line, recalls another one, submits it, or does nothing; `key_cases` is that
distinction, with what each kind of key leaves alone. -/

/-- A change of the line, and of nothing that a later recall depends on. -/
structure EditsLine (s t : Shell) : Prop where
  active : t.shellActive = s.shellActive
  history : t.cmdHistory = s.cmdHistory
  count : t.historyCount = s.historyCount
  current : t.historyCurrent = s.historyCurrent
  saved : t.savedCmd = s.savedCmd
  line : ∃ text cur, t.HasLine text cur

/-- The cursor moves inside the line. -/
theorem HasLine.move (h : s.HasLine text cur) {p : ℤ} {out : List ConsoleCall} {cur' : ℕ}
    (hp : p = cur') (hle : cur' ≤ text.length) :
    EditsLine s { s with cursorPos := p, output := out } :=
  ⟨rfl, rfl, rfl, rfl, rfl, _, _, ⟨h.position.pos, hp, hle, h.position.lt⟩, h.shows,
    h.nonzero, h.zero⟩

theorem HasLine.same (h : s.HasLine text cur) : EditsLine s s :=
  ⟨rfl, rfl, rfl, rfl, rfl, _, _, h⟩

theorem HasLine.edits_insertChar (h : s.HasLine text cur) (heq : s.insertChar c = some t) :
    EditsLine s t := by
  by_cases hcond : s.cmdPos < maxCmdLen - 1 ∧ 32 ≤ c ∧ c ≤ 126
  · have hroom : text.length < maxCmdLen - 1 := by
      have := hcond.1
      rw [h.position.pos] at this
      omega
    obtain ⟨u, hu, hredraws⟩ := h.insertChar hroom hcond.2
    obtain ⟨rest, -, hinsert⟩ := h.position.insertChar hroom hcond.2
    obtain rfl := Option.some.inj (hu.symm.trans heq)
    obtain rfl := Option.some.inj (hinsert.symm.trans heq)
    exact ⟨rfl, rfl, rfl, rfl, rfl, _, _, hredraws.line⟩
  · rw [Shell.insertChar, if_neg hcond] at heq
    exact Option.some.inj heq ▸ h.same

theorem HasLine.edits_deleteChar (h : s.HasLine text cur) (heq : s.deleteChar = some t) :
    EditsLine s t := by
  by_cases hlt : cur < text.length
  · obtain ⟨u, hu, hredraws⟩ := h.deleteChar hlt
    obtain ⟨rest, -, hdelete⟩ := h.position.deleteChar hlt
    obtain rfl := Option.some.inj (hu.symm.trans heq)
    obtain rfl := Option.some.inj (hdelete.symm.trans heq)
    exact ⟨rfl, rfl, rfl, rfl, rfl, _, _, hredraws.line⟩
  · rw [Shell.deleteChar, if_neg (by rw [h.position.cursor, h.position.pos]; omega)] at heq
    exact Option.some.inj heq ▸ h.same

theorem HasLine.edits_backspaceChar (h : s.HasLine text cur) (heq : s.backspaceChar = some t) :
    EditsLine s t := by
  by_cases hpos : 0 < cur
  · obtain ⟨u, hu, hredraws⟩ := h.backspaceChar hpos
    obtain ⟨rest, -, hback⟩ := h.position.backspaceChar hpos
    obtain rfl := Option.some.inj (hu.symm.trans heq)
    obtain rfl := Option.some.inj (hback.symm.trans heq)
    exact ⟨rfl, rfl, rfl, rfl, rfl, _, _, hredraws.line⟩
  · rw [Shell.backspaceChar, if_neg (by rw [h.position.cursor]; omega)] at heq
    exact Option.some.inj heq ▸ h.same

/-- The direction of a key that recalls. -/
def recallDirection (c : UInt8) : ℤ := if c = keyUp then 1 else -1

/-- **What a key can do**: Enter, a recall, or an edit; without a history Up and Down do nothing. -/
theorem key_cases (h : s.HasLine text cur) (hactive : s.shellActive = true) (hstep : s.Step c t) :
    c = newline ∧ s.enter = some t ∨
    (c = keyUp ∨ c = keyDown) ∧ 0 < s.historyCount ∧ s.historyShow (recallDirection c) = some t ∨
    c ≠ newline ∧ EditsLine s t ∧ (c = keyUp ∨ c = keyDown → s.historyCount ≤ 0 ∧ t = s) := by
  have hle := h.position.cursor_le
  have hedit (hc : c ≠ newline) (hup : c ≠ keyUp) (hdown : c ≠ keyDown) (h : EditsLine s t) :
      c ≠ newline ∧ EditsLine s t ∧ (c = keyUp ∨ c = keyDown → s.historyCount ≤ 0 ∧ t = s) :=
    ⟨hc, h, fun hor ↦ absurd hor (not_or_intro hup hdown)⟩
  have hstep : s.shellProcessInput c = some t := hstep
  rw [shellProcessInput, hactive, Bool.not_true, if_neg Bool.false_ne_true] at hstep
  by_cases hspecial : keyUp ≤ c ∧ c ≤ keyDel
  · have hne : c ≠ newline := by
      rintro rfl
      exact absurd hspecial.2 (by decide)
    rw [if_pos hspecial, Shell.specialKey] at hstep
    by_cases hleft : c = keyLeft
    · refine .inr (.inr (hedit hne (hleft ▸ by decide) (hleft ▸ by decide) ?_))
      rw [if_pos hleft] at hstep
      split at hstep
      case isTrue hpos =>
        have hback : s.cursorPos - 1 = (cur - 1 : ℕ) := by
          rw [h.position.cursor] at hpos ⊢
          omega
        exact Option.some.inj hstep ▸ h.move hback (by omega)
      case isFalse => exact Option.some.inj hstep ▸ h.same
    rw [if_neg hleft] at hstep
    by_cases hright : c = keyRight
    · refine .inr (.inr (hedit hne (hright ▸ by decide) (hright ▸ by decide) ?_))
      rw [if_pos hright] at hstep
      split at hstep
      case isTrue hlt =>
        have hnext : s.cursorPos + 1 = (cur + 1 : ℕ) := by
          rw [h.position.cursor]
          rfl
        rw [h.position.cursor, h.position.pos] at hlt
        exact Option.some.inj hstep ▸ h.move hnext (by omega)
      case isFalse => exact Option.some.inj hstep ▸ h.same
    rw [if_neg hright] at hstep
    by_cases hup : c = keyUp
    · rw [if_pos hup] at hstep
      have hdirection : recallDirection c = 1 := if_pos hup
      split at hstep
      case isTrue hpos => exact .inr (.inl ⟨.inl hup, hpos, hdirection.symm ▸ hstep⟩)
      case isFalse hzero =>
        obtain rfl := Option.some.inj hstep
        exact .inr (.inr ⟨hne, h.same, fun _ ↦ ⟨by omega, rfl⟩⟩)
    rw [if_neg hup] at hstep
    by_cases hdown : c = keyDown
    · rw [if_pos hdown] at hstep
      have hdirection : recallDirection c = -1 := if_neg hup
      split at hstep
      case isTrue hpos => exact .inr (.inl ⟨.inr hdown, hpos, hdirection.symm ▸ hstep⟩)
      case isFalse hzero =>
        obtain rfl := Option.some.inj hstep
        exact .inr (.inr ⟨hne, h.same, fun _ ↦ ⟨by omega, rfl⟩⟩)
    rw [if_neg hdown] at hstep
    refine .inr (.inr (hedit hne hup hdown ?_))
    split at hstep
    · rw [moveCursorTo_eq le_rfl (by rw [h.position.pos]; omega)] at hstep
      exact Option.some.inj hstep ▸ h.move Nat.cast_zero.symm (Nat.zero_le _)
    split at hstep
    · rw [moveCursorTo_eq (by rw [h.position.pos]; omega) le_rfl] at hstep
      exact Option.some.inj hstep ▸ h.move h.position.pos le_rfl
    · exact h.edits_deleteChar hstep
  · rw [if_neg hspecial] at hstep
    have hup : c ≠ keyUp := by
      rintro rfl
      exact hspecial (by decide)
    have hdown : c ≠ keyDown := by
      rintro rfl
      exact hspecial (by decide)
    by_cases henter : c = newline
    · rw [if_pos henter] at hstep
      exact .inl ⟨henter, hstep⟩
    rw [if_neg henter] at hstep
    refine .inr (.inr (hedit henter hup hdown ?_))
    split at hstep
    exacts [h.edits_backspaceChar hstep, h.edits_insertChar hstep]

/-! ### Recall

The text that is shown depends on the index: -1 is the saved line, and any other index an entry of
the log. -/

/-- The string in `saved_cmd` once `history_show` has looked whether to save the line. -/
def savedText (s : Shell) (direction : ℤ) (buffer saved : List UInt8) : List UInt8 :=
  if s.historyCurrent = -1 ∧ direction = 1 then buffer else saved

/-- The line that `history_show` shows. -/
def shownText (s : Shell) (direction : ℤ) (log : List (List UInt8)) (buffer saved : List UInt8) :
    List UInt8 :=
  if s.newIndex direction = -1 then s.savedText direction buffer saved
  else log.getD (s.newIndex direction).toNat []

/-- What a recall does: it moves the index, saves the line or not, and shows a line. -/
structure Recalled (s t : Shell) (direction : ℤ) (log : List (List UInt8))
    (buffer saved : List UInt8) :
    Prop where
  active : t.shellActive = s.shellActive
  history : t.cmdHistory = s.cmdHistory
  count : t.historyCount = s.historyCount
  current : t.historyCurrent = s.newIndex direction
  savedHolds : HoldsString maxCmdLen t.savedCmd 0 (s.savedText direction buffer saved)
  shownHolds : HoldsString maxCmdLen t.cmdBuffer 0 (s.shownText direction log buffer saved)
  line : t.HasLine (s.shownText direction log buffer saved)
    (s.shownText direction log buffer saved).length

/-- Recalling a line in terms of the log: an index, and the text that is shown for it. -/
theorem InBounds.historyShow_recalled (h : s.InBounds) (hpos : 0 < s.historyCount)
    (hlog : HoldsLog s.cmdHistory s.historyCount log) {buffer saved : List UInt8}
    (hbuffer : HoldsString maxCmdLen s.cmdBuffer 0 buffer)
    (hsaved : HoldsString maxCmdLen s.savedCmd 0 saved) {direction : ℤ}
    (heq : s.historyShow direction = some t) : Recalled s t direction log buffer saved := by
  obtain ⟨u, cmd, hshow, hrecall⟩ := h.historyShow_eq hpos direction
  obtain ⟨len, cur, hat⟩ := hrecall.bounds.at
  have hlt := hbuffer.lt
  have husaved : HoldsString maxCmdLen u.savedCmd 0 (s.savedText direction buffer saved) := by
    have hsave := hrecall.saved
    rw [savedText]
    split at hsave
    case isTrue hcond =>
      rw [hbuffer.strCopy_eq _ (by omega)] at hsave
      rw [if_pos hcond, ← Option.some.inj hsave]
      exact hbuffer.copy _ (by omega)
    case isFalse hcond => rwa [if_neg hcond, hsave]
  have hcmd : HoldsString maxCmdLen cmd 0 (s.shownText direction log buffer saved) := by
    rw [hrecall.shown, hrecall.current, shownText]
    split
    · exact husaved
    · have hge := newIndex_ge s hpos direction
      have hindex := newIndex_lt s direction
      rw [hlog.count] at hindex
      have hin : (s.newIndex direction).toNat < log.length := by omega
      rw [List.getD_eq_getElem _ _ hin]
      exact hlog.row _ hin
  have hroom := hcmd.lt
  rw [hshow, hat.replaceLine hcmd] at heq
  obtain rfl := Option.some.inj heq
  exact ⟨hrecall.active, hrecall.history, hrecall.count, hrecall.current, husaved,
    hcmd.copy _ (by omega), hasLine_copied hcmd u _⟩

/-! ### Runs

The log of the submitted lines is carried along by the run, next to the shell; the history holds
what is left of it after repetitions are dropped and the oldest entries are given up. -/

/-- What holds between keys: the history is the log of the lines submitted. -/
structure Logged (s : Shell) (lines : List (List UInt8)) : Prop where
  bounds : s.InBounds
  active : s.shellActive = true
  line : ∃ text cur, s.HasLine text cur
  log : HoldsLog s.cmdHistory s.historyCount (historyLog lines)

theorem HasLine.line_eq (h : s.HasLine text cur) : s.line = text := by
  rw [Shell.line, h.position.pos, Int.toNat_natCast]
  refine List.ext_getElem (by simp) fun i hi hi' ↦ ?_
  rw [List.getElem_map, List.getElem_range]
  exact h.shows i hi'

theorem HasLine.holds_cutLine (h : s.HasLine text cur) :
    HoldsString maxCmdLen s.cutLine 0 text := by
  have hcut : s.cutLine = Function.update s.cmdBuffer text.length 0 := by
    rw [cutLine, h.position.pos, Int.toNat_natCast]
  rw [hcut]
  refine HoldsString.of_getElem (by rw [Nat.zero_add]; exact h.position.lt) ?_ fun j hj ↦ ?_
  · rw [Nat.zero_add, Function.update_self]
  · rw [Nat.zero_add, Function.update_of_ne (by omega), h.shows j hj]
    exact ⟨rfl, fun hzero ↦ h.nonzero (hzero ▸ List.getElem_mem hj)⟩

/-- The empty line. -/
theorem hasLine_nil (hpos : s.cmdPos = 0) (hcursor : s.cursorPos = 0) : s.HasLine [] 0 :=
  ⟨⟨hpos, hcursor, le_rfl, by decide⟩, fun _ hi ↦ absurd hi (Nat.not_lt_zero _), List.not_mem_nil,
    fun hne ↦ absurd rfl hne⟩

/-- **One key.** -/
theorem Logged.step (h : s.Logged lines) (hstep : s.Step c t) :
    t.Logged (lines ++ s.submitted c) := by
  obtain ⟨text, cur, hline⟩ := h.line
  obtain ⟨u, hu, hbounds⟩ := h.bounds.key c
  obtain rfl := step_unique hu hstep
  suffices h' : u.shellActive = true ∧ (∃ text cur, u.HasLine text cur) ∧
      HoldsLog u.cmdHistory u.historyCount (historyLog (lines ++ s.submitted c)) from
    ⟨hbounds, h'.1, h'.2.1, h'.2.2⟩
  obtain ⟨rfl, henter⟩ | ⟨hrecall, hpos, hshow⟩ | ⟨hne, hedit, -⟩ := key_cases hline h.active hu
  · by_cases hpos : 0 < s.cmdPos
    · obtain ⟨rows, k, buffer, out, heq, hadds, -⟩ := h.bounds.enter_eq hpos
      obtain rfl := Option.some.inj (heq.symm.trans henter)
      have hne : text ≠ [] := by
        rintro rfl
        rw [hline.position.pos] at hpos
        exact absurd hpos (lt_irrefl _)
      have hlog : HoldsLog rows k (historyLog (lines ++ [text])) := by
        rw [historyLog_concat lines hne]
        exact hadds h.log hline.holds_cutLine
      rw [submitted, if_pos ⟨rfl, hpos⟩, hline.line_eq]
      exact ⟨h.active, ⟨[], 0, hasLine_nil rfl rfl⟩, hlog⟩
    · rw [Shell.enter, if_neg hpos] at henter
      obtain rfl := Option.some.inj henter
      rw [submitted, if_neg fun hcond ↦ hpos hcond.2, List.append_nil]
      exact ⟨h.active, (hline.move hline.position.cursor hline.position.cursor_le).line, h.log⟩
  · have hne : c ≠ newline := by
      rintro rfl
      exact absurd hrecall (by decide)
    obtain ⟨buffer, hbuffer⟩ := exists_holdsString h.bounds.buffer
    obtain ⟨saved, hsaved⟩ := exists_holdsString h.bounds.saved
    have hrecalled := h.bounds.historyShow_recalled hpos h.log hbuffer hsaved hshow
    rw [submitted, if_neg fun hcond ↦ hne hcond.1, List.append_nil]
    refine ⟨hrecalled.active.trans h.active, ⟨_, _, hrecalled.line⟩, ?_⟩
    rw [hrecalled.history, hrecalled.count]
    exact h.log
  · rw [submitted, if_neg fun hcond ↦ hne hcond.1, List.append_nil]
    refine ⟨hedit.active.trans h.active, hedit.line, ?_⟩
    rw [hedit.history, hedit.count]
    exact h.log

theorem logged_shellInit (s : Shell) : s.shellInit.Logged [] := by
  refine ⟨s.inBounds_shellInit, rfl, ⟨[], 0, hasLine_nil rfl rfl⟩, ?_, ?_, fun i hi ↦ ?_⟩
  · rw [historyLog, List.destutter_nil, List.rtake_nil]
    rfl
  · rw [historyLog, List.destutter_nil, List.rtake_nil]
    decide
  · simp only [historyLog, List.destutter_nil, List.rtake_nil] at hi
    exact absurd hi (Nat.not_lt_zero i)

/-- **Every run.** -/
theorem logged_of_run {u v : Shell × List (List UInt8)} (hrun : Run LogStep u keys v)
    (h : u.1.Logged u.2) : v.1.Logged v.2 := by
  refine hrun.invariant (I := fun u ↦ u.1.Logged u.2) ?_ h
  intro u c v h hstep
  obtain ⟨t, ht, rfl⟩ := Option.map_eq_some_iff.1 hstep
  exact h.step ht

/-- Every sequence of keys is a run of the shell together with the lines it submits. -/
theorem exists_logRun (h : s.Logged lines) (keys : List UInt8) :
    ∃ v, Run LogStep (s, lines) keys v := by
  induction keys generalizing s lines with
  | nil => exact ⟨_, Run.nil _⟩
  | cons c keys ih =>
    obtain ⟨t, hstep, -⟩ := h.bounds.key c
    have hlog : LogStep (s, lines) c (t, lines ++ s.submitted c) := by
      rw [LogStep, logKey, hstep]
      rfl
    obtain ⟨v, hrun⟩ := ih (h.step hstep)
    exact ⟨v, Run.cons hlog hrun⟩

end Shell

/-- **The history is a bounded log.** Every sequence of keys is taken after `shell_init`, and behind
it the rows of `cmd_history` that are used hold, in order, the last 50 of the lines that were
submitted and were not equal to the last one kept, each as it was when it was submitted. -/
theorem history_bounded_log (s : Shell) (keys : List UInt8) :
    (∃ v, Run Shell.LogStep (s.shellInit, []) keys v) ∧
      ∀ v, Run Shell.LogStep (s.shellInit, []) keys v →
        Shell.HoldsLog v.1.cmdHistory v.1.historyCount ((v.2.destutter (· ≠ ·)).rtake 50) :=
  ⟨Shell.exists_logRun s.logged_shellInit keys,
    fun _ hrun ↦ (Shell.logged_of_run hrun s.logged_shellInit).log⟩

/-- The general theorem on the commands `a`, `a` again, and `b`: the history has two entries. -/
theorem history_bounded_log_repeated :
    ∃ v, Run Shell.LogStep (staleShell.shellInit, []) [0x61, newline, 0x61, newline, 0x62,
      newline] v ∧ v.2 = [[0x61], [0x61], [0x62]] ∧
      Shell.HoldsLog v.1.cmdHistory v.1.historyCount [[0x61], [0x62]] := by
  have hlines : ([0x61, newline, 0x61, newline, 0x62, newline].foldlM Shell.logKey
      (staleShell.shellInit, [])).map Prod.snd = some [[0x61], [0x61], [0x62]] := by decide +kernel
  obtain ⟨v, hrun, hv⟩ := Option.map_eq_some_iff.1 hlines
  have hkept : (v.2.destutter (· ≠ ·)).rtake 50 = [[0x61], [0x62]] := by
    rw [hv]
    decide
  have hrun : Run Shell.LogStep (staleShell.shellInit, []) _ v := Run.of_foldlM hrun
  exact ⟨v, hrun, hv, hkept ▸ (history_bounded_log staleShell _).2 v hrun⟩

end LightNight
