import LightNightOS.Interrupts.Delivery
import LightNightOS.Shell.Editing
import LightNightOS.Shell.Interpreter

/-!
# Typing a command

The whole way of a command: scan codes that come at any time, two interrupt controllers, the handler
of the keyboard, the line editor, and the interpreter. Each part has its own module, and its own
description of what it should do; here they meet (`script_runs`). What the user types is a list of
editing keys for each line. The meaning of it is the text that the ideal editor has after these
keys, and the calls that the interpreter gives to this text.
-/

namespace LightNight

open Transition

namespace Shell

variable {s t : Shell} {lines : List (List UInt8)} {log : List (List UInt8 × List ConsoleCall)}
  {cs : List UInt8}

/-! ### Lines

One line of the script: from an empty line the editing keys lead to the text that the ideal editor
has, and Enter gives this text to the interpreter. The lines of the script follow one another. -/

/-- A script: the keys of each line. -/
abbrev Script := List (List (EditKey UInt8))

/-- What the shell gets for a script: there is an Enter behind each line. -/
def Script.keys (script : Script) : List UInt8 :=
  script.flatMap fun line ↦ line.map keyCode ++ [newline]

/-- **What a script means**: the texts, and the calls that they make. -/
def Script.meaning (script : Script) : List (List UInt8 × List ConsoleCall) :=
  script.map fun line ↦
    ((Line.typed (maxCmdLen - 1) line).text, enterCalls (Line.typed (maxCmdLen - 1) line).text)

theorem keyCode_ne_newline {k : EditKey UInt8} (hk : Printable k) : keyCode k ≠ newline := by
  cases k with
  | insert c =>
    rintro rfl
    exact absurd hk.1 (by decide)
  | _ => decide

/-- Keys other than Enter make no entry. -/
theorem transcript_quiet (hrun : Run Step s cs t) (hquiet : ∀ c ∈ cs, c ≠ newline) :
    Run TranscriptStep (s, log) cs (t, log) := by
  induction hrun with
  | nil => exact Run.nil _
  | @snoc s' t cs c _ hstep ih =>
    have hentry := transcriptStep_of hstep log
    rw [if_neg (hquiet c (List.mem_append_right _ (List.mem_singleton_self c))),
      List.append_nil] at hentry
    exact (ih fun c hc ↦ hquiet c (List.mem_append_left _ hc)).snoc hentry

/-- Whatever is typed, the history is that of some lines. -/
theorem Logged.run (h : s.Logged lines) (hrun : Run Step s cs t) : ∃ lines', t.Logged lines' := by
  refine hrun.invariant (I := fun s ↦ ∃ lines, s.Logged lines) (fun hs hstep ↦ ?_) ⟨lines, h⟩
  obtain ⟨lines, hs⟩ := hs
  exact ⟨_, hs.step hstep⟩

/-- An empty line is that of the ideal editor. -/
theorem Logged.showsLine_empty (h : s.Logged lines) (hline : s.line = []) :
    s.ShowsLine Line.empty := by
  obtain ⟨text, cur, hheld⟩ := h.line
  obtain rfl := hheld.line_eq.symm.trans hline
  have hat := hheld.position
  refine ⟨h.active, hat.pos, ?_, fun _ hi ↦ absurd hi (Nat.not_lt_zero _)⟩
  rw [hat.cursor, Nat.le_zero.1 hat.cursor_le]
  rfl

/-- The text that the shell shows is its line. -/
theorem ShowsLine.line_eq {l : Line UInt8 (maxCmdLen - 1)} (h : s.ShowsLine l) :
    s.line = l.text := by
  rw [Shell.line, h.pos, Int.toNat_natCast]
  refine List.ext_getElem (by simp) fun i hi hi' ↦ ?_
  rw [List.getElem_map, List.getElem_range]
  exact h.text i hi'

/-- **One line**, from an empty one to an empty one. -/
theorem runs_line (h : s.Logged lines) (hempty : s.ShowsLine Line.empty)
    {line : List (EditKey UInt8)} (hline : ∀ k ∈ line, Printable k)
    (log : List (List UInt8 × List ConsoleCall)) :
    ∃ t lines', t.Logged lines' ∧ t.ShowsLine Line.empty ∧
      Run TranscriptStep (s, log) (line.map keyCode ++ [newline])
        (t, log ++ Script.meaning [line]) := by
  obtain ⟨u, hrun, hu⟩ := hempty.keys hline
  obtain ⟨linesᵤ, hlogged⟩ := h.run hrun
  obtain ⟨t, hstep, -⟩ := hlogged.bounds.key newline
  obtain ⟨hcalls, hnew⟩ := hlogged.enter hstep
  have hquiet : ∀ k ∈ line.map keyCode, k ≠ newline := by
    intro k hk
    obtain ⟨key, hkey, rfl⟩ := List.mem_map.1 hk
    exact keyCode_ne_newline (hline key hkey)
  have hentry := transcriptStep_of hstep log
  have htext : u.line = (Line.typed (maxCmdLen - 1) line).text := hu.line_eq
  rw [if_pos rfl, hcalls, List.drop_left, htext] at hentry
  exact ⟨t, _, hlogged.step hstep, (hlogged.step hstep).showsLine_empty hnew,
    (transcript_quiet hrun hquiet).snoc hentry⟩

/-- **Every line of a script.** -/
theorem runs_script {script : Script} (h : s.Logged lines) (hempty : s.ShowsLine Line.empty)
    (hscript : ∀ line ∈ script, ∀ k ∈ line, Printable k)
    (log : List (List UInt8 × List ConsoleCall)) :
    ∃ t, Run TranscriptStep (s, log) script.keys (t, log ++ script.meaning) := by
  induction script generalizing s lines log with
  | nil =>
    refine ⟨s, ?_⟩
    show Run TranscriptStep (s, log) [] (s, log ++ [])
    rw [List.append_nil]
    exact Run.nil _
  | cons line script ih =>
    obtain ⟨hline, hrest⟩ := List.forall_mem_cons.1 hscript
    obtain ⟨u, linesᵤ, hlogged, hu, hfirst⟩ := runs_line h hempty hline log
    obtain ⟨t, hlast⟩ := ih hlogged hu hrest (log ++ Script.meaning [line])
    rw [List.append_assoc] at hlast
    exact ⟨t, hfirst.append hlast⟩

end Shell

/-! ### The machine

The codes may come in any number of interrupts, with ticks between them; what the shell has seen of
them at the end is the script. -/

section Script

variable {vga : ℕ → UInt16} {calls : List ConsoleCall} {console : Console} {pics : Pics}
  {buffered : List UInt8}
  {events : List MachineEvent} {m : Machine} {script : Shell.Script}

/-- A transcript is a run of the shell. -/
theorem run_of_transcript {u v : Shell × List (List UInt8 × List ConsoleCall)} {keys : List UInt8}
    (hrun : Run Shell.TranscriptStep u keys v) : Run Shell.Step u.1 keys v.1 := by
  induction hrun with
  | nil => exact Run.nil _
  | snoc _ hstep ih =>
    obtain ⟨t, ht, rfl⟩ := Option.map_eq_some_iff.1 hstep
    exact ih.snoc ht

/-- **A script that is typed is run.** Whenever its scan codes come, with releases of keys, switches
of the terminal and ticks of the timer among them, and between any two accesses of the handlers:
when the machine has come to rest, which it does, the shell has gone through the keys of the script,
and for each of the lines, in order, it had the text that the ideal editor makes of the keys and
made the calls that the interpreter gives to that text. -/
theorem script_runs
    (hboot : Run (Guarded Console.TabGuard ConsoleStep) (Console.boot vga).consoleInit
      calls console)
    (hbuffered : buffered.length ≤ 256) (hscript : ∀ line ∈ script, ∀ k ∈ line, Shell.Printable k)
    (htyped : (scancodes events).filterMap typedKey = script.keys)
    (hrun : Run MachineStep (Machine.booted pics buffered console) events m) :
    ∃ n v, Run MachineStep m (List.replicate n .run) v ∧ v.proceed = none ∧ v.waiting = [] ∧
      Run Shell.TranscriptStep (Shell.boot.shellInit, []) script.keys
        (v.session.shell, script.meaning) := by
  obtain ⟨n, -, v, hsteps, hhalted, -, hempty, -, hhandled⟩ :=
    (delivers_of_run (Session.sound_of_boot hboot).1 hbuffered hrun).drains
  obtain ⟨t, htranscript⟩ := Shell.runs_script Shell.boot.logged_shellInit
    ⟨rfl, rfl, rfl, fun _ hi ↦ absurd hi (Nat.not_lt_zero _)⟩ hscript []
  refine ⟨n, v, hsteps, hhalted, hempty, ?_⟩
  -- the shell of the machine has gone through the same keys
  obtain ⟨w, hw, hkeys⟩ :=
    Session.scans_type (u := Session.started console) ⟨[], .nil _⟩ (scancodes events)
  rw [Session.keyboardHandlerC, hw, Option.map_some] at hhandled
  have hshell : v.session.shell = w.shell :=
    (congrArg Session.shell (Option.some.inj hhandled)).symm
  rw [htyped] at hkeys
  rw [hshell, hkeys.unique (run_of_transcript htranscript) Shell.step_unique]
  exact htranscript

/-- The codes of keys alone. -/
theorem exists_run_keys (m : Machine) (codes : List UInt8) :
    ∃ n, Run MachineStep m (codes.map MachineEvent.key) n := by
  induction codes generalizing m with
  | nil => exact ⟨m, Run.nil m⟩
  | cons code codes ih =>
    obtain ⟨n, hrun⟩ := ih _
    exact ⟨n, Run.cons rfl hrun⟩

/-- The command `a`, with the release of its key. -/
theorem script_runs_single : ∃ m,
    Run MachineStep (Machine.booted rawPics [] Session.sampleConsole)
      ([0x1E, 0x9E, 0x1C].map .key) m ∧
    ∃ n v, Run MachineStep m (List.replicate n .run) v ∧ v.proceed = none ∧ v.waiting = [] ∧
      Run Shell.TranscriptStep (Shell.boot.shellInit, []) (Shell.Script.keys [[.insert 0x61]])
        (v.session.shell, Shell.Script.meaning [[.insert 0x61]]) := by
  obtain ⟨m, hrun⟩ :=
    exists_run_keys (Machine.booted rawPics [] Session.sampleConsole) [0x1E, 0x9E, 0x1C]
  have hscript : ∀ line ∈ ([[.insert 0x61]] : Shell.Script), ∀ k ∈ line, Shell.Printable k :=
    List.forall_mem_singleton.2 (List.forall_mem_singleton.2 ⟨by decide, by decide⟩)
  exact ⟨m, hrun, script_runs Session.run_sampleConsole (by decide) hscript
    (by decide +kernel) hrun⟩

end Script

end LightNight
