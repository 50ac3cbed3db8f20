import LightNightOS.Shell.Interpreter

/-!
# What the shell asks of the console

Whatever is typed, the shell prints only printable characters and newlines, in grey on black, and
steps to the left and to the right, and clears the screen (`Reached.calls`). It never asks for
another row, for a tab, or for another terminal, so the parts of the console that depend on these
stay as they are while it runs.

The list of the calls that a key can make is `ShellCall`. For each function of the shell the calls
that it adds to `output` are in the list, if the text that it prints is; and that is the case since
the text comes from the arrays of the shell (`Textual`).
-/

namespace LightNight

open CharArray Transition

/-- A printable character or a newline. -/
def Legible (c : UInt8) : Prop := c = newline ∨ 32 ≤ c ∧ c ≤ 126

instance (c : UInt8) : Decidable (Legible c) := inferInstanceAs (Decidable (_ ∨ _))

/-- The calls that the shell makes. -/
def ShellCall : ConsoleCall → Prop
  | .print c fg bg => Legible c ∧ fg = vgaLightGrey ∧ bg = vgaBlack
  | .clear | .left | .right => True
  | _ => False

theorem shellCall_printk {text : List UInt8} (h : ∀ c ∈ text, Legible c) :
    ∀ a ∈ printk text, ShellCall a := by
  intro a ha
  obtain ⟨c, hc, rfl⟩ := List.mem_map.1 ha
  exact ⟨h c hc, rfl, rfl⟩

theorem shellCall_blank : ShellCall (printChar 0x20) := ⟨by decide, rfl, rfl⟩

/-- The characters of a string in an array of text. -/
theorem legible_of_every {n i : ℕ} {b : ℕ → UInt8} {text : List UInt8} (hb : Every TextByte b)
    (htext : HoldsString n b i text) : ∀ c ∈ text, Legible c := by
  intro c hc
  obtain ⟨j, hj, rfl⟩ := List.mem_iff_getElem.1 hc
  obtain ⟨heq, hne⟩ := htext.getElem hj
  exact Or.inr ((heq ▸ hb (i + j)).resolve_left hne)

/-! ### Commands -/

section Commands

variable {c : UInt8} {text word name : List UInt8} {args : List (List UInt8)}

/-- The characters of the words are those of the line. -/
theorem mem_argsFrom {room : ℕ} {inArg : Bool} (hword : word ∈ argsFrom room inArg text)
    (hc : c ∈ word) :
    c ∈ text := by
  induction text generalizing room inArg with
  | nil =>
    rw [argsFrom] at hword
    exact absurd hword List.not_mem_nil
  | cons d rest ih =>
    rw [argsFrom] at hword
    split at hword
    · exact absurd hword List.not_mem_nil
    split at hword
    · exact List.mem_cons_of_mem d (ih hword)
    split at hword
    · exact List.mem_cons_of_mem d (ih hword)
    rcases List.mem_cons.1 hword with rfl | hword
    · split at hc
      · exact hc
      · exact List.cons_subset_cons d (List.takeWhile_sublist _).subset hc
    · exact List.mem_cons_of_mem d (ih hword)

theorem mem_intercalate {sep : List UInt8} {l : List (List UInt8)} (hc : c ∈ sep.intercalate l) :
    c ∈ sep ∨ ∃ word ∈ l, c ∈ word := by
  induction l with
  | nil => exact absurd hc List.not_mem_nil
  | cons x l ih =>
    rcases eq_or_ne l [] with rfl | hne
    · rw [List.intercalate_singleton] at hc
      exact Or.inr ⟨x, List.mem_cons_self, hc⟩
    · rw [List.intercalate_cons_of_ne_nil hne, List.mem_append, List.mem_append] at hc
      rcases hc with (hc | hc) | hc
      · exact Or.inr ⟨x, List.mem_cons_self, hc⟩
      · exact Or.inl hc
      · rcases ih hc with hsep | ⟨word, hword, hmem⟩
        exacts [Or.inl hsep, Or.inr ⟨word, List.mem_cons_of_mem x hword, hmem⟩]

theorem shellCall_help : ∀ a ∈ helpCalls, ShellCall a := by
  refine List.forall_mem_append.2 ⟨shellCall_printk (by decide +kernel), ?_⟩
  show ∀ a ∈ commands.flatMap fun entry ↦ _, ShellCall a
  intro a ha
  obtain ⟨entry, hentry, hmem⟩ := List.mem_flatMap.1 ha
  have hlegible : ∀ entry ∈ commands,
      ∀ c ∈ ascii "  " ++ (ascii entry.1).rightpad 10 0x20 ++ ascii " - " ++
      ascii entry.2.1 ++ ascii "\n", Legible c := by decide +kernel
  exact shellCall_printk (hlegible entry hentry) a hmem

theorem shellCall_command (hargs : ∀ word ∈ args, ∀ c ∈ word, Legible c) (command : Command) :
    ∀ a ∈ command.calls args, ShellCall a := by
  cases command with
  | echo =>
    refine List.forall_mem_append.2 ⟨shellCall_printk fun c hc ↦ ?_,
      shellCall_printk (by decide +kernel)⟩
    rcases mem_intercalate hc with hblank | ⟨word, hword, hmem⟩
    · have hall : ∀ c ∈ ascii " ", Legible c := by decide +kernel
      exact hall c hblank
    · exact hargs word hword c hmem
  | help => exact shellCall_help
  | clear => exact List.forall_mem_singleton.2 trivial

theorem shellCall_unknown (hname : ∀ c ∈ name, Legible c) :
    ∀ a ∈ unknownCalls name, ShellCall a := by
  refine List.forall_mem_append.2 ⟨shellCall_printk ?_, shellCall_printk (by decide +kernel)⟩
  refine List.forall_mem_append.2
    ⟨List.forall_mem_append.2 ⟨by decide +kernel, hname⟩, by decide +kernel⟩

/-- Whatever the words are, a command only makes calls that are in the list. -/
theorem shellCall_interpretWith (table : List (String × String × Command))
    (hname : ∀ c ∈ name, Legible c) (hargs : ∀ word ∈ args, ∀ c ∈ word, Legible c) :
    ∀ a ∈ interpretWith table name args, ShellCall a := by
  rw [interpretWith]
  split
  · exact shellCall_command hargs _
  · exact shellCall_unknown hname

theorem shellCall_enter (htext : ∀ c ∈ text, Legible c) : ∀ a ∈ enterCalls text, ShellCall a := by
  have hprompt : ∀ a ∈ printk prompt, ShellCall a := shellCall_printk (by decide +kernel)
  have hwords : ∀ word ∈ shellArgs text, ∀ c ∈ word, Legible c := fun word hword c hc ↦
    htext c (mem_argsFrom hword hc)
  refine List.forall_mem_append.2 ⟨shellCall_printk (by decide +kernel), ?_⟩
  split
  · exact hprompt
  rw [interpret]
  cases hargs : shellArgs text with
  | nil => exact List.forall_mem_nil _
  | cons name args =>
    rw [hargs] at hwords
    exact List.forall_mem_append.2 ⟨shellCall_interpretWith _ (hwords name List.mem_cons_self)
      fun word hword ↦ hwords word (List.mem_cons_of_mem name hword), hprompt⟩

end Commands

/-! ### Keys -/

namespace Shell

section Keys

variable {s t : Shell} {c : UInt8} {len cur : ℕ} {text rest : List UInt8}

/-- From `s` to `t` the shell has made calls, each of which it may make. -/
def Calls (s t : Shell) : Prop := ∃ calls, t.output = s.output ++ calls ∧ ∀ a ∈ calls, ShellCall a

theorem calls_same (s : Shell) : Calls s s := ⟨[], (List.append_nil _).symm, List.forall_mem_nil _⟩

/-- What is read as a string of an array of text. -/
theorem legible_readFrom {n k : ℕ} {b : ℕ → UInt8} {i : ℤ} (hb : Every TextByte b)
    (heq : readFrom n b k i = some text) : ∀ c ∈ text, Legible c := by
  induction k generalizing i text with
  | zero => cases heq
  | succ k ih =>
    rw [readFrom] at heq
    obtain ⟨c, hload, heq⟩ := Option.bind_eq_some_iff.1 heq
    split at heq
    case isTrue =>
      obtain rfl := Option.some.inj heq
      exact List.forall_mem_nil _
    case isFalse hne =>
      obtain ⟨tail, htail, rfl⟩ := Option.map_eq_some_iff.1 heq
      exact List.forall_mem_cons.2 ⟨Or.inr ((hb.load hload).resolve_left hne), ih htail⟩

theorem shellCall_lefts (n : ℕ) : ∀ a ∈ List.replicate n ConsoleCall.left, ShellCall a :=
  fun _ ha ↦ List.eq_of_mem_replicate ha ▸ trivial

theorem shellCall_rights (n : ℕ) : ∀ a ∈ List.replicate n ConsoleCall.right, ShellCall a :=
  fun _ ha ↦ List.eq_of_mem_replicate ha ▸ trivial

/-- Redrawing a line prints what is left of it, and steps back. -/
theorem shellCall_redraw {b : ℕ → UInt8} (hb : Every TextByte b) (hrest : Rest b len cur rest)
    (steps : ℕ) :
    ∀ a ∈ redrawCalls rest steps, ShellCall a := by
  have hlegible : ∀ c ∈ rest, Legible c := by
    rw [Rest] at hrest
    split at hrest
    · exact legible_readFrom hb hrest
    · obtain rfl := Option.some.inj hrest
      exact List.forall_mem_nil _
  rw [redrawCalls]
  exact List.forall_mem_append.2 ⟨shellCall_printk hlegible, List.forall_mem_cons.2
    ⟨shellCall_blank, shellCall_lefts _⟩⟩

theorem shellCall_replace (htext : ∀ c ∈ text, Legible c) (oldLen : ℕ) :
    ∀ a ∈ replaceCalls oldLen text, ShellCall a := by
  refine List.forall_mem_append.2
    ⟨List.forall_mem_append.2 ⟨shellCall_lefts _, shellCall_printk htext⟩, ?_⟩
  split
  · exact List.forall_mem_append.2
      ⟨fun _ ha ↦ List.eq_of_mem_replicate ha ▸ shellCall_blank, shellCall_lefts _⟩
  · exact List.forall_mem_nil _

/-- Inserting a character only makes calls that are in the list. -/
theorem Textual.calls_insertChar (h : s.Textual) (hat : s.At len cur)
    (heq : s.insertChar c = some t) :
    Calls s t := by
  rcases Decidable.em (s.cmdPos < maxCmdLen - 1 ∧ 32 ≤ c ∧ c ≤ 126) with hcond | hcond
  · have hroom : len < maxCmdLen - 1 := by
      have hlt := hcond.1
      rw [hat.pos] at hlt
      omega
    obtain ⟨rest, hrest, hinsert⟩ := hat.insertChar hroom hcond.2
    obtain rfl := Option.some.inj (hinsert.symm.trans heq)
    refine ⟨_, rfl, List.forall_mem_cons.2 ⟨⟨Or.inr hcond.2, rfl, rfl⟩, ?_⟩⟩
    split
    · exact shellCall_redraw (inserted_every h.buffer _ _ (Or.inr hcond.2)) hrest _
    · exact List.forall_mem_nil _
  · rw [Shell.insertChar, if_neg hcond] at heq
    exact Option.some.inj heq ▸ calls_same s

theorem Textual.calls_deleteChar (h : s.Textual) (hat : s.At len cur)
    (heq : s.deleteChar = some t) :
    Calls s t := by
  rcases Nat.lt_or_ge cur len with hlt | hge
  · obtain ⟨rest, hrest, hdelete⟩ := hat.deleteChar hlt
    obtain rfl := Option.some.inj (hdelete.symm.trans heq)
    exact ⟨_, rfl, shellCall_redraw (deleted_every h.buffer _ _) hrest _⟩
  · rw [Shell.deleteChar, if_neg (by rw [hat.cursor, hat.pos]; omega)] at heq
    exact Option.some.inj heq ▸ calls_same s

theorem Textual.calls_backspaceChar (h : s.Textual) (hat : s.At len cur)
    (heq : s.backspaceChar = some t) : Calls s t := by
  rcases Nat.eq_zero_or_pos cur with hzero | hpos
  · rw [Shell.backspaceChar, if_neg (by rw [hat.cursor, hzero]; decide)] at heq
    exact Option.some.inj heq ▸ calls_same s
  · obtain ⟨rest, hrest, hback⟩ := hat.backspaceChar hpos
    obtain rfl := Option.some.inj (hback.symm.trans heq)
    exact ⟨_, rfl, List.forall_mem_cons.2
      ⟨trivial, shellCall_redraw (deleted_every h.buffer _ _) hrest _⟩⟩

/-- Recall prints what is in the buffer afterwards. -/
theorem InBounds.calls_historyShow (h : s.InBounds) (ht : t.Textual) (hat : s.At len cur)
    (hpos : 0 < s.historyCount) {direction : ℤ} (heq : s.historyShow direction = some t) :
    Calls s t := by
  obtain ⟨u, cmd, hshow, hrecall⟩ := h.historyShow_eq hpos direction
  obtain ⟨text, htext⟩ := exists_holdsString hrecall.terminated
  have hu : u.At len cur :=
    ⟨hrecall.pos.trans hat.pos, hrecall.cursor.trans hat.cursor, hat.cursor_le, hat.lt⟩
  have hlt := htext.lt
  rw [hshow, hu.replaceLine htext] at heq
  obtain rfl := Option.some.inj heq
  refine ⟨replaceCalls len text, ?_, shellCall_replace ?_ len⟩
  · rw [emit, hrecall.output]
  · exact legible_of_every ht.buffer (htext.copy (m := maxCmdLen) u.cmdBuffer (by omega))

/-- Keys that move the cursor, delete or recall a line only make calls that are in the list. -/
theorem InBounds.calls_specialKey (h : s.InBounds) (hs : s.Textual) (ht : t.Textual)
    (hat : s.At len cur) (heq : s.specialKey c = some t) : Calls s t := by
  have hone : ∀ {a : ConsoleCall}, ShellCall a → ∀ b ∈ [a], ShellCall b := fun ha ↦
    List.forall_mem_singleton.2 ha
  have hmove : ∀ {p : ℤ}, 0 ≤ p → p ≤ s.cmdPos → Calls s (s.moveCursorTo p) := by
    intro p hp hle
    rw [moveCursorTo_eq hp hle]
    exact ⟨_, rfl, List.forall_mem_append.2 ⟨shellCall_rights _, shellCall_lefts _⟩⟩
  have hcursor := h.cursor_nonneg
  have hle := h.cursor_le
  rw [Shell.specialKey] at heq
  split at heq
  · split at heq
    exacts [Option.some.inj heq ▸ ⟨_, rfl, hone trivial⟩, Option.some.inj heq ▸ calls_same s]
  split at heq
  · split at heq
    exacts [Option.some.inj heq ▸ ⟨_, rfl, hone trivial⟩, Option.some.inj heq ▸ calls_same s]
  split at heq
  · split at heq
    exacts [h.calls_historyShow ht hat ‹_› heq, Option.some.inj heq ▸ calls_same s]
  split at heq
  · split at heq
    exacts [h.calls_historyShow ht hat ‹_› heq, Option.some.inj heq ▸ calls_same s]
  split at heq
  · exact Option.some.inj heq ▸ hmove le_rfl (hcursor.trans hle)
  split at heq
  · exact Option.some.inj heq ▸ hmove (hcursor.trans hle) le_rfl
  · exact hs.calls_deleteChar hat heq

/-- **Every key**: the shell only prints text, steps to the left and to the right, and clears the
screen. -/
theorem Reached.calls (hs : s.Reached) (hstep : s.Step c t) : Calls s t := by
  obtain ⟨hbounds, htextual⟩ := hs.sound
  obtain ⟨lines, hlogged⟩ := hs.logged
  obtain ⟨text, cur, hline⟩ := hlogged.line
  have ht : t.Textual := htextual.key hbounds hstep
  have hkey : s.shellProcessInput c = some t := hstep
  rw [shellProcessInput, hlogged.active, Bool.not_true, if_neg Bool.false_ne_true] at hkey
  split at hkey
  · exact hbounds.calls_specialKey htextual ht hline.position hkey
  split at hkey
  case isTrue henter =>
    rw [henter] at hstep
    refine ⟨enterCalls s.line, (hlogged.enter hstep).1, shellCall_enter ?_⟩
    rw [hline.line_eq]
    exact legible_of_every (htextual.buffer.update textByte_zero s.cmdPos.toNat) hline.holds_cutLine
  split at hkey
  · exact htextual.calls_backspaceChar hline.position hkey
  · exact htextual.calls_insertChar hline.position hkey

end Keys

end Shell

end LightNight
