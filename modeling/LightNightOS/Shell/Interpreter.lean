import LightNightOS.Foundation.Words
import LightNightOS.Shell.Recall
import LightNightOS.Shell.Words

/-!
# The commands

What Enter does to a line, from the characters in `cmd_buffer` to the calls of the console:
`interpret` gives a meaning to a list of words, `shellArgs` says which words the shell sees, and
`enter_interprets` that the code computes the one from the other, in every state that the shell can
reach.

`argv` has room for fifteen strings. The last one, in `argv[14]`, is not a word: it goes on to the
end of the line, whatever is there.

* `parseArguments_args` — the scan of the line leaves the words in `argv`;
* `cmdEcho_eq`, `runCommand_eq`, `dispatch_eq` — the commands and the search of the table;
* `Logged.enter` — Enter, in any state whose line is known;
* `enter_interprets` — every session, as a transcript of lines and calls.
-/

namespace LightNight

open CharArray Transition

/-! ### The meaning of a command -/

/-- The strings that the scan of a line finds, with `room` left in `argv`; with `true` the line
continues a word. The last string that there is room for is the rest of the line. -/
def argsFrom : ℕ → Bool → List UInt8 → List (List UInt8)
  | _, _, [] => []
  | room, inArg, c :: rest =>
    if room = 0 then []
    else if isBlank c then argsFrom room false rest
    else if inArg then argsFrom room true rest
    else (if room = 1 then c :: rest else c :: firstRun isBlank rest) ::
      argsFrom (room - 1) true rest

/-- The strings in `argv`, for a line. -/
def shellArgs (text : List UInt8) : List (List UInt8) := argsFrom (maxArgs - 1) false text

/-- What `cmd_help` prints. -/
def helpCalls : List ConsoleCall :=
  printk (ascii "Available commands:\n") ++ commands.flatMap fun (name, description, _) ↦
    printk (ascii "  " ++ (ascii name).rightpad 10 0x20 ++ ascii " - " ++ ascii description ++
      ascii "\n")

/-- What a command does, on its arguments. -/
def Command.calls (args : List (List UInt8)) : Command → List ConsoleCall
  | .echo => printk ((ascii " ").intercalate args) ++ printk (ascii "\n")
  | .help => helpCalls
  | .clear => [.clear]

/-- What the shell says of a name that is none of a command. -/
def unknownCalls (name : List UInt8) : List ConsoleCall :=
  printk (ascii "Unknown command: '" ++ name ++ ascii "'\n") ++
    printk (ascii "Type 'help' for available commands\n")

/-- What a command line does: the first word is looked up in a table. -/
def interpretWith (table : List (String × String × Command)) (name : List UInt8)
    (args : List (List UInt8)) : List ConsoleCall :=
  match table.find? fun entry ↦ ascii entry.1 = name with
  | some (_, _, command) => command.calls args
  | none => unknownCalls name

/-- **What a line does.** A line without a word does nothing, and gets no prompt. -/
def interpret (text : List UInt8) : List ConsoleCall :=
  match shellArgs text with
  | [] => []
  | name :: args => interpretWith commands name args ++ printk prompt

/-- **What Enter does** on a line. -/
def enterCalls (text : List UInt8) : List ConsoleCall :=
  printk (ascii "\n") ++ if text = [] then printk prompt else interpret text

/-! ### The strings in `argv`

The words are read while they are still in the line, where each of them ends at a zero; `Argued`
relates what is parsed so far to the words that are still to come. -/

section Args

variable {room i a k : ℕ} {inArg : Bool} {c : UInt8} {rest text : List UInt8} {p p' : Parse}

theorem argsFrom_zero (inArg : Bool) (rest : List UInt8) : argsFrom 0 inArg rest = [] := by
  cases rest with
  | nil => rw [argsFrom]
  | cons c rest => rw [argsFrom, if_pos rfl]

theorem argsFrom_blank (hroom : 0 < room) (hc : isBlank c = true) :
    argsFrom room inArg (c :: rest) = argsFrom room false rest := by
  rw [argsFrom, if_neg hroom.ne', if_pos hc]

theorem argsFrom_inside (hroom : 0 < room) (hc : isBlank c = false) :
    argsFrom room true (c :: rest) = argsFrom room true rest := by
  rw [argsFrom, if_neg hroom.ne', if_neg (Bool.eq_false_iff.1 hc), if_pos rfl]

/-- A word begins behind a blank: up to the next blank, or to the end of the line if it is the last
one that has room. -/
theorem argsFrom_begin (hroom : 0 < room) (hc : isBlank c = false) :
    argsFrom room false (c :: rest) =
    (if room = 1 then c :: rest else c :: firstRun isBlank rest) ::
      argsFrom (room - 1) true rest := by
  rw [argsFrom, if_neg hroom.ne', if_neg (Bool.eq_false_iff.1 hc), if_neg Bool.false_ne_true]

/-- What the scan of `rest`, from position `i` and with `a` pointers in `argv`, leaves. -/
structure Argued (i a : ℕ) (rest : List UInt8) (p p' : Parse) : Prop where
  argc : p'.argc = (a + (argsFrom (15 - a) p.inArg rest).length : ℕ)
  line : ∀ j < i, p'.line j = p.line j
  argv : ∀ j < a, p'.argv j = p.argv j
  full : a = 15 → p' = p
  ended : a < 15 → p.inArg = true → HoldsString maxCmdLen p'.line i (firstRun isBlank rest)
  arg : ∀ (k : ℕ) (h : k < (argsFrom (15 - a) p.inArg rest).length), ∃ q : ℕ,
    p'.argv (a + k) = some (q : ℤ) ∧
      HoldsString maxCmdLen p'.line q (argsFrom (15 - a) p.inArg rest)[k]

/-- A scan that stops at once. -/
theorem Argued.stop (hline : HoldsString maxCmdLen p.line i rest) (hargc : p.argc = a)
    (hstop : rest = [] ∨ a = 15) : Argued i a rest p p := by
  have hnone : argsFrom (15 - a) p.inArg rest = [] := by
    rcases hstop with rfl | rfl
    · rw [argsFrom]
    · exact argsFrom_zero _ _
  refine ⟨by rw [hnone, hargc]; rfl, fun _ _ ↦ rfl, fun _ _ ↦ rfl, fun _ ↦ rfl, fun hlt _ ↦ ?_,
    fun k hk ↦ ?_⟩
  · obtain rfl := hstop.resolve_right hlt.ne
    exact hline
  · rw [hnone] at hk
    exact absurd hk (Nat.not_lt_zero k)

/-- A character at which no word begins. -/
theorem Argued.skip {q : Parse} (h : Argued (i + 1) a rest q p') (ha : a < 15)
    (hargv : q.argv = p.argv) (hline : ∀ j < i, q.line j = p.line j)
    (hargs : argsFrom (15 - a) p.inArg (c :: rest) = argsFrom (15 - a) q.inArg rest)
    (hended : p.inArg = true → HoldsString maxCmdLen p'.line i (firstRun isBlank (c :: rest))) :
    Argued i a (c :: rest) p p' where
  argc := hargs ▸ h.argc
  line j hj := (h.line j (by omega)).trans (hline j hj)
  argv j hj := hargv ▸ h.argv j hj
  full heq := absurd heq ha.ne
  ended _ := hended
  arg k hk := by
    simp only [hargs] at hk ⊢
    exact h.arg k hk

/-- A character at which a word begins. -/
theorem Argued.begin (h : Argued (i + 1) (a + 1) rest
      { p with
        argv := Function.update p.argv a (some (i : ℤ)), argc := (a + 1 : ℕ), inArg := true } p')
    (hline : HoldsString maxCmdLen p.line i (c :: rest)) (ha : a < 15) (hin : p.inArg = false)
    (hc : isBlank c = false) : Argued i a (c :: rest) p p' := by
  have hargs : argsFrom (15 - a) p.inArg (c :: rest) =
      (if 15 - a = 1 then c :: rest else c :: firstRun isBlank rest) ::
        argsFrom (15 - (a + 1)) true rest := by
    rw [hin, argsFrom_begin (by omega) hc, Nat.sub_add_eq]
  have hfirst : p'.line i = c := (h.line i (Nat.lt_succ_self i)).trans hline.2.1
  have hpointer : p'.argv a = some (i : ℤ) :=
    (h.argv a (Nat.lt_succ_self a)).trans (Function.update_self _ _ _)
  refine ⟨?_, fun j hj ↦ h.line j (by omega), fun j hj ↦ ?_, fun heq ↦ absurd heq ha.ne,
    fun _ htrue ↦ absurd (hin.symm.trans htrue) Bool.false_ne_true, fun k hk ↦ ?_⟩
  · rw [h.argc, hargs, List.length_cons, Nat.add_assoc, Nat.add_comm 1]
  · exact (h.argv j (by omega)).trans (Function.update_of_ne hj.ne _ _)
  · simp only [hargs] at hk ⊢
    cases k with
    | zero =>
      refine ⟨i, hpointer, ?_⟩
      rw [List.getElem_cons_zero]
      split
      case isTrue hlast =>
        -- `argv` is full: nothing behind the character is changed
        rw [h.full (by omega)]
        exact hline
      case isFalse hmore =>
        exact ⟨hline.1, hfirst, hline.2.2.1, h.ended (by omega) rfl⟩
    | succ k =>
      obtain ⟨q, hq, hholds⟩ := h.arg k (Nat.lt_of_succ_lt_succ hk)
      rw [Nat.add_right_comm] at hq
      exact ⟨q, hq, hholds⟩

/-- **The scan**, by induction on what is left of the line. -/
theorem parseFrom_argued (hline : HoldsString maxCmdLen p.line i rest) (hargc : p.argc = a)
    (ha : a ≤ 15) (hk : rest.length < k) :
    ∃ p', parseFromIn maxCmdLen k i p = some p' ∧ Argued i a rest p p' := by
  induction rest generalizing i a k p with
  | nil =>
    obtain ⟨k, rfl⟩ := Nat.exists_eq_add_one.2 (Nat.zero_lt_of_lt hk)
    refine ⟨p, ?_, .stop hline hargc (.inl rfl)⟩
    rw [parseFromIn, load_natCast hline.1, Option.bind_some, if_neg fun h ↦ h.1 hline.2]
  | cons c rest ih =>
    obtain ⟨k, rfl⟩ := Nat.exists_eq_add_one.2 (Nat.zero_lt_of_lt hk)
    have hholds := hline
    obtain ⟨hi, hc, hzero, htail⟩ := hline
    rw [parseFromIn, load_natCast hi, Option.bind_some, hc]
    rcases Nat.lt_or_eq_of_le ha with hlt | rfl
    case inr =>
      -- `argv` is full: the scan stops in front of what is left
      have hstop : ¬(c ≠ 0 ∧ p.argc < maxArgs - 1) := by
        rw [hargc]
        exact fun h ↦ absurd h.2 (by decide)
      rw [if_neg hstop]
      exact ⟨p, rfl, .stop hholds hargc (.inr rfl)⟩
    have hgo : c ≠ 0 ∧ p.argc < maxArgs - 1 := ⟨hzero, by rw [hargc]; simp only [maxArgs]; omega⟩
    have hroom : rest.length < k := Nat.lt_of_succ_lt_succ hk
    have hnext : (i : ℤ) + 1 = (i + 1 : ℕ) := rfl
    rw [if_pos hgo, hnext]
    cases hblank : isBlank c with
    | true =>
      rw [if_pos (isBlank_iff.1 hblank)]
      cases hin : p.inArg with
      | true =>
        -- the blank ends a word, and is overwritten by its zero
        rw [if_pos rfl, store_natCast hi, Option.bind_some]
        obtain ⟨p', hscan, hp'⟩ := ih (i := i + 1) (a := a)
          (p := { p with line := Function.update p.line i 0, inArg := false })
          (htail.congr rfl fun j _ ↦ Function.update_of_ne (by omega) _ _) hargc ha hroom
        refine ⟨p', hscan, hp'.skip hlt rfl (fun j hj ↦ Function.update_of_ne hj.ne _ _) ?_ fun _ ↦
          ?_⟩
        · rw [argsFrom_blank (by omega) hblank]
        · rw [firstRun_sep hblank]
          exact ⟨hi, (hp'.line i (Nat.lt_succ_self i)).trans (Function.update_self _ _ _)⟩
      | false =>
        rw [if_neg Bool.false_ne_true]
        obtain ⟨p', hscan, hp'⟩ := ih (i := i + 1) (a := a) (p := p) htail hargc ha hroom
        refine ⟨p', hscan, hp'.skip hlt rfl (fun _ _ ↦ rfl) ?_ fun htrue ↦ ?_⟩
        · rw [argsFrom_blank (by omega) hblank, hin]
        · exact absurd (hin.symm.trans htrue) Bool.false_ne_true
    | false =>
      rw [if_neg fun h ↦ Bool.false_ne_true (hblank.symm.trans (isBlank_iff.2 h))]
      cases hin : p.inArg with
      | true =>
        rw [if_pos rfl]
        obtain ⟨p', hscan, hp'⟩ := ih (i := i + 1) (a := a) (p := p) htail hargc ha hroom
        refine ⟨p', hscan, hp'.skip hlt rfl (fun _ _ ↦ rfl) ?_ fun _ ↦ ?_⟩
        · rw [hin, argsFrom_inside (by omega) hblank]
        · rw [firstRun_cons hblank]
          exact ⟨hi, (hp'.line i (Nat.lt_succ_self i)).trans hc, hzero, hp'.ended hlt hin⟩
      | false =>
        -- a word begins, and takes the next pointer
        have hset : setArg p.argv p.argc (some (i : ℤ)) =
            some (Function.update p.argv a (some (i : ℤ))) := by
          rw [setArg, hargc, if_pos ⟨Int.natCast_nonneg a, by simp only [maxArgs]; omega⟩,
            Int.toNat_natCast]
        have hcount : p.argc + 1 = (a + 1 : ℕ) := by
          rw [hargc]
          rfl
        rw [if_neg Bool.false_ne_true, hset, Option.bind_some, hcount]
        obtain ⟨p', hscan, hp'⟩ := ih (i := i + 1) (a := a + 1)
          (p := { p with
            argv := Function.update p.argv a (some (i : ℤ)), argc := (a + 1 : ℕ), inArg := true })
          htail rfl hlt hroom
        exact ⟨p', hscan, hp'.begin hholds hlt hin hblank⟩

/-- There are no more words than there is room for. -/
theorem length_argsFrom_le (room : ℕ) (inArg : Bool) (rest : List UInt8) :
    (argsFrom room inArg rest).length ≤ room := by
  induction rest generalizing room inArg with
  | nil => exact Nat.zero_le _
  | cons c rest ih =>
    rw [argsFrom]
    split
    · exact Nat.zero_le _
    split
    · exact ih _ _
    split
    · exact ih _ _
    · have hrest := ih (room - 1) true
      rw [List.length_cons]
      omega

/-- `argc` and the strings in `argv`. -/
structure HasArgs (p : Parse) (args : List (List UInt8)) : Prop where
  argc : p.argc = args.length
  arg : ∀ (k : ℕ) (h : k < args.length), ∃ q : ℕ,
    p.arg k = some (q : ℤ) ∧ HoldsString maxCmdLen p.line q args[k]

/-- **`parse_arguments`** on a line. -/
theorem parseArguments_args {line : ℕ → UInt8} (hline : HoldsString maxCmdLen line 0 text) :
    ∃ p, parseArguments line = some p ∧ HasArgs p (shellArgs text) := by
  have hlt := hline.lt
  have hlength : (shellArgs text).length ≤ 15 := length_argsFrom_le 15 false text
  obtain ⟨p, hscan, hp⟩ :=
    parseFrom_argued (k := maxCmdLen) (p := ⟨line, fun _ ↦ none, 0, false⟩) hline
    (a := 0) rfl (by decide) (by omega)
  have hargc : p.argc = ((shellArgs text).length : ℕ) := hp.argc.trans (congrArg _ (Nat.zero_add _))
  have hset : setArg p.argv p.argc none =
      some (Function.update p.argv (shellArgs text).length none) := by
    rw [setArg, hargc, if_pos ⟨Int.natCast_nonneg _, by simp only [maxArgs]; omega⟩,
      Int.toNat_natCast]
  refine ⟨{ p with argv := Function.update p.argv (shellArgs text).length none }, ?_, hargc,
    fun k hk ↦ ?_⟩
  · rw [Nat.cast_zero] at hscan
    simp only [parseArguments, parseArgumentsIn, hscan, hset, Option.bind_eq_bind, Option.bind_some]
    rfl
  · obtain ⟨q, hq, hholds⟩ := hp.arg k hk
    rw [Nat.zero_add] at hq
    refine ⟨q, ?_, hholds⟩
    rw [Parse.arg, if_pos ⟨Int.natCast_nonneg k, by simp only [maxArgs]; omega⟩, Int.toNat_natCast]
    show Function.update p.argv _ none k = _
    rw [Function.update_of_ne hk.ne, hq]

end Args

/-! ### The commands

What each command prints is a function of its arguments. `echo` puts one blank between them, however
many were typed. -/

namespace Shell

section Commands

variable {s : Shell} {p : Parse} {name : List UInt8} {args : List (List UInt8)}

theorem emit_emit (calls calls' : List ConsoleCall) :
    (s.emit calls).emit calls' = s.emit (calls ++ calls') := by
  rw [emit, emit, emit, List.append_assoc]

theorem printk_append (text text' : List UInt8) :
    printk (text ++ text') = printk text ++ printk text' :=
  List.map_append

/-- The arguments that `cmd_echo` has printed after `k` turns of its loop, and a blank if more are
to come. -/
def echoed (args : List (List UInt8)) (k : ℕ) : List UInt8 :=
  (ascii " ").intercalate (args.take k) ++ if 0 < k ∧ k < args.length then ascii " " else []

/-- One more list at the end. -/
theorem intercalate_concat {α : Type*} (sep : List α) (l : List (List α)) (x : List α) :
    sep.intercalate (l ++ [x]) = sep.intercalate l ++ (if l = [] then [] else sep) ++ x := by
  induction l with
  | nil => rw [List.nil_append, List.intercalate_singleton, if_pos rfl]; rfl
  | cons y l ih =>
    rw [List.cons_append, List.intercalate_cons_of_ne_nil (List.concat_ne_nil x l), ih,
      if_neg (List.cons_ne_nil y l)]
    cases l with
    | nil => rw [if_pos rfl, List.intercalate_singleton, List.intercalate_nil, List.append_nil,
        List.nil_append]
    | cons z l =>
      rw [if_neg (List.cons_ne_nil z l), List.intercalate_cons_cons]; simp only [List.append_assoc]

theorem echoed_succ {k : ℕ} (hk : k < args.length) : echoed args (k + 1) =
    echoed args k ++ (args[k] ++ if k + 1 < args.length then ascii " " else []) := by
  have htake : args.take k = [] ↔ k = 0 := by
    rw [List.take_eq_nil_iff, or_iff_left]
    rintro rfl
    exact absurd hk (Nat.not_lt_zero k)
  rw [echoed, echoed, List.take_add_one, List.getElem?_eq_getElem hk, Option.toList_some,
    intercalate_concat]
  simp only [htake, hk, Nat.succ_pos, true_and, and_true, Nat.pos_iff_ne_zero, ite_not, ne_eq,
    List.append_assoc]

/-- **`cmd_echo`** prints its arguments, with a blank between any two. -/
theorem cmdEcho_eq (h : HasArgs p (name :: args)) :
    s.cmdEcho p = some (s.emit (Command.echo.calls args)) := by
  have hargc : p.argc - 1 = (args.length : ℕ) := by
    rw [h.argc, List.length_cons]
    omega
  have hturns : (p.argc - 1).toNat = args.length := by
    rw [hargc, Int.toNat_natCast]
  have hfirst : printk (echoed args 0) = [] := rfl
  obtain ⟨t, hloop, rfl⟩ := forLoopM_invariant (n := (p.argc - 1).toNat) (s := s)
    (f := fun k s ↦ do
      let i : ℤ := k + 1
      let arg ← p.arg i
      let text ← stringAt maxCmdLen p.line arg
      let s := emit s (printk text)
      return if i < p.argc - 1 then s.emit (printk (ascii " ")) else s)
    (I := fun k t ↦ t = s.emit (printk (echoed args k)))
    (by rw [hfirst, emit, List.append_nil]) fun k hk t ht ↦ by
      rw [hturns] at hk
      obtain ⟨q, hq, hholds⟩ := h.arg (k + 1) (Nat.succ_lt_succ hk)
      have hnext : ((k : ℤ) + 1 < (args.length : ℕ)) ↔ k + 1 < args.length := by omega
      rw [Nat.cast_succ] at hq
      simp only [hq, hholds.stringAt_eq, Option.bind_eq_bind, Option.bind_some, hargc, hnext, ht]
      refine ⟨_, rfl, ?_⟩
      rw [echoed_succ hk, List.getElem_cons_succ]
      split
      · rw [emit_emit, emit_emit, printk_append, printk_append]
      · rw [emit_emit, List.append_nil, printk_append]
  have hlast : echoed args args.length = (ascii " ").intercalate args := by
    rw [echoed, List.take_length, if_neg fun h ↦ absurd h.2 (lt_irrefl _), List.append_nil]
  rw [cmdEcho, hloop, Option.map_some, hturns, hlast, emit_emit]
  rfl

/-- A command makes the calls that its meaning lists. -/
theorem runCommand_eq (h : HasArgs p (name :: args)) (command : Command) :
    s.runCommand p command = some (s.emit (command.calls args)) := by
  cases command with
  | echo => exact cmdEcho_eq h
  | help => rfl
  | clear => rfl

/-- **The search in the table** finds what has the name. -/
theorem dispatch_eq (h : HasArgs p (name :: args)) {table : List (String × String × Command)}
    (htable : ∀ entry ∈ table, 0 ∉ ascii entry.1) :
    s.dispatch p table = some (s.emit (interpretWith table name args)) := by
  obtain ⟨q, hq, hholds⟩ := h.arg 0 (Nat.succ_pos _)
  have hq : p.arg 0 = some (q : ℤ) := hq
  rw [List.getElem_cons_zero] at hholds
  induction table with
  | nil =>
    simp only [dispatch, hq, hholds.stringAt_eq, Option.bind_eq_bind, Option.bind_some]
    rfl
  | cons entry table ih =>
    obtain ⟨title, description, command⟩ := entry
    obtain ⟨d, hd, hequal⟩ := hholds.strcmp_eq (holdsString_ascii (htable _ List.mem_cons_self))
    have hrest := ih fun entry hentry ↦ htable entry (List.mem_cons_of_mem _ hentry)
    simp only [dispatch, hq, hd, Option.bind_eq_bind, Option.bind_some, interpretWith,
      List.find?_cons]
    split
    case isTrue hzero =>
      rw [decide_eq_true (hequal.1 hzero).symm, runCommand_eq h]
    case isFalse hne =>
      rw [decide_eq_false fun heq ↦ hne (hequal.2 heq.symm), hrest]
      rfl

end Commands

/-! ### Enter -/

section Enter

variable {s t : Shell} {text : List UInt8}

/-- `execute_command` on a line that is not empty: beside the history and the line itself, which is
cut, it only makes the calls of the line. -/
theorem InBounds.executeCommand_interprets (h : s.InBounds) (hpos : 0 < s.cmdPos)
    (htext : HoldsString maxCmdLen s.cutLine 0 text) : ∃ rows k line,
    s.executeCommand = some { s with
      cmdBuffer := line
      cmdHistory := rows
      historyCount := k
      output := s.output ++ interpret text } := by
  obtain ⟨log, hlog⟩ := h.history.exists_log
  obtain ⟨rows, k, hadd, -⟩ := historyAdd_holds (s := { s with cmdBuffer := s.cutLine }) hlog htext
  obtain ⟨p, hparse, hargs⟩ := parseArguments_args htext
  refine ⟨rows, k, p.line, ?_⟩
  rw [executeCommand, if_neg hpos.ne']
  simp only [h.store_cut.1, hadd, hparse, Option.bind_eq_bind, Option.bind_some, interpret]
  cases hwords : shellArgs text with
  | nil =>
    have hargc : p.argc = 0 := by
      rw [hargs.argc, hwords]
      rfl
    rw [if_pos hargc, List.append_nil]
  | cons name args =>
    rw [hwords] at hargs
    have hargc : p.argc ≠ 0 := by
      rw [hargs.argc, List.length_cons]
      omega
    have hdispatch := dispatch_eq (s := { s with
      cmdBuffer := p.line, cmdHistory := rows, historyCount := k }) hargs
      (show ∀ entry ∈ commands, 0 ∉ ascii entry.1 by decide)
    rw [if_neg hargc, hdispatch, Option.bind_some, emit_emit]
    rfl

/-- **Enter** makes the calls of the line, and goes on with an empty one. -/
theorem Logged.enter {lines : List (List UInt8)} (h : s.Logged lines) (hstep : s.Step newline t) :
    t.output = s.output ++ enterCalls s.line ∧ t.line = [] := by
  obtain ⟨text, cur, hline⟩ := h.line
  have hat := hline.position
  have hstep : s.shellProcessInput newline = some t := hstep
  rw [shellProcessInput, h.active, Bool.not_true, if_neg Bool.false_ne_true, if_neg (by decide),
    if_pos rfl, Shell.enter] at hstep
  rw [hline.line_eq, enterCalls]
  rcases List.eq_nil_or_concat text with rfl | ⟨front, c, rfl⟩
  · -- the prompt is printed again
    have hzero : s.cmdPos = 0 := hat.pos
    rw [if_neg (by rw [hzero]; decide)] at hstep
    obtain rfl := Option.some.inj hstep
    have hcursor : s.cursorPos = 0 := by
      rw [hat.cursor, Nat.le_zero.1 hat.cursor_le]
      rfl
    exact ⟨rfl, (hasLine_nil (s := s.emit _) hzero hcursor).line_eq⟩
  · have hpos : 0 < s.cmdPos := by
      rw [hat.pos, List.concat_eq_append, List.length_append, List.length_singleton]
      omega
    have hbounds : ({ s with cmdBuffer := s.cutLine }.emit (printk (ascii "\n"))).InBounds :=
      { h.bounds with buffer := h.bounds.store_cut.2 }
    have htwice : ({ s with cmdBuffer := s.cutLine }.emit (printk (ascii "\n"))).cutLine =
      s.cutLine :=
      Function.update_idem _ _ _
    obtain ⟨rows, k, line, hexec⟩ := hbounds.executeCommand_interprets hpos
      (htwice.symm ▸ hline.holds_cutLine)
    rw [if_pos hpos] at hstep
    simp only [h.bounds.store_cut.1, hexec, Option.bind_eq_bind, Option.bind_some] at hstep
    obtain rfl := Option.some.inj hstep
    refine ⟨?_, rfl⟩
    rw [if_neg (by simp), ← List.append_assoc]
    rfl

end Enter

/-! ### Sessions -/

/-- One key; and, for each Enter so far, the line that it was pressed on and the calls that it
made. -/
def transcriptKey (u : Shell × List (List UInt8 × List ConsoleCall)) (c : UInt8) :
    Option (Shell × List (List UInt8 × List ConsoleCall)) :=
  (u.1.shellProcessInput c).map fun t ↦
    (t, u.2 ++ if c = newline then [(u.1.line, t.output.drop u.1.output.length)] else [])

/-- One key as a step. -/
def TranscriptStep (u : Shell × List (List UInt8 × List ConsoleCall)) (c : UInt8)
    (v : Shell × List (List UInt8 × List ConsoleCall)) : Prop := transcriptKey u c = some v

theorem transcriptStep_of {s t : Shell} {c : UInt8} (h : s.Step c t)
    (log : List (List UInt8 × List ConsoleCall)) : TranscriptStep (s, log) c
      (t, log ++ if c = newline then [(s.line, t.output.drop s.output.length)] else []) :=
  Option.map_eq_some_iff.2 ⟨t, h, rfl⟩

/-- Blanks do not matter between words. -/
example : interpret (ascii "  echo a   b ") = printk (ascii "a b\n> ") := by decide +kernel

/-- **The shell computes what the lines mean.** Whatever keys are pressed after the shell has
started, with lines edited and recalled in any way between, each Enter makes exactly the calls that
the interpreter gives to the line that it was pressed on. -/
theorem enter_interprets {keys : List UInt8} {v : Shell × List (List UInt8 × List ConsoleCall)}
    (hrun : Run TranscriptStep (boot.shellInit, []) keys v) :
    ∀ entry ∈ v.2, entry.2 = enterCalls entry.1 := by
  refine (hrun.invariant (I := fun u ↦ (∃ lines, u.1.Logged lines) ∧ ∀ entry ∈ u.2,
    entry.2 = enterCalls entry.1)
    (fun hu hstep ↦ ?_) ⟨⟨[], logged_shellInit boot⟩, List.forall_mem_nil _⟩).2
  obtain ⟨⟨lines, hlogged⟩, hall⟩ := hu
  obtain ⟨t, ht, rfl⟩ := Option.map_eq_some_iff.1 hstep
  refine ⟨⟨_, hlogged.step ht⟩, List.forall_mem_append.2 ⟨hall, ?_⟩⟩
  split
  case isTrue henter =>
    rw [henter] at ht
    refine List.forall_mem_singleton.2 ?_
    show List.drop _ t.output = _
    rw [(hlogged.enter ht).1, List.drop_left]
  case isFalse => exact List.forall_mem_nil _

/-- `x` and Enter: there is no such command. -/
theorem enter_interprets_unknown : ∃ v, Run TranscriptStep (boot.shellInit, []) [0x78, newline] v ∧
    ∀ entry ∈ v.2, entry.2 = enterCalls entry.1 := by
  obtain ⟨s, hs, hbounds⟩ := boot.inBounds_shellInit.key 0x78
  obtain ⟨t, ht, -⟩ := hbounds.key newline
  have hrun := (Run.single (transcriptStep_of hs [])).snoc (transcriptStep_of ht _)
  exact ⟨_, hrun, enter_interprets hrun⟩

end Shell

end LightNight
