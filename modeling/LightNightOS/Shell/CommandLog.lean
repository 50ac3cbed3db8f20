import LightNightOS.Foundation.BoundedLog
import LightNightOS.Shell.Input

/-!
# The rows of the history

`HoldsLog` relates the rows that are used to a list of lines, oldest first. `history_add` compares
strings and copies strings, row by row; on the list it is one more offer to a bounded log without
repetitions (`historyAdd_holds`).

* `copyToRow_holds`, `makeRoom_log` — one row is written, and all rows move up by one;
* `isLastEntry_eq` — the comparison with the last row is the comparison with the last entry;
* `historyAdd_holds` — what `history_add` does to the rows is what is done to the log.
-/

namespace LightNight

open CharArray

namespace Shell

variable {s : Shell} {rows : ℕ → ℕ → UInt8} {src : ℕ → UInt8} {log : List (List UInt8)}
  {text : List UInt8} {i : ℕ} {k : ℤ}

/-- The first `k` rows hold the lines of the log. -/
structure HoldsLog (rows : ℕ → ℕ → UInt8) (k : ℤ) (log : List (List UInt8)) : Prop where
  count : k = log.length
  le : log.length ≤ maxCmdHistory
  row : ∀ (i : ℕ) (h : i < log.length), HoldsString maxCmdLen (rows i) 0 log[i]

/-- The history after some lines were submitted: the last 50 of those that were not repetitions of
the one before. -/
def historyLog (lines : List (List UInt8)) : List (List UInt8) :=
  (lines.destutter (· ≠ ·)).rtake maxCmdHistory

theorem historyRow_natCast (hi : i < maxCmdHistory) : historyRow rows i = some (rows i) :=
  if_pos ⟨Int.natCast_nonneg i, Int.ofNat_lt.2 hi⟩

/-- `str_copy` to a row. -/
theorem copyToRow_holds (rows : ℕ → ℕ → UInt8) (hi : i < maxCmdHistory)
    (hsrc : HoldsString maxCmdLen src 0 text) :
    ∃ rows', copyToRow rows i src = some rows' ∧ HoldsString maxCmdLen (rows' i) 0 text ∧
      ∀ j ≠ i, rows' j = rows j := by
  have hlt := hsrc.lt
  have hcopy := hsrc.strCopy_eq (m := maxCmdLen) (rows i) (by omega)
  refine ⟨Function.update rows i fun j ↦ if j ≤ text.length then src j else rows i j, ?_, ?_,
    fun j hj ↦ Function.update_of_ne hj _ _⟩
  · simp only [copyToRow, historyRow_natCast hi, hcopy, Option.bind_eq_bind, Option.bind_some,
      Int.toNat_natCast]
    rfl
  · rw [Function.update_self]
    exact hsrc.copy _ (by omega)

/-- The rows move up by one: the oldest line is gone. -/
theorem makeRoom_log (h : HoldsLog s.cmdHistory s.historyCount log) : ∃ rows k,
    s.makeRoom = some { s with cmdHistory := rows, historyCount := k } ∧ k < maxCmdHistory ∧
      HoldsLog rows k (if maxCmdHistory ≤ log.length then log.tail else log) := by
  have hcount := h.count
  rw [makeRoom]
  by_cases hfull : maxCmdHistory ≤ log.length
  · have hlength : log.length = maxCmdHistory := le_antisymm h.le hfull
    -- rows below `k` have moved, the others have not been touched
    obtain ⟨rows, hloop, hmoved, -⟩ :=
      forLoopM_invariant (n := maxCmdHistory - 1) (s := s.cmdHistory)
      (f := fun i rows ↦ (historyRow rows (i + 1)).bind (copyToRow rows i))
      (I := fun k rows ↦
        (∀ (i : ℕ) (h : i + 1 < log.length), i < k → HoldsString maxCmdLen (rows i) 0 log[i + 1]) ∧
        ∀ i, k ≤ i → rows i = s.cmdHistory i)
      ⟨fun i _ hi ↦ absurd hi (Nat.not_lt_zero i), fun _ _ ↦ rfl⟩
      fun k hk rows ⟨hmoved, hrest⟩ ↦ by
        have hlt : k + 1 < log.length := by omega
        have hnext : HoldsString maxCmdLen (rows (k + 1)) 0 log[k + 1] := by
          rw [hrest (k + 1) (Nat.le_succ k)]
          exact h.row _ hlt
        have hread : historyRow rows ((k : ℤ) + 1) = some (rows (k + 1)) :=
          historyRow_natCast (hlt.trans_le h.le)
        obtain ⟨rows', hcopy, hself, hother⟩ := copyToRow_holds rows
          (show k < maxCmdHistory by omega) hnext
        refine ⟨rows', by rw [hread, Option.bind_some, hcopy], fun i hi hik ↦ ?_, fun i hi ↦ ?_⟩
        · by_cases heq : i = k
          · subst heq
            exact hself
          · rw [hother i heq]
            exact hmoved i hi (by omega)
        · rw [hother i (by omega), hrest i (by omega)]
    have htail : log.tail.length = maxCmdHistory - 1 := by rw [List.length_tail, hlength]
    rw [if_pos (by omega), if_pos hfull, hloop]
    refine ⟨rows, maxCmdHistory - 1, rfl, by decide, by rw [htail]; rfl, by omega, fun i hi ↦ ?_⟩
    rw [List.getElem_tail]
    exact hmoved i (by omega) (by omega)
  · rw [if_neg (by omega), if_neg hfull]
    exact ⟨s.cmdHistory, s.historyCount, rfl, by omega, h⟩

/-- `strcmp` finds out whether the line is the newest entry. -/
theorem isLastEntry_eq (h : HoldsLog s.cmdHistory s.historyCount log)
    (hsrc : HoldsString maxCmdLen src 0 text) :
    s.isLastEntry src = some (decide (log.getLast? = some text)) := by
  have hcount := h.count
  have hle := h.le
  rw [isLastEntry]
  by_cases hnil : log = []
  · subst hnil
    rw [hcount]
    rfl
  · have hpos : 0 < log.length := List.length_pos_of_ne_nil hnil
    have hindex : s.historyCount - 1 = (log.length - 1 : ℕ) := by omega
    obtain ⟨d, hd, hiff⟩ := (h.row (log.length - 1) (by omega)).strcmp_eq hsrc
    rw [Nat.cast_zero] at hd
    rw [if_pos (by omega), hindex, historyRow_natCast (by omega)]
    simp only [Option.bind_eq_bind, Option.bind_some, hd]
    have hlast : log.getLast? = some log[log.length - 1] := by
      rw [List.getLast?_eq_getElem?]
      exact List.getElem?_eq_getElem (by omega)
    refine congrArg some (decide_eq_decide.2 (hiff.trans ?_))
    rw [hlast, Option.some.injEq]

/-- The log after `history_add`. -/
def offered (log : List (List UInt8)) (text : List UInt8) : List (List UInt8) :=
  if text = [] ∨ log.getLast? = some text then log
  else (if maxCmdHistory ≤ log.length then log.tail else log) ++ [text]

/-- **`history_add`** on the rows. -/
theorem historyAdd_holds (h : HoldsLog s.cmdHistory s.historyCount log)
    (hline : HoldsString maxCmdLen s.cmdBuffer 0 text) : ∃ rows k,
      s.historyAdd = some { s with cmdHistory := rows, historyCount := k } ∧
        HoldsLog rows k (offered log text) := by
  rw [offered]
  cases text with
  | nil =>
    have hfirst : load maxCmdLen s.cmdBuffer 0 = some 0 := by
      have hload := load_natCast (b := s.cmdBuffer) hline.1
      rwa [hline.2] at hload
    refine ⟨s.cmdHistory, s.historyCount, ?_, by rwa [if_pos (.inl rfl)]⟩
    simp only [historyAdd, hfirst, Option.bind_eq_bind, Option.bind_some, if_true]
  | cons c rest =>
    have hfirst : load maxCmdLen s.cmdBuffer 0 = some c := by
      have hload := load_natCast (b := s.cmdBuffer) hline.1
      rwa [hline.2.1] at hload
    simp only [historyAdd, hfirst, isLastEntry_eq h hline, Option.bind_eq_bind, Option.bind_some,
      if_neg hline.2.2.1, List.cons_ne_nil, false_or]
    by_cases hsame : log.getLast? = some (c :: rest)
    · exact ⟨s.cmdHistory, s.historyCount, if_pos (decide_eq_true hsame), by rwa [if_pos hsame]⟩
    · obtain ⟨rows, k, hroom, hlt, hrows⟩ := makeRoom_log h
      rw [if_neg (by rw [decide_eq_true_iff]; exact hsame), if_neg hsame, hroom]
      generalize (if maxCmdHistory ≤ log.length then log.tail else log) = kept at hrows
      have hcount := hrows.count
      obtain ⟨rows', hcopy, hself, hother⟩ := copyToRow_holds rows
        (show kept.length < maxCmdHistory by omega) hline
      rw [← hcount] at hcopy
      refine ⟨rows', k + 1, ?_, ?_, ?_, fun i hi ↦ ?_⟩
      · simp only [Option.bind_some, hcopy]
        rfl
      · rw [List.length_append, hcount]
        rfl
      · rw [List.length_append, List.length_singleton]
        omega
      · rw [List.length_append, List.length_singleton] at hi
        by_cases heq : i = kept.length
        · subst heq
          rw [List.getElem_concat_length rfl]
          exact hself
        · rw [hother i heq, List.getElem_append_left (by omega)]
          exact hrows.row i (by omega)

/-- The history after one more line. -/
theorem historyLog_concat (lines : List (List UInt8)) (hne : text ≠ []) :
    historyLog (lines ++ [text]) = offered (historyLog lines) text := by
  have hlast : (historyLog lines).getLast? = (lines.destutter (· ≠ ·)).getLast? :=
    List.getLast?_rtake _ _
  rw [offered, hlast, historyLog, List.destutter_concat]
  by_cases hsame : (lines.destutter (· ≠ ·)).getLast? = some text
  · rw [if_pos hsame, if_pos (.inr hsame), historyLog]
  · rw [if_neg hsame, if_neg (not_or_intro hne hsame)]
    exact List.rtake_concat _ _ _

end Shell

end LightNight
