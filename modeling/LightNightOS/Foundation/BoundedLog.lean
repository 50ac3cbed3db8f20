import Mathlib.Data.List.Destutter
import Mathlib.Data.List.DropRight

/-!
# Bounded logs

A log to which an entry is added only if it is not the last one again is `List.destutter (· ≠ ·)` of
everything that was offered; one that keeps the last `n` entries is its `List.rtake n`. The rules
say what one more entry does to each, and that the last entry of the log can be read off what is
kept of it.

`List.destutter` and `List.rtake` are defined from the front and from the back of a list. An entry
is added at the back, so the rule for the first needs an induction and that for the second none.
-/

namespace List

variable {α : Type*}

/-- The last `n` entries. -/
theorem length_rtake (l : List α) (n : ℕ) : (l.rtake n).length = min n l.length := by
  rw [rtake, length_drop]
  omega

/-- **One more entry** in a log of at most `n + 1`: if it is full, the oldest goes. -/
theorem rtake_concat (l : List α) (n : ℕ) (x : α) : (l ++ [x]).rtake (n + 1) =
    (if n + 1 ≤ (l.rtake (n + 1)).length then (l.rtake (n + 1)).tail
      else l.rtake (n + 1)) ++ [x] := by
  rw [rtake_concat_succ, append_left_inj, length_rtake]
  split
  case isTrue hfull =>
    have hstart : l.length - n = l.length - (n + 1) + 1 := by omega
    rw [rtake, rtake, hstart, tail_drop]
  case isFalse hroom =>
    have hstart : l.length - n = 0 := by omega
    have hstart' : l.length - (n + 1) = 0 := by omega
    rw [rtake, rtake, hstart, hstart']

/-- What is kept of a log has the same last entry. -/
theorem getLast?_rtake (l : List α) (n : ℕ) : (l.rtake (n + 1)).getLast? = l.getLast? := by
  induction l using List.reverseRecOn with
  | nil => rw [rtake_nil]
  | append_singleton l x => rw [rtake_concat_succ, getLast?_concat, getLast?_concat]

variable [DecidableEq α]

/-- One more entry, for the auxiliary function that carries the entry before. -/
theorem destutter'_concat (l : List α) (a x : α) : (l ++ [x]).destutter' (· ≠ ·) a =
    if (l.destutter' (· ≠ ·) a).getLast? = some x then l.destutter' (· ≠ ·) a
    else l.destutter' (· ≠ ·) a ++ [x] := by
  induction l generalizing a with
  | nil =>
    rw [nil_append, destutter'_singleton, destutter'_nil, getLast?_singleton]
    by_cases h : a = x
    · rw [if_neg (not_not_intro h), if_pos (congrArg some h)]
    · rw [if_pos h, if_neg fun heq ↦ h (Option.some.inj heq)]
      rfl
  | cons b l ih =>
    rw [cons_append]
    by_cases h : a ≠ b
    · obtain ⟨c, rest, hrest⟩ := exists_cons_of_ne_nil (destutter'_ne_nil (a := b) l (· ≠ ·))
      rw [destutter'_cons_pos _ h, destutter'_cons_pos _ h, ih, hrest, getLast?_cons_cons]
      split <;> rfl
    · rw [destutter'_cons_neg _ h, destutter'_cons_neg _ h, ih]

/-- **One more offer** to a log without repetitions. -/
theorem destutter_concat (l : List α) (x : α) : (l ++ [x]).destutter (· ≠ ·) =
    if (l.destutter (· ≠ ·)).getLast? = some x then l.destutter (· ≠ ·)
    else l.destutter (· ≠ ·) ++ [x] := by
  cases l with
  | nil => rfl
  | cons a l => rw [cons_append, destutter_cons', destutter_cons', destutter'_concat]

end List
