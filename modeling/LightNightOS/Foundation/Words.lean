import Mathlib.Data.List.Basic

/-!
# The words of a line

A line is cut at its separators, and its words are the pieces that are not empty. A program reads
the line from left to right and remembers only whether it is inside a word; `wordsFrom` is the list
of the words that begin in what is still to be read, and `words_eq` says that it is the same list.
-/

variable {α : Type*} (sep : α → Bool)

/-- The maximal runs of characters that are not separators. -/
def words (line : List α) : List (List α) := (line.splitOnP sep).filter (!·.isEmpty)

/-- The characters up to the first separator. -/
def firstRun (line : List α) : List α := line.takeWhile (!sep ·)

/-- The words that begin in the line. With `true` the line continues a word. -/
def wordsFrom : Bool → List α → List (List α)
  | _, [] => []
  | inWord, c :: line =>
    if sep c then wordsFrom false line
    else if inWord then wordsFrom true line
    else (c :: firstRun sep line) :: wordsFrom true line

/-- The line does not end with a separator. -/
def EndsInWord (line : List α) : Prop := ∀ c ∈ line.getLast?, sep c = false

variable {sep} {line : List α} {c : α}

theorem firstRun_sep (hc : sep c = true) : firstRun sep (c :: line) = [] := by
  rw [firstRun, List.takeWhile_cons, hc]
  rfl

theorem firstRun_cons (hc : sep c = false) :
    firstRun sep (c :: line) = c :: firstRun sep line := by
  rw [firstRun, List.takeWhile_cons, hc]
  rfl

theorem wordsFrom_sep (hc : sep c = true) (inWord : Bool) :
    wordsFrom sep inWord (c :: line) = wordsFrom sep false line := by
  rw [wordsFrom, if_pos hc]

theorem wordsFrom_true (hc : sep c = false) :
    wordsFrom sep true (c :: line) = wordsFrom sep true line := by
  rw [wordsFrom, if_neg (Bool.eq_false_iff.1 hc), if_pos rfl]

theorem wordsFrom_false (hc : sep c = false) :
    wordsFrom sep false (c :: line) = (c :: firstRun sep line) :: wordsFrom sep true line := by
  rw [wordsFrom, if_neg (Bool.eq_false_iff.1 hc), if_neg Bool.false_ne_true]

/-- A line that continues no word begins with one, or with a separator, or is empty. -/
theorem wordsFrom_false_eq (line : List α) : wordsFrom sep false line =
    if (firstRun sep line).isEmpty then wordsFrom sep true line
    else firstRun sep line :: wordsFrom sep true line := by
  cases line with
  | nil => rfl
  | cons c line =>
    cases hc : sep c with
    | true => rw [firstRun_sep hc, wordsFrom_sep hc, wordsFrom_sep hc, List.isEmpty_nil, if_pos rfl]
    | false =>
      rw [firstRun_cons hc, wordsFrom_false hc, wordsFrom_true hc, List.isEmpty_cons,
        if_neg Bool.false_ne_true]

/-- The first piece of a line, and the words in the others. -/
theorem splitOnP_eq (line : List α) : ∃ pieces, line.splitOnP sep = firstRun sep line :: pieces ∧
    pieces.filter (!·.isEmpty) = wordsFrom sep true line := by
  induction line with
  | nil => exact ⟨[], List.splitOnP_nil, rfl⟩
  | cons c line ih =>
    obtain ⟨pieces, hsplit, hpieces⟩ := ih
    rw [List.splitOnP_cons_eq_if_modifyHead, hsplit]
    cases hc : sep c with
    | true =>
      refine ⟨firstRun sep line :: pieces, by rw [if_pos rfl, firstRun_sep hc], ?_⟩
      rw [wordsFrom_sep hc, wordsFrom_false_eq, List.filter_cons, hpieces]
      cases (firstRun sep line).isEmpty <;> rfl
    | false =>
      refine ⟨pieces, by rw [if_neg Bool.false_ne_true, firstRun_cons hc, List.modifyHead_cons], ?_⟩
      rw [hpieces, wordsFrom_true hc]

/-- **The words** are those that begin in the line. -/
theorem words_eq (line : List α) : words sep line = wordsFrom sep false line := by
  obtain ⟨pieces, hsplit, hpieces⟩ := @splitOnP_eq α sep line
  rw [words, hsplit, wordsFrom_false_eq, List.filter_cons, hpieces]
  cases (firstRun sep line).isEmpty <;> rfl

/-! ### The end of a line -/

/-- The end of a line does not depend on its beginning. -/
theorem endsInWord_cons (hne : line ≠ []) : EndsInWord sep (c :: line) ↔ EndsInWord sep line := by
  rw [EndsInWord, EndsInWord, List.getLast?_cons, List.getLast?_eq_some_getLast hne]
  rfl

theorem wordsFrom_nil_iff : wordsFrom sep false line = [] ↔ ∀ c ∈ line, sep c = true := by
  induction line with
  | nil => exact iff_of_true rfl fun _ h ↦ absurd h List.not_mem_nil
  | cons c line ih =>
    rw [List.forall_mem_cons]
    cases hc : sep c with
    | true => rw [wordsFrom_sep hc, ih, and_iff_right rfl]
    | false =>
      rw [wordsFrom_false hc]
      exact iff_of_false (List.cons_ne_nil _ _) fun h ↦ Bool.false_ne_true h.1

/-- A line is the rest of one word if no other begins in it and it does not end with a separator. -/
theorem firstRun_eq_self_iff :
    firstRun sep line = line ↔ wordsFrom sep true line = [] ∧ EndsInWord sep line := by
  induction line with
  | nil => exact iff_of_true rfl ⟨rfl, fun _ h ↦ absurd h (by simp)⟩
  | cons c line ih =>
    cases hc : sep c with
    | true =>
      rw [firstRun_sep hc, wordsFrom_sep hc, wordsFrom_nil_iff]
      refine iff_of_false (List.cons_ne_nil _ _).symm fun ⟨hall, hend⟩ ↦ ?_
      -- the last character is a separator
      have hlast : sep ((c :: line).getLast (List.cons_ne_nil _ _)) = true := by
        rcases List.mem_cons.1 (List.getLast_mem (List.cons_ne_nil c line)) with h | h
        · rw [h]
          exact hc
        · exact hall _ h
      have := hend _ (List.getLast?_eq_some_getLast (List.cons_ne_nil c line))
      exact Bool.false_ne_true (this.symm.trans hlast)
    | false =>
      rw [firstRun_cons hc, wordsFrom_true hc, List.cons.injEq, and_iff_right rfl, ih]
      by_cases hne : line = []
      · subst hne
        refine iff_of_true ⟨rfl, fun _ h ↦ absurd h (by simp)⟩ ⟨rfl, fun d h ↦ ?_⟩
        rw [List.getLast?_singleton, Option.mem_some_iff] at h
        exact h ▸ hc
      · rw [endsInWord_cons hne]
