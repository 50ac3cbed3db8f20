import Mathlib.Data.List.InsertIdx

/-!
# The ideal line editor

A line of bounded length with a cursor in it, and the keys that edit it: insert at the cursor,
delete before it or at it, and move it. The bounds are fields of the line, so a cursor outside the
text or a text that is too long cannot be built.

`Shows b text` says that an array starts with a text. Its rules say how the array has to change for
the text to change as the editor says.

* `Line.insert`, `Line.backspace`, `Line.delete`, `Line.moveTo` — the edits, which do nothing where
  there is nothing to do;
* `Line.typed` — the text behind a sequence of keys, from an empty line on.
-/

/-- A line of at most `cap` characters, and a cursor in it. -/
@[ext] structure Line (α : Type*) (cap : ℕ) where
  text : List α
  cursor : ℕ
  cursor_le : cursor ≤ text.length
  length_le : text.length ≤ cap

/-- What can be done to a line. -/
inductive EditKey (α : Type*)
  | insert (a : α)
  | backspace
  | delete
  | left
  | right
  | home
  | toEnd

namespace Line

variable {α : Type*} {cap : ℕ} (l : Line α cap)

/-- The empty line. -/
def empty : Line α cap := ⟨[], 0, Nat.le_refl 0, Nat.zero_le cap⟩

/-- Insert at the cursor. A full line is left alone. -/
def insert (a : α) : Line α cap :=
  if h : l.text.length < cap then
    have hlen := List.length_insertIdx_of_le_length l.cursor_le a
    { text := l.text.insertIdx l.cursor a
      cursor := l.cursor + 1
      cursor_le := hlen ▸ Nat.succ_le_succ l.cursor_le
      length_le := hlen ▸ h }
  else l

/-- Delete before the cursor. -/
def backspace : Line α cap :=
  if h : 0 < l.cursor then
    have hlen : (l.text.eraseIdx (l.cursor - 1)).length = l.text.length - 1 :=
      List.length_eraseIdx_of_lt (by have := l.cursor_le; omega)
    { text := l.text.eraseIdx (l.cursor - 1)
      cursor := l.cursor - 1
      cursor_le := by have := l.cursor_le; omega
      length_le := by have := l.length_le; omega }
  else l

/-- Delete at the cursor. -/
def delete : Line α cap :=
  if h : l.cursor < l.text.length then
    have hlen := List.length_eraseIdx_of_lt h
    { text := l.text.eraseIdx l.cursor
      cursor := l.cursor
      cursor_le := by omega
      length_le := by have := l.length_le; omega }
  else l

/-- Move the cursor. -/
def moveTo (cursor : ℕ) (h : cursor ≤ l.text.length) : Line α cap :=
  { l with cursor := cursor, cursor_le := h }

/-- One key. -/
def edit : EditKey α → Line α cap
  | .insert a => l.insert a
  | .backspace => l.backspace
  | .delete => l.delete
  | .left => l.moveTo (l.cursor - 1) (Nat.le_trans (Nat.sub_le _ _) l.cursor_le)
  | .right => l.moveTo (min (l.cursor + 1) l.text.length) (Nat.min_le_right _ _)
  | .home => l.moveTo 0 (Nat.zero_le _)
  | .toEnd => l.moveTo l.text.length (Nat.le_refl _)

/-- The line after some keys, from the empty line. -/
def typed (cap : ℕ) (keys : List (EditKey α)) : Line α cap := keys.foldl edit empty

end Line

/-! ### A text in an array -/

/-- The array starts with the text. -/
def Shows {α : Type*} (b : ℕ → α) (text : List α) : Prop :=
  ∀ i (h : i < text.length), b i = text[i]

namespace Shows

variable {α : Type*} {b b' : ℕ → α} {text : List α} {cursor : ℕ}

/-- The text depends only on its own characters. -/
theorem congr (h : Shows b text) (hb : ∀ i < text.length, b' i = b i) : Shows b' text :=
  fun i hi ↦ (hb i hi).trans (h i hi)

/-- Inserting: what is behind the cursor moves right. -/
theorem insertIdx {a : α} (h : Shows b text) (hcursor : cursor ≤ text.length)
    (hb : ∀ i ≤ text.length, b' i = if i = cursor then a else if cursor < i then b (i - 1)
      else b i) :
    Shows b' (text.insertIdx cursor a) := by
  intro i hi
  rw [List.length_insertIdx_of_le_length hcursor] at hi
  rw [hb i (Nat.le_of_lt_succ hi), List.getElem_insertIdx]
  rcases Nat.lt_trichotomy i cursor with hlt | rfl | hlt
  · rw [if_neg (Nat.ne_of_lt hlt), if_neg (Nat.lt_asymm hlt), dif_pos hlt]
    exact h i _
  · rw [if_pos rfl, dif_neg (Nat.lt_irrefl i), dif_pos rfl]
  · rw [if_neg (Nat.ne_of_gt hlt), if_pos hlt, dif_neg (Nat.lt_asymm hlt),
      dif_neg (Nat.ne_of_gt hlt)]
    exact h (i - 1) _

/-- Deleting: what is behind moves left. -/
theorem eraseIdx (h : Shows b text) (hcursor : cursor < text.length)
    (hb : ∀ i < text.length - 1, b' i = if cursor ≤ i then b (i + 1) else b i) :
    Shows b' (text.eraseIdx cursor) := by
  intro i hi
  rw [List.length_eraseIdx_of_lt hcursor] at hi
  rw [hb i hi, List.getElem_eraseIdx]
  by_cases hle : cursor ≤ i
  · rw [if_pos hle, dif_neg (Nat.not_lt.2 hle)]
    exact h (i + 1) _
  · rw [if_neg hle, dif_pos (Nat.lt_of_not_le hle)]
    exact h i _

end Shows
