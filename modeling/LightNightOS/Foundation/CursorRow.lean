import Mathlib.Data.List.Basic
import Mathlib.Tactic.Common

/-!
# A row of cells with a cursor

A display that is written to at a cursor: a stroke puts a value into the cell at the cursor and
moves on, or moves the cursor by one cell. A program that draws this way says where to go in steps
relative to where it is, so what it has drawn depends on every step before.

`draw_puts`, `draw_lefts` and `draw_rights` say what a run of equal strokes does; `overlay` is the
row with a list of values written over it. `Inside` says that a sequence of strokes stays on a row
of a given width.
-/

/-- The cells of a row and the cell the cursor is at. -/
structure CursorRow (α : Type*) where
  pos : ℕ
  cell : ℕ → α

/-- What is done at the cursor. -/
inductive Stroke (α : Type*)
  | put (a : α)
  | left
  | right

/-- The cells with `l` written over them from `p` on. -/
def overlay {α : Type*} (cell : ℕ → α) (p : ℕ) (l : List α) (i : ℕ) : α :=
  if i < p then cell i else l.getD (i - p) (cell i)

namespace CursorRow

variable {α : Type*} (d : CursorRow α)

/-- One stroke. -/
def stroke : Stroke α → CursorRow α
  | .put a => ⟨d.pos + 1, overlay d.cell d.pos [a]⟩
  | .left => ⟨d.pos - 1, d.cell⟩
  | .right => ⟨d.pos + 1, d.cell⟩

/-- Some strokes. -/
def draw (l : List (Stroke α)) : CursorRow α := l.foldl stroke d

/-- The stroke stays on a row of `width` cells. The cursor may rest behind the last cell after a
`put`, and nowhere else. -/
def Stays (width : ℕ) : Stroke α → Prop
  | .put _ => d.pos < width
  | .left => 0 < d.pos
  | .right => d.pos + 1 < width

/-- All the strokes stay on the row. -/
def Inside (width : ℕ) (d : CursorRow α) : List (Stroke α) → Prop
  | [] => True
  | a :: l => d.Stays width a ∧ (d.stroke a).Inside width l

variable {d} {width : ℕ}

theorem draw_append (l l' : List (Stroke α)) : d.draw (l ++ l') = (d.draw l).draw l' :=
  List.foldl_append

/-- A drawing in two parts stays inside if both do. -/
theorem inside_append {l l' : List (Stroke α)} :
    d.Inside width (l ++ l') ↔ d.Inside width l ∧ (d.draw l).Inside width l' := by
  induction l generalizing d with
  | nil => simp [Inside, draw]
  | cons a l ih =>
    rw [List.cons_append, Inside, Inside, ih, and_assoc]
    rfl

/-! ### Runs of equal strokes -/

/-- In front of what is written over it the row is as it was. -/
theorem overlay_of_lt {cell : ℕ → α} {p i : ℕ} {l : List α} (h : i < p) :
    overlay cell p l i = cell i :=
  if_pos h

/-- A cell of what is written over it, or behind that the old one. -/
theorem overlay_add (cell : ℕ → α) (p k : ℕ) (l : List α) :
    overlay cell p l (p + k) = l.getD k (cell (p + k)) := by
  rw [overlay, if_neg (Nat.not_lt.2 (Nat.le_add_right p k)), Nat.add_sub_cancel_left]

theorem overlay_nil (cell : ℕ → α) (p : ℕ) : overlay cell p [] = cell :=
  funext fun _ ↦ ite_self _

/-- Writing one value. -/
theorem overlay_singleton (cell : ℕ → α) (p : ℕ) (a : α) (i : ℕ) :
    overlay cell p [a] i = if i = p then a else cell i := by
  rcases Nat.lt_trichotomy i p with hlt | rfl | hgt
  · rw [overlay_of_lt hlt, if_neg (Nat.ne_of_lt hlt)]
  · rw [if_pos rfl]
    exact (overlay_add cell i 0 [a]).trans List.getD_cons_zero
  · obtain ⟨k, rfl⟩ := Nat.exists_eq_add_of_lt hgt
    rw [if_neg (Nat.ne_of_gt hgt), Nat.add_assoc, overlay_add, List.getD_cons_succ, List.getD_nil]

/-- Writing a list is writing its head and then its tail. -/
theorem overlay_cons (cell : ℕ → α) (p : ℕ) (a : α) (l : List α) :
    overlay (overlay cell p [a]) (p + 1) l = overlay cell p (a :: l) := by
  funext i
  rcases Nat.lt_or_ge i p with hlt | hge
  · rw [overlay_of_lt (Nat.lt_succ_of_lt hlt), overlay_of_lt hlt, overlay_of_lt hlt]
  obtain ⟨k, rfl⟩ := Nat.exists_eq_add_of_le hge
  cases k with
  | zero =>
    rw [overlay_of_lt (show p + 0 < p + 1 from Nat.lt_succ_self p), overlay_add, overlay_add,
      List.getD_cons_zero, List.getD_cons_zero]
  | succ k =>
    have hnext : p + (k + 1) = p + 1 + k := by omega
    rw [overlay_add, hnext, overlay_add, ← hnext, overlay_add, List.getD_cons_succ,
      List.getD_cons_succ, List.getD_nil]

/-- **Putting a list** writes it over the row. -/
theorem draw_puts (l : List α) :
    d.draw (l.map .put) = ⟨d.pos + l.length, overlay d.cell d.pos l⟩ := by
  induction l generalizing d with
  | nil => rw [overlay_nil]; rfl
  | cons a l ih =>
    change (d.stroke (.put a)).draw (l.map .put) = _
    rw [ih]
    simp only [stroke, overlay_cons, List.length_cons, CursorRow.mk.injEq, and_true]
    omega

/-- Steps to the left move the cursor, and stop at the first cell. -/
theorem draw_lefts (n : ℕ) : d.draw (List.replicate n .left) = ⟨d.pos - n, d.cell⟩ := by
  induction n generalizing d with
  | zero => rfl
  | succ n ih =>
    change (d.stroke .left).draw (List.replicate n .left) = _
    rw [ih, stroke, Nat.sub_sub, Nat.add_comm]

theorem draw_rights (n : ℕ) : d.draw (List.replicate n .right) = ⟨d.pos + n, d.cell⟩ := by
  induction n generalizing d with
  | zero => rfl
  | succ n ih =>
    change (d.stroke .right).draw (List.replicate n .right) = _
    rw [ih, stroke, Nat.add_assoc, Nat.add_comm 1]

/-- Values that fit in the row behind the cursor. -/
theorem inside_puts {l : List α} (h : d.pos + l.length ≤ width) : d.Inside width (l.map .put) := by
  induction l generalizing d with
  | nil => trivial
  | cons a l ih =>
    rw [List.length_cons] at h
    refine ⟨by simp only [Stays]; omega, ih ?_⟩
    simp only [stroke]
    omega

/-- Steps to the left, if there is room for them. -/
theorem inside_lefts {n : ℕ} (h : n ≤ d.pos) : d.Inside width (List.replicate n .left) := by
  induction n generalizing d with
  | zero => trivial
  | succ n ih =>
    refine ⟨by simp only [Stays]; omega, ih ?_⟩
    simp only [stroke]
    omega

/-- Steps to the right, if there is room for them. -/
theorem inside_rights {n : ℕ} (h : n = 0 ∨ d.pos + n < width) :
    d.Inside width (List.replicate n .right) := by
  induction n generalizing d with
  | zero => trivial
  | succ n ih =>
    refine ⟨by simp only [Stays]; omega, ih ?_⟩
    simp only [stroke]
    omega

end CursorRow
