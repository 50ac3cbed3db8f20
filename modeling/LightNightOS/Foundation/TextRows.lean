import Mathlib.Data.List.GetD
import Mathlib.Tactic.Ring

/-!
# Text laid out in rows

A text is laid out in rows of a fixed width: a row ends at a newline, or when a further character
does not fit. `Rows.feed` lays out one character more. It has a parameter `drops`, which says of a
full row whether the character that does not fit on it is lost: `fun _ ↦ false` is the layout
proper, and a display that loses characters is the same layout with another `drops`.

When does a display that drops the character after every full row from row `last` on still show the
text? A blank that is lost leaves no trace, so the answer is not "when nothing is lost". `Lossless`
is the exact condition on the text (`picture_layOut_iff`): in each line, what comes after the first
full row from `last` on consists of blanks, few enough to take the same number of rows.

Two invariants carry the proof. A display never gets ahead (`Behind`), so a character stored at the
wrong place, or a row that is missing at the end of a line, is not made up for. And a cell is blank
until the layout gets to it, so that the last character of the text tells whether the display was in
the right place.

* `cell_kept`, `cell_lost` — a character changes one cell, or none;
* `Behind.feed` — one more character;
* `SameCells.of_feedAll` — a picture that is right at the end was right all the time;
* `Tracks.lost_iff` — when a character is lost, read off the scan;
* `picture_layOut_iff` — the two pictures of a text are the same exactly if the text is lossless.
-/

/-- Newline, blank and width of a layout. -/
structure RowStyle (α : Type*) where
  newline : α
  blank : α
  width : ℕ
  width_pos : 0 < width
  newline_ne_blank : newline ≠ blank

/-- The rows finished so far, and the row being laid out. -/
structure Rows (α : Type*) where
  done : List (List α)
  row : List α

namespace Rows

variable {α : Type*}

/-- No text. -/
def empty : Rows α := ⟨[], []⟩

/-- All the rows. -/
def all (l : Rows α) : List (List α) := l.done ++ [l.row]

theorem length_all (l : Rows α) : l.all.length = l.done.length + 1 := by
  rw [all, List.length_append, List.length_singleton]

variable {S : RowStyle α} {drops : ℕ → Bool} {l : Rows α} {c : α}

/-! ### Cells

A cell is read beyond the end of the text as well, and is blank there. So a blank that was laid out
and one that was not are the same to a reader. -/

variable (S) in
/-- The character at a row and a column; beyond the text it is blank. -/
def cell (l : Rows α) (r col : ℕ) : α := (l.all.getD r []).getD col S.blank

variable (S) in
/-- The number of cells up to the end of the text. -/
def pos (l : Rows α) : ℕ := S.width * l.done.length + l.row.length

variable (S) in
/-- The character `c` would not fit, and is lost. -/
def Lost (drops : ℕ → Bool) (l : Rows α) : Prop :=
  ¬l.row.length < S.width ∧ drops l.done.length = true

variable (S) in
/-- Where the next character goes. -/
def place (l : Rows α) : ℕ × ℕ :=
  if l.row.length < S.width then (l.done.length, l.row.length) else (l.done.length + 1, 0)

/-- The next character goes to a column of a row. -/
theorem place_col_lt (l : Rows α) : (l.place S).2 < S.width := by
  rw [place]
  split
  case isTrue h => exact h
  case isFalse => exact S.width_pos

theorem place_pos (h : l.row.length ≤ S.width) :
    S.width * (l.place S).1 + (l.place S).2 = l.pos S := by
  rw [place, pos]
  split
  · rfl
  · rw [Nat.mul_succ]
    omega

/-- **Where the text has not got to, the cells are blank.** -/
theorem cell_eq_blank {r col : ℕ} (hcol : col < S.width) (h : l.pos S ≤ S.width * r + col) :
    l.cell S r col = S.blank := by
  rw [cell, all]
  rcases Nat.lt_trichotomy r l.done.length with hr | rfl | hr
  · have hmul := Nat.mul_le_mul_left S.width (Nat.succ_le_of_lt hr)
    rw [pos] at h
    rw [Nat.mul_succ] at hmul
    omega
  · rw [pos] at h
    rw [List.getD_append_right _ _ _ _ le_rfl, Nat.sub_self, List.getD_cons_zero,
      List.getD_eq_default _ _ (by omega)]
  · rw [List.getD_eq_default (l.done ++ [l.row]) _ (by simpa [Nat.succ_le_iff] using hr)]
    rfl

/-- Starting a row that is still empty changes no cell. -/
theorem cell_newRow (l : Rows α) (r col : ℕ) :
    Rows.cell S ⟨l.done ++ [l.row], []⟩ r col = l.cell S r col := by
  rw [cell, cell, all, all]
  rcases Nat.lt_or_ge r (l.done ++ [l.row]).length with hr | hr
  · rw [List.getD_append _ _ _ _ hr]
  · rw [List.getD_append_right _ _ _ _ hr, List.getD_eq_default (l.done ++ [l.row]) _ hr]
    cases r - (l.done ++ [l.row]).length <;> rfl

variable (S) in
/-- The rows, filled up with blanks. -/
def picture (l : Rows α) : List (List α) :=
  l.all.map fun row ↦ (List.range S.width).map fun col ↦ row.getD col S.blank

theorem picture_eq (l : Rows α) : l.picture S =
    (List.range (l.done.length + 1)).map fun r ↦ (List.range S.width).map (l.cell S r) := by
  refine List.ext_getElem (by simp [picture, length_all]) fun r hr _ ↦ ?_
  rw [picture, List.length_map] at hr
  simp only [picture, List.getElem_map, List.getElem_range]
  refine List.map_congr_left fun col _ ↦ ?_
  rw [cell, List.getD_eq_getElem _ _ hr]

/-- Two layouts look the same if they have as many rows and the same cells. -/
theorem picture_eq_iff {l l' : Rows α} : l.picture S = l'.picture S ↔
    l'.done.length = l.done.length ∧ ∀ r, ∀ col < S.width, l.cell S r col = l'.cell S r col := by
  rw [picture_eq, picture_eq]
  constructor
  · intro h
    have hlen : l'.done.length = l.done.length := by
      have hlen := congrArg List.length h
      simp only [List.length_map, List.length_range] at hlen
      omega
    refine ⟨hlen, fun r col hcol ↦ ?_⟩
    rw [hlen] at h
    rcases Nat.lt_or_ge r (l.done.length + 1) with hr | hr
    · have hrow := List.map_inj_left.1 h r (List.mem_range.2 hr)
      exact List.map_inj_left.1 hrow col (List.mem_range.2 hcol)
    · rw [cell, cell, List.getD_eq_default l.all _ (by rwa [length_all]),
        List.getD_eq_default l'.all _ (by rwa [length_all, hlen])]
  · rintro ⟨hlen, hcells⟩
    rw [hlen]
    exact List.map_congr_left fun r _ ↦ List.map_congr_left fun col hcol ↦
      hcells r col (List.mem_range.1 hcol)

/-! ### One more character -/

section Feed

variable [DecidableEq α] (S : RowStyle α) (drops : ℕ → Bool)

/-- Lay out a character: it ends the row, fits on it, or starts the next one, where it may be
lost. -/
def feed (l : Rows α) (c : α) : Rows α :=
  if c = S.newline then ⟨l.done ++ [l.row], []⟩
  else if l.row.length < S.width then ⟨l.done, l.row ++ [c]⟩
  else ⟨l.done ++ [l.row], if drops l.done.length then [] else [c]⟩

/-- Lay out a text. -/
def layOut (text : List α) : Rows α := text.foldl (feed S drops) empty

variable {S} {drops}

theorem feed_newline (hc : c = S.newline) : l.feed S drops c = ⟨l.done ++ [l.row], []⟩ :=
  if_pos hc

/-- A character that fits goes to the end of the row. -/
theorem feed_fits (hc : c ≠ S.newline) (hfit : l.row.length < S.width) :
    l.feed S drops c = ⟨l.done, l.row ++ [c]⟩ := by
  rw [feed, if_neg hc, if_pos hfit]

/-- A character that does not fit starts a new row, or is lost. -/
theorem feed_wraps (hc : c ≠ S.newline) (hfull : ¬l.row.length < S.width) :
    l.feed S drops c =
      ⟨l.done ++ [l.row], if drops l.done.length then [] else [c]⟩ := by
  rw [feed, if_neg hc, if_neg hfull]

theorem row_length_feed (h : l.row.length ≤ S.width) (c : α) :
    (l.feed S drops c).row.length ≤ S.width := by
  have hpos := S.width_pos
  rw [feed]
  split
  · exact Nat.zero_le _
  split
  · simp only [List.length_append, List.length_singleton]
    omega
  · dsimp only
    split <;> simp only [List.length_nil, List.length_singleton] <;> omega

/-- A newline changes no cell. -/
theorem cell_newline (hc : c = S.newline) (r col : ℕ) :
    (l.feed S drops c).cell S r col = l.cell S r col := by
  rw [feed_newline hc, cell_newRow]

/-- A lost character changes no cell. -/
theorem cell_lost (hc : c ≠ S.newline) (hlost : l.Lost S drops) (r col : ℕ) :
    (l.feed S drops c).cell S r col = l.cell S r col := by
  rw [feed_wraps hc hlost.1, if_pos hlost.2, cell_newRow]

/-- **A character that is kept changes the cell at its place only.** -/
theorem cell_kept (hc : c ≠ S.newline) (hkept : ¬l.Lost S drops) (r col : ℕ) :
    (l.feed S drops c).cell S r col = if (r, col) = l.place S then c else l.cell S r col := by
  have hrow : ∀ (l : Rows α), Rows.cell S ⟨l.done, l.row ++ [c]⟩ r col =
      if (r, col) = (l.done.length, l.row.length) then c else l.cell S r col := by
    intro l
    rw [cell, cell, all, all]
    rcases Nat.lt_trichotomy r l.done.length with hr | rfl | hr
    · rw [List.getD_append _ _ _ _ hr, List.getD_append _ _ _ _ hr, if_neg]
      exact fun h ↦ hr.ne (Prod.mk.inj h).1
    · rw [List.getD_append_right _ _ _ _ le_rfl, List.getD_append_right _ _ _ _ le_rfl,
        Nat.sub_self, List.getD_cons_zero, List.getD_cons_zero]
      rcases Nat.lt_trichotomy col l.row.length with hcol | rfl | hcol
      · rw [List.getD_append _ _ _ _ hcol, if_neg]
        exact fun h ↦ hcol.ne (Prod.mk.inj h).2
      · rw [if_pos rfl, List.getD_append_right _ _ _ _ le_rfl, Nat.sub_self, List.getD_cons_zero]
      · rw [if_neg fun h ↦ hcol.ne' (Prod.mk.inj h).2, List.getD_eq_default _ _
          (by simpa [Nat.succ_le_iff] using hcol), List.getD_eq_default _ _ hcol.le]
    · rw [if_neg fun h ↦ hr.ne' (Prod.mk.inj h).1,
        List.getD_eq_default (l.done ++ [l.row ++ [c]]) _ (by simpa [Nat.succ_le_iff] using hr),
        List.getD_eq_default (l.done ++ [l.row]) _ (by simpa [Nat.succ_le_iff] using hr)]
  rw [place]
  split
  case isTrue hfit =>
    rw [feed_fits hc hfit]
    exact hrow l
  case isFalse hfull =>
    have hnodrop : drops l.done.length ≠ true := fun h ↦ hkept ⟨hfull, h⟩
    rw [feed_wraps hc hfull, if_neg hnodrop, ← cell_newRow l]
    have h := hrow ⟨l.done ++ [l.row], []⟩
    rw [List.length_append, List.length_singleton, List.length_nil] at h
    exact h

end Feed

/-! ### A display that loses characters

What is laid out is never changed again, and a display that loses characters never gets ahead of the
layout. So a difference between the pictures is there to stay. -/

section Display

variable {i d : Rows α} {n : ℕ}

/-- `d` is `n` rows behind `i`, or more: in the same column `n` rows up, or more than `n` rows'
cells short. -/
def Behind (S : RowStyle α) (n : ℕ) (i d : Rows α) : Prop :=
  d.row.length = i.row.length ∧ i.done.length = d.done.length + n ∨
    d.pos S + S.width * n < i.pos S

/-- A display that is `n` rows behind has finished at least `n` rows less. -/
theorem Behind.rows (h : Behind S n i d) (hi : i.row.length ≤ S.width) :
    d.done.length + n ≤ i.done.length := by
  rcases h with ⟨-, h⟩ | h
  · exact h.ge
  · by_contra hlt
    have hmul := Nat.mul_le_mul_left S.width (Nat.succ_le_of_lt (Nat.lt_of_not_le hlt))
    rw [pos, pos] at h
    rw [Nat.mul_succ, Nat.mul_add] at hmul
    omega

/-- And its text ends at least `n` rows of cells earlier. -/
theorem Behind.pos_le (h : Behind S n i d) : d.pos S + S.width * n ≤ i.pos S := by
  rcases h with ⟨hrow, hdone⟩ | h
  · rw [pos, pos, hrow, hdone, Nat.mul_add]
    omega
  · exact h.le

/-- The same characters in all cells. -/
def SameCells (S : RowStyle α) (i d : Rows α) : Prop :=
  ∀ r, ∀ col < S.width, i.cell S r col = d.cell S r col

theorem not_lost (l : Rows α) : ¬l.Lost S fun _ ↦ false := fun h ↦ Bool.noConfusion h.2

variable [DecidableEq α] {text : List α}

theorem pos_feed (hl : l.row.length ≤ S.width) (hc : c ≠ S.newline) (hkept : ¬l.Lost S drops) :
    (l.feed S drops c).pos S = l.pos S + 1 := by
  by_cases hfit : l.row.length < S.width
  · rw [feed_fits hc hfit, pos, pos, List.length_append, List.length_singleton, Nat.add_assoc]
  · have hnodrop : drops l.done.length ≠ true := fun h ↦ hkept ⟨hfit, h⟩
    rw [feed_wraps hc hfit, if_neg hnodrop, pos, pos, List.length_append, List.length_singleton,
      Nat.mul_succ, List.length_singleton]
    omega

theorem pos_feed_lost (hl : l.row.length ≤ S.width) (hc : c ≠ S.newline)
    (hlost : l.Lost S drops) : (l.feed S drops c).pos S = l.pos S := by
  have hfull := hlost.1
  rw [feed_wraps hc hfull, if_pos hlost.2, pos, pos, List.length_append, List.length_singleton,
    Nat.mul_succ, List.length_nil]
  omega

/-- **A display never catches up within a line**, and at the end of a line it is as many rows behind
as it is short. -/
theorem Behind.feed (h : Behind S n i d) (hi : i.row.length ≤ S.width)
    (hd : d.row.length ≤ S.width) (c : α) :
    Behind S n (i.feed S (fun _ ↦ false) c) (d.feed S drops c) := by
  by_cases hc : c = S.newline
  · have hrows := h.rows hi
    rw [feed_newline hc, feed_newline hc]
    rcases Nat.lt_or_ge (d.done.length + n) i.done.length with hlt | hge
    · refine Or.inr ?_
      have hmul := Nat.mul_le_mul_left S.width (Nat.succ_le_of_lt hlt)
      have hpos := S.width_pos
      simp only [pos, List.length_append, List.length_singleton, List.length_nil, Nat.mul_succ,
        Nat.mul_add] at hmul ⊢
      omega
    · refine Or.inl ⟨rfl, ?_⟩
      simp only [List.length_append, List.length_singleton]
      omega
  · have hip := pos_feed hi hc (not_lost i)
    by_cases hlost : d.Lost S drops
    · refine Or.inr ?_
      rw [pos_feed_lost hd hc hlost, hip]
      exact Nat.lt_succ_of_le h.pos_le
    · rcases h with ⟨hrow, hdone⟩ | h
      · refine Or.inl ?_
        by_cases hfit : d.row.length < S.width
        · rw [feed_fits hc hfit, feed_fits hc (hrow ▸ hfit)]
          simp only [List.length_append, hrow]
          exact ⟨trivial, hdone⟩
        · have hnodrop : drops d.done.length ≠ true := fun h ↦ hlost ⟨hfit, h⟩
          rw [feed_wraps hc hfit, feed_wraps hc (hrow ▸ hfit), if_neg hnodrop]
          simp only [List.length_append, List.length_singleton, hdone]
          exact ⟨rfl, by omega⟩
      · refine Or.inr ?_
        rw [pos_feed hd hc hlost, hip]
        omega

/-- Lay out some text more. -/
def feedAll (S : RowStyle α) (drops : ℕ → Bool) (l : Rows α) (text : List α) : Rows α :=
  text.foldl (Rows.feed S drops) l

/-- A display that is behind stays behind, whatever comes. -/
theorem Behind.feedAll (h : Behind S n i d) (hi : i.row.length ≤ S.width)
    (hd : d.row.length ≤ S.width) (text : List α) :
    Behind S n (i.feedAll S (fun _ ↦ false) text) (d.feedAll S drops text) ∧
      (i.feedAll S (fun _ ↦ false) text).row.length ≤ S.width := by
  induction text generalizing i d with
  | nil => exact ⟨h, hi⟩
  | cons c text ih => exact ih (h.feed hi hd c) (row_length_feed hi c) (row_length_feed hd c)

/-- A blank changes no cell, kept or lost. -/
theorem cell_blank (hl : l.row.length ≤ S.width) {r col : ℕ} (hcol : col < S.width) :
    (l.feed S drops S.blank).cell S r col = l.cell S r col := by
  have hc := S.newline_ne_blank.symm
  by_cases hlost : l.Lost S drops
  · rw [cell_lost hc hlost]
  · rw [cell_kept hc hlost]
    split
    case isTrue h =>
      have hplace := place_pos hl
      rw [← h] at hplace
      exact (cell_eq_blank hcol hplace.ge).symm
    case isFalse => rfl

/-- **The last character tells.** If the cells are the same after a character, they were before, and
a character that is not blank was stored, and in the right place. -/
theorem SameCells.of_feed (hpos : d.pos S ≤ i.pos S) (hi : i.row.length ≤ S.width)
    (hd : d.row.length ≤ S.width)
    (h : SameCells S (i.feed S (fun _ ↦ false) c) (d.feed S drops c)) :
    SameCells S i d ∧
      (c ≠ S.newline → c ≠ S.blank → d.pos S = i.pos S ∧ ¬d.Lost S drops) := by
  by_cases hc : c = S.newline
  · refine ⟨fun r col hcol ↦ ?_, fun hne ↦ absurd hc hne⟩
    have hcell := h r col hcol
    rwa [cell_newline hc, cell_newline hc] at hcell
  by_cases hblank : c = S.blank
  · refine ⟨fun r col hcol ↦ ?_, fun _ hne ↦ absurd hblank hne⟩
    have hcell := h r col hcol
    rwa [hblank, cell_blank hi hcol, cell_blank hd hcol] at hcell
  have hplace : ∀ r col, (r, col) = i.place S → S.width * r + col = i.pos S ∧ col < S.width := by
    intro r col heq
    have hcol := place_col_lt i (S := S)
    rw [← place_pos hi, ← heq] at *
    exact ⟨rfl, hcol⟩
  obtain ⟨hindex, hcol⟩ := hplace (i.place S).1 (i.place S).2 rfl
  have hat := h (i.place S).1 (i.place S).2 hcol
  have hbefore : d.cell S (i.place S).1 (i.place S).2 = S.blank :=
    cell_eq_blank hcol (hindex ▸ hpos)
  rw [cell_kept hc (not_lost i), if_pos rfl] at hat
  have hkept : ¬d.Lost S drops := by
    intro hlost
    rw [cell_lost hc hlost, hbefore] at hat
    exact hblank hat
  rw [cell_kept hc hkept] at hat
  have hsame : i.place S = d.place S := by
    by_contra hne
    rw [if_neg hne, hbefore] at hat
    exact hblank hat
  refine ⟨fun r col hcol ↦ ?_, fun _ _ ↦ ⟨?_, hkept⟩⟩
  · have hcell := h r col hcol
    rw [cell_kept hc (not_lost i), cell_kept hc hkept, ← hsame] at hcell
    by_cases heq : (r, col) = i.place S
    · obtain ⟨hindex, -⟩ := hplace r col heq
      rw [cell_eq_blank hcol hindex.ge, cell_eq_blank hcol (hindex ▸ hpos)]
    · rwa [if_neg heq, if_neg heq] at hcell
  · rw [← place_pos hd, ← place_pos hi, hsame]

/-- Where the pictures agree at the end, they agreed on the way. -/
theorem SameCells.of_feedAll (h : Behind S 0 i d) (hi : i.row.length ≤ S.width)
    (hd : d.row.length ≤ S.width)
    (hsame : SameCells S (i.feedAll S (fun _ ↦ false) text) (d.feedAll S drops text)) :
    SameCells S i d := by
  induction text generalizing i d with
  | nil => exact hsame
  | cons c text ih =>
    have hnext := ih (h.feed hi hd c) (row_length_feed hi c) (row_length_feed hd c) hsame
    exact (of_feed h.pos_le hi hd hnext).1

end Display

/-! ### The exact condition on the text

A line is scanned with the number of its characters since the first one that did not fit on a row
from `last` on. With one character lost at the start of each row the display takes as many rows for
these as the layout does just if `RowsAgree` holds; and what it loses has to be blank. -/

/-- A place in the layout of a text: the row, the column, and how many characters of the line have
come since the first one that did not fit on a row from `last` on (itself included). -/
structure Scan where
  row : ℕ
  col : ℕ
  surplus : ℕ

section Scan

variable (S : RowStyle α) (last : ℕ)

/-- `surplus` characters take as many rows when one is lost at the start of each row. -/
def RowsAgree (surplus : ℕ) : Prop := (surplus - 1) / S.width = (surplus - 1) / (S.width + 1)

instance (surplus : ℕ) : Decidable (RowsAgree S surplus) := inferInstanceAs (Decidable (_ = _))

/-- The place is that of the layout `i`, and of the display `d` it says how far it is behind. -/
structure Tracks (p : Scan) (i d : Rows α) : Prop where
  row : p.row = i.done.length
  col : p.col = i.row.length
  fits : i.row.length ≤ S.width
  fits' : d.row.length ≤ S.width
  inStep : p.surplus = 0 → d.done.length = i.done.length ∧ d.row.length = i.row.length
  surplus : 0 < p.surplus → ∃ b, last < b ∧ 0 < i.row.length ∧
    S.width * i.done.length + i.row.length = S.width * b + p.surplus ∧
    (S.width + 1) * d.done.length + d.row.length + 1 = (S.width + 1) * b + p.surplus

variable {S} {last} {p : Scan} {i d : Rows α} {c : α} {text : List α}

/-- From `w * m + r = w * b + k` with `1 ≤ r ≤ w` follows `m = b + (k - 1) / w`. -/
theorem row_of_over {w m r b k : ℕ} (h : w * m + r = w * b + k) (hr : 0 < r) (hle : r ≤ w)
    (hk : 0 < k) : m = b + (k - 1) / w := by
  have hb : b ≤ m := by
    by_contra hlt
    have hmul := Nat.mul_le_mul_left w (Nat.succ_le_of_lt (Nat.lt_of_not_le hlt))
    rw [Nat.mul_succ] at hmul
    omega
  obtain ⟨x, rfl⟩ := Nat.exists_eq_add_of_le hb
  rw [Nat.mul_add] at h
  have hk : k - 1 = w * x + (r - 1) := by omega
  rw [hk, Nat.mul_add_div (by omega), Nat.div_eq_of_lt (by omega), Nat.add_zero]

/-- **The display is on the row of the layout exactly if the rows agree.** -/
theorem Tracks.rowsAgree (h : Tracks S last p i d) :
    RowsAgree S p.surplus ↔ d.done.length = i.done.length := by
  rcases Nat.eq_zero_or_pos p.surplus with hover | hover
  · rw [hover, RowsAgree]
    simp [(h.inStep hover).1]
  · obtain ⟨b, -, hpos, hi, hd⟩ := h.surplus hover
    rw [RowsAgree, row_of_over hi hpos h.fits hover,
      row_of_over ((Nat.add_assoc _ _ _).symm.trans hd) (Nat.succ_pos _)
        (Nat.succ_le_succ h.fits') hover]
    omega

/-- Past the first lost character the display is short. -/
theorem Tracks.pos_lt (h : Tracks S last p i d) (hover : 0 < p.surplus) : d.pos S < i.pos S := by
  obtain ⟨b, -, hpos, hi, hd⟩ := h.surplus hover
  have hb : b ≤ d.done.length := by
    by_contra hlt
    have hmul := Nat.mul_le_mul_left (S.width + 1) (Nat.succ_le_of_lt (Nat.lt_of_not_le hlt))
    have hfits := h.fits'
    rw [Nat.mul_succ] at hmul
    omega
  rw [pos, pos, hi]
  rw [Nat.add_mul, Nat.add_mul, Nat.one_mul, Nat.one_mul] at hd
  omega

/-- The place says so when the display is behind. -/
theorem Tracks.behind (h : Tracks S last p i d) : Behind S 0 i d := by
  rcases Nat.eq_zero_or_pos p.surplus with hover | hover
  · exact Or.inl ⟨(h.inStep hover).2, (h.inStep hover).1.symm⟩
  · exact Or.inr (h.pos_lt hover)

variable [DecidableEq α]

variable (S) (last) in
/-- The place after a character. -/
def Scan.next (p : Scan) (c : α) : Scan :=
  if c = S.newline then ⟨p.row + 1, 0, 0⟩
  else if p.col < S.width then ⟨p.row, p.col + 1, if p.surplus = 0 then 0 else p.surplus + 1⟩
  else ⟨p.row + 1, 1, if p.surplus = 0 ∧ p.row < last then 0 else p.surplus + 1⟩

variable (S) (last) in
/-- **The condition on a text**: in each line, the characters from the first one that does not fit
on a row from `last` on are blanks, and take as many rows when one is lost at the start of each
row. -/
def Lossless (p : Scan) : List α → Prop
  | [] => RowsAgree S p.surplus
  | c :: text =>
    (if c = S.newline then RowsAgree S p.surplus else 0 < (p.next S last c).surplus → c = S.blank) ∧
      Lossless (p.next S last c) text

instance decidableLossless (p : Scan) (text : List α) : Decidable (Lossless S last p text) := by
  induction text generalizing p with
  | nil => exact inferInstanceAs (Decidable (RowsAgree S p.surplus))
  | cons c text ih =>
    have := ih (p.next S last c)
    exact inferInstanceAs (Decidable (_ ∧ _))

theorem Tracks.newline (h : Tracks S last p i d) (hc : c = S.newline)
    (hagree : RowsAgree S p.surplus) :
    Tracks S last (p.next S last c) (i.feed S (fun _ ↦ false) c)
      (d.feed S (fun r ↦ last ≤ r) c) := by
  have hrows := h.rowsAgree.1 hagree
  rw [feed_newline hc, feed_newline hc, Scan.next, if_pos hc]
  refine ⟨?_, rfl, Nat.zero_le _, Nat.zero_le _, fun _ ↦ ⟨?_, rfl⟩,
    fun h ↦ absurd h (Nat.lt_irrefl 0)⟩
  · rw [List.length_append, List.length_singleton, h.row]
  · rw [List.length_append, List.length_append, List.length_singleton, List.length_singleton, hrows]

theorem Tracks.character (h : Tracks S last p i d) (hc : c ≠ S.newline) :
    Tracks S last (p.next S last c) (i.feed S (fun _ ↦ false) c)
      (d.feed S (fun r ↦ last ≤ r) c) := by
  have hpos := S.width_pos
  have hfits := h.fits
  have hfits' := h.fits'
  have hi : (i.feed S (fun _ ↦ false) c).row.length ≤ S.width := row_length_feed h.fits c
  have hd : (d.feed S (fun r ↦ last ≤ r) c).row.length ≤ S.width := row_length_feed h.fits' c
  rcases Nat.eq_zero_or_pos p.surplus with hover | hover
  · -- In step so far: both fit, both wrap, or the display drops its first character.
    obtain ⟨hdone, hrow⟩ := h.inStep hover
    by_cases hfit : i.row.length < S.width
    · rw [feed_fits hc hfit] at hi ⊢
      rw [feed_fits hc (hrow ▸ hfit)] at hd ⊢
      rw [Scan.next, if_neg hc, if_pos (h.col ▸ hfit), if_pos hover]
      refine ⟨h.row, ?_, hi, hd, fun _ ↦ ⟨hdone, ?_⟩, fun h ↦ absurd h (Nat.lt_irrefl 0)⟩
      · simp only [List.length_append, List.length_singleton, h.col]
      · simp only [List.length_append, hrow]
    · have hfull : S.width = i.row.length := by omega
      rw [feed_wraps hc hfit] at hi ⊢
      rw [feed_wraps hc (hrow ▸ hfit)] at hd ⊢
      rw [Scan.next, if_neg hc, if_neg (h.col ▸ hfit)]
      refine ⟨by simp [h.row], rfl, hi, hd, fun hzero ↦ ?_, fun hpos' ↦ ?_⟩
      · have hlt : p.row < last := by
          by_contra hge
          rw [if_neg fun h ↦ hge h.2] at hzero
          exact Nat.succ_ne_zero _ hzero
        rw [h.row, ← hdone] at hlt
        have hnodrop : ¬decide (last ≤ d.done.length) = true := by simpa using hlt
        rw [if_neg hnodrop, List.length_append, List.length_append, hdone]
        exact ⟨rfl, rfl⟩
      · have hge : ¬(p.surplus = 0 ∧ p.row < last) := by
          intro hlt
          rw [if_pos hlt] at hpos'
          exact Nat.lt_irrefl 0 hpos'
        have hlast : last ≤ d.done.length := by
          rw [hdone, ← h.row]
          exact Nat.le_of_not_lt fun hlt ↦ hge ⟨hover, hlt⟩
        refine ⟨d.done.length + 1, Nat.lt_succ_of_le hlast, Nat.one_pos, ?_, ?_⟩
        · rw [if_neg hge, hover, hdone]
          simp
        · rw [if_neg hge, hover]
          simp [hlast]
  · obtain ⟨b, hb, hrowpos, heq, heq'⟩ := h.surplus hover
    have hnext : p.next S last c =
        ⟨(p.next S last c).row, (p.next S last c).col, p.surplus + 1⟩ := by
      rw [Scan.next, if_neg hc]
      split
      · rw [if_neg hover.ne']
      · rw [if_neg fun h ↦ hover.ne' h.1]
    have hlast : last ≤ d.done.length := by
      by_contra hlt
      have hmul := Nat.mul_le_mul_left (S.width + 1)
        (Nat.succ_le_of_lt ((Nat.lt_of_not_le hlt).trans hb))
      rw [Nat.mul_succ] at hmul
      omega
    refine ⟨?_, ?_, hi, hd, fun hzero ↦ ?_, fun _ ↦ ⟨b, hb, ?_, ?_, ?_⟩⟩
    · by_cases hfit : i.row.length < S.width
      · rw [feed_fits hc hfit, Scan.next, if_neg hc, if_pos (h.col ▸ hfit)]
        exact h.row
      · rw [feed_wraps hc hfit, Scan.next, if_neg hc, if_neg (h.col ▸ hfit)]
        simp [h.row]
    · by_cases hfit : i.row.length < S.width
      · rw [feed_fits hc hfit, Scan.next, if_neg hc, if_pos (h.col ▸ hfit)]
        simp [h.col]
      · rw [feed_wraps hc hfit, Scan.next, if_neg hc, if_neg (h.col ▸ hfit)]
        rfl
    · rw [hnext] at hzero
      exact absurd hzero (Nat.succ_ne_zero _)
    · by_cases hfit : i.row.length < S.width
      · simp [feed_fits hc hfit]
      · simp [feed_wraps hc hfit]
    · have hstep := pos_feed h.fits hc (not_lost i)
      rw [pos, pos] at hstep
      rw [hstep, heq, hnext, Nat.add_assoc]
    · rw [hnext]
      by_cases hfit : d.row.length < S.width
      · rw [feed_fits hc hfit, List.length_append, List.length_singleton]
        dsimp only
        omega
      · rw [feed_wraps hc hfit, if_pos (by simpa using hlast), List.length_append,
          List.length_singleton, List.length_nil, Nat.mul_succ]
        dsimp only
        omega

/-- Losing a character is what starts the count. -/
theorem Tracks.lost_iff (h : Tracks S last p i d) (hc : c ≠ S.newline) (hover : p.surplus = 0) :
    d.Lost S (fun r ↦ last ≤ r) ↔ 0 < (p.next S last c).surplus := by
  obtain ⟨hdone, hrow⟩ := h.inStep hover
  rw [Lost, hrow, hdone, ← h.row, ← h.col, Scan.next, if_neg hc]
  by_cases hfit : p.col < S.width
  · simp [hfit, hover]
  · by_cases hrow : p.row < last
    · simp [hfit, hover, hrow]
    · simp [hfit, hover, hrow, Nat.le_of_not_lt hrow]

/-- **When a display that drops characters still shows the text.** -/
theorem lossless_of_tracks (h : Tracks S last p i d) (hsame : SameCells S i d) :
    Lossless S last p text ↔
      (d.feedAll S (fun r ↦ last ≤ r) text).done.length =
          (i.feedAll S (fun _ ↦ false) text).done.length ∧
        SameCells S (i.feedAll S (fun _ ↦ false) text) (d.feedAll S (fun r ↦ last ≤ r) text) := by
  induction text generalizing p i d with
  | nil => exact h.rowsAgree.trans ⟨fun hrows ↦ ⟨hrows, hsame⟩, fun h ↦ h.1⟩
  | cons c text ih =>
    rw [Lossless]
    by_cases hc : c = S.newline
    · have hnewline : SameCells S (i.feed S (fun _ ↦ false) c) (d.feed S (fun r ↦ last ≤ r) c) := by
        intro r col hcol
        rw [cell_newline hc, cell_newline hc]
        exact hsame r col hcol
      rw [if_pos hc]
      constructor
      · rintro ⟨hagree, hrest⟩
        exact (ih (h.newline hc hagree) hnewline).1 hrest
      · rintro hend
        have hagree : RowsAgree S p.surplus := by
          -- A row that is missing here is missing at the end.
          by_contra hne
          rw [h.rowsAgree] at hne
          have hle := h.behind.rows h.fits
          have hlater : Behind S (i.done.length - d.done.length) (i.feed S (fun _ ↦ false) c)
              (d.feed S (fun r ↦ last ≤ r) c) := by
            rw [feed_newline hc, feed_newline hc]
            refine Or.inl ⟨rfl, ?_⟩
            simp only [List.length_append, List.length_singleton]
            omega
          obtain ⟨hbehind, hwidth⟩ : Behind S (i.done.length - d.done.length)
              (feedAll S (fun _ ↦ false) (i.feed S (fun _ ↦ false) c) text)
              (feedAll S (fun r ↦ last ≤ r) (d.feed S (fun r ↦ last ≤ r) c) text) ∧ _ :=
            hlater.feedAll (row_length_feed h.fits c) (row_length_feed h.fits' c) text
          have hrows := hbehind.rows hwidth
          have hend : (feedAll S (fun r ↦ last ≤ r) (d.feed S (fun r ↦ last ≤ r) c)
              text).done.length = (feedAll S (fun _ ↦ false) (i.feed S (fun _ ↦ false) c)
              text).done.length := hend.1
          omega
        exact ⟨hagree, (ih (h.newline hc hagree) hnewline).2 hend⟩
    · have hnext := h.character hc
      rw [if_neg hc]
      constructor
      · rintro ⟨hblank, hrest⟩
        refine (ih hnext fun r col hcol ↦ ?_).1 hrest
        rcases Nat.eq_zero_or_pos (p.next S last c).surplus with hzero | hpos
        · have hover : p.surplus = 0 := by
            by_contra hne
            have hcorner : ¬(p.surplus = 0 ∧ p.row < last) := fun h ↦ hne h.1
            rw [Scan.next, if_neg hc, if_neg hne, if_neg hcorner] at hzero
            split at hzero <;> exact Nat.succ_ne_zero _ hzero
          obtain ⟨hdone, hrow⟩ := h.inStep hover
          have hkept : ¬d.Lost S (fun r ↦ last ≤ r) := by
            rw [h.lost_iff hc hover]
            omega
          rw [cell_kept hc (not_lost i), cell_kept hc hkept, place, place, hdone, hrow,
            hsame r col hcol]
        · rw [hblank hpos, cell_blank h.fits hcol, cell_blank h.fits' hcol]
          exact hsame r col hcol
      · rintro hend
        have hafter := SameCells.of_feedAll (h.behind.feed h.fits h.fits' c)
          (row_length_feed h.fits c) (row_length_feed h.fits' c) hend.2
        obtain ⟨-, hkept⟩ := SameCells.of_feed h.behind.pos_le h.fits h.fits' hafter
        refine ⟨fun hpos ↦ ?_, (ih hnext hafter).2 hend⟩
        by_contra hblank
        obtain ⟨hplace, hkept⟩ := hkept hc hblank
        rcases Nat.eq_zero_or_pos p.surplus with hover | hover
        · exact hkept ((h.lost_iff hc hover).2 hpos)
        · exact (h.pos_lt hover).ne hplace

end Scan

/-- **The condition is exact**: a display that loses the character after every full row from `last`
on shows the text if and only if the text is `Lossless`. -/
theorem picture_layOut_iff [DecidableEq α] (S : RowStyle α) (last : ℕ) (text : List α) :
    (layOut S (fun r ↦ last ≤ r) text).picture S = (layOut S (fun _ ↦ false) text).picture S ↔
      Lossless S last ⟨0, 0, 0⟩ text := by
  have hstart : Tracks S last ⟨0, 0, 0⟩ (empty : Rows α) empty :=
    ⟨rfl, rfl, Nat.zero_le _, Nat.zero_le _, fun _ ↦ ⟨rfl, rfl⟩,
      fun h ↦ absurd h (Nat.lt_irrefl 0)⟩
  rw [lossless_of_tracks hstart fun _ _ _ ↦ rfl, eq_comm, picture_eq_iff]
  rfl

end Rows
