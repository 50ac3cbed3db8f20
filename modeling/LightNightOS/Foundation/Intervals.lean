import Mathlib.Algebra.GroupWithZero.Nat
import Mathlib.Data.List.Chain
import Mathlib.Data.Set.Lattice
import Mathlib.Order.Interval.Finset.Nat
import Mathlib.Logic.Relation
import Mathlib.Order.CompletePartialOrder
import Mathlib.Order.Interval.Set.Disjoint

/-!
# Lists of address intervals

A block list, a free list or a memory map is a list of items each of which occupies an interval
`[lo x, hi x)`. Two things are said about such a list over and over:

* `Tiles lo hi a l b` — the items follow each other from `a` to `b` without a gap. Tiling gives the
  usual consequences: the items are pairwise apart, lie inside `[a, b)`, and their lengths add up
  to `b - a`.
* `coalesce p f l` — one left-to-right pass that replaces two neighbours `a`, `b` with `p a b` by
  `f a b`, comparing the result with the next item. `coalesce_preserves` reduces any property of
  the result to a property of **one** replacement, and `isChain_coalesce` says that the pass leaves
  no two mergeable neighbours.

* `pairwise_disjoint_replace` — in a list of items with pairwise disjoint regions, a group of
  neighbours may be replaced by items that share out the same region: splitting an item and merging
  two are both of this kind.

Nothing here depends on what the items are.
-/

namespace Interval

variable {α : Type*}

/-! ### Counting -/

/-- Pairwise disjoint intervals inside `[a, b)` have at most its length in total. -/
theorem sum_length_le {lo hi : α → ℕ} {l : List α} {a b : ℕ}
    (hdisjoint : l.Pairwise fun x y ↦ Disjoint (Set.Ico (lo x) (hi x)) (Set.Ico (lo y) (hi y)))
    (hin : ∀ x ∈ l, a ≤ lo x ∧ hi x ≤ b) : (l.map fun x ↦ hi x - lo x).sum ≤ b - a := by
  have hunion : ∃ u : Finset ℕ, u.card = (l.map fun x ↦ hi x - lo x).sum ∧
      ∀ z, z ∈ u ↔ ∃ x ∈ l, z ∈ Set.Ico (lo x) (hi x) := by
    induction l with
    | nil => exact ⟨∅, rfl, by simp⟩
    | cons x l ih =>
      obtain ⟨hx, hl⟩ := List.pairwise_cons.1 hdisjoint
      obtain ⟨u, hcard, hmem⟩ := ih hl fun y hy ↦ hin y (List.mem_cons_of_mem x hy)
      have hdis : Disjoint (Finset.Ico (lo x) (hi x)) u := by
        refine Finset.disjoint_left.2 fun z hz hzu ↦ ?_
        obtain ⟨y, hy, hzy⟩ := (hmem z).1 hzu
        exact Set.disjoint_left.1 (hx y hy) (Finset.mem_Ico.1 hz) hzy
      refine ⟨Finset.Ico (lo x) (hi x) ∪ u, ?_, fun z ↦ ?_⟩
      · rw [Finset.card_union_of_disjoint hdis, Nat.card_Ico, hcard, List.map_cons, List.sum_cons]
      · simp [hmem]
  obtain ⟨u, hcard, hmem⟩ := hunion
  rw [← hcard, ← Nat.card_Ico]
  refine Finset.card_le_card fun z hz ↦ ?_
  obtain ⟨x, hx, hlo, hhi⟩ := (hmem z).1 hz
  have hbounds := hin x hx
  exact Finset.mem_Ico.2 ⟨by omega, by omega⟩

/-! ### Replacing a group of neighbours

Splitting and merging keep what is outside the group, and the region of the group. That is all one
needs to know for the list to stay pairwise disjoint. -/

section Replace

variable {ext : α → Set ℕ}

/-- The region a list of items occupies. -/
def region (ext : α → Set ℕ) (l : List α) : Set ℕ :=
  ⋃ x ∈ l, ext x

theorem subset_region {l : List α} {x : α} (hx : x ∈ l) : ext x ⊆ region ext l :=
  Set.subset_biUnion_of_mem (u := ext) hx

theorem region_subset_iff {l : List α} {s : Set ℕ} :
    region ext l ⊆ s ↔ ∀ x ∈ l, ext x ⊆ s :=
  Set.iUnion₂_subset_iff

/-- Items whose regions lie inside the region of the group they replace keep the list's regions
pairwise disjoint. -/
theorem pairwise_disjoint_replace {l₁ l l' l₂ : List α}
    (h : (l₁ ++ l ++ l₂).Pairwise fun x y ↦ Disjoint (ext x) (ext y))
    (hl' : l'.Pairwise fun x y ↦ Disjoint (ext x) (ext y))
    (hsub : region ext l' ⊆ region ext l) :
    (l₁ ++ l' ++ l₂).Pairwise fun x y ↦ Disjoint (ext x) (ext y) := by
  rw [List.append_assoc, List.pairwise_append, List.pairwise_append] at h ⊢
  obtain ⟨hl₁, ⟨-, hl₂, hmid⟩, hleft⟩ := h
  refine ⟨hl₁, ⟨hl', hl₂, fun x hx y hy ↦ ?_⟩, fun x hx y hy ↦ ?_⟩
  · refine Set.disjoint_of_subset_left ((subset_region hx).trans hsub) ?_
    exact Set.disjoint_iUnion₂_left.2 fun z hz ↦ hmid z hz y hy
  · rcases List.mem_append.1 hy with hy | hy
    · refine Set.disjoint_of_subset_right ((subset_region hy).trans hsub) ?_
      exact Set.disjoint_iUnion₂_right.2 fun z hz ↦ hleft x hx z (List.mem_append_left _ hz)
    · exact hleft x hx y (List.mem_append_right _ hy)

/-- Replacing a group of neighbours keeps the list inside any region that contained it. -/
theorem region_replace_subset {l₁ l l' l₂ : List α} {s : Set ℕ}
    (h : region ext (l₁ ++ l ++ l₂) ⊆ s) (hsub : region ext l' ⊆ region ext l) :
    region ext (l₁ ++ l' ++ l₂) ⊆ s := by
  rw [region_subset_iff] at h ⊢
  intro x hx
  rcases List.mem_append.1 hx with hx | hx
  · rcases List.mem_append.1 hx with hx | hx
    · exact h x (by simp [hx])
    · refine ((subset_region hx).trans hsub).trans (region_subset_iff.2 fun y hy ↦ ?_)
      exact h y (by simp [hy])
  · exact h x (by simp [hx])

end Replace

/-! ### Tilings

A tiling is determined by its bounds and the two ends of each item, so it survives any change of the
items that keeps those (`tiles_of_map_eq`), and any group of neighbours may be replaced by a tiling
of the same interval. -/

section Tiles

variable (lo hi : α → ℕ)

/-- The items of the list follow each other from `a` to `b` without a gap. -/
def Tiles : ℕ → List α → ℕ → Prop
  | a, [], b => a = b
  | a, x :: l, b => lo x = a ∧ Tiles (hi x) l b

@[simp] theorem tiles_nil {a b : ℕ} : Tiles lo hi a [] b ↔ a = b := Iff.rfl

/-- A tiling begins with its first item, and goes on where that ends. -/
@[simp] theorem tiles_cons {a b : ℕ} {x : α} {l : List α} :
    Tiles lo hi a (x :: l) b ↔ lo x = a ∧ Tiles lo hi (hi x) l b := Iff.rfl

theorem tiles_append {a c : ℕ} {l l' : List α} :
    Tiles lo hi a (l ++ l') c ↔ ∃ b, Tiles lo hi a l b ∧ Tiles lo hi b l' c := by
  induction l generalizing a with
  | nil => simp
  | cons x l ih => simp [ih, and_assoc]

variable {lo hi}

/-- Tiling only looks at the end points of the items. -/
theorem tiles_of_map_eq {a b : ℕ} {l l' : List α}
    (hmap : l'.map (fun x ↦ (lo x, hi x)) = l.map fun x ↦ (lo x, hi x)) (h : Tiles lo hi a l b) :
    Tiles lo hi a l' b := by
  induction l generalizing a l' with
  | nil =>
    rw [List.map_nil, List.map_eq_nil_iff] at hmap
    exact hmap ▸ h
  | cons x l ih =>
    obtain ⟨y, l', rfl, hy, hl'⟩ := List.map_eq_cons_iff.1 hmap
    obtain ⟨hlo, hhi⟩ := Prod.mk.inj hy
    exact ⟨hlo.trans h.1, hhi ▸ ih hl' h.2⟩

namespace Tiles

variable {a b : ℕ} {l : List α}

theorem le (h : Tiles lo hi a l b) (hle : ∀ x ∈ l, lo x ≤ hi x) : a ≤ b := by
  induction l generalizing a with
  | nil => exact (tiles_nil lo hi).1 h |>.le
  | cons x l ih =>
    obtain ⟨hx, htail⟩ := h
    have hfirst := hle x List.mem_cons_self
    have hrest := ih htail fun y hy ↦ hle y (List.mem_cons_of_mem x hy)
    omega

/-- Every item of a tiling lies inside the tiled interval. -/
theorem bounds_of_mem (h : Tiles lo hi a l b) (hle : ∀ x ∈ l, lo x ≤ hi x) {x : α} (hx : x ∈ l) :
    a ≤ lo x ∧ hi x ≤ b := by
  obtain ⟨l₁, l₂, rfl⟩ := List.append_of_mem hx
  obtain ⟨c, h₁, hlo, h₂⟩ := (tiles_append lo hi).1 h
  refine ⟨?_, h₂.le fun y hy ↦ hle y (by simp [hy])⟩
  have := h₁.le fun y hy ↦ hle y (by simp [hy])
  omega

/-- The items of a tiling come in address order, so they are pairwise apart. -/
theorem pairwise (h : Tiles lo hi a l b) (hle : ∀ x ∈ l, lo x ≤ hi x) :
    l.Pairwise fun x y ↦ hi x ≤ lo y := by
  induction l generalizing a with
  | nil => exact List.Pairwise.nil
  | cons x l ih =>
    have htail : ∀ y ∈ l, lo y ≤ hi y := fun y hy ↦ hle y (List.mem_cons_of_mem x hy)
    refine List.pairwise_cons.2 ⟨fun y hy ↦ ?_, ih h.2 htail⟩
    exact (h.2.bounds_of_mem htail hy).1

/-- The lengths of the items of a tiling add up to the tiled length. -/
theorem sum_length (h : Tiles lo hi a l b) (hle : ∀ x ∈ l, lo x ≤ hi x) :
    a + (l.map fun x ↦ hi x - lo x).sum = b := by
  induction l generalizing a with
  | nil => simpa using h
  | cons x l ih =>
    have hx := hle x List.mem_cons_self
    have htail := ih h.2 fun y hy ↦ hle y (List.mem_cons_of_mem x hy)
    have hlo := h.1
    rw [List.map_cons, List.sum_cons]
    omega

/-- The items of a tiling occupy exactly the tiled interval. -/
theorem region_eq (h : Tiles lo hi a l b) (hle : ∀ x ∈ l, lo x ≤ hi x) :
    region (fun x ↦ Set.Ico (lo x) (hi x)) l = Set.Ico a b := by
  induction l generalizing a with
  | nil =>
    rw [(tiles_nil lo hi).1 h, Set.Ico_self]
    simp [region]
  | cons x l ih =>
    have htail : ∀ y ∈ l, lo y ≤ hi y := fun y hy ↦ hle y (List.mem_cons_of_mem x hy)
    have hcons : region (fun x ↦ Set.Ico (lo x) (hi x)) (x :: l) =
        Set.Ico (lo x) (hi x) ∪ region (fun x ↦ Set.Ico (lo x) (hi x)) l := by
      simp [region]
    rw [hcons, ih h.2 htail, h.1]
    exact Set.Ico_union_Ico_eq_Ico (h.1 ▸ hle x List.mem_cons_self) (h.2.le htail)

/-- Neighbours in a tiling touch. -/
theorem isChain (h : Tiles lo hi a l b) : l.IsChain fun x y ↦ hi x = lo y := by
  induction l generalizing a with
  | nil => exact List.isChain_nil
  | cons x l ih =>
    cases l with
    | nil => exact List.isChain_singleton x
    | cons y l => exact List.isChain_cons_cons.2 ⟨h.2.1.symm, ih h.2⟩

end Tiles

end Tiles

/-- Replacing two neighbours by one item keeps a neighbour relation that the new item inherits from
the old ones: from the left one towards the left, from the right one towards the right. -/
theorem isChain_replace {R : α → α → Prop} {l₁ l₂ : List α} {a b c : α}
    (h : (l₁ ++ a :: b :: l₂).IsChain R) (hleft : ∀ x, R x a → R x c)
    (hright : ∀ y, R b y → R c y) : (l₁ ++ c :: l₂).IsChain R := by
  rw [List.isChain_split] at h ⊢
  refine ⟨?_, h.2.tail.imp_head fun {y} ↦ hright y⟩
  rw [List.isChain_append] at h ⊢
  refine ⟨h.1.1, List.isChain_singleton c, fun x hx y hy ↦ ?_⟩
  rw [List.head?_cons, Option.mem_some_iff] at hy
  exact hy ▸ hleft x (h.1.2.2 x hx a rfl)

/-! ### One pass of merging neighbours

The pass compares each item with the last one it has kept. It is a sequence of single replacements,
which is how every invariant of it is proved, and afterwards no two neighbours can be merged, which
is a fact about the pass as a whole. -/

section Coalesce

variable (p : α → α → Bool) (f : α → α → α)

/-- The pass, with `a` the item it stands on. -/
def coalesceFrom : α → List α → List α
  | a, [] => [a]
  | a, b :: l => if p a b then coalesceFrom (f a b) l else a :: coalesceFrom b l

/-- One left-to-right pass that merges neighbours `a`, `b` with `p a b` into `f a b`. -/
def coalesce : List α → List α
  | [] => []
  | a :: l => coalesceFrom p f a l

/-- One replacement of two mergeable neighbours. -/
inductive Merge : List α → List α → Prop
  | mk (l₁ : List α) {a b : α} (l₂ : List α) (h : p a b = true) :
      Merge (l₁ ++ a :: b :: l₂) (l₁ ++ f a b :: l₂)

variable {p f}

theorem Merge.cons {l l' : List α} (x : α) (h : Merge p f l l') :
    Merge p f (x :: l) (x :: l') := by
  obtain ⟨l₁, l₂, h⟩ := h
  exact Merge.mk (x :: l₁) l₂ h

/-- A pass from an item on consists of replacements. -/
theorem coalesceFrom_reflTransGen (a : α) (l : List α) :
    Relation.ReflTransGen (Merge p f) (a :: l) (coalesceFrom p f a l) := by
  induction l generalizing a with
  | nil => exact Relation.ReflTransGen.refl
  | cons b l ih =>
    rw [coalesceFrom]
    split
    case isTrue h => exact Relation.ReflTransGen.head (Merge.mk [] l h) (ih (f a b))
    case isFalse => exact (ih b).lift (a :: ·) fun _ _ ↦ Merge.cons a

/-- **The pass is a sequence of single replacements.** -/
theorem coalesce_reflTransGen (l : List α) :
    Relation.ReflTransGen (Merge p f) l (coalesce p f l) := by
  cases l with
  | nil => exact Relation.ReflTransGen.refl
  | cons a l => exact coalesceFrom_reflTransGen a l

/-- A property kept by each replacement is kept by the pass. -/
theorem coalesce_preserves {P : List α → Prop}
    (hstep : ∀ (l₁ : List α) (a b : α) (l₂ : List α), p a b = true →
      P (l₁ ++ a :: b :: l₂) → P (l₁ ++ f a b :: l₂)) {l : List α} (h : P l) :
    P (coalesce p f l) := by
  have hrun : Relation.ReflTransGen (Merge p f) l (coalesce p f l) := coalesce_reflTransGen l
  generalize coalesce p f l = l' at hrun ⊢
  induction hrun with
  | refl => exact h
  | tail _ hmerge ih =>
    obtain ⟨l₁, l₂, hp⟩ := hmerge
    exact hstep l₁ _ _ l₂ hp ih

/-- What a property kept by each replacement says of the items replaced holds of every pair that the
pass merges. -/
theorem coalesce_merges {P : List α → Prop} {q : α → α → Prop}
    (hstep : ∀ (l₁ : List α) (a b : α) (l₂ : List α), p a b = true →
      P (l₁ ++ a :: b :: l₂) → P (l₁ ++ f a b :: l₂))
    (hq : ∀ (l₁ : List α) (a b : α) (l₂ : List α), p a b = true →
      P (l₁ ++ a :: b :: l₂) → q a b) {l : List α} (h : P l) :
    Relation.ReflTransGen (fun l l' ↦ ∃ l₁ a b l₂, q a b ∧ l = l₁ ++ a :: b :: l₂ ∧
      l' = l₁ ++ f a b :: l₂) l (coalesce p f l) := by
  have hrun : Relation.ReflTransGen (Merge p f) l (coalesce p f l) := coalesce_reflTransGen l
  suffices hboth : P (coalesce p f l) ∧ Relation.ReflTransGen (fun l l' ↦ ∃ l₁ a b l₂, q a b ∧
      l = l₁ ++ a :: b :: l₂ ∧ l' = l₁ ++ f a b :: l₂) l (coalesce p f l) from hboth.2
  generalize coalesce p f l = l' at hrun ⊢
  induction hrun with
  | refl => exact ⟨h, Relation.ReflTransGen.refl⟩
  | tail _ hmerge ih =>
    obtain ⟨l₁, l₂, hp⟩ := hmerge
    exact ⟨hstep l₁ _ _ l₂ hp ih.1, ih.2.tail ⟨l₁, _, _, l₂, hq l₁ _ _ l₂ hp ih.1, rfl, rfl⟩⟩

/-- **The pass leaves no two mergeable neighbours**, provided merging `b` with its right neighbour
does not change whether `b` can be merged with its left one. -/
theorem isChain_coalesce (hp : ∀ a b c, p b c = true → p a (f b c) = p a b) (l : List α) :
    (coalesce p f l).IsChain fun x y ↦ p x y = false := by
  have hfrom : ∀ (l : List α) (a : α),
      (coalesceFrom p f a l).IsChain (fun x y ↦ p x y = false) ∧
        ∀ z, ∀ y ∈ (coalesceFrom p f a l).head?, p z y = p z a := by
    intro l
    induction l with
    | nil =>
      intro a
      refine ⟨List.isChain_singleton a, fun z y hy ↦ ?_⟩
      rw [← Option.mem_some.1 hy]
    | cons b l ih =>
      intro a
      rw [coalesceFrom]
      split
      case isTrue h =>
        refine ⟨(ih (f a b)).1, fun z y hy ↦ ?_⟩
        rw [(ih (f a b)).2 z y hy, hp z a b h]
      case isFalse h =>
        refine ⟨List.isChain_cons.2 ⟨fun y hy ↦ ?_, (ih b).1⟩, fun z y hy ↦ ?_⟩
        · rw [(ih b).2 a y hy]
          exact Bool.eq_false_iff.2 h
        · rw [← Option.mem_some.1 hy]
  match l with
  | [] => exact List.isChain_nil
  | a :: l => exact (hfrom l a).1

/-- A list without mergeable neighbours is left as it is. -/
theorem coalesce_eq_self {l : List α} (h : l.IsChain fun x y ↦ p x y = false) :
    coalesce p f l = l := by
  match l with
  | [] => rfl
  | a :: l =>
    induction l generalizing a with
    | nil => rfl
    | cons b l ih =>
      obtain ⟨hab, htail⟩ := List.isChain_cons_cons.1 h
      rw [coalesce, coalesceFrom, hab, if_neg Bool.false_ne_true]
      exact congrArg (a :: ·) (ih b htail)

/-- **A single pair of mergeable neighbours** is all that is replaced, where the list with the two
merged has no mergeable neighbours, and merging does not change what the first one can be merged
with. -/
theorem coalesce_pair {l₁ l₂ : List α} {a b : α} (hab : p a b = true)
    (hleft : ∀ x, p x (f a b) = p x a)
    (h : (l₁ ++ f a b :: l₂).IsChain fun x y ↦ p x y = false) :
    coalesce p f (l₁ ++ a :: b :: l₂) = l₁ ++ f a b :: l₂ := by
  induction l₁ with
  | nil =>
    rw [List.nil_append, coalesce, coalesceFrom, if_pos hab]
    exact coalesce_eq_self h
  | cons x l₁ ih =>
    -- the pass leaves `x` as it is, and goes on with what follows
    have hnext : ∀ y l, l₁ ++ a :: b :: l₂ = y :: l → p x y = false := by
      intro y l hl
      rw [List.cons_append] at h
      cases l₁ with
      | nil =>
        obtain ⟨rfl, -⟩ := List.cons.inj hl
        rw [← hleft]
        exact (List.isChain_cons_cons.1 h).1
      | cons z l₁ =>
        obtain ⟨rfl, -⟩ := List.cons.inj hl
        exact (List.isChain_cons_cons.1 h).1
    have htail := ih h.tail
    rw [List.cons_append, List.cons_append, ← htail]
    rcases hl : l₁ ++ a :: b :: l₂ with - | ⟨y, l⟩
    · exact absurd hl (List.append_ne_nil_of_right_ne_nil _ (List.cons_ne_nil _ _))
    · rw [coalesce, coalesceFrom, hnext y l hl, if_neg Bool.false_ne_true]
      rfl

/-- **What the pass finds room for.** If merging two items keeps what `q` says of either of them,
and two mergeable neighbours would be enough for `q`, then so is the pass over the list. -/
theorem exists_mem_coalesce {q : α → Prop}
    (hmerge : ∀ a b, p a b = true → q a ∨ q b → q (f a b))
    (hpair : ∀ a b c, p a b = true → p b c = true → q (f b c) →
      p (f a b) c = true ∧ q (f (f a b) c))
    {l : List α} (h : (∃ c ∈ l, q c) ∨ ∃ a b, [a, b] <:+: l ∧ p a b = true ∧ q (f a b)) :
    ∃ c ∈ coalesce p f l, q c := by
  have hfrom : ∀ (l : List α) (a : α), ((∃ c ∈ a :: l, q c) ∨
      ∃ x y, [x, y] <:+: a :: l ∧ p x y = true ∧ q (f x y)) → ∃ c ∈ coalesceFrom p f a l, q c := by
    intro l
    induction l with
    | nil =>
      intro a h
      rcases h with ⟨c, hc, hq⟩ | ⟨x, y, hxy, -⟩
      · exact ⟨c, hc, hq⟩
      · have hlen := hxy.length_le
        simp at hlen
    | cons b l ih =>
      intro a h
      rw [coalesceFrom]
      split
      case isTrue hab =>
        refine ih (f a b) ?_
        rcases h with ⟨c, hc, hq⟩ | ⟨x, y, hxy, hp, hq⟩
        · rcases List.mem_cons.1 hc with rfl | hc
          · exact Or.inl ⟨_, List.mem_cons_self, hmerge _ _ hab (Or.inl hq)⟩
          rcases List.mem_cons.1 hc with rfl | hc
          · exact Or.inl ⟨_, List.mem_cons_self, hmerge _ _ hab (Or.inr hq)⟩
          · exact Or.inl ⟨c, List.mem_cons_of_mem _ hc, hq⟩
        -- where the pair stands: the two items merged, the second of them and the next, or behind
        rcases List.infix_cons_iff.1 hxy with hfront | hxy
        · obtain ⟨rfl, hsnd⟩ := List.cons_prefix_cons.1 hfront
          obtain ⟨rfl, -⟩ := List.cons_prefix_cons.1 hsnd
          exact Or.inl ⟨_, List.mem_cons_self, hq⟩
        rcases List.infix_cons_iff.1 hxy with hfront | hxy
        · obtain ⟨rfl, ⟨l', rfl⟩⟩ := List.cons_prefix_cons.1 hfront
          obtain ⟨hp', hq'⟩ := hpair a x y hab hp hq
          exact Or.inr ⟨f a x, y, ⟨[], l', rfl⟩, hp', hq'⟩
        · exact Or.inr ⟨x, y, hxy.trans (List.suffix_cons _ l).isInfix, hp, hq⟩
      case isFalse hab =>
        rcases h with ⟨c, hc, hq⟩ | ⟨x, y, hxy, hp, hq⟩
        · rcases List.mem_cons.1 hc with rfl | hc
          · exact ⟨c, List.mem_cons_self, hq⟩
          · obtain ⟨d, hd, hq⟩ := ih b (Or.inl ⟨c, hc, hq⟩)
            exact ⟨d, List.mem_cons_of_mem a hd, hq⟩
        rcases List.infix_cons_iff.1 hxy with hfront | hxy
        · obtain ⟨rfl, hsnd⟩ := List.cons_prefix_cons.1 hfront
          obtain ⟨rfl, -⟩ := List.cons_prefix_cons.1 hsnd
          exact absurd hp hab
        · obtain ⟨d, hd, hq⟩ := ih b (Or.inr ⟨x, y, hxy, hp, hq⟩)
          exact ⟨d, List.mem_cons_of_mem a hd, hq⟩
  match l with
  | [] =>
    rcases h with ⟨c, hc, -⟩ | ⟨x, y, hxy, -⟩
    · cases hc
    · cases List.infix_nil.1 hxy
  | a :: l => exact hfrom l a h

end Coalesce

end Interval
