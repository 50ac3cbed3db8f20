import LightNightOS.Memory.BlockHeap

/-!
# Invariants of the block heap

What `malloc` and `free` keep, at the level of block lists:

* `WellFormed` — blocks pairwise disjoint, inside the pages taken, 8-aligned. Kept by `malloc`
  unconditionally and by `free` when every two free neighbours touch (`HolesGuarded`).
* `Tiled` — on consecutive pages, the blocks tile the pages taken. Kept by both unconditionally;
  tiling implies that there are no holes to guard.
* `NoFreeNeighbours` — no two neighbours are both free. Kept by `malloc`, established by `free`
  whatever the list was.

The blocks in use are followed through the operations as a list (`used`): `malloc` inserts one,
`free` deletes one, and coalescing does not touch them.
-/

namespace LightNight

open Interval

namespace BlockHeap

/-! ### Pages

`PagesValid` is what a heap needs of its pages, in any order: they are aligned, end below `2 ^ 64`,
and are apart. `PagesFrom` says that they follow each other; valid they are then if they fit below
`2 ^ 64`.
-/

/-- The addresses of a page. -/
def pageRegion (page : ℕ) : Set ℕ := Set.Ico page (page + page2MSize)

/-- The pages follow each other without a gap from `a` to `b`. -/
def PagesFrom (a : ℕ) (pages : List ℕ) (b : ℕ) : Prop :=
  Tiles (fun p ↦ p) (fun p ↦ p + page2MSize) a pages b

/-- Consecutive pages end where their number says. -/
theorem PagesFrom.stop_eq {a b : ℕ} {pages : List ℕ} (h : PagesFrom a pages b) :
    b = a + pages.length * page2MSize := by
  induction pages generalizing a with
  | nil => simpa [PagesFrom, eq_comm] using h
  | cons p l ih =>
    have htail : b = p + page2MSize + l.length * page2MSize := ih h.2
    have hp : p = a := h.1
    rw [htail, hp, List.length_cons, Nat.add_mul]
    omega

theorem le_add_page {pages : List ℕ} : ∀ p ∈ pages, p ≤ p + page2MSize :=
  fun p _ ↦ Nat.le_add_right p _

theorem pageRegion_disjoint {p q : ℕ} (h : p + page2MSize ≤ q ∨ q + page2MSize ≤ p) :
    Disjoint (pageRegion p) (pageRegion q) :=
  Set.disjoint_left.2 fun x hx hx' ↦ by
    have h₁ := hx.1; have h₂ := hx.2; have h₃ := hx'.1; have h₄ := hx'.2
    omega

/-- Pages that may be handed out together. -/
structure PagesValid (pages : List ℕ) : Prop where
  disjoint : pages.Pairwise fun p q ↦ Disjoint (pageRegion p) (pageRegion q)
  /-- A page is a non-null, 8-aligned address with 2 MB of address space behind it. -/
  valid : ∀ p ∈ pages, 0 < p ∧ 8 ∣ p ∧ p + page2MSize ≤ 2 ^ 64

theorem PagesValid.sublist {pages pages' : List ℕ} (h : PagesValid pages)
    (hsub : pages'.Sublist pages) : PagesValid pages' :=
  ⟨h.disjoint.sublist hsub, fun p hp ↦ h.valid p (hsub.subset hp)⟩

/-- Pages that lie apart may be handed out together. -/
theorem pagesValid_of_apart {pages : List ℕ}
    (hapart : pages.Pairwise fun p q ↦ p + page2MSize ≤ q ∨ q + page2MSize ≤ p)
    (hvalid : ∀ p ∈ pages, 0 < p ∧ 8 ∣ p ∧ p + page2MSize ≤ 2 ^ 64) : PagesValid pages :=
  ⟨hapart.imp pageRegion_disjoint, hvalid⟩

/-- Consecutive pages may be handed out together. -/
theorem PagesFrom.valid {a b : ℕ} {pages : List ℕ} (h : PagesFrom a pages b) (hpos : 0 < a)
    (halign : 8 ∣ a) (hb : b ≤ 2 ^ 64) : PagesValid pages := by
  refine ⟨(h.pairwise le_add_page).imp fun hpq ↦ pageRegion_disjoint (Or.inl hpq), ?_⟩
  induction pages generalizing a with
  | nil => simp
  | cons p l ih =>
    obtain ⟨rfl, hl⟩ := h
    have hle : p + page2MSize ≤ b := hl.le le_add_page
    have hpage : 8 ∣ page2MSize := by decide
    intro q hq
    rcases List.mem_cons.1 hq with rfl | hq
    · exact ⟨hpos, halign, hle.trans hb⟩
    · exact ih hl (Nat.add_pos_left hpos _) (Nat.dvd_add halign hpage) q hq

/-! ### Well-formed heaps -/

/-- The invariant that does not depend on where the pages lie. -/
structure WellFormed (h : BlockHeap) : Prop where
  pages : PagesValid h.taken
  /-- No two blocks overlap, headers included. -/
  disjoint : h.blocks.Pairwise fun a b ↦ Disjoint a.extent b.extent
  /-- The blocks lie inside the pages taken. -/
  inside : region Block.extent h.blocks ⊆ region pageRegion h.taken
  aligned : ∀ b ∈ h.blocks, 8 ∣ b.addr ∧ 8 ∣ b.size
  /-- A block in use passes the size check of `free`. -/
  used_le : ∀ b ∈ h.blocks, b.isFree = false → b.size ≤ page2MSize

/-- The blocks in use, in list order. -/
def used (h : BlockHeap) : List Block := h.blocks.filter fun b ↦ !b.isFree

/-- A block is used if it is on the list and not free. -/
theorem mem_used {h : BlockHeap} {b : Block} : b ∈ h.used ↔ b ∈ h.blocks ∧ b.isFree = false := by
  simp [used]

namespace WellFormed

variable {h : BlockHeap}

/-- Every block lies in the address space, above the null pointer. -/
theorem block_bounds (hwf : h.WellFormed) {b : Block} (hb : b ∈ h.blocks) :
    0 < b.addr ∧ b.stop ≤ 2 ^ 64 := by
  have hin : b.extent ⊆ region pageRegion h.taken := (subset_region hb).trans hwf.inside
  have hvalid : ∀ x ∈ b.extent, 0 < x ∧ x < 2 ^ 64 := by
    intro x hx
    obtain ⟨p, hp, hxp⟩ := Set.mem_iUnion₂.1 (hin hx)
    have hpage := hwf.pages.valid p hp
    have hlo := hxp.1
    have hhi := hxp.2
    omega
  have hlt := b.addr_lt_stop
  have hfirst := hvalid b.addr ⟨le_rfl, hlt⟩
  have hlast := hvalid (b.stop - 1) ⟨by omega, by omega⟩
  omega

/-- Two blocks of a well-formed heap that share an address are the same block. -/
theorem eq_of_mem_extent (hwf : h.WellFormed) {a b : Block} (ha : a ∈ h.blocks)
    (hb : b ∈ h.blocks) {x : ℕ} (hxa : x ∈ a.extent) (hxb : x ∈ b.extent) : a = b := by
  by_contra hne
  have : Std.Symm fun a b : Block ↦ Disjoint a.extent b.extent := ⟨fun _ _ h ↦ h.symm⟩
  exact Set.disjoint_left.1 (hwf.disjoint.forall ha hb hne) hxa hxb

theorem eq_of_payload (hwf : h.WellFormed) {a b : Block} (ha : a ∈ h.blocks)
    (hb : b ∈ h.blocks) (hab : a.payload = b.payload) : a = b := by
  have haddr : a.addr = b.addr := by
    simp only [Block.payload] at hab
    omega
  exact hwf.eq_of_mem_extent ha hb ⟨le_rfl, a.addr_lt_stop⟩ ⟨haddr.ge, haddr ▸ b.addr_lt_stop⟩

/-- A page that may be handed out next holds no block. -/
theorem disjoint_page (hwf : h.WellFormed) {page : ℕ} (hpages : PagesValid (h.taken ++ [page]))
    {b : Block} (hb : b ∈ h.blocks) : Disjoint b.extent (pageRegion page) := by
  refine Set.disjoint_of_subset_left ((subset_region hb).trans hwf.inside) ?_
  refine Set.disjoint_iUnion₂_left.2 fun p hp ↦ ?_
  exact (List.pairwise_append.1 hpages.disjoint).2.2 p hp page (List.mem_singleton_self page)

/-! ### `malloc` keeps the heap well formed -/

/-- Taking the next page as one free block. -/
theorem takePage (hwf : h.WellFormed) {page : ℕ} {supply : List ℕ}
    (hpages : PagesValid (h.taken ++ [page])) :
    WellFormed { h with
      blocks := h.blocks ++ [pageBlock page], taken := h.taken ++ [page], supply } := by
  have hvalid := hpages.valid page (by simp)
  have hextent : (pageBlock page).extent = pageRegion page := by
    rw [Block.extent, pageRegion, pageBlock_stop, pageBlock_addr]
  refine ⟨hpages, ?_, ?_, ?_, ?_⟩
  · refine List.pairwise_append.2 ⟨hwf.disjoint, List.pairwise_singleton _ _, ?_⟩
    intro a ha b hb
    rw [List.mem_singleton.1 hb, hextent]
    exact hwf.disjoint_page hpages ha
  · refine region_subset_iff.2 fun b hb ↦ ?_
    rcases List.mem_append.1 hb with hb | hb
    · refine ((subset_region hb).trans hwf.inside).trans (region_subset_iff.2 fun p hp ↦ ?_)
      exact subset_region (List.mem_append_left _ hp)
    · rw [List.mem_singleton.1 hb, hextent]
      exact subset_region (List.mem_append_right _ (List.mem_singleton_self page))
  · intro b hb
    rcases List.mem_append.1 hb with hb | hb
    · exact hwf.aligned b hb
    · rw [List.mem_singleton.1 hb, pageBlock_addr, pageBlock_size]
      exact ⟨hvalid.2.1, by decide⟩
  · intro b hb hused
    rcases List.mem_append.1 hb with hb | hb
    · exact hwf.used_le b hb hused
    · rw [List.mem_singleton.1 hb, pageBlock_isFree] at hused
      cases hused

/-- Carving one block for a rounded request. -/
theorem carve (hwf : h.WellFormed) {l₁ l₂ : List Block} {b : Block} {size allocated : ℕ}
    (hblocks : h.blocks = l₁ ++ b :: l₂) (hfits : size + sizeofHeader ≤ b.size)
    (hsize : 8 ∣ size ∧ size + 2 * sizeofHeader + 104 ≤ page2MSize) :
    WellFormed { h with blocks := l₁ ++ b.carve size ++ l₂, allocated } := by
  have hsplit : h.blocks = l₁ ++ [b] ++ l₂ := by simp [hblocks]
  have hb : b ∈ h.blocks := by simp [hblocks]
  have hregion : region Block.extent (b.carve size) ⊆ region Block.extent [b] := by
    rw [Block.region_carve hfits]
    exact subset_region (List.mem_singleton_self b)
  have htiles := Block.tiles_carve hfits
  have hpieces : ∀ c ∈ b.carve size,
      (8 ∣ c.addr ∧ 8 ∣ c.size) ∧ (c.isFree = false → c.size ≤ page2MSize) := by
    obtain ⟨haddr, hbsize⟩ := hwf.aligned b hb
    obtain ⟨h8, hmax⟩ := hsize
    rw [sizeofHeader] at hfits hmax
    intro c hc
    rw [Block.carve, sizeofHeader] at hc
    split at hc
    case isTrue =>
      rcases List.mem_pair.1 hc with rfl | rfl
      · exact ⟨⟨haddr, h8⟩, fun _ ↦ by simp only; omega⟩
      · exact ⟨⟨by simp only; omega, by simp only; omega⟩, fun hfree ↦ by cases hfree⟩
    case isFalse =>
      rw [List.mem_singleton.1 hc]
      exact ⟨⟨haddr, hbsize⟩, fun _ ↦ by simp only; omega⟩
  refine ⟨hwf.pages, ?_, ?_, ?_, ?_⟩
  · refine pairwise_disjoint_replace (hsplit ▸ hwf.disjoint) ?_ hregion
    refine (htiles.pairwise Block.addr_le_stop_of_mem).imp fun hxy ↦ ?_
    exact Set.disjoint_left.2 fun z hz hz' ↦ absurd (hz.2.trans_le hxy) (Nat.not_lt.2 hz'.1)
  · exact region_replace_subset (hsplit ▸ hwf.inside) hregion
  · intro c hc
    simp only [List.mem_append] at hc
    rcases hc with (hc | hc) | hc
    exacts [hwf.aligned c (by simp [hblocks, hc]), (hpieces c hc).1,
      hwf.aligned c (by simp [hblocks, hc])]
  · intro c hc
    simp only [List.mem_append] at hc
    rcases hc with (hc | hc) | hc
    exacts [hwf.used_le c (by simp [hblocks, hc]), (hpieces c hc).2,
      hwf.used_le c (by simp [hblocks, hc])]

end WellFormed

/-- **`malloc` keeps a heap well formed**, wherever the pages lie. -/
theorem wellFormed_malloc {h : BlockHeap} (hwf : h.WellFormed) {n : ℕ}
    (hpages : PagesValid (h.malloc n).2.taken) : (h.malloc n).2.WellFormed := by
  rcases h.malloc_cases n with ⟨hfail, -⟩ | ⟨-, hn, l₁, b, l₂, hblocks, -, hfits, hplaced⟩ |
    ⟨-, hn, -, page, supply, hsupply, hpage⟩
  · rw [hfail]
    exact hwf
  · rw [hplaced]
    exact hwf.carve hblocks hfits.2 (roundUp8_spec hn).2
  · rw [hpage] at hpages ⊢
    have hcarved :=
      @WellFormed.carve _ (@WellFormed.takePage _ hwf page supply hpages) h.blocks []
        (pageBlock page) _
      (u64 (h.allocated + roundUp8 n)) rfl (pageBlock_fits hn).2 (roundUp8_spec hn).2
    rwa [List.append_nil] at hcarved

/-! ### Marking a block free -/

section Mark

variable {p : ℕ} {l : List Block}

/-- Marking changes the flag of the block with the payload, and nothing else. -/
theorem mem_mark {c : Block} (hc : c ∈ mark p l) :
    ∃ b ∈ l, c.addr = b.addr ∧ c.size = b.size ∧
      (c = b ∧ b.payload ≠ p ∨ b.payload = p ∧ c.isFree = true) := by
  obtain ⟨b, hb, rfl⟩ := List.mem_map.1 hc
  refine ⟨b, hb, ?_⟩
  by_cases hp : b.payload = p
  · rw [if_pos hp]
    exact ⟨rfl, rfl, Or.inr ⟨hp, rfl⟩⟩
  · rw [if_neg hp]
    exact ⟨rfl, rfl, Or.inl ⟨rfl, hp⟩⟩

/-- Marking moves no block. -/
theorem map_mark {β : Type*} {key : Block → β} (hkey : ∀ b : Block, key { b with isFree := true } =
    key b) : (mark p l).map key = l.map key := by
  rw [mark, List.map_map]
  refine List.map_congr_left fun b _ ↦ ?_
  rw [Function.comp_apply]
  split
  exacts [hkey b, rfl]

theorem filter_used_mark (p : ℕ) (l : List Block) :
    (mark p l).filter (fun b ↦ !b.isFree) =
      (l.filter fun b ↦ !b.isFree).filter fun b ↦ b.payload ≠ p := by
  induction l with
  | nil => rfl
  | cons b l ih =>
    have hcons : mark p (b :: l) =
        (if b.payload = p then { b with isFree := true } else b) :: mark p l := rfl
    rw [hcons]
    by_cases hp : b.payload = p
    · cases hfree : b.isFree <;> simp [hp, hfree, ih]
    · cases hfree : b.isFree <;> simp [hp, hfree, ih]

end Mark

/-! ### `free` and holes

The pass merges from left to right, so its invariant is about the list that is partly merged
(`PassInvariant`). Merging two blocks with a hole between them would make a block of bytes that
belong to nobody. -/

/-- Every two neighbours that are both free touch. Where the pages leave a hole between two list
neighbours, this says that at least one of the blocks beside the hole is in use. -/
def HolesGuarded (l : List Block) : Prop :=
  l.IsChain fun a b ↦ Block.bothFree a b = true → a.stop = b.addr

/-- The merged block ends where the second did, if the two touch. -/
theorem merge_stop {a b : Block} (h : a.stop = b.addr) : (a.merge b).stop = b.stop := by
  simp only [Block.stop, Block.merge] at h ⊢
  omega

theorem region_merge {a b : Block} (h : a.stop = b.addr) :
    region Block.extent [a.merge b] = region Block.extent [a, b] := by
  have htiles : Tiles Block.addr Block.stop a.addr [a, b] b.stop := by simp [h]
  have hone : Tiles Block.addr Block.stop a.addr [a.merge b] b.stop := ⟨rfl, merge_stop h⟩
  exact (hone.region_eq Block.addr_le_stop_of_mem).trans
    (htiles.region_eq Block.addr_le_stop_of_mem).symm

theorem bothFree_iff {a b : Block} :
    Block.bothFree a b = true ↔ a.isFree = true ∧ b.isFree = true := by
  simp [Block.bothFree]

/-- A merge of two free neighbours keeps the holes guarded. -/
theorem HolesGuarded.merge {l₁ l₂ : List Block} {a b : Block}
    (hfree : Block.bothFree a b = true) (h : HolesGuarded (l₁ ++ a :: b :: l₂)) :
    HolesGuarded (l₁ ++ a.merge b :: l₂) := by
  obtain ⟨ha, hb⟩ := bothFree_iff.1 hfree
  have htouch : a.stop = b.addr := (List.isChain_append_cons_cons.1 h).2.1 hfree
  refine isChain_replace h (fun x hx hboth ↦ ?_) fun y hy hboth ↦ ?_
  · exact hx (bothFree_iff.2 ⟨(bothFree_iff.1 hboth).1, ha⟩)
  · rw [merge_stop htouch]
    exact hy (bothFree_iff.2 ⟨hb, (bothFree_iff.1 hboth).2⟩)

/-- What the coalescing pass carries along: the block part of `WellFormed`, and the guarded holes
that make each merge harmless. -/
structure PassInvariant (taken : List ℕ) (l : List Block) : Prop where
  disjoint : l.Pairwise fun a b ↦ Disjoint a.extent b.extent
  inside : region Block.extent l ⊆ region pageRegion taken
  aligned : ∀ b ∈ l, 8 ∣ b.addr ∧ 8 ∣ b.size
  used_le : ∀ b ∈ l, b.isFree = false → b.size ≤ page2MSize
  guarded : HolesGuarded l

/-- One merge of two free neighbours that touch. -/
theorem PassInvariant.merge {taken : List ℕ} {l₁ l₂ : List Block} {a b : Block}
    (hfree : Block.bothFree a b = true) (h : PassInvariant taken (l₁ ++ a :: b :: l₂)) :
    PassInvariant taken (l₁ ++ a.merge b :: l₂) := by
  have ha := (bothFree_iff.1 hfree).1
  have htouch : a.stop = b.addr :=
    (List.isChain_append_cons_cons.1 h.guarded).2.1 hfree
  have hregion := region_merge htouch
  have hold : l₁ ++ a :: b :: l₂ = l₁ ++ [a, b] ++ l₂ := by simp
  have hnew : l₁ ++ a.merge b :: l₂ = l₁ ++ [a.merge b] ++ l₂ := by simp
  refine ⟨?_, ?_, ?_, ?_, h.guarded.merge hfree⟩
  · rw [hnew]
    exact pairwise_disjoint_replace (hold ▸ h.disjoint) (List.pairwise_singleton _ _) hregion.le
  · rw [hnew]
    exact region_replace_subset (hold ▸ h.inside) hregion.le
  · intro c hc
    obtain ⟨haddr, hasize⟩ := h.aligned a (by simp)
    have hbsize := (h.aligned b (by simp)).2
    rcases List.mem_append.1 hc with hc | hc
    · exact h.aligned c (by simp [hc])
    · rcases List.mem_cons.1 hc with rfl | hc
      · refine ⟨haddr, ?_⟩
        simp only [Block.merge, sizeofHeader]
        omega
      · exact h.aligned c (by simp [hc])
  · intro c hc hused
    rcases List.mem_append.1 hc with hc | hc
    · exact h.used_le c (by simp [hc]) hused
    · rcases List.mem_cons.1 hc with rfl | hc
      · exact absurd (ha.symm.trans hused) Bool.true_eq_false.mp
      · exact h.used_le c (by simp [hc]) hused

/-- **`free` keeps a heap well formed** when no hole is left unguarded. -/
theorem wellFormed_free {h : BlockHeap} (hwf : h.WellFormed) {p : ℕ}
    (hguard : h.Accepts p → HolesGuarded (mark p h.blocks)) : (h.free p).WellFormed := by
  rw [free]
  split
  case isFalse => exact hwf
  case isTrue haccept =>
    have hguard := hguard haccept
    have hextents : (mark p h.blocks).map Block.extent = h.blocks.map Block.extent :=
      map_mark fun _ ↦ rfl
    have hstart : PassInvariant h.taken (mark p h.blocks) := by
      refine ⟨?_, ?_, fun c hc ↦ ?_, fun c hc hused ↦ ?_, hguard⟩
      · have hpair := List.pairwise_map (f := Block.extent) (R := Disjoint) |>.2 hwf.disjoint
        rw [← hextents] at hpair
        exact List.pairwise_map.1 hpair
      · refine region_subset_iff.2 fun c hc ↦ ?_
        obtain ⟨b, hb, haddr, hsize, -⟩ := mem_mark hc
        have hext : c.extent = b.extent := by
          rw [Block.extent, Block.extent, Block.stop, Block.stop, haddr, hsize]
        exact hext ▸ (subset_region hb).trans hwf.inside
      · obtain ⟨b, hb, haddr, hsize, -⟩ := mem_mark hc
        rw [haddr, hsize]
        exact hwf.aligned b hb
      · obtain ⟨b, hb, -, -, ⟨rfl, -⟩ | ⟨-, hfree⟩⟩ := mem_mark hc
        · exact hwf.used_le c hb hused
        · exact absurd (hfree.symm.trans hused) Bool.true_eq_false.mp
    obtain ⟨hdisjoint, hinside, haligned, hused, -⟩ :=
      coalesce_preserves (P := PassInvariant h.taken)
        (fun _ _ _ _ hfree ↦ PassInvariant.merge hfree) hstart
    exact ⟨hwf.pages, hdisjoint, hinside, haligned, hused⟩

/-! ### Tiling of consecutive pages

On consecutive pages the blocks follow each other without a gap, and a new page begins where they
end. So two neighbours always touch, and `free` needs no guard. -/

/-- The pages taken are consecutive from `base` on, and the blocks tile them. -/
def Tiled (base : ℕ) (h : BlockHeap) : Prop :=
  ∃ mid, PagesFrom base h.taken mid ∧ Tiles Block.addr Block.stop base h.blocks mid

theorem Tiled.tiles {base : ℕ} {h : BlockHeap} (ht : Tiled base h) :
    Tiles Block.addr Block.stop base h.blocks (base + h.taken.length * page2MSize) := by
  obtain ⟨mid, htaken, hblocks⟩ := ht
  rwa [← htaken.stop_eq]

/-- On consecutive pages there is no hole to guard. -/
theorem Tiled.holesGuarded {base : ℕ} {h : BlockHeap} (ht : Tiled base h) (p : ℕ) :
    HolesGuarded (mark p h.blocks) := by
  have hchain := ht.tiles.isChain
  have hkey : ∀ b : Block, (b.addr, b.stop) =
      (fun c : Block ↦ (c.addr, c.stop)) { b with isFree := true } := fun _ ↦ rfl
  have hmap : (mark p h.blocks).map (fun c ↦ (c.addr, c.stop)) =
      h.blocks.map fun c ↦ (c.addr, c.stop) := map_mark fun b ↦ (hkey b).symm
  have hpairs : (h.blocks.map fun c ↦ (c.addr, c.stop)).IsChain fun x y ↦ x.2 = y.1 :=
    List.isChain_map _ |>.2 hchain
  rw [← hmap, List.isChain_map] at hpairs
  exact hpairs.imp fun _ _ h _ ↦ h

/-- `malloc` keeps the tiling, as long as the pages stay consecutive. -/
theorem tiled_malloc {base top : ℕ} {h : BlockHeap} (ht : Tiled base h) {n : ℕ}
    (hpages : PagesFrom base (h.malloc n).2.taken top) : Tiled base (h.malloc n).2 := by
  obtain ⟨mid, htaken, hblocks⟩ := ht
  rcases h.malloc_cases n with ⟨hfail, -⟩ | ⟨-, -, l₁, b, l₂, hl, -, hfits, hplaced⟩ |
    ⟨-, hn, -, page, supply, -, hpage⟩
  · rw [hfail]
    exact ⟨mid, htaken, hblocks⟩
  · rw [hplaced]
    refine ⟨mid, htaken, ?_⟩
    rw [hl] at hblocks
    obtain ⟨c, h₁, haddr, h₂⟩ := (tiles_append _ _).1 hblocks
    refine (tiles_append _ _).2 ⟨b.stop, (tiles_append _ _).2 ⟨c, h₁, ?_⟩, h₂⟩
    exact haddr ▸ Block.tiles_carve hfits.2
  · rw [hpage] at hpages ⊢
    -- the page taken is the one right behind the pages before it
    obtain ⟨c, hc, rfl, -⟩ := (tiles_append _ _).1 hpages
    have hmid : page = mid := (PagesFrom.stop_eq hc).trans (PagesFrom.stop_eq htaken).symm
    refine ⟨page + page2MSize, (tiles_append _ _).2 ⟨page, hc, rfl, rfl⟩, ?_⟩
    refine (tiles_append _ _).2 ⟨mid, hblocks, ?_⟩
    have hcarve := Block.tiles_carve (@pageBlock_fits n page hn).2
    rw [pageBlock_addr, pageBlock_stop] at hcarve
    exact hmid ▸ hcarve

theorem tiled_free {base : ℕ} {h : BlockHeap} (ht : Tiled base h) (p : ℕ) :
    Tiled base (h.free p) := by
  rw [free]
  split
  case isFalse => exact ht
  case isTrue =>
    obtain ⟨mid, htaken, hblocks⟩ := ht
    refine ⟨mid, htaken, ?_⟩
    have hmark : Tiles Block.addr Block.stop base (mark p h.blocks) mid := by
      refine tiles_of_map_eq (l := h.blocks) ?_ hblocks
      exact map_mark fun _ ↦ rfl
    refine coalesce_preserves (P := fun l ↦ Tiles Block.addr Block.stop base l mid) ?_ hmark
    intro l₁ a b l₂ _ htiles
    obtain ⟨c, h₁, haddr, hab, h₂⟩ := (tiles_append _ _).1 htiles
    refine (tiles_append _ _).2 ⟨c, h₁, haddr, ?_⟩
    rw [merge_stop hab.symm]
    exact h₂

/-! ### No two free neighbours -/

/-- No two list neighbours are both free. -/
def NoFreeNeighbours (h : BlockHeap) : Prop :=
  h.blocks.IsChain fun a b ↦ Block.bothFree a b = false

theorem isChain_bothFree_coalesce (l : List Block) :
    (coalesce Block.bothFree Block.merge l).IsChain fun a b ↦ Block.bothFree a b = false := by
  refine isChain_coalesce (fun a b c hbc ↦ ?_) l
  rfl

theorem noFreeNeighbours_free {h : BlockHeap} (hno : h.NoFreeNeighbours) (p : ℕ) :
    (h.free p).NoFreeNeighbours := by
  rw [free]
  split
  exacts [isChain_bothFree_coalesce _, hno]

/-- Carving a free block puts a block in use in front of what is left of it. -/
theorem isChain_carve {l₁ l₂ : List Block} {b : Block} {size : ℕ} (hfree : b.isFree = true)
    (h : (l₁ ++ b :: l₂).IsChain fun a b ↦ Block.bothFree a b = false) :
    (l₁ ++ b.carve size ++ l₂).IsChain fun a b ↦ Block.bothFree a b = false := by
  have hused : ∀ c : Block, Block.bothFree c ⟨b.addr, size, false⟩ = false ∧
      Block.bothFree c ⟨b.addr, b.size, false⟩ = false := fun c ↦ by simp [Block.bothFree]
  rw [List.isChain_split] at h
  obtain ⟨hleft, hright⟩ := h
  rw [List.isChain_append] at hleft
  rw [List.append_assoc, Block.carve]
  split
  · refine List.IsChain.append hleft.1 ?_ fun x _ y hy ↦ ?_
    · refine List.isChain_cons_cons.2 ⟨by simp [Block.bothFree], ?_⟩
      refine hright.imp_head fun {y} hy ↦ ?_
      simpa [Block.bothFree, hfree] using hy
    · rw [← Option.mem_some.1 hy]
      exact (hused x).1
  · refine List.IsChain.append hleft.1 ?_ fun x _ y hy ↦ ?_
    · exact hright.imp_head fun {y} _ ↦ by simp [Block.bothFree]
    · rw [← Option.mem_some.1 hy]
      exact (hused x).2

/-- `malloc` makes no two free neighbours: what is left of a block is free only if the block was. -/
theorem noFreeNeighbours_malloc {h : BlockHeap} (hno : h.NoFreeNeighbours) (n : ℕ) :
    (h.malloc n).2.NoFreeNeighbours := by
  rcases h.malloc_cases n with ⟨hfail, -⟩ | ⟨-, -, l₁, b, l₂, hl, -, hfits, hplaced⟩ |
    ⟨-, -, -, page, supply, -, hpage⟩
  · rw [hfail]
    exact hno
  · rw [hplaced]
    exact isChain_carve hfits.1 (hl ▸ hno)
  · rw [hpage]
    -- the page's first block is in use, whatever stands in front of it
    have hsingle : ([pageBlock page]).IsChain fun a b ↦ Block.bothFree a b = false :=
      List.isChain_singleton _
    have hcarve := @isChain_carve [] [] _ (roundUp8 n) rfl hsingle
    rw [List.append_nil, List.nil_append] at hcarve
    refine List.IsChain.append hno hcarve fun x _ y hy ↦ ?_
    have hyfree : y.isFree = false := by
      rw [Block.carve] at hy
      split at hy <;> rw [← Option.mem_some.1 hy]
    simp [Block.bothFree, hyfree]

/-! ### The blocks in use

The blocks in use are the blocks of the live pointers, so how the list of them changes is what a
caller of the heap sees. -/

theorem filter_used_coalesce (l : List Block) :
    (coalesce Block.bothFree Block.merge l).filter (fun b ↦ !b.isFree) =
      l.filter fun b ↦ !b.isFree := by
  refine coalesce_preserves
    (P := fun m ↦ m.filter (fun b ↦ !b.isFree) = l.filter fun b ↦ !b.isFree) ?_ rfl
  intro l₁ a b l₂ hfree h
  obtain ⟨ha, hb⟩ := bothFree_iff.1 hfree
  rw [← h]
  simp [List.filter_append, ha, hb, Block.merge]

/-- `free` deletes the freed block from the blocks in use, and touches no other. -/
theorem used_free {h : BlockHeap} {p : ℕ} (haccept : h.Accepts p) :
    (h.free p).used = h.used.filter fun b ↦ b.payload ≠ p := by
  rw [free, if_pos haccept, used, filter_used_coalesce, filter_used_mark, used]

theorem filter_used_carve (b : Block) {size : ℕ} (h : size + sizeofHeader ≤ b.size) :
    ∃ s, size ≤ s ∧ (b.carve size).filter (fun c ↦ !c.isFree) = [⟨b.addr, s, false⟩] := by
  rw [Block.carve]
  split
  · exact ⟨size, le_rfl, by simp⟩
  · exact ⟨b.size, by omega, by simp⟩

/-- **What a successful `malloc` adds**: one block in use, at the pointer returned, that holds the
request. The other blocks in use are the same. -/
theorem used_malloc {h h' : BlockHeap} {n p : ℕ} (hmalloc : h.malloc n = (p, h')) (hp : p ≠ 0) :
    ∃ u₁ b u₂, h.used = u₁ ++ u₂ ∧ h'.used = u₁ ++ b :: u₂ ∧ b.payload = p ∧ n ≤ b.size := by
  rcases h.malloc_cases n with ⟨hfail, -⟩ | ⟨-, hn, l₁, b, l₂, hl, -, hfits, hplaced⟩ |
    ⟨-, hn, -, page, supply, -, hpage⟩
  · rw [hmalloc] at hfail
    exact absurd (Prod.mk.inj hfail).1 hp
  · obtain ⟨rfl, rfl⟩ := Prod.mk.inj (hmalloc.symm.trans hplaced)
    obtain ⟨s, hs, hcarve⟩ := filter_used_carve b hfits.2
    refine ⟨l₁.filter fun c ↦ !c.isFree, ⟨b.addr, s, false⟩, l₂.filter fun c ↦ !c.isFree, ?_, ?_,
      rfl, (roundUp8_spec hn).1.trans hs⟩
    · simp [used, hl, hfits.1]
    · simp [used, hcarve]
  · obtain ⟨rfl, rfl⟩ := Prod.mk.inj (hmalloc.symm.trans hpage)
    obtain ⟨s, hs, hcarve⟩ := filter_used_carve (pageBlock page) (pageBlock_fits hn).2
    exact ⟨h.used, ⟨page, s, false⟩, [], by simp, by simp [used, hcarve], rfl,
      (roundUp8_spec hn).1.trans hs⟩

end BlockHeap

end LightNight
