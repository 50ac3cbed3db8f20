import LightNightOS.Memory.HeldHeap

/-!
# What a `free` gives back

A call of `malloc` that takes no page splits a free block, or takes it as it is. `free` marks the
block and coalesces the whole list. On a list without free neighbours the pass then merges the two
halves of the split, and nothing else, so the call is undone (`free_malloc_restores`), and after the
last `free` the heap is one free block (`heap_coalesced`). On a map with usable memory from `2 ^ 47`
on, `free` does nothing at all (`far_block_kept`, `far_malloc_kept`).

The other way round, a block that has been freed need not serve the request it was allocated for.
The search wants room for a header beside the request, and a block that was split has none: it can
be taken again only together with a free neighbour. `malloc_after_free` says exactly when the
request is served, `exact_block_lost` is a machine on which it is not.

* `free_malloc` — on a list without free neighbours, what `malloc` split is put together again;
* `heap_coalesced` — on consecutive pages of a low map the blocks add up to the pages, and are one
  when nothing is live;
* `free_malloc_restores` — the block list after `malloc` and `free` is the one before, unless a page
  was taken;
* `malloc_after_free` — which requests are served after the block of one has been freed.
-/

namespace LightNight

open Interval BlockHeap Transition

/-! ### Freeing what was just allocated

A split makes two blocks of one. Marked free, they are the only neighbours on the list that can be
merged, so one pass gives the block back. -/

namespace BlockHeap

variable {h : BlockHeap}

/-- The first block of a carved one is the one in use. -/
def carved (b : Block) (size : ℕ) : Block :=
  ⟨b.addr, if size + sizeofHeader + sizeofHeader + 8 < b.size then size else b.size, false⟩

/-- The block that is carved, and what is left of it. -/
theorem carve_eq (b : Block) (size : ℕ) : b.carve size = carved b size ::
    if size + sizeofHeader + sizeofHeader + 8 < b.size then
      [⟨b.addr + (size + sizeofHeader), b.size - (size + sizeofHeader), true⟩] else [] := by
  rw [Block.carve, carved]
  split <;> rfl

/-- The block that is carved is where the old one was. -/
@[simp] theorem carved_payload (b : Block) (size : ℕ) : (carved b size).payload = b.payload := rfl

/-- The two halves of a split merge to the block that was split. -/
theorem merge_carved {b : Block} {size : ℕ} (hfits : b.Fits size)
    (hsplit : size + sizeofHeader + sizeofHeader + 8 < b.size) :
    Block.merge { carved b size with isFree := true }
      ⟨b.addr + (size + sizeofHeader), b.size - (size + sizeofHeader), true⟩ = b := by
  obtain ⟨addr, bsize, isFree⟩ := b
  obtain ⟨rfl, hle⟩ := hfits
  rw [carved, Block.merge]
  dsimp only at hsplit hle ⊢
  rw [if_pos hsplit, sizeofHeader] at *
  congr 1
  omega

/-- **Coalescing undoes the carving** of a free block in a list without free neighbours. -/
theorem coalesce_carved {l₁ l₂ : List Block} {b : Block} {size : ℕ} (hfits : b.Fits size)
    (hno : (l₁ ++ b :: l₂).IsChain fun a b ↦ Block.bothFree a b = false) :
    coalesce Block.bothFree Block.merge (l₁ ++ { carved b size with isFree := true } ::
      ((if size + sizeofHeader + sizeofHeader + 8 < b.size then
        [⟨b.addr + (size + sizeofHeader), b.size - (size + sizeofHeader), true⟩] else []) ++ l₂)) =
      l₁ ++ b :: l₂ := by
  split
  case isTrue hsplit =>
    have hmerge := merge_carved hfits hsplit
    rw [List.singleton_append]
    refine (coalesce_pair rfl (fun x ↦ rfl) ?_).trans ?_ <;> rw [hmerge]
    exact hno
  case isFalse hwhole =>
    have hsame : { carved b size with isFree := true } = b := by
      rw [carved, if_neg hwhole]
      exact congrArg (Block.mk b.addr b.size) hfits.1.symm
    rw [List.nil_append, hsame]
    exact coalesce_eq_self hno

/-- **`free` undoes a `malloc` that took no page.** -/
theorem free_malloc {p n : ℕ} (hwf : (h.malloc n).2.WellFormed) (hno : h.NoFreeNeighbours)
    (hmalloc : (h.malloc n).1 = p) (hp : p ≠ 0) (htaken : (h.malloc n).2.taken = h.taken)
    (haccept : (h.malloc n).2.Accepts p) : ((h.malloc n).2.free p).blocks = h.blocks := by
  rcases h.malloc_cases n with ⟨hfail, -⟩ | ⟨-, -, l₁, b, l₂, hl, -, hfits, hplaced⟩ |
    ⟨-, -, -, page, supply, -, hpage⟩
  · rw [hfail] at hmalloc
    exact absurd hmalloc.symm hp
  · rw [hplaced] at hmalloc hwf haccept ⊢
    rw [free, if_pos haccept, ← hmalloc]
    have hblocks : l₁ ++ b.carve (roundUp8 n) ++ l₂ = l₁ ++ carved b (roundUp8 n) ::
        ((if roundUp8 n + sizeofHeader + sizeofHeader + 8 < b.size then
          [⟨b.addr + (roundUp8 n + sizeofHeader), b.size - (roundUp8 n + sizeofHeader), true⟩]
          else []) ++ l₂) := by
      rw [carve_eq, List.append_assoc, List.cons_append]
    have hmark := hwf.mark_eq hblocks
    rw [carved_payload] at hmark
    dsimp only at hmark ⊢
    rw [hmark, coalesce_carved hfits (hl ▸ hno), hl]
  · rw [hpage] at htaken
    have hlength := congrArg List.length htaken
    simp at hlength

end BlockHeap

/-- The condition on the memory map under which `free` gives everything back: besides what
`SoundMap` says, usable memory ends below `2 ^ 47`. Above, `Phy_To_Virt` of its end wraps, and
`free` rejects every pointer. -/
structure LowMap (entries : List E820) : Prop extends SoundMap entries where
  range : heapEnd entries < 2 ^ 47

theorem lowMap_smallMap : LowMap smallMap := ⟨soundMap_smallMap, by decide⟩

/-- **No leak and full coalescing.** After any run of `malloc`, `free` and writes from the heap that
`init_page` leaves on a low map, in which the pages handed out are consecutive, no two neighbours on
the list are free and the blocks account for every byte of the pages. So when nothing is live, all
the pages are one free block. -/
theorem heap_coalesced {s₀ : MemoryState} (hs : Uninitialised s₀) {entries : List E820}
    (hmap : LowMap entries) {calls : List HeapCall} {u : HeapUse}
    (hrun : Run HeapStep ⟨(initPage entries s₀).2, []⟩ calls u) {base : ℕ}
    (hpages : Consecutive base u.state.taken) :
    ∃ blocks, Linked u.state.mem u.state.mallocHead blocks 0 ∧
      blocks.IsChain (fun a b ↦ ¬(a.isFree = true ∧ b.isFree = true)) ∧
      (blocks.map fun b ↦ sizeofHeader + b.size).sum = u.state.taken.length * page2MSize ∧
      (u.live = [] → blocks = if u.state.taken = [] then []
        else [⟨base, u.state.taken.length * page2MSize - sizeofHeader, true⟩]) := by
  obtain ⟨h, hu, -, hrecorded⟩ := heapInvariant_run hs hmap.range hrun hpages
  have htaken := hu.represents.taken
  have htiles := hu.tiled.tiles
  have hchain : h.blocks.IsChain fun a b ↦ ¬(a.isFree = true ∧ b.isFree = true) :=
    hu.noFreeNeighbours.imp fun a b hab hboth ↦ by
      rw [bothFree_iff.2 hboth] at hab
      cases hab
  refine ⟨h.blocks, hu.represents.blocks, hchain, ?_, fun hlive ↦ ?_⟩
  · have hsum := htiles.sum_length Block.addr_le_stop_of_mem
    have hlen : (h.blocks.map fun b ↦ b.stop - b.addr) =
        h.blocks.map fun b ↦ sizeofHeader + b.size := by
      refine List.map_congr_left fun b _ ↦ ?_
      simp only [Block.stop]
      omega
    rw [hlen] at hsum
    rw [htaken]
    omega
  · rw [htaken]
    have hfree : ∀ b ∈ h.blocks, b.isFree = true := by
      intro b hb
      by_contra hused
      have hmem := hrecorded b (mem_used.2 ⟨hb, by simpa using hused⟩)
      simp [hlive] at hmem
    split
    case isTrue hnil =>
      rw [hnil] at htiles
      by_contra hne
      obtain ⟨b, hb⟩ := List.exists_mem_of_ne_nil _ hne
      have hbounds := htiles.bounds_of_mem Block.addr_le_stop_of_mem hb
      have hlt := b.addr_lt_stop
      simp only [List.length_nil, Nat.zero_mul] at hbounds
      omega
    case isFalse hne =>
      have hpos : 0 < h.taken.length * page2MSize :=
        Nat.mul_pos (List.length_pos_of_ne_nil hne) (by decide)
      have hsingle := eq_singleton_of_all_free htiles hu.noFreeNeighbours hfree (by omega)
      rwa [Nat.add_sub_cancel_left] at hsingle

theorem heap_coalesced_smallMap : ∃ u : HeapUse, u.live = [] ∧ u.state.taken ≠ [] ∧
    ∃ blocks, Linked u.state.mem u.state.mallocHead blocks 0 ∧
      blocks.IsChain (fun a b ↦ ¬(a.isFree = true ∧ b.isFree = true)) ∧
      (blocks.map fun b ↦ sizeofHeader + b.size).sum = u.state.taken.length * page2MSize ∧
      (u.live = [] → blocks = if u.state.taken = [] then []
        else [⟨0xffff800000200000, u.state.taken.length * page2MSize - sizeofHeader, true⟩]) := by
  have hs := initPage_fresh uninitialised_zeroed smallMap
  rw [smallMap_supply] at hs
  have hpage : Consecutive 0xffff800000200000 [0xffff800000200000] :=
    ⟨by decide, by decide, ⟨rfl, rfl⟩, by decide⟩
  obtain ⟨u, hmalloc, hu, hlive⟩ := hs.held.exists_malloc (n := 100) hpage.valid
  have hlive : u.live = [(0xffff800000200018, 100)] := hlive
  obtain ⟨s', hfree, -⟩ := hu.exists_free (p := 0xffff800000200018) (by simp [hlive])
  have htaken : s'.taken = [0xffff800000200000] := by
    cases hfree with
    | free _ hfree => exact (free_taken hfree).trans hu.represents.taken
  refine ⟨_, by simp [hlive], by simp [htaken], heap_coalesced uninitialised_zeroed lowMap_smallMap
    ((Run.single hmalloc).snoc hfree) (htaken ▸ hpage)⟩

/-- **`malloc` and then `free` is the identity on the block list.** After any run of `malloc`,
`free` and writes from the heap that `init_page` leaves on a low map, in which the pages handed out
are consecutive: if `malloc` succeeds without taking a page, then freeing the pointer at once
restores the list. -/
theorem free_malloc_restores {s₀ : MemoryState} (hs : Uninitialised s₀) {entries : List E820}
    (hmap : LowMap entries) {calls : List HeapCall} {u : HeapUse}
    (hrun : Run HeapStep ⟨(initPage entries s₀).2, []⟩ calls u) {base : ℕ}
    (hpages : Consecutive base u.state.taken) {n p : ℕ} {s : MemoryState}
    (hmalloc : u.state.malloc n = some (p, s)) (hp : p ≠ 0) (htaken : s.taken = u.state.taken) :
    ∃ blocks s', Linked u.state.mem u.state.mallocHead blocks 0 ∧ s.free p = some s' ∧
      Linked s'.mem s'.mallocHead blocks 0 := by
  obtain ⟨h, hu, hr, -⟩ := heapInvariant_run hs hmap.range hrun hpages
  have hpages' : Consecutive base s.taken := htaken ▸ hpages
  have hstep : HeapStep u (.malloc n) ⟨s, if p = 0 then u.live else (p, n) :: u.live⟩ :=
    .malloc hmalloc
  have hu' := hu.step hstep hpages'
  have hvalid : PagesValid (h.malloc n).2.taken :=
    hpages'.valid.sublist (malloc_taken_extends hu.represents hu.wellFormed hmalloc).sublist
  obtain ⟨s₁, hmalloc', -, -⟩ := malloc_refines hu.represents hu.wellFormed hvalid
  obtain ⟨hp', -⟩ := Prod.mk.inj (Option.some.inj (hmalloc.symm.trans hmalloc'))
  -- the block just allocated can be freed
  have hlive : (p, n) ∈ (if p = 0 then u.live else (p, n) :: u.live) := by
    rw [if_neg hp]
    exact List.mem_cons_self
  obtain ⟨b, hb, hbp, hle⟩ : ∃ b ∈ (h.malloc n).2.used, b.payload = p ∧ n ≤ b.size :=
    hu'.serves.block (p, n) hlive
  obtain ⟨s', hfree, hrepresents, -⟩ := free_refines hu'.represents hu'.wellFormed hb
  rw [hbp] at hfree hrepresents
  have hpos : 0 < n := hu'.serves.positive (p, n) hlive
  have haccept : (h.malloc n).2.Accepts p := by
    rw [← hbp]
    exact (hr.after (.malloc n)).accepts hu'.tiled (mem_used.1 hb).1 (by omega)
  refine ⟨h.blocks, s', hu.represents.blocks, hfree, ?_⟩
  rw [← BlockHeap.free_malloc hu'.wellFormed hu.noFreeNeighbours hp'.symm hp ?_ haccept]
  · exact hrepresents.blocks
  · rw [← hu.represents.taken, ← htaken]
    exact hu'.represents.taken.symm

/-- An allocation behind another one, which is undone. -/
theorem free_malloc_restores_smallMap : ∃ (u : HeapUse) (s : MemoryState) (p : ℕ), p ≠ 0 ∧
    u.state.malloc 50 = some (p, s) ∧
    ∃ blocks s', Linked u.state.mem u.state.mallocHead blocks 0 ∧ s.free p = some s' ∧
      Linked s'.mem s'.mallocHead blocks 0 := by
  have hs := initPage_fresh uninitialised_zeroed smallMap
  rw [smallMap_supply] at hs
  have hpage : Consecutive 0xffff800000200000 [0xffff800000200000] :=
    ⟨by decide, by decide, ⟨rfl, rfl⟩, by decide⟩
  obtain ⟨u, hstep, hu, -⟩ := hs.held.exists_malloc (n := 100) hpage.valid
  have htaken : u.state.taken = [0xffff800000200000] := hu.represents.taken
  obtain ⟨s, hmalloc, hr, -⟩ := malloc_refines hu.represents hu.wellFormed (n := 50) hpage.valid
  have htaken' : s.taken = [0xffff800000200000] := hr.taken
  have hp : (((emptyHeap (initPage smallMap .zeroed).2
      [0xffff800000200000, 0xffff800000400000]).after (.malloc 100)).malloc 50).1 ≠ 0 := by
    decide +kernel
  exact ⟨u, s, _, hp, hmalloc, free_malloc_restores uninitialised_zeroed lowMap_smallMap
    (Run.single hstep) (htaken ▸ hpage) hmalloc hp (htaken'.trans htaken.symm)⟩

/-- Two frames, and half of one far above them. -/
def farMap : List E820 := [⟨0x180000, 0x480000, 1⟩, ⟨0x800000000000, 0x100000, 1⟩]

/-- Two frames at the start of memory, of a map that goes on far above. -/
theorem farMap_supply : (if (initPage farMap .zeroed).1 = .noRoom then [] else
    (usableFrames farMap).map phyToVirt) = [0xffff800000200000, 0xffff800000400000] := by
  decide +kernel

/-- Where the range ends before it starts, no pointer is in it. -/
theorem Represents.not_inRange {s : MemoryState} {h : BlockHeap} (hr : Represents s h)
    (hrange : h.rangeEnd ≤ h.rangeStart) (p : ℕ) : ¬s.InRange p := by
  rintro ⟨-, hlo, hhi⟩
  rw [hr.rangeStart] at hlo
  rw [hr.rangeEnd] at hhi
  omega

/-- A block is taken, and the range of `free` is empty: its end has wrapped to `0x100000`. -/
theorem farMap_taken : ∃ u, Run HeapStep ⟨(initPage farMap .zeroed).2, []⟩ [.malloc 100] u ∧
    u.live = [(0xffff800000200018, 100)] ∧ Consecutive 0xffff800000200000 u.state.taken ∧
    ∃ h, Held u h ∧ h.taken = [0xffff800000200000] ∧ h.rangeEnd ≤ h.rangeStart ∧
      h.blocks = [⟨0xffff800000200000, 104, false⟩, ⟨0xffff800000200080, 2097000, true⟩] := by
  have hs := initPage_fresh uninitialised_zeroed farMap
  rw [farMap_supply] at hs
  have hpage : Consecutive 0xffff800000200000 [0xffff800000200000] :=
    ⟨by decide, by decide, ⟨rfl, rfl⟩, by decide⟩
  obtain ⟨u, hstep, hu, hlive⟩ := hs.held.exists_malloc (n := 100) hpage.valid
  have htaken : u.state.taken = [0xffff800000200000] := hu.represents.taken
  exact ⟨u, Run.single hstep, hlive, htaken ▸ hpage, _, hu,
    rfl, by decide +kernel, by decide +kernel⟩

/-- **A block that stays in use.** On the map with memory from `2 ^ 47` on, the only block is freed,
and the list is as it was. -/
theorem far_block_kept : (initPage farMap .zeroed).1 = .complete ∧
    ∃ u, Run HeapStep ⟨(initPage farMap .zeroed).2, []⟩ [.malloc 100, .free 0xffff800000200018] u ∧
      Consecutive 0xffff800000200000 u.state.taken ∧ u.live = [] ∧
      ¬∃ blocks, Linked u.state.mem u.state.mallocHead blocks 0 ∧
        (u.live = [] → blocks = if u.state.taken = [] then []
          else [⟨0xffff800000200000, u.state.taken.length * page2MSize - sizeofHeader, true⟩]) := by
  obtain ⟨u, hrun, hlive, hpages, h, hu, htaken, hrange, hblocks⟩ := farMap_taken
  have hfree : HeapStep u (.free 0xffff800000200018)
      ⟨u.state, u.live.filter fun a ↦ a.1 ≠ 0xffff800000200018⟩ :=
    .free (Or.inr (by simp [hlive])) (free_eq_self (Or.inl (hu.represents.not_inRange hrange _)))
  refine ⟨by decide +kernel, _, hrun.snoc hfree, hpages, by simp [hlive], ?_⟩
  rintro ⟨blocks, hlinked, hall⟩
  have hsame := hlinked.unique hu.represents.blocks
  have hone := hall (by simp [hlive])
  rw [if_neg (by rw [hu.represents.taken, htaken]; exact List.cons_ne_nil _ _)] at hone
  have hlength := congrArg List.length (hone.symm.trans (hsame.trans hblocks))
  exact absurd hlength (by simp)

/-- On the same map, a block that is freed at once is not given back. -/
theorem far_malloc_kept : (initPage farMap .zeroed).1 = .complete ∧
    ∃ u s p, Run HeapStep ⟨(initPage farMap .zeroed).2, []⟩ [.malloc 100] u ∧
      Consecutive 0xffff800000200000 u.state.taken ∧ u.state.malloc 50 = some (p, s) ∧ p ≠ 0 ∧
      s.taken = u.state.taken ∧
      ¬∃ blocks s', Linked u.state.mem u.state.mallocHead blocks 0 ∧ s.free p = some s' ∧
        Linked s'.mem s'.mallocHead blocks 0 := by
  obtain ⟨u, hrun, -, hpages, h, hu, htaken, hrange, hblocks⟩ := farMap_taken
  have hfits : (⟨0xffff800000200080, 2097000, true⟩ : Block).Fits (roundUp8 50) := ⟨rfl, by decide⟩
  have hno : ∀ c ∈ [(⟨0xffff800000200000, 104, false⟩ : Block)], ¬c.Fits (roundUp8 50) := by
    intro c hc hfits
    rw [List.mem_singleton.1 hc] at hfits
    cases hfits.1
  obtain ⟨s, hmalloc, hr, -⟩ :=
    malloc_place hu.represents hu.wellFormed (n := 50) (by decide) (by decide)
    (show h.blocks = [_] ++ _ :: [] from hblocks) hno hfits
  refine ⟨by decide +kernel, u, s, _, hrun, hpages, hmalloc, by decide, ?_, ?_⟩
  · exact hr.taken.trans hu.represents.taken.symm
  · rintro ⟨blocks, s', hlinked, hfree, hlinked'⟩
    rw [free_eq_self (Or.inl (hr.not_inRange hrange _))] at hfree
    obtain rfl := Option.some.inj hfree
    have hbefore := (hlinked.unique hu.represents.blocks).trans hblocks
    -- the block that was split stays in two
    have hlength : 2 = ([(⟨0xffff800000200000, 104, false⟩ : Block)] ++
        Block.carve ⟨0xffff800000200080, 2097000, true⟩ (roundUp8 50) ++ []).length :=
      congrArg List.length (hbefore.symm.trans (hlinked'.unique hr.blocks))
    exact absurd hlength (by decide +kernel)

/-! ### Allocating again what was just freed -/

/-- Freeing the block with payload `p` makes room for `size` bytes: the block has room for a header
more, or a neighbour is free. -/
def ReleasesRoom (size p : ℕ) (blocks : List Block) : Prop :=
  ∃ l₁ b l₂, blocks = l₁ ++ b :: l₂ ∧ b.payload = p ∧ (size + sizeofHeader ≤ b.size ∨
    (∃ c ∈ l₁.getLast?, c.isFree = true) ∨ ∃ c ∈ l₂.head?, c.isFree = true)

namespace BlockHeap

variable {h : BlockHeap}

/-- When `malloc` serves a request within the limits. -/
theorem malloc_ne_zero {n : ℕ} (hpos : 0 < n) (hle : n ≤ maxAllowed) :
    (h.malloc n).1 ≠ 0 ↔ h.supply ≠ [] ∨ ∃ b ∈ h.blocks, b.Fits (roundUp8 n) := by
  have hheader : sizeofHeader ≠ 0 := by decide
  rcases h.malloc_cases n with ⟨hfail, hno⟩ | ⟨-, -, l₁, b, l₂, hl, -, hfits, hplaced⟩ |
    ⟨-, -, -, page, supply, hsupply, hpage⟩
  · obtain ⟨hno, hsupply⟩ : (∀ b ∈ h.blocks, ¬b.Fits (roundUp8 n)) ∧ h.supply = [] := by
      rcases hno with h₀ | hlt | hno
      exacts [absurd h₀ hpos.ne', absurd hlt (Nat.not_lt.2 hle), hno]
    refine iff_of_false (fun hne ↦ hne (by rw [hfail])) ?_
    rintro (hne | ⟨b, hb, hfits⟩)
    exacts [hne hsupply, hno b hb hfits]
  · refine iff_of_true ?_ (Or.inr ⟨b, by simp [hl], hfits⟩)
    rw [hplaced]
    show b.addr + sizeofHeader ≠ 0
    omega
  · refine iff_of_true ?_ (Or.inl ?_)
    · rw [hpage]
      show page + sizeofHeader ≠ 0
      omega
    · rw [hsupply]
      exact List.cons_ne_nil _ _

/-- A merged block holds more than either of the two. -/
theorem fits_merge {a b : Block} {size : ℕ} (hab : Block.bothFree a b = true)
    (hfits : a.Fits size ∨ b.Fits size) : (a.merge b).Fits size := by
  refine ⟨(bothFree_iff.1 hab).1, ?_⟩
  show size + sizeofHeader ≤ a.size + sizeofHeader + b.size
  rcases hfits with ⟨-, hle⟩ | ⟨-, hle⟩ <;> omega

/-- **Which requests a freed block serves.** In a list without free neighbours, the pass leaves a
block that fits exactly if one did before, or the block freed makes room. -/
theorem fits_coalesce {l₁ l₂ : List Block} {b : Block} {size : ℕ} (hused : b.isFree = false)
    (hsize : size ≤ b.size) (hno : (l₁ ++ b :: l₂).IsChain fun a c ↦ Block.bothFree a c = false) :
    (∃ c ∈ coalesce Block.bothFree Block.merge (l₁ ++ { b with isFree := true } :: l₂),
      c.Fits size) ↔ (∃ c ∈ l₁ ++ b :: l₂, c.Fits size) ∨ size + sizeofHeader ≤ b.size ∨
        (∃ c ∈ l₁.getLast?, c.isFree = true) ∨ ∃ c ∈ l₂.head?, c.isFree = true := by
  have hmem : ∀ c, c ∈ l₁ ∨ c ∈ l₂ → c ∈ l₁ ++ b :: l₂ := fun c hc ↦
    List.mem_append.2 (hc.imp_right (List.mem_cons_of_mem b))
  constructor
  · rintro ⟨c, hc, hfits⟩
    by_cases hbeside : (∃ c ∈ l₁.getLast?, c.isFree = true) ∨ ∃ c ∈ l₂.head?, c.isFree = true
    case pos => exact Or.inr (Or.inr hbeside)
    case neg =>
      -- the block freed has no free neighbour either, so the pass changes nothing
      obtain ⟨hleft, hright⟩ := not_or.1 hbeside
      have hchain : (l₁ ++ { b with isFree := true } :: l₂).IsChain
          fun a c ↦ Block.bothFree a c = false := by
        obtain ⟨hfront, hback, -⟩ := List.isChain_append.1 hno
        have htail : ({ b with isFree := true } :: l₂).IsChain
            fun a c ↦ Block.bothFree a c = false := by
          refine List.isChain_cons.2 ⟨fun y hy ↦ ?_, hback.tail⟩
          show (true && y.isFree) = false
          exact Bool.eq_false_iff.2 fun hboth ↦ hright ⟨y, hy, hboth⟩
        refine List.IsChain.append hfront htail fun x hx y hy ↦ ?_
        · rw [← Option.mem_some.1 hy]
          exact Bool.and_eq_false_imp.2 fun hfree ↦ absurd ⟨x, hx, hfree⟩ hleft
      rw [coalesce_eq_self hchain] at hc
      rcases List.mem_append.1 hc with hc | hc
      · exact Or.inl ⟨c, hmem c (Or.inl hc), hfits⟩
      rcases List.mem_cons.1 hc with rfl | hc
      · exact Or.inr (Or.inl hfits.2)
      · exact Or.inl ⟨c, hmem c (Or.inr hc), hfits⟩
  · intro h
    refine exists_mem_coalesce (fun a b ↦ fits_merge) (fun a c d hac hcd hfits ↦ ?_) ?_
    · have hmerged : Block.bothFree (a.merge c) d = true :=
        bothFree_iff.2 ⟨(bothFree_iff.1 hac).1, (bothFree_iff.1 hcd).2⟩
      refine ⟨hmerged, (bothFree_iff.1 hac).1, ?_⟩
      have hle : size + sizeofHeader ≤ c.size + sizeofHeader + d.size := hfits.2
      show size + sizeofHeader ≤ a.size + sizeofHeader + c.size + sizeofHeader + d.size
      omega
    rcases h with ⟨c, hc, hfits⟩ | hle | ⟨c, hc, hfree⟩ | ⟨c, hc, hfree⟩
    · refine Or.inl ⟨c, ?_, hfits⟩
      rcases List.mem_append.1 hc with hc | hc
      · exact List.mem_append_left _ hc
      rcases List.mem_cons.1 hc with rfl | hc
      · exact absurd (hfits.1.symm.trans hused) Bool.true_eq_false.mp
      · exact List.mem_append_right _ (List.mem_cons_of_mem _ hc)
    · exact Or.inl ⟨{ b with isFree := true }, by simp, rfl, hle⟩
    · obtain ⟨l, rfl⟩ := List.getLast?_eq_some_iff.1 hc
      refine Or.inr ⟨c, { b with isFree := true }, ⟨l, l₂, by simp⟩, bothFree_iff.2 ⟨hfree, rfl⟩,
        hfree, ?_⟩
      show size + sizeofHeader ≤ c.size + sizeofHeader + b.size
      omega
    · obtain ⟨l, rfl⟩ := List.head?_eq_some_iff.1 hc
      refine Or.inr ⟨{ b with isFree := true }, c, ⟨l₁, l, by simp⟩, bothFree_iff.2 ⟨rfl, hfree⟩,
        rfl, ?_⟩
      show size + sizeofHeader ≤ b.size + sizeofHeader + c.size
      omega

end BlockHeap

theorem BlockHeap.after_free_supply (h : BlockHeap) (p : ℕ) :
    (h.after (.free p)).supply = h.supply := by
  rw [BlockHeap.after, BlockHeap.free]
  split
  · rfl
  split <;> rfl

/-- The heap in a run of guarded calls: no two neighbours are free, and the live requests are within
the limit. -/
structure Reusable (u : HeapUse) (h : BlockHeap) : Prop extends Confined u h where
  noFreeNeighbours : h.NoFreeNeighbours
  small : ∀ a ∈ u.live, a.2 ≤ maxAllowed

/-- **One guarded call.** -/
theorem Reusable.step {u u' : HeapUse} {h : BlockHeap} {a : HeapCall} (hu : Reusable u h)
    (hguard : GuardedCall u a) (hstep : HeapStep u a u') : Reusable u' (h.after a) := by
  refine ⟨hu.toConfined.step hguard hstep, ?_, ?_⟩
  · cases a with
    | malloc n => exact noFreeNeighbours_malloc hu.noFreeNeighbours n
    | free p =>
      rw [BlockHeap.after]
      split
      exacts [hu.noFreeNeighbours, noFreeNeighbours_free hu.noFreeNeighbours p]
    | write => exact hu.noFreeNeighbours
  · cases hstep with
    | @malloc n p s hmalloc =>
      dsimp only
      split
      case isTrue => exact hu.small
      case isFalse hp =>
        refine List.forall_mem_cons.2 ⟨Nat.le_of_not_lt fun hlt ↦ hp ?_, hu.small⟩
        have hfail := malloc_fail hu.represents hu.wellFormed (Or.inr (Or.inl hlt))
        exact (Prod.mk.inj (Option.some.inj (hmalloc.symm.trans hfail))).1
    | free => exact fun a ha ↦ hu.small a (List.mem_filter.1 ha).1
    | write => exact hu.small

/-- Which blocks fit after a live pointer has been freed. -/
theorem Reusable.fits_after_free {u : HeapUse} {h : BlockHeap} {p n : ℕ} (hu : Reusable u h)
    (hlive : (p, n) ∈ u.live) : (∃ b ∈ (h.after (.free p)).blocks, b.Fits (roundUp8 n)) ↔
      (∃ b ∈ h.blocks, b.Fits (roundUp8 n)) ∨
        u.state.InRange p ∧ ReleasesRoom (roundUp8 n) p h.blocks := by
  obtain ⟨b, hb, hbp, hle⟩ : ∃ b ∈ h.used, b.payload = p ∧ n ≤ b.size :=
    hu.serves.block (p, n) hlive
  obtain ⟨hb, hused⟩ := mem_used.1 hb
  have hne : p ≠ 0 := by
    rw [← hbp, Block.payload]
    have hheader : sizeofHeader ≠ 0 := by decide
    omega
  have haccept : u.state.InRange p ↔ h.Accepts p := by
    rw [MemoryState.InRange, hu.represents.rangeStart, hu.represents.rangeEnd, Accepts]
    exact and_iff_right hne
  -- the request and the block are both multiples of 8
  have hsize : roundUp8 n ≤ b.size := by
    rw [roundUp8_eq (hu.small _ hlive)]
    have haligned := (hu.wellFormed.aligned b hb).2
    omega
  rw [BlockHeap.after, if_neg hne, BlockHeap.free, haccept]
  by_cases hrange : h.Accepts p
  case neg => rw [if_neg hrange, or_iff_left fun hrelease ↦ hrange hrelease.1]
  case pos =>
    obtain ⟨l₁, l₂, hblocks⟩ := List.append_of_mem hb
    have hmark := hu.wellFormed.mark_eq hblocks
    rw [hbp] at hmark
    rw [if_pos hrange, and_iff_right hrange]
    dsimp only
    have hno := hu.noFreeNeighbours
    rw [NoFreeNeighbours, hblocks] at hno
    rw [hmark, fits_coalesce hused hsize hno, ← hblocks]
    refine or_congr_right ⟨fun hroom ↦ ⟨l₁, b, l₂, hblocks, hbp, hroom⟩, ?_⟩
    rintro ⟨m₁, c, m₂, hsplit, hcp, hroom⟩
    obtain ⟨rfl, rfl, rfl⟩ := hu.wellFormed.split_unique hblocks hsplit (hbp.trans hcp.symm)
    exact hroom

/-- **When a freed block can be allocated again.** After any run of guarded calls from the heap that
`init_page` leaves, let `p` be live for a request of `n` bytes, and let freeing it leave the holes
guarded. Then `free` returns, and `malloc` of the same size at once returns a block exactly if a
page is left, a free block fits already, or `free` accepts the pointer and makes room. -/
theorem malloc_after_free {s₀ : MemoryState} (hs : Uninitialised s₀) {entries : List E820}
    (hmap : SoundMap entries) {calls : List HeapCall} {u : HeapUse}
    (hrun : Run (Guarded GuardedCall HeapStep) ⟨(initPage entries s₀).2, []⟩ calls u) {p n : ℕ}
    (hlive : (p, n) ∈ u.live) (hguard : GuardedCall u (.free p)) :
    ∃ s q s', u.state.free p = some s ∧ s.malloc n = some (q, s') ∧
      (q ≠ 0 ↔ u.state.freePagesList ≠ none ∨
        ∃ blocks, Linked u.state.mem u.state.mallocHead blocks 0 ∧
          ((∃ b ∈ blocks, b.Fits (roundUp8 n)) ∨
            u.state.InRange p ∧ ReleasesRoom (roundUp8 n) p blocks)) := by
  obtain ⟨h, hu⟩ := hrun.invariant (I := fun u ↦ ∃ h, Reusable u h)
    (fun ⟨_, hu⟩ hstep ↦ ⟨_, hu.step hstep.1 hstep.2⟩)
    ⟨_, initPage_confined hs hmap, List.isChain_nil, by simp⟩
  obtain ⟨s, hstep, -⟩ := hu.toHeld.exists_free (List.mem_map_of_mem hlive)
  have hu' := hu.step hguard hstep
  have hvalid : PagesValid ((h.after (.free p)).malloc n).2.taken := by
    have hpages := ((h.after (.free p)).after_pages (.malloc n)).1 ▸ hu'.pages
    exact hpages.sublist (List.sublist_append_left _ _)
  obtain ⟨s', hmalloc, -⟩ := malloc_refines hu'.represents hu'.wellFormed hvalid
  have hfree : u.state.free p = some s := by
    cases hstep with
    | free _ hfree => exact hfree
  refine ⟨s, _, s', hfree, hmalloc, ?_⟩
  have hsupply : (h.after (.free p)).supply ≠ [] ↔ u.state.freePagesList ≠ none := by
    rw [BlockHeap.after_free_supply]
    exact not_congr hu.represents.supply.eq_nil_iff
  rw [malloc_ne_zero (hu.serves.positive _ hlive) (hu.small _ hlive), hsupply]
  refine or_congr_right ⟨fun hfits ↦ ⟨h.blocks, hu.represents.blocks, ?_⟩, ?_⟩
  · exact (hu.fits_after_free hlive).1 hfits
  · rintro ⟨blocks, hlinked, hfits⟩
    rw [hlinked.unique hu.represents.blocks] at hfits
    exact (hu.fits_after_free hlive).2 hfits

theorem malloc_after_free_smallMap : ∃ (u : HeapUse) (s : MemoryState) (q : ℕ) (s' : MemoryState),
    (0xffff800000200018, 100) ∈ u.live ∧ u.state.free 0xffff800000200018 = some s ∧
    s.malloc 100 = some (q, s') ∧ (q ≠ 0 ↔ u.state.freePagesList ≠ none ∨
      ∃ blocks, Linked u.state.mem u.state.mallocHead blocks 0 ∧
        ((∃ b ∈ blocks, b.Fits (roundUp8 100)) ∨ u.state.InRange 0xffff800000200018 ∧
          ReleasesRoom (roundUp8 100) 0xffff800000200018 blocks)) := by
  have hs := initPage_fresh uninitialised_zeroed smallMap
  rw [smallMap_supply] at hs
  obtain ⟨u, hstep, hu, hlive⟩ := hs.held.exists_malloc (n := 100)
    (smallPages_valid.sublist (List.singleton_sublist.2 (by decide)))
  have hlive : (0xffff800000200018, 100) ∈ u.live := by
    rw [hlive]
    decide +kernel
  have hfirst : GuardedCall ⟨(initPage smallMap .zeroed).2, []⟩ (.malloc 100) := trivial
  have hguard : GuardedCall u (.free 0xffff800000200018) := by
    intro _ blocks hlinked
    rw [hlinked.unique hu.represents.blocks]
    decide +kernel
  obtain ⟨s, q, s', hcalls⟩ := malloc_after_free uninitialised_zeroed soundMap_smallMap
    (Run.single ⟨hfirst, hstep⟩) hlive hguard
  exact ⟨u, s, q, s', hlive, hcalls⟩

/-- A machine with a single frame for the heap. -/
def frameMap : List E820 := [⟨0x180000, 0x280000, 1⟩]

theorem frameMap_supply : (if (initPage frameMap .zeroed).1 = .noRoom then [] else
    (usableFrames frameMap).map phyToVirt) = [0xffff800000200000] := by
  decide +kernel

/-- The heap of this machine when a block of the largest size and one of 80 bytes fill the page. -/
def fullHeap : BlockHeap := (((emptyHeap (initPage frameMap .zeroed).2
  [0xffff800000200000]).malloc maxAllowed).2.malloc 80).2

/-- **A block of exactly the size requested is not found.** On a full page, the block of the largest
size is freed, and the same request fails. -/
theorem exact_block_lost : ∃ u, Run HeapStep ⟨(initPage frameMap .zeroed).2, []⟩
      [.malloc maxAllowed, .malloc 80] u ∧ (0xffff800000200018, maxAllowed) ∈ u.live ∧
    ∃ s s', u.state.free 0xffff800000200018 = some s ∧ s.malloc maxAllowed = some (0, s') := by
  have hs := initPage_fresh uninitialised_zeroed frameMap
  rw [frameMap_supply] at hs
  have hpage : PagesValid [0xffff800000200000] :=
    smallPages_valid.sublist (List.singleton_sublist.2 (by decide))
  obtain ⟨u₁, hstep₁, hu₁, hlive₁⟩ := hs.held.exists_malloc (n := maxAllowed) hpage
  obtain ⟨u₂, hstep₂, hu₂, hlive₂⟩ := hu₁.exists_malloc (n := 80) hpage
  have hlive : (0xffff800000200018, maxAllowed) ∈ u₂.live := by
    rw [hlive₂, hlive₁]
    decide +kernel
  obtain ⟨s, hfree, hr⟩ := hu₂.exists_free (List.mem_map_of_mem hlive)
  have hwf : (fullHeap.free 0xffff800000200018).WellFormed :=
    wellFormed_free hu₂.wellFormed fun _ ↦ leavesHolesGuarded_iff.1 (by decide +kernel)
  have hno : (∀ b ∈ (fullHeap.free 0xffff800000200018).blocks, ¬b.Fits (roundUp8 maxAllowed)) ∧
      (fullHeap.free 0xffff800000200018).supply = [] := by
    decide +kernel
  cases hfree with
  | free _ hfree =>
    exact ⟨u₂, (Run.single hstep₁).snoc hstep₂, hlive, s, s, hfree,
      malloc_fail hr hwf (Or.inr (Or.inr hno))⟩

end LightNight
