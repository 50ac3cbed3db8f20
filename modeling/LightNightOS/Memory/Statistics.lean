import LightNightOS.Memory.HeldHeap

/-!
# The allocation counters

`malloc` adds the rounded request to `malloc_total_allocated`, and `free` adds the size in the
header to `malloc_total_freed`. The two agree where the header holds the rounded request, that is
where `malloc` has split the block. A block that is too small to be split keeps its size, and its
call counts too little (`statistics_short`); a block that `free` rejects stays in use.

`CountsRight` is the condition that neither happens, and `statistics_balance` says that then the
difference of the counters is what is in use.
-/

namespace LightNight

open Interval BlockHeap Transition

/-- `malloc_total_allocated - malloc_total_freed` -/
def MemoryState.netAllocated (s : MemoryState) : ℕ :=
  u64 (s.mallocTotalAllocated + (2 ^ 64 - s.mallocTotalFreed))

/-- The sizes of the blocks in use, added up. -/
def usedSize (blocks : List Block) : ℕ := ((blocks.filter fun b ↦ !b.isFree).map Block.size).sum

/-- The condition on a call: `malloc` splits the block that it takes from the list, and `free` is
not given a pointer out of its range. -/
def CountsRight (u : HeapUse) : HeapCall → Prop
  | .malloc n => 0 < n → n ≤ maxAllowed →
      ∀ blocks, Linked u.state.mem u.state.mallocHead blocks 0 →
        ∀ b ∈ blocks.find? fun b ↦ b.Fits (roundUp8 n),
          roundUp8 n + sizeofHeader + sizeofHeader + 8 < b.size
  | .free p => p = 0 ∨ u.state.InRange p
  | .write => True

/-! ### What is in use

Carving a block puts the rounded request in use where the block is split, and the whole block where
it is not. Coalescing leaves the sizes in use alone. -/

theorem usedSize_append (l₁ l₂ : List Block) : usedSize (l₁ ++ l₂) = usedSize l₁ + usedSize l₂ := by
  rw [usedSize, List.filter_append, List.map_append, List.sum_append, usedSize, usedSize]

theorem usedSize_cons (b : Block) (l : List Block) :
    usedSize (b :: l) = (if b.isFree then 0 else b.size) + usedSize l := by
  rw [usedSize, usedSize]
  cases hfree : b.isFree <;> simp [hfree]

/-- What is in use after a block has been split. -/
theorem usedSize_carve {b : Block} {size : ℕ}
    (hsplit : size + sizeofHeader + sizeofHeader + 8 < b.size) :
    usedSize (b.carve size) = size := by
  rw [Block.carve, if_pos hsplit, usedSize_cons, usedSize_cons]
  rfl

theorem usedSize_lt {h : BlockHeap} (hwf : h.WellFormed) : usedSize h.blocks < 2 ^ 64 := by
  have hle : ∀ l : List Block, usedSize l ≤ (l.map fun b ↦ sizeofHeader + b.size).sum := by
    intro l
    induction l with
    | nil => exact le_rfl
    | cons b l ih =>
      rw [usedSize_cons, List.map_cons, List.sum_cons]
      split <;> omega
  exact (hle _).trans_lt hwf.sum_lt

/-- A fresh page is always split. -/
theorem pageBlock_split {n : ℕ} (h : n ≤ maxAllowed) (page : ℕ) :
    roundUp8 n + sizeofHeader + sizeofHeader + 8 < (pageBlock page).size := by
  have hspec := (roundUp8_spec h).2.2
  rw [page2MSize_eq, sizeofHeader] at hspec
  rw [pageBlock_size, sizeofHeader]
  omega

/-- What is in use after a block has been freed. -/
theorem usedSize_free {h : BlockHeap} (hwf : h.WellFormed) {b : Block} (hb : b ∈ h.used)
    (haccept : h.Accepts b.payload) :
    usedSize (h.free b.payload).blocks + b.size = usedSize h.blocks := by
  have hused : usedSize (h.free b.payload).blocks =
      ((h.used.filter fun c ↦ c.payload ≠ b.payload).map Block.size).sum := by
    rw [← used_free haccept]
    rfl
  have hpayloads := hwf.used_payloads
  rw [hused]
  show _ = (h.used.map Block.size).sum
  obtain ⟨l₁, l₂, hsplit⟩ := List.append_of_mem hb
  rw [hsplit] at hpayloads ⊢
  obtain ⟨-, hright, hleft⟩ := List.pairwise_append.1 hpayloads
  have h₁ : l₁.filter (fun c ↦ c.payload ≠ b.payload) = l₁ :=
    List.filter_eq_self.2 fun c hc ↦ decide_eq_true (hleft c hc b List.mem_cons_self)
  have h₂ : l₂.filter (fun c ↦ c.payload ≠ b.payload) = l₂ :=
    List.filter_eq_self.2 fun c hc ↦ decide_eq_true ((List.pairwise_cons.1 hright).1 c hc).symm
  rw [List.filter_append, List.filter_cons_of_neg (by simp), h₁, h₂, List.map_append,
    List.map_append, List.map_cons, List.sum_append, List.sum_append, List.sum_cons]
  omega

/-! ### Runs -/

/-- The counters say what is in use. -/
structure Balanced (h : BlockHeap) : Prop where
  allocated : h.allocated = u64 (h.freed + usedSize h.blocks)
  freed : h.freed < 2 ^ 64

theorem u64_add {a b : ℕ} : u64 (u64 a + b) = u64 (a + b) := Nat.mod_add_mod a (2 ^ 64) b

/-- `malloc` where it splits the block that it takes. -/
theorem Balanced.malloc {h : BlockHeap} (hbal : Balanced h) {n : ℕ}
    (hsplit : 0 < n → n ≤ maxAllowed → ∀ b ∈ h.blocks.find? fun b ↦ b.Fits (roundUp8 n),
      roundUp8 n + sizeofHeader + sizeofHeader + 8 < b.size) : Balanced (h.malloc n).2 := by
  rcases h.malloc_cases n with ⟨hfail, -⟩ | ⟨hpos, hn, l₁, b, l₂, hl, hl₁, hfits, hplaced⟩ |
    ⟨-, hn, -, page, supply, -, hpage⟩
  · rw [hfail]
    exact hbal
  · have hfind : h.blocks.find? (fun b ↦ b.Fits (roundUp8 n)) = some b := by
      rw [hl, List.find?_append, List.find?_eq_none.2 (by simpa using hl₁), Option.none_or]
      exact List.find?_cons_of_pos (decide_eq_true hfits)
    have hcarve := usedSize_carve (hsplit hpos hn b hfind)
    have hold := hbal.allocated
    rw [hl, usedSize_append, usedSize_cons, hfits.1, if_pos rfl] at hold
    rw [hplaced]
    refine ⟨?_, hbal.freed⟩
    dsimp only
    rw [usedSize_append, usedSize_append, hcarve, hold, u64_add]
    congr 1
    omega
  · have hcarve := usedSize_carve (pageBlock_split hn page)
    rw [hpage]
    refine ⟨?_, hbal.freed⟩
    dsimp only
    rw [usedSize_append, hcarve, hbal.allocated, u64_add, Nat.add_assoc]

/-- `free` of a block in use. -/
theorem Balanced.free {h : BlockHeap} (hbal : Balanced h) (hwf : h.WellFormed) {b : Block}
    (hb : b ∈ h.used) : Balanced (h.free b.payload) := by
  by_cases haccept : h.Accepts b.payload
  · have hsize := usedSize_free hwf hb haccept
    have hfreed : (h.free b.payload).freed = u64 (h.freed + b.size) := by
      rw [BlockHeap.free, if_pos haccept, hwf.sizeAt_eq (mem_used.1 hb).1]
    have hallocated : (h.free b.payload).allocated = h.allocated := by
      rw [BlockHeap.free, if_pos haccept]
    refine ⟨?_, by rw [hfreed]; exact u64_lt _⟩
    rw [hallocated, hfreed, u64_add, hbal.allocated, ← hsize]
    congr 1
    omega
  · rw [BlockHeap.free, if_neg haccept]
    exact hbal

/-- The heap in a run whose calls count right. -/
structure Counted (u : HeapUse) (h : BlockHeap) : Prop extends Confined u h where
  balanced : Balanced h
  recorded : Recorded h.used u.live

/-- **One call** that counts right. -/
theorem Counted.step {u u' : HeapUse} {h : BlockHeap} {a : HeapCall} (hu : Counted u h)
    (hguard : GuardedCall u a) (hcounts : CountsRight u a) (hstep : HeapStep u a u') :
    Counted u' (h.after a) := by
  have hu' := hu.toConfined.step hguard hstep
  have hpages : PagesValid u'.state.taken := by
    rw [hu'.represents.taken]
    exact hu'.pages.sublist (List.sublist_append_left _ _)
  refine ⟨hu', ?_, ?_⟩
  · cases a with
    | malloc n =>
      exact hu.balanced.malloc fun hpos hn ↦ hcounts hpos hn h.blocks hu.represents.blocks
    | free p =>
      rw [BlockHeap.after]
      split
      case isTrue => exact hu.balanced
      case isFalse hp =>
        cases hstep with
        | free hlive _ =>
          obtain ⟨c, hc, rfl⟩ := List.mem_map.1 (hlive.resolve_left hp)
          obtain ⟨b, hb, hbc, -⟩ := hu.serves.block c hc
          exact hbc ▸ hu.balanced.free hu.wellFormed hb
    | write => exact hu.balanced
  · refine hu.toHeld.recorded hu.recorded hstep hpages fun p ha hp _ ↦ ?_
    subst ha
    obtain ⟨-, hlo, hhi⟩ := hcounts.resolve_left hp
    exact ⟨hu.represents.rangeStart ▸ hlo, hu.represents.rangeEnd ▸ hhi⟩

/-- The difference of the counters is what is in use. -/
theorem Counted.netAllocated {u : HeapUse} {h : BlockHeap} (hu : Counted u h) :
    u.state.netAllocated = usedSize h.blocks := by
  have hlt := usedSize_lt hu.wellFormed
  have hfreed := hu.balanced.freed
  rw [MemoryState.netAllocated, hu.represents.allocated, hu.represents.freed, hu.balanced.allocated]
  simp only [u64]
  omega

/-- **The counters balance** where every call counts right. In every run of `malloc`, `free` and
writes from the heap that `init_page` leaves, in which `free` leaves the holes guarded and is not
given a pointer out of its range, and `malloc` splits every block that it takes from the list, the
difference of the counters is the size of the blocks in use, and it is zero when nothing is live. -/
theorem statistics_balance {s₀ : MemoryState} (hs : Uninitialised s₀) {entries : List E820}
    (hmap : SoundMap entries) {calls : List HeapCall} {u : HeapUse}
    (hrun : Run (Guarded GuardedCall (Guarded CountsRight HeapStep))
      ⟨(initPage entries s₀).2, []⟩ calls u) :
    ∃ blocks, Linked u.state.mem u.state.mallocHead blocks 0 ∧
      u.state.netAllocated = usedSize blocks ∧ (u.live = [] → u.state.netAllocated = 0) := by
  obtain ⟨hallocated, hfreed⟩ := initPage_counters hs entries
  have hbalanced : Balanced (emptyHeap (initPage entries s₀).2 (if (initPage entries s₀).1 = .noRoom
      then [] else (usableFrames entries).map phyToVirt)) := by
    refine ⟨?_, ?_⟩ <;> dsimp only [emptyHeap]
    · rw [hallocated, hfreed]
      rfl
    · rw [hfreed]
      decide
  obtain ⟨h, hu⟩ := hrun.invariant (I := fun u ↦ ∃ h, Counted u h)
    (fun ⟨_, hu⟩ hstep ↦ ⟨_, hu.step hstep.1 hstep.2.1 hstep.2.2⟩)
    ⟨_, initPage_confined hs hmap, hbalanced, by simp [Recorded, used, emptyHeap]⟩
  refine ⟨h.blocks, hu.represents.blocks, hu.netAllocated, fun hlive ↦ ?_⟩
  have hnone : h.used = [] := by
    refine List.eq_nil_iff_forall_not_mem.2 fun b hb ↦ ?_
    have hmem := hu.recorded b hb
    rw [hlive] at hmem
    exact List.not_mem_nil hmem
  rw [hu.netAllocated]
  show (h.used.map Block.size).sum = 0
  rw [hnone]
  rfl

/-- The general theorem after one call of `malloc`, which takes a page. -/
theorem statistics_balance_smallMap : ∃ u : HeapUse, u.live = [(0xffff800000200018, 100)] ∧
    ∃ blocks, Linked u.state.mem u.state.mallocHead blocks 0 ∧
      u.state.netAllocated = usedSize blocks ∧ (u.live = [] → u.state.netAllocated = 0) := by
  have hs := initPage_fresh uninitialised_zeroed smallMap
  rw [smallMap_supply] at hs
  obtain ⟨u, hstep, -, hlive⟩ := hs.held.exists_malloc (n := 100)
    (smallPages_valid.sublist (List.singleton_sublist.2 (by decide)))
  have hcounts : CountsRight ⟨(initPage smallMap .zeroed).2, []⟩ (.malloc 100) := by
    intro _ _ blocks hlinked b hb
    rw [hlinked.unique hs.held.represents.blocks] at hb
    cases hb
  have hguard : GuardedCall ⟨(initPage smallMap .zeroed).2, []⟩ (.malloc 100) := trivial
  exact ⟨u, hlive, statistics_balance uninitialised_zeroed soundMap_smallMap
    (Run.single ⟨hguard, hcounts, hstep⟩)⟩

/-- The small machine after a block of the largest size and one of 80 bytes. -/
def shortHeap : BlockHeap := ((smallHeap.malloc maxAllowed).2.malloc 80).2

/-- **A block that is not split is counted short**: 80 bytes taken from a block of 104 are counted
as 80, but 104 are in use. -/
theorem statistics_short : ∃ u, Run HeapStep ⟨(initPage smallMap .zeroed).2, []⟩
      [.malloc maxAllowed, .malloc 80] u ∧
    ∃ blocks, Linked u.state.mem u.state.mallocHead blocks 0 ∧
      u.state.netAllocated = 2097080 ∧ usedSize blocks = 2097104 := by
  have hs := initPage_fresh uninitialised_zeroed smallMap
  rw [smallMap_supply] at hs
  have hpage : PagesValid [0xffff800000200000] :=
    smallPages_valid.sublist (List.singleton_sublist.2 (by decide))
  obtain ⟨u₁, hstep₁, hu₁, -⟩ := hs.held.exists_malloc (n := maxAllowed) hpage
  obtain ⟨u₂, hstep₂, hu₂, -⟩ := hu₁.exists_malloc (n := 80) hpage
  have hcounters : shortHeap.allocated = 2097080 ∧ shortHeap.freed = 0 ∧
      usedSize shortHeap.blocks = 2097104 := by
    decide +kernel
  obtain ⟨hallocated, hfreed, hused⟩ := hcounters
  refine ⟨u₂, (Run.single hstep₁).snoc hstep₂, shortHeap.blocks, hu₂.represents.blocks, ?_, hused⟩
  rw [MemoryState.netAllocated, hu₂.represents.allocated.trans hallocated,
    hu₂.represents.freed.trans hfreed]
  decide

end LightNight
