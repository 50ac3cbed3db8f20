import LightNightOS.FileSystem.Files
import LightNightOS.Memory.HeldHeap

/-!
# Asking whether a directory is empty

`dir_list` of `fs/dir.c` allocates an array of entries and hands it to its caller. `dir_is_empty`
calls it for the count only, and drops the array: it is neither returned nor freed. So a query
leaves the live allocations as they were only if the array could not be allocated
(`queries_pure_iff`).

`live` is kept by the caller of the heap (`HeapUse`): the pointers `malloc` has returned that were
not freed. On a heap that is held the blocks in use say the same.

What is lost adds up. On the machine of `queries_exhaust` an allocation of 2000 bytes succeeds after
boot, and fails after 62 questions.
-/

namespace LightNight

open Transition

/-! ### `fs/dir.c` -/

/-- `sizeof(dir_entry_t)`: two words and a name of 256 bytes. -/
def sizeofDirEntry : ℕ := 264

/-- `MAX_DIR_ENTRIES` -/
def maxDirEntries : ℕ := 256

/-- The bytes that `dir_list` allocates. -/
def dirListSize : ℕ := sizeofDirEntry * maxDirEntries

namespace MemoryState

/-- `dir_list`: the entries, what `entry_count` points to afterwards, and the state of the heap. -/
def dirList (s : MemoryState) (dirInodeId : ℕ) (entryCount : Option ℕ) :
    Option (ℕ × Option ℕ × MemoryState) :=
  if entryCount = none ∨ fsMaxInodes ≤ dirInodeId then some (0, entryCount, s)
  else (s.malloc dirListSize).map fun (entries, s) ↦ (entries, some 0, s)

/-- `dir_is_empty` -/
def dirIsEmpty (s : MemoryState) (dirInodeId : ℕ) : Option (ℤ × MemoryState) :=
  if fsMaxInodes ≤ dirInodeId then some (-1, s)
  else (s.dirList dirInodeId (some 0)).map fun (_, count, s) ↦ (if count = some 0 then 1 else 0, s)

end MemoryState

/-- A query, labelled with the directory: the array that `dir_list` returns to it is live
afterwards. -/
def QueryStep (u : HeapUse) (dirInodeId : ℕ) (v : HeapUse) : Prop :=
  (∃ ret, u.state.dirIsEmpty dirInodeId = some (ret, v.state)) ∧
    ∃ entries count s, u.state.dirList dirInodeId (some 0) = some (entries, count, s) ∧
      v.live = if entries = 0 then u.live else (entries, dirListSize) :: u.live

/-- The array cannot be allocated. -/
def ListRefused (u : HeapUse) (_ : ℕ) : Prop := ∃ s, u.state.malloc dirListSize = some (0, s)

section Queries

variable {u v : HeapUse} {dirInodeId : ℕ} {ids : List ℕ} {h : BlockHeap}

/-- **One query**: the array is allocated, and stays live. -/
theorem queryStep_iff (hid : dirInodeId < fsMaxInodes) : QueryStep u dirInodeId v ↔
    ∃ entries, u.state.malloc dirListSize = some (entries, v.state) ∧
      v.live = if entries = 0 then u.live else (entries, dirListSize) :: u.live := by
  have hlist : u.state.dirList dirInodeId (some 0) =
      (u.state.malloc dirListSize).map fun (entries, s) ↦ (entries, some 0, s) :=
    if_neg (not_or.2 ⟨Option.some_ne_none 0, hid.not_ge⟩)
  rw [QueryStep, MemoryState.dirIsEmpty, if_neg hid.not_ge, hlist]
  rcases u.state.malloc dirListSize with - | ⟨entries, s⟩
  · exact iff_of_false (fun h ↦ absurd h.1 nofun) nofun
  · constructor
    · rintro ⟨⟨ret, hret⟩, entries', count, s', hlive⟩
      obtain ⟨hentries, hlive⟩ := hlive
      obtain rfl := (Prod.mk.inj (Option.some.inj hret)).2
      obtain rfl := (Prod.mk.inj (Option.some.inj hentries)).1
      exact ⟨entries, rfl, hlive⟩
    · rintro ⟨entries', heq, hlive⟩
      obtain ⟨rfl, rfl⟩ := Prod.mk.inj (Option.some.inj heq)
      exact ⟨⟨_, rfl⟩, entries, _, _, rfl, hlive⟩

/-- A query has one outcome. -/
theorem queryStep_unique {w : HeapUse} (hv : QueryStep u dirInodeId v)
    (hw : QueryStep u dirInodeId w) :
    v = w := by
  obtain ⟨⟨ret, hstate⟩, entries, count, s, hlist, hlive⟩ := hv
  obtain ⟨⟨ret', hstate'⟩, entries', count', s', hlist', hlive'⟩ := hw
  obtain ⟨rfl, -⟩ := Prod.mk.inj (Option.some.inj (hlist.symm.trans hlist'))
  have hsame : v.state = w.state := (Prod.mk.inj (Option.some.inj (hstate.symm.trans hstate'))).2
  rcases v with ⟨t, live⟩
  rcases w with ⟨t', live'⟩
  obtain rfl : t = t' := hsame
  rw [show live = _ from hlive, show live' = _ from hlive']

/-- Queries never take anything off the live allocations. -/
theorem live_suffix (hids : ∀ id ∈ ids, id < fsMaxInodes) (hrun : Run QueryStep u ids v) :
    u.live <:+ v.live := by
  induction hrun with
  | nil => exact List.suffix_refl _
  | snoc _ hstep ih =>
    obtain ⟨entries, -, hlive⟩ := (queryStep_iff (hids _ (by simp))).1 hstep
    refine (ih fun id hid ↦ hids id (List.mem_append_left _ hid)).trans ?_
    rw [hlive]
    split
    · exact List.suffix_refl _
    · exact List.suffix_cons _ _

/-- **The live allocations stay as they were** exactly if each of the arrays is refused. -/
theorem live_eq_iff (hids : ∀ id ∈ ids, id < fsMaxInodes) (hrun : Run QueryStep u ids v) :
    v.live = u.live ↔ Run (Guarded ListRefused QueryStep) u ids v := by
  induction hrun with
  | nil => exact iff_of_true rfl (Run.nil u)
  | @snoc w v ids id hfront hstep ih =>
    have hfrontIds : ∀ id ∈ ids, id < fsMaxInodes :=
      fun id hid ↦ hids id (List.mem_append_left _ hid)
    obtain ⟨entries, hmalloc, hlive⟩ := (queryStep_iff (hids id (by simp))).1 hstep
    have hgrows := live_suffix hfrontIds hfront
    constructor
    · intro heq
      have hzero : entries = 0 := by
        by_contra hne
        rw [if_neg hne] at hlive
        have hlength := congrArg List.length (heq.symm.trans hlive)
        rw [List.length_cons] at hlength
        exact absurd hgrows.length_le (by omega)
      rw [if_pos hzero] at hlive
      rw [hzero] at hmalloc
      exact ((ih hfrontIds).1 (hlive.symm.trans heq)).snoc ⟨⟨v.state, hmalloc⟩, hstep⟩
    · intro hrefused
      obtain ⟨w', hfront', ⟨s, hnull⟩, hstep'⟩ := Run.snoc_iff.1 hrefused
      obtain ⟨entries', hmalloc', hlive'⟩ := (queryStep_iff (hids id (by simp))).1 hstep'
      obtain rfl := (Prod.mk.inj (Option.some.inj (hnull.symm.trans hmalloc'))).1
      have hsame : w' = w := Run.unique hfront'.of_guarded hfront queryStep_unique
      rw [hlive', if_pos rfl, hsame]
      exact (ih hfrontIds).2 (hsame ▸ hfront')

/-! ### A heap that is held -/

/-- Queries keep the blocks in use. -/
theorem inUse_queries {q n : ℕ} (hids : ∀ id ∈ ids, id < fsMaxInodes) (hrun : Run QueryStep u ids v)
    (hu : ∃ h, HoldsHeap u.state h) (hq : q ∈ u.state.inUse n) :
    (∃ h, HoldsHeap v.state h) ∧ q ∈ v.state.inUse n := by
  induction hrun with
  | nil => exact ⟨hu, hq⟩
  | snoc _ hstep ih =>
    obtain ⟨entries, hmalloc, -⟩ := (queryStep_iff (hids _ (by simp))).1 hstep
    obtain ⟨⟨h, hw⟩, hq⟩ := ih fun id hid ↦ hids id (List.mem_append_left _ hid)
    exact ⟨⟨_, (hw.malloc hmalloc).1⟩, hw.inUse_malloc hmalloc hq⟩

/-- Where the array is refused, queries change nothing. -/
theorem eq_of_refused (hids : ∀ id ∈ ids, id < fsMaxInodes) (hrun : Run QueryStep u ids v)
    (hnull : u.state.malloc dirListSize = some (0, u.state)) : v = u := by
  induction hrun with
  | nil => rfl
  | @snoc w v ids id _ hstep ih =>
    obtain ⟨entries, hmalloc, hlive⟩ := (queryStep_iff (hids _ (by simp))).1 hstep
    obtain rfl : w = u := ih fun id hid ↦ hids id (List.mem_append_left _ hid)
    obtain ⟨rfl, hstate⟩ := Prod.mk.inj (Option.some.inj (hnull.symm.trans hmalloc))
    rcases v with ⟨t, live⟩
    obtain rfl : w.state = t := hstate
    rw [show live = w.live from hlive]

/-- **The live allocations stay as they were** exactly if the first array is refused. -/
theorem live_eq_iff_mustRefuse (hids : ∀ id ∈ ids, id < fsMaxInodes) (hrun : Run QueryStep u ids v)
    (hu : HoldsHeap u.state h) :
    v.live = u.live ↔ ids = [] ∨ MustRefuse u.state dirListSize h.blocks := by
  constructor
  · intro heq
    rcases ids with - | ⟨id, ids⟩
    · exact Or.inl rfl
    obtain ⟨w, ⟨hrefused, -⟩, -⟩ := Run.cons_iff.1 ((live_eq_iff hids hrun).1 heq)
    exact Or.inr (hu.malloc_null_iff.1 hrefused)
  · rintro (rfl | hrefuse)
    · rw [Run.nil_iff.1 hrun]
    · rw [eq_of_refused hids hrun (hu.malloc_of_mustRefuse hrefuse)]

/-- So do the blocks in use. -/
theorem inUse_eq_iff (hids : ∀ id ∈ ids, id < fsMaxInodes) (hrun : Run QueryStep u ids v)
    (hu : HoldsHeap u.state h) : v.state.inUse 0 = u.state.inUse 0 ↔
      ids = [] ∨ MustRefuse u.state dirListSize h.blocks := by
  constructor
  · intro heq
    rcases ids with - | ⟨id, ids⟩
    · exact Or.inl rfl
    obtain ⟨w, hstep, hrest⟩ := Run.cons_iff.1 hrun
    obtain ⟨entries, hmalloc, -⟩ := (queryStep_iff (hids id List.mem_cons_self)).1 hstep
    by_contra hnot
    have hentries : entries ≠ 0 := by
      rintro rfl
      exact hnot (Or.inr (hu.malloc_null_iff.1 ⟨_, hmalloc⟩))
    -- the new block stays in use, and was not in use before
    have hnew := MemoryState.inUse_anti (Nat.zero_le _) (hu.mem_inUse_malloc hmalloc hentries)
    obtain ⟨-, hlast⟩ := inUse_queries (fun id hid ↦ hids id (List.mem_cons_of_mem _ hid)) hrest
      ⟨_, (hu.malloc hmalloc).1⟩ hnew
    exact hu.notMem_inUse hmalloc hentries (heq ▸ hlast)
  · rintro (rfl | hrefuse)
    · rw [Run.nil_iff.1 hrun]
    · rw [eq_of_refused hids hrun (hu.malloc_of_mustRefuse hrefuse)]

end Queries

/-- **When is `dir_is_empty` a pure query?** In any state of the heap, any number of queries of
directories below `FS_MAX_INODES` leave the live allocations as they were if and only if in each of
them the array of entries, of 67584 bytes, cannot be allocated. On a heap that is held this is so,
and the blocks in use stay as they were, if and only if there is no query, or no free block fits the
array and no page is left. -/
theorem queries_pure_iff {u v : HeapUse} {ids : List ℕ} (hids : ∀ id ∈ ids, id < fsMaxInodes)
    (hrun : Run QueryStep u ids v) :
    (v.live = u.live ↔ Run (Guarded ListRefused QueryStep) u ids v) ∧
    ∀ h, HoldsHeap u.state h →
      (v.live = u.live ↔ ids = [] ∨ MustRefuse u.state dirListSize h.blocks) ∧
      (v.state.inUse 0 = u.state.inUse 0 ↔ ids = [] ∨ MustRefuse u.state dirListSize h.blocks) :=
  ⟨live_eq_iff hids hrun,
    fun _ hu ↦ ⟨live_eq_iff_mustRefuse hids hrun hu, inUse_eq_iff hids hrun hu⟩⟩

/-! ### The heap runs out -/

/-- The block heap after a number of queries. -/
def BlockHeap.queried (k : ℕ) (h : BlockHeap) : BlockHeap :=
  (fun h ↦ (h.malloc dirListSize).2)^[k] h

/-- Queries of directory 0 are possible on every heap that is held. -/
theorem exists_queries {u : HeapUse} {h : BlockHeap} (hu : HoldsHeap u.state h) (k : ℕ) :
    ∃ v, Run QueryStep u (List.replicate k 0) v ∧ HoldsHeap v.state (h.queried k) := by
  induction k generalizing u h with
  | zero => exact ⟨u, Run.nil u, hu⟩
  | succ k ih =>
    obtain ⟨s, hmalloc, hs⟩ := hu.exists_malloc dirListSize
    have hstep : QueryStep u 0 ⟨s, _⟩ := (queryStep_iff (by decide)).2 ⟨_, hmalloc, rfl⟩
    obtain ⟨v, hrun, hv⟩ := ih (show HoldsHeap (HeapUse.mk s _).state _ from hs)
    exact ⟨v, Run.cons hstep hrun, hv⟩

/-- The small machine after boot: nothing is allocated. -/
def smallUse : HeapUse := ⟨(initPage smallMap .zeroed).2, []⟩

/-- The general theorem on three queries after boot. -/
theorem queries_pure_smallUse : ∃ v, Run QueryStep smallUse [0, 0, 0] v ∧
    (v.live = smallUse.live ↔ Run (Guarded ListRefused QueryStep) smallUse [0, 0, 0] v) ∧
    ∀ h, HoldsHeap smallUse.state h →
      (v.live = smallUse.live ↔ [0, 0, 0] = [] ∨ MustRefuse smallUse.state dirListSize h.blocks) ∧
      (v.state.inUse 0 = smallUse.state.inUse 0 ↔
        [0, 0, 0] = [] ∨ MustRefuse smallUse.state dirListSize h.blocks) := by
  obtain ⟨v, hrun, -⟩ := exists_queries (u := smallUse) holdsHeap_smallHeap 3
  exact ⟨v, hrun, queries_pure_iff (by decide) hrun⟩

/-- **Queries exhaust the heap.** On the small machine, with two pages, an allocation of 2000 bytes
succeeds after boot, but not after 62 queries of directory 0. -/
theorem queries_exhaust :
    ∃ v, Run QueryStep smallUse (List.replicate 62 0) v ∧ v.live ≠ smallUse.live ∧
    (∃ p s, p ≠ 0 ∧ smallUse.state.malloc 2000 = some (p, s)) ∧
    ∃ s, v.state.malloc 2000 = some (0, s) := by
  have hu : HoldsHeap smallUse.state smallHeap := holdsHeap_smallHeap
  obtain ⟨v, hrun, hv⟩ := exists_queries hu 62
  have hfirst : (smallHeap.malloc dirListSize).1 ≠ 0 := by decide +kernel
  have hbefore : (smallHeap.malloc 2000).1 ≠ 0 := by decide +kernel
  have hafter : ((smallHeap.queried 62).malloc 2000).1 = 0 := by decide +kernel
  refine ⟨v, hrun, fun hlive ↦ ?_, ?_, ?_⟩
  · have hids : ∀ id ∈ List.replicate 62 0, id < fsMaxInodes := fun id hid ↦
      List.eq_of_mem_replicate hid ▸ (by decide)
    obtain ⟨w, ⟨⟨s, hnull⟩, -⟩, -⟩ := Run.cons_iff.1 ((live_eq_iff hids hrun).1 hlive)
    exact hfirst (hu.malloc hnull).2.symm
  · obtain ⟨s, hmalloc, -⟩ := hu.exists_malloc 2000
    exact ⟨_, s, hbefore, hmalloc⟩
  · obtain ⟨s, hmalloc, -⟩ := hv.exists_malloc 2000
    exact ⟨s, hafter ▸ hmalloc⟩

end LightNight
