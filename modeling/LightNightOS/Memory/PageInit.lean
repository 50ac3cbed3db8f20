import LightNightOS.Memory.HeapRefinement

/-!
# `init_page`

The three passes of `init_page` over the firmware's memory map: count the whole 2 MB frames of the
usable regions, find a region large enough for the descriptor array, and link one descriptor for
each frame into the free list. Then the range of pointers `free` accepts is set.

The descriptors are modelled as an array of their own, beside the byte memory. Whether the range of
addresses the code gives them (`descriptorRange`) is really apart from everything else is the
subject of `Descriptors`.

* `initPage_supplies` — the free list holds exactly the usable frames, in map order.
* `initPage_counters` — the allocation counters are not touched;
* `initPage_heapStart`, `initPage_range` — the range of `free`, in terms of the frames.
-/

namespace LightNight

namespace E820

/-! ### Regions of the map -/

/-- `type == 1` -/
def Usable (e : E820) : Prop := e.type = 1

instance (e : E820) : Decidable e.Usable := inferInstanceAs (Decidable (_ = _))

/-- `address + length` -/
def stop (e : E820) : ℕ := u64 (e.address + e.length)

/-- `PAGE_2M_ALIGN(address)` -/
def frameStart (e : E820) : ℕ := page2MAlign e.address

/-- `((address + length) >> PAGE_2M_SHIFT) << PAGE_2M_SHIFT` -/
def frameEnd (e : E820) : ℕ := page2MFloor e.stop

/-- The values of `j` in `for(j = start; j < end; j += PAGE_2M_SIZE)`. The last step does not wrap:
both bounds are multiples of the page size. -/
def frames (e : E820) : List ℕ :=
  List.range' e.frameStart ((e.frameEnd - e.frameStart + (page2MSize - 1)) / page2MSize) page2MSize

theorem frameStart_dvd (e : E820) : page2MSize ∣ e.frameStart := by
  rw [frameStart, page2MAlign, page2MMask, and_lowMask (u64_lt _) (by decide)]
  exact Nat.dvd_mul_left _ _

theorem frameEnd_eq (e : E820) : e.frameEnd = e.stop / page2MSize * page2MSize :=
  page2MFloor_eq (u64_lt _)

theorem frameEnd_le (e : E820) : e.frameEnd ≤ e.stop := by
  rw [frameEnd_eq]
  exact Nat.div_mul_le_self _ _

/-- The frames are the aligned 2 MB pieces between the rounded bounds. -/
theorem mem_frames {e : E820} {j : ℕ} :
    j ∈ e.frames ↔ page2MSize ∣ j ∧ e.frameStart ≤ j ∧ j + page2MSize ≤ e.frameEnd := by
  obtain ⟨a, ha⟩ := e.frameStart_dvd
  have hb := e.frameEnd_eq
  rw [frames, List.mem_range', ha, hb, page2MSize_eq]
  constructor
  · rintro ⟨i, hi, rfl⟩
    omega
  · rintro ⟨⟨c, rfl⟩, hlo, hhi⟩
    exact ⟨c - a, by omega, by omega⟩

/-- Rounding may leave nothing of a region. -/
theorem frames_eq_nil (e : E820) (hle : e.frameEnd ≤ e.frameStart) : e.frames = [] := by
  rw [frames, Nat.sub_eq_zero_of_le hle, Nat.zero_add,
    Nat.div_eq_of_lt (Nat.sub_lt (by decide) Nat.one_pos), List.range'_zero]

end E820

/-- The frames of the usable regions, in the order in which `init_page` meets them. -/
def usableFrames (entries : List E820) : List ℕ :=
  (entries.filter (·.Usable)).flatMap E820.frames

theorem mem_usableFrames {entries : List E820} {j : ℕ} :
    j ∈ usableFrames entries ↔ ∃ e ∈ entries, e.Usable ∧ j ∈ e.frames := by
  simp [usableFrames, and_assoc]

/-- A usable frame is a whole one, below `2 ^ 64`. -/
theorem usableFrames_add_le {entries : List E820} {j : ℕ} (hj : j ∈ usableFrames entries) :
    j + page2MSize ≤ 2 ^ 64 := by
  obtain ⟨e, -, -, hj⟩ := mem_usableFrames.1 hj
  obtain ⟨-, -, hle⟩ := E820.mem_frames.1 hj
  have hend := e.frameEnd_le
  have hstop : e.stop < 2 ^ 64 := u64_lt _
  omega

theorem usableFrames_lt {entries : List E820} {j : ℕ} (hj : j ∈ usableFrames entries) :
    j < 2 ^ 64 := by
  have hle := usableFrames_add_le hj
  have hsize : 0 < page2MSize := by decide
  omega

theorem usableFrames_dvd {entries : List E820} {j : ℕ} (hj : j ∈ usableFrames entries) :
    page2MSize ∣ j := by
  obtain ⟨e, -, -, hj⟩ := mem_usableFrames.1 hj
  exact (E820.mem_frames.1 hj).1

/-- The frames of the first region, then those of the others. -/
theorem usableFrames_cons (e : E820) (l : List E820) : usableFrames (e :: l) =
    (if e.Usable then e.frames else []) ++ usableFrames l := by
  by_cases hu : e.Usable <;> simp [usableFrames, hu]

/-! ### The passes

Each pass rounds the bounds of its regions anew, with the macros of `memory.h`. The first pass
counts all frames before a descriptor is written, so the array has room for what the third pass
writes. -/

/-- One entry of the first pass: `page_count += (end - start) >> PAGE_2M_SHIFT`. -/
def countEntry (pageCount : ℕ) (e : E820) : ℕ :=
  if ¬e.Usable then pageCount
  else if e.frameEnd ≤ e.frameStart then pageCount
  else u64 (pageCount + (e.frameEnd - e.frameStart) >>> page2MShift)

/-- First pass: the number of descriptors. -/
def pageCount (entries : List E820) : ℕ := entries.foldl countEntry 0

/-- Second pass: the first usable region whose length holds the descriptors. -/
def findRoom (pageCount : ℕ) (entries : List E820) : Option E820 :=
  entries.find? fun e ↦ e.Usable ∧
    u64 (pageCount * sizeofPage) ≤ u64 (e.stop + (2 ^ 64 - e.address))

/-- The physical addresses that `init_page` zeroes and fills with descriptors. -/
def descriptorRange (entries : List E820) (e : E820) : Set ℕ :=
  Set.Ico e.address (e.address + pageCount entries * sizeofPage)

/-- The variables of the third pass. -/
structure FillState where
  pages : ℕ → Page
  freePagesList : Option ℕ
  current : Option ℕ
  pageIndex : ℕ
  totalFreePages : ℕ

/-- The body of the third pass: the next descriptor describes frame `j` and goes to the end of the
free list. -/
def FillState.addFrame (st : FillState) (j : ℕ) : FillState :=
  let page := st.pageIndex
  let pages := Function.update st.pages page ⟨j, 0, none⟩
  { pages :=
      match st.freePagesList, st.current with
      | some _, some current =>
        Function.update pages current { pages current with next := some page }
      | _, _ => pages
    freePagesList := some (st.freePagesList.getD page)
    current := some page
    pageIndex := page + 1
    totalFreePages := u64 (st.totalFreePages + 1) }

/-- One entry of the third pass. -/
def FillState.addEntry (st : FillState) (e : E820) : FillState :=
  if ¬e.Usable then st
  else if e.frameEnd ≤ e.frameStart then st
  else e.frames.foldl FillState.addFrame st

/-- `kernel_heap_end`: the largest end of a usable region. -/
def heapEnd (entries : List E820) : ℕ :=
  entries.foldl (fun kernelHeapEnd e ↦
    if e.Usable ∧ kernelHeapEnd < e.stop then e.stop else kernelHeapEnd) 0

/-! ### The function -/

/-- How `init_page` ends. -/
inductive InitOutcome
  /-- "Failed to allocate memory for page structures!" -/
  | noRoom
  /-- "No free pages available for heap!" -/
  | noFreePages
  /-- "Fatal: Still not enough memory!" -/
  | notEnoughMemory
  /-- "Error: Invalid kernel heap range!" -/
  | invalidRange
  /-- "=== Page Management Initialization Complete ===" -/
  | complete
  deriving DecidableEq, Repr

/-- `init_page` on the map's entries. -/
def initPage (entries : List E820) (s : MemoryState) : InitOutcome × MemoryState :=
  match findRoom (pageCount entries) entries with
  | none => (.noRoom, s)
  | some room =>
    let pagesStruct := phyToVirt room.address
    let pages := fun i ↦ if i < pageCount entries then ⟨0, 0, none⟩ else s.pages i
    let s := { s with pagesStruct, pages }
    if pagesStruct = 0 then (.noRoom, s)
    else
      let st := entries.foldl FillState.addEntry
        ⟨s.pages, s.freePagesList, none, 0, s.totalFreePages⟩
      let s := { s with
        pages := st.pages
        freePagesList := st.freePagesList
        totalFreePages := st.totalFreePages }
      match s.freePagesList with
      | none => (.noFreePages, s)
      | some firstPage =>
        let s := { s with
          kernelHeapStart := (s.pages firstPage).phyAddr
          kernelHeapEnd := heapEnd entries }
        if s.kernelHeapEnd < 64 * 1024 * 1024 then (.notEnoughMemory, s)
        else
          let s := { s with kernelHeapStart := page2MAlign s.kernelHeapStart }
          if s.kernelHeapEnd ≤ s.kernelHeapStart then (.invalidRange, s)
          else (.complete, s)

/-- The static variables of `memory.c` before `init_page` runs. -/
structure Uninitialised (s : MemoryState) : Prop where
  freePagesList : s.freePagesList = none
  totalFreePages : s.totalFreePages = 0
  mallocHead : s.mallocHead = 0
  mallocTotalAllocated : s.mallocTotalAllocated = 0
  mallocTotalFreed : s.mallocTotalFreed = 0
  taken : s.taken = []

/-- Zeroed statics over zeroed memory. -/
def MemoryState.zeroed : MemoryState where
  mem := fun _ ↦ 0
  pages := fun _ ↦ ⟨0, 0, none⟩
  pagesStruct := 0
  freePagesList := none
  totalFreePages := 0
  kernelHeapStart := 0
  kernelHeapEnd := 0
  mallocHead := 0
  mallocTotalAllocated := 0
  mallocTotalFreed := 0
  taken := []

/-- Memory that is all zero, as the kernel finds its statics. -/
theorem uninitialised_zeroed : Uninitialised MemoryState.zeroed :=
  ⟨rfl, rfl, rfl, rfl, rfl, rfl⟩

/-! ### The free list -/

/-- The descriptors written so far, for the frames met so far. -/
structure Filled (st : FillState) (frames : List ℕ) : Prop where
  index : st.pageIndex = frames.length
  head : st.freePagesList = if frames = [] then none else some 0
  current : st.current = if frames = [] then none else some (frames.length - 1)
  phyAddr : ∀ (i : ℕ) (h : i < frames.length), (st.pages i).phyAddr = frames[i]
  next : ∀ i < frames.length,
    (st.pages i).next = if i + 1 < frames.length then some (i + 1) else none

/-- The descriptors after one more frame: the last one is linked to the new one. -/
theorem Filled.addFrame {st : FillState} {frames : List ℕ} (h : Filled st frames) (j : ℕ) :
    Filled (st.addFrame j) (frames ++ [j]) := by
  have hpages : ∀ i, (st.addFrame j).pages i =
      if i = frames.length then ⟨j, 0, none⟩
      else if i + 1 = frames.length then { st.pages i with next := some frames.length }
      else st.pages i := by
    intro i
    rcases List.eq_nil_or_concat frames with hnil | ⟨l, last, hcons⟩
    · subst hnil
      simp [FillState.addFrame, h.head, h.index, Function.update_apply]
    · have hne : frames ≠ [] := by simp [hcons]
      have hlen : frames.length = l.length + 1 := by simp [hcons]
      have hlast : frames.length - 1 = l.length := by omega
      have hhead : st.freePagesList = some 0 := by rw [h.head, if_neg hne]
      have hcurrent : st.current = some l.length := by rw [h.current, if_neg hne, hlast]
      simp only [FillState.addFrame, hhead, hcurrent, h.index, Function.update_apply, hlen]
      by_cases hi : i = l.length
      · simp [hi]
      · by_cases hi' : i = l.length + 1
        · simp [hi']
        · simp [hi, hi']
  have hlen : (frames ++ [j]).length = frames.length + 1 := by simp
  refine ⟨?_, ?_, ?_, fun i hi ↦ ?_, fun i hi ↦ ?_⟩
  · rw [hlen, ← h.index]
    rfl
  · have hhead : (st.addFrame j).freePagesList = some (st.freePagesList.getD st.pageIndex) := rfl
    rw [hhead, h.head, h.index]
    by_cases hne : frames = [] <;> simp [hne]
  · have hcurrent : (st.addFrame j).current = some st.pageIndex := rfl
    rw [hcurrent, h.index]
    simp
  · rw [hlen] at hi
    rw [hpages]
    by_cases hlast : i = frames.length
    · simp [hlast]
    · have hi' : i < frames.length := by omega
      rw [if_neg hlast, List.getElem_append_left hi', ← h.phyAddr i hi']
      split <;> rfl
  · rw [hlen] at hi ⊢
    rw [hpages]
    by_cases hlast : i = frames.length
    · simp [hlast]
    · have hi' : i < frames.length := by omega
      by_cases hnext : i + 1 = frames.length
      · simp [hlast, hnext]
      · have hi'' : i + 1 < frames.length := by omega
        rw [if_neg hlast, if_neg hnext, h.next i hi', if_pos hi'', if_pos (by omega)]

theorem Filled.foldl_addFrame {st : FillState} {frames : List ℕ} (h : Filled st frames)
    (l : List ℕ) : Filled (l.foldl FillState.addFrame st) (frames ++ l) := by
  induction l generalizing st frames with
  | nil => simpa using h
  | cons j l ih =>
    have hj := ih (h.addFrame j)
    rwa [List.append_assoc] at hj

/-- The third pass visits the usable frames. -/
theorem foldl_addEntry (st : FillState) (entries : List E820) :
    entries.foldl FillState.addEntry st = (usableFrames entries).foldl FillState.addFrame st := by
  induction entries generalizing st with
  | nil => rfl
  | cons e l ih =>
    rw [List.foldl_cons, ih, FillState.addEntry, usableFrames_cons]
    by_cases hu : e.Usable
    · rw [if_pos hu, List.foldl_append, if_neg (not_not.2 hu)]
      split
      case isTrue hle => rw [e.frames_eq_nil hle, List.foldl_nil]
      case isFalse => rfl
    · rw [if_pos hu, if_neg hu, List.nil_append]

/-- Descriptors linked in index order form a chain. -/
theorem pageChain_range' {pages : ℕ → Page} {n : ℕ}
    (hnext : ∀ i < n, (pages i).next = if i + 1 < n then some (i + 1) else none) :
    ∀ k i, i + k = n → PageChain pages (if i < n then some i else none) (List.range' i k)
  | 0, i, hi => if_neg (by omega)
  | k + 1, i, hi => by
    rw [List.range'_succ]
    refine ⟨if_pos (by omega), ?_⟩
    rw [hnext i (by omega)]
    exact pageChain_range' hnext k (i + 1) (by omega)

/-- The free list goes through the descriptors in index order. -/
theorem Filled.chain {st : FillState} {frames : List ℕ} (h : Filled st frames) :
    PageChain st.pages st.freePagesList (List.range frames.length) := by
  have hchain := pageChain_range' h.next frames.length 0 (Nat.zero_add _)
  rw [List.range_eq_range', h.head]
  by_cases hne : frames = []
  · simpa [hne] using hchain
  · rw [if_neg hne]
    rwa [if_pos (List.length_pos_of_ne_nil hne)] at hchain

/-- The descriptors that are filled are the free list. -/
theorem Filled.supplies {st : FillState} {frames : List ℕ} (h : Filled st frames) :
    Supplies st.pages st.freePagesList (frames.map phyToVirt) := by
  refine ⟨List.range frames.length, h.chain, List.nodup_range, ?_⟩
  refine List.ext_getElem (by simp) fun i hi _ ↦ ?_
  rw [List.length_map] at hi
  simp [h.phyAddr i hi]

/-- The counter of the third pass. -/
theorem FillState.total_foldl (st : FillState) (l : List ℕ)
    (hl : st.totalFreePages + l.length < 2 ^ 64) :
    (l.foldl FillState.addFrame st).totalFreePages = st.totalFreePages + l.length := by
  induction l generalizing st with
  | nil => rfl
  | cons j l ih =>
    rw [List.length_cons] at hl ⊢
    have hone : (st.addFrame j).totalFreePages = st.totalFreePages + 1 := u64_of_lt (by omega)
    rw [List.foldl_cons, ih _ (by rw [hone]; omega), hone]
    omega

/-- No frame is in use before the first call. -/
theorem FillState.refCount_foldl (st : FillState) (l : List ℕ)
    (hst : ∀ i, (st.pages i).refCount = 0) (i : ℕ) :
    ((l.foldl FillState.addFrame st).pages i).refCount = 0 := by
  induction l generalizing st with
  | nil => exact hst i
  | cons j l ih =>
    refine ih _ fun k ↦ ?_
    have hupdate : ∀ k, (Function.update st.pages st.pageIndex ⟨j, 0, none⟩ k).refCount = 0 := by
      intro k
      rw [Function.update_apply]
      split
      exacts [rfl, hst k]
    rw [FillState.addFrame]
    rcases st.freePagesList with - | head <;> rcases st.current with - | current
    case some.some =>
      dsimp only
      rw [Function.update_apply]
      split
      exacts [hupdate current, hupdate k]
    all_goals exact hupdate k

/-- The third pass, from an empty free list. -/
theorem filled_entries (pages : ℕ → Page) (entries : List E820) :
    Filled (entries.foldl FillState.addEntry ⟨pages, none, none, 0, 0⟩) (usableFrames entries) := by
  have hstart : Filled ⟨pages, none, none, 0, 0⟩ [] := ⟨rfl, rfl, rfl, by simp, by simp⟩
  rw [foldl_addEntry]
  exact hstart.foldl_addFrame (usableFrames entries)

/-- **What `init_page` leaves behind**, as far as the heap is concerned: a free list of the usable
frames in map order, or none at all, and statics that are otherwise untouched. -/
theorem initPage_supplies {s : MemoryState} (hs : Uninitialised s) (entries : List E820) :
    Supplies (initPage entries s).2.pages (initPage entries s).2.freePagesList
      (if (initPage entries s).1 = .noRoom then [] else (usableFrames entries).map phyToVirt) ∧
    (initPage entries s).2.mallocHead = 0 ∧ (initPage entries s).2.taken = [] := by
  have hnone : ∀ pages, Supplies pages none [] := fun _ ↦ ⟨[], rfl, List.nodup_nil, rfl⟩
  rw [initPage]
  rcases findRoom (pageCount entries) entries with - | room
  · have hempty : Supplies s.pages s.freePagesList [] := by
      rw [hs.freePagesList]
      exact hnone _
    exact ⟨hempty, hs.mallocHead, hs.taken⟩
  simp only [hs.freePagesList, hs.totalFreePages]
  by_cases hnull : phyToVirt room.address = 0
  · rw [if_pos hnull]
    exact ⟨hnone _, hs.mallocHead, hs.taken⟩
  rw [if_neg hnull]
  have hchain := (filled_entries (fun i ↦ if i < pageCount entries then ⟨0, 0, none⟩ else
    s.pages i) entries).supplies
  split
  · exact ⟨hchain, hs.mallocHead, hs.taken⟩
  split
  · exact ⟨hchain, hs.mallocHead, hs.taken⟩
  split <;> exact ⟨hchain, hs.mallocHead, hs.taken⟩

/-- `init_page` does not touch the allocation counters. -/
theorem initPage_counters {s : MemoryState} (hs : Uninitialised s) (entries : List E820) :
    (initPage entries s).2.mallocTotalAllocated = 0 ∧
      (initPage entries s).2.mallocTotalFreed = 0 := by
  rw [initPage]
  rcases findRoom (pageCount entries) entries with - | room
  · exact ⟨hs.mallocTotalAllocated, hs.mallocTotalFreed⟩
  dsimp only
  split
  · exact ⟨hs.mallocTotalAllocated, hs.mallocTotalFreed⟩
  split
  · exact ⟨hs.mallocTotalAllocated, hs.mallocTotalFreed⟩
  split
  · exact ⟨hs.mallocTotalAllocated, hs.mallocTotalFreed⟩
  split <;> exact ⟨hs.mallocTotalAllocated, hs.mallocTotalFreed⟩

/-! ### The range of pointers `free` accepts

The lower bound is the first frame listed, the upper bound the largest end of a usable region, and
each is shifted to its virtual address, where a sum may wrap. -/

/-- No usable region reaches past the end of usable memory. -/
theorem stop_le_heapEnd {entries : List E820} {e : E820} (he : e ∈ entries) (hu : e.Usable) :
    e.stop ≤ heapEnd entries := by
  have hfold : ∀ (l : List E820) (a : ℕ),
      let r := l.foldl (fun kernelHeapEnd e ↦
        if e.Usable ∧ kernelHeapEnd < e.stop then e.stop else kernelHeapEnd) a
      a ≤ r ∧ ∀ e ∈ l, e.Usable → e.stop ≤ r := by
    intro l
    induction l with
    | nil => simp
    | cons e l ih =>
      intro a
      obtain ⟨hle, hall⟩ := ih (if e.Usable ∧ a < e.stop then e.stop else a)
      refine ⟨?_, fun c hc hu ↦ ?_⟩
      · refine le_trans ?_ hle
        split <;> omega
      · rcases List.mem_cons.1 hc with rfl | hc
        · refine le_trans ?_ hle
          split
          · exact le_rfl
          · rename_i hno
            exact Nat.le_of_not_lt fun hlt ↦ hno ⟨hu, hlt⟩
        · exact hall c hc hu
  exact (hfold entries 0).2 e he hu

/-- The bounds `init_page` stores for `free`: the first frame, rounded up or not, and the end of
usable memory. -/
theorem initPage_bounds {s : MemoryState} (hs : Uninitialised s) {entries : List E820}
    (hroom : (initPage entries s).1 ≠ .noRoom) {frame : ℕ} {rest : List ℕ}
    (hframes : usableFrames entries = frame :: rest) :
    ((initPage entries s).2.kernelHeapStart = frame ∨
      (initPage entries s).2.kernelHeapStart = page2MAlign frame) ∧
      (initPage entries s).2.kernelHeapEnd = heapEnd entries := by
  revert hroom
  rw [initPage]
  split
  case h_1 => exact fun hroom ↦ absurd rfl hroom
  case h_2 room _ =>
    simp only [hs.freePagesList, hs.totalFreePages]
    split
    case isTrue => exact fun hroom ↦ absurd rfl hroom
    case isFalse =>
      have hfilled := filled_entries (fun i ↦ if i < pageCount entries then ⟨0, 0, none⟩ else
        s.pages i) entries
      have hpos : 0 < (usableFrames entries).length := by simp [hframes]
      have hne : usableFrames entries ≠ [] := by simp [hframes]
      have hphy := hfilled.phyAddr 0 hpos
      simp only [hframes, List.getElem_cons_zero] at hphy
      simp only [hfilled.head, if_neg hne, hphy]
      intro _
      split
      · exact ⟨Or.inl rfl, rfl⟩
      split <;> exact ⟨Or.inr rfl, rfl⟩

/-- A usable frame is aligned, and ends no later than usable memory. -/
theorem frame_le_heapEnd {entries : List E820} {j : ℕ} (hj : j ∈ usableFrames entries) :
    page2MSize ∣ j ∧ j + page2MSize ≤ heapEnd entries := by
  obtain ⟨e, he, hu, hj⟩ := mem_usableFrames.1 hj
  obtain ⟨hdvd, -, hle⟩ := E820.mem_frames.1 hj
  exact ⟨hdvd, (hle.trans e.frameEnd_le).trans (stop_le_heapEnd he hu)⟩

theorem heapEnd_lt (entries : List E820) : heapEnd entries < 2 ^ 64 := by
  have hfold : ∀ (l : List E820) (a : ℕ), a < 2 ^ 64 → l.foldl (fun kernelHeapEnd e ↦
      if e.Usable ∧ kernelHeapEnd < e.stop then e.stop else kernelHeapEnd) a < 2 ^ 64 := by
    intro l
    induction l with
    | nil => exact fun a ha ↦ ha
    | cons e l ih =>
      intro a ha
      refine ih _ ?_
      dsimp only
      split
      exacts [u64_lt _, ha]
  exact hfold entries 0 (by decide)

/-- Rounding the first frame up changes nothing. -/
theorem initPage_heapStart {s : MemoryState} (hs : Uninitialised s) {entries : List E820}
    (hroom : (initPage entries s).1 ≠ .noRoom) {frame : ℕ} {rest : List ℕ}
    (hframes : usableFrames entries = frame :: rest) :
    (initPage entries s).2.kernelHeapStart = frame := by
  have halign : page2MAlign frame = frame := by
    obtain ⟨⟨c, rfl⟩, hle⟩ := @frame_le_heapEnd entries frame (by simp [hframes])
    have hend := heapEnd_lt entries
    rw [page2MAlign_eq (by rw [page2MSize_eq] at hle ⊢; omega)]
    rw [page2MSize_eq]
    omega
  rcases (initPage_bounds hs hroom hframes).1 with hstart | hstart
  · exact hstart
  · rw [hstart, halign]

/-- **`free` accepts the pages `init_page` puts on the free list**: its range starts at the first of
them, and none of them reaches past its end. Usable memory ends below `2 ^ 47`, so that its end is
mapped without wrapping. -/
theorem initPage_range {s : MemoryState} (hs : Uninitialised s) {entries : List E820}
    (hend : heapEnd entries < 2 ^ 47) (hroom : (initPage entries s).1 ≠ .noRoom) {frame : ℕ}
    {rest : List ℕ} (hframes : usableFrames entries = frame :: rest) :
    phyToVirt (initPage entries s).2.kernelHeapStart = phyToVirt frame ∧
      ∀ j ∈ usableFrames entries,
        phyToVirt j + page2MSize ≤ phyToVirt (initPage entries s).2.kernelHeapEnd := by
  refine ⟨by rw [initPage_heapStart hs hroom hframes], fun j hj ↦ ?_⟩
  obtain ⟨-, hle⟩ := frame_le_heapEnd hj
  have hpos : 0 < page2MSize := by decide
  rw [(initPage_bounds hs hroom hframes).2, phyToVirt_of_lt hend, phyToVirt_of_lt (by omega)]
  omega

end LightNight
