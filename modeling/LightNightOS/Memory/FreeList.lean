import LightNightOS.Foundation.CountedPool
import LightNightOS.Foundation.RecordLayout
import LightNightOS.Memory.Descriptors

/-!
# The free list in memory

`alloc_page` and `free_page` on the bytes of the descriptor array, and the array as `init_page`
writes it. A pointer is an address, 0 for `NULL`.

`init_page` does not look where the array lies: it goes to the start of a usable region, which may
be the start of a frame. Clearing that frame when it is allocated clears the descriptors, and the
list is lost with them (`alloc_page_cuts_list`). Where no frame meets the array, the list is a
`CountedPool`: `ref_count` is unsigned, so freeing a page that is free wraps it, and fewer than
`2 ^ 32` calls do not bring it back to 0 (`freeList_isSet`).

The result is proved in two steps. `Fills` relates the array that is written by `init_page` in
memory to the one in which descriptors are records, frame by frame (`foldl_addEntry_memory`).
`Holds` then relates the memory to a pool, in which an item is a descriptor: `alloc_page` takes the
first one, and `free_page` releases one (`Holds.alloc_some`, `Holds.free`).
-/

namespace LightNight

open Transition CountedPool

/-! ### `struct Page` in memory -/

/-- The fields of `struct Page`. -/
inductive PageField
  | phyAddr
  | refCount
  | next
  deriving DecidableEq, Repr

/-- `struct Page`: a word, an `unsigned int` and four bytes of padding, a pointer. -/
def structPage : RecordLayout PageField where
  offset
    | .phyAddr => 0
    | .refCount => 8
    | .next => 16
  width
    | .phyAddr => 8
    | .refCount => 4
    | .next => 8
  size := sizeofPage
  inside f := by cases f <;> decide
  apart f g := by cases f <;> cases g <;> decide

/-- `&pages[i]`, or `NULL`. -/
def pagePointer (pages : ℕ) : Option ℕ → ℕ
  | none => 0
  | some i => structPage.element pages i

/-- The variables of the page code, with the descriptors in memory. -/
structure PageMemory where
  mem : ByteMemory
  freePagesList : ℕ
  totalFreePages : ℕ

/-! ### `init_page` -/

/-- The variables of the third pass. -/
structure FillMemory where
  mem : ByteMemory
  freePagesList : ℕ
  current : ℕ
  pageIndex : ℕ
  totalFreePages : ℕ

/-- The body of the third pass. -/
def FillMemory.addFrame (pages : ℕ) (st : FillMemory) (j : ℕ) : FillMemory :=
  let page := structPage.element pages st.pageIndex
  let mem := structPage.set .phyAddr st.mem page j
  let mem := structPage.set .refCount mem page 0
  let mem := structPage.set .next mem page 0
  { mem := if st.freePagesList = 0 then mem else structPage.set .next mem st.current page
    freePagesList := if st.freePagesList = 0 then page else st.freePagesList
    current := page
    pageIndex := st.pageIndex + 1
    totalFreePages := u64 (st.totalFreePages + 1) }

/-- One entry of the third pass. -/
def FillMemory.addEntry (pages : ℕ) (st : FillMemory) (e : E820) : FillMemory :=
  if ¬e.Usable then st
  else if e.frameEnd ≤ e.frameStart then st
  else e.frames.foldl (FillMemory.addFrame pages) st

namespace PageMemory

/-- What `init_page` does to the descriptors: clear the array at `pages`, and fill it. -/
def init (entries : List E820) (pages : ℕ) (m : ByteMemory) : PageMemory :=
  let mem := m.fill pages (pageCount entries * sizeofPage) 0
  let st := entries.foldl (FillMemory.addEntry pages) ⟨mem, 0, 0, 0, 0⟩
  ⟨st.mem, st.freePagesList, st.totalFreePages⟩

/-! ### `alloc_page` and `free_page` -/

/-- The writes of `alloc_page`: unlink the page, count it, clear its frame. -/
def allocWrites (m : ByteMemory) (page : ℕ) : ByteMemory :=
  let mem := structPage.set .next m page 0
  let mem := structPage.set .refCount mem page 1
  mem.fill (phyToVirt (structPage.get .phyAddr mem page)) page2MSize 0

/-- `alloc_page`, with the page returned. -/
def allocPage (s : PageMemory) : Option ℕ × PageMemory :=
  if s.freePagesList = 0 then (none, s)
  else
    let page := s.freePagesList
    (some page, ⟨allocWrites s.mem page, structPage.get .next s.mem page,
      u64 (s.totalFreePages + (2 ^ 64 - 1))⟩)

/-- `free_page`. The test `ref_count <= 0` is a test for 0: the field is unsigned. -/
def freePage (s : PageMemory) (page : ℕ) : PageMemory :=
  if page = 0 then s
  else
    let refCount := u32 (structPage.get .refCount s.mem page + (2 ^ 32 - 1))
    let mem := structPage.set .refCount s.mem page refCount
    if refCount ≤ 0 then
      ⟨structPage.set .next mem page s.freePagesList, page, u64 (s.totalFreePages + 1)⟩
    else { s with mem }

/-- The elements of the array. -/
def descriptors (pages n : ℕ) : Set ℕ := {a | ∃ i < n, a = structPage.element pages i}

/-- A call, with its result. What is freed is `NULL` or a descriptor of the array. -/
def Step (pages n : ℕ) (s : PageMemory) : PoolCall ℕ → PageMemory → Prop
  | .take page, t => s.allocPage = (page, t)
  | .release none, t => t = s.freePage 0
  | .release (some page), t => page ∈ descriptors pages n ∧ t = s.freePage page

/-! ### What the list should be -/

/-- Following `next` from a pointer meets the descriptors listed, and ends. -/
def DescriptorChain (m : ByteMemory) : ℕ → List ℕ → Prop
  | page, [] => page = 0
  | page, a :: l => page = a ∧ a ≠ 0 ∧ DescriptorChain m (structPage.get .next m a) l

/-- The free list is a set of descriptors, those that are not held; `total_free_pages` is its size,
and the next page that is allocated is not held. -/
def IsSet (pages n : ℕ) (calls : List (PoolCall ℕ)) (s : PageMemory) : Prop :=
  (∃ l, DescriptorChain s.mem s.freePagesList l ∧ l.Nodup ∧ l.length = s.totalFreePages ∧
    (∀ a ∈ l, a ∈ descriptors pages n) ∧
    ∀ a ∈ descriptors pages n, a ∉ l ↔ Held calls a) ∧
  ∀ page t, s.allocPage = (some page, t) → ¬Held calls page

end PageMemory

/-- No frame meets the descriptor array, which ends below the top of the address space. -/
structure FramesClear (entries : List E820) (pages : ℕ) : Prop where
  bounded : structPage.element pages (pageCount entries) ≤ 2 ^ 64
  clear : ∀ j ∈ usableFrames entries,
    Disjoint (Set.Ico pages (structPage.element pages (pageCount entries)))
      (Set.Ico (phyToVirt j) (phyToVirt j + page2MSize))

/-! ### The array that `init_page` fills -/

/-- The bytes of descriptor `i` hold its record. -/
structure HoldsPage (pages : ℕ) (m : ByteMemory) (i : ℕ) (p : Page) : Prop where
  phyAddr : structPage.get .phyAddr m (structPage.element pages i) = p.phyAddr
  refCount : structPage.get .refCount m (structPage.element pages i) = p.refCount
  next : structPage.get .next m (structPage.element pages i) = pagePointer pages p.next

variable {pages i k j : ℕ} {m : ByteMemory} {p : Page} {f : PageField} {v : ℕ}

/-- Writing another descriptor. -/
theorem HoldsPage.set_of_ne (h : HoldsPage pages m i p) (hne : k ≠ i) :
    HoldsPage pages (structPage.set f m (structPage.element pages k) v) i p := by
  have hapart := structPage.element_apart (a := pages) hne
  refine ⟨?_, ?_, ?_⟩ <;> rw [structPage.get_set_of_apart hapart]
  exacts [h.phyAddr, h.refCount, h.next]

/-- The three writes of `init_page` for a frame. -/
theorem holdsPage_new (hj : j < 2 ^ 64) (m : ByteMemory) (pages i : ℕ) :
    HoldsPage pages
      (structPage.set .next
        (structPage.set .refCount
          (structPage.set .phyAddr m (structPage.element pages i) j)
          (structPage.element pages i) 0)
        (structPage.element pages i) 0) i ⟨j, 0, none⟩ := by
  refine ⟨?_, ?_, ?_⟩
  · rw [structPage.get_set_of_ne (by decide), structPage.get_set_of_ne (by decide),
      structPage.get_set_self hj]
  · rw [structPage.get_set_of_ne (by decide), structPage.get_set_self (by decide)]
  · rw [structPage.get_set_self (by decide)]
    rfl

/-- Linking a descriptor to another. -/
theorem HoldsPage.link (h : HoldsPage pages m i p) (hk : structPage.element pages k < 2 ^ 64) :
    HoldsPage pages (structPage.set .next m (structPage.element pages i)
      (structPage.element pages k)) i { p with next := some k } := by
  refine ⟨?_, ?_, ?_⟩
  · rw [structPage.get_set_of_ne (by decide), h.phyAddr]
  · rw [structPage.get_set_of_ne (by decide), h.refCount]
  · rw [structPage.get_set_self hk]
    rfl

/-- The array in memory is the array of `FillState`. -/
structure Fills (pages : ℕ) (st : FillMemory) (st' : FillState) : Prop where
  index : st.pageIndex = st'.pageIndex
  total : st.totalFreePages = st'.totalFreePages
  head : st.freePagesList = pagePointer pages st'.freePagesList
  current : st.current = pagePointer pages st'.current
  holds : ∀ i < st'.pageIndex, HoldsPage pages st.mem i (st'.pages i)

variable {st : FillMemory} {st' : FillState} {frames : List ℕ}

/-- **One frame**, as long as the array has room. -/
theorem Fills.addFrame (h : Fills pages st st') (hfilled : Filled st' frames) (hpages : pages ≠ 0)
    (hroom : structPage.element pages (frames.length + 1) ≤ 2 ^ 64) (hj : j < 2 ^ 64) :
    Fills pages (st.addFrame pages j) (st'.addFrame j) := by
  have hpos : 0 < structPage.size := by decide
  have hnew := holdsPage_new hj st.mem pages st.pageIndex
  have hold : ∀ i < st'.pageIndex, HoldsPage pages
      (structPage.set .next
        (structPage.set .refCount
          (structPage.set .phyAddr st.mem (structPage.element pages st.pageIndex) j)
          (structPage.element pages st.pageIndex) 0)
        (structPage.element pages st.pageIndex) 0) i (st'.pages i) := by
    intro i hi
    have hne : st.pageIndex ≠ i := by rw [h.index]; omega
    exact (((h.holds i hi).set_of_ne hne).set_of_ne hne).set_of_ne hne
  rcases List.eq_nil_or_concat frames with rfl | ⟨l, last, rfl⟩
  · have hhead : st'.freePagesList = none := by rw [hfilled.head, if_pos rfl]
    have hzero : st.freePagesList = 0 := by rw [h.head, hhead]; rfl
    refine ⟨?_, ?_, ?_, ?_, fun i hi ↦ ?_⟩
    · simp only [FillMemory.addFrame, FillState.addFrame, h.index]
    · simp only [FillMemory.addFrame, FillState.addFrame, h.total]
    · simp only [FillMemory.addFrame, FillState.addFrame, hhead, hzero, if_true, h.index,
        Option.getD_none, pagePointer]
    · simp only [FillMemory.addFrame, FillState.addFrame, h.index, pagePointer]
    · simp only [FillMemory.addFrame, FillState.addFrame, hhead, hzero, if_true]
      simp only [FillState.addFrame] at hi
      by_cases heq : i = st'.pageIndex
      · rw [heq, Function.update_self, ← h.index]
        exact hnew
      · rw [Function.update_of_ne heq]
        exact hold i (by omega)
  · rw [List.concat_eq_append] at hfilled hroom
    have hne : l ++ [last] ≠ [] := List.append_ne_nil_of_right_ne_nil _ (List.cons_ne_nil _ _)
    have hindex : st'.pageIndex = l.length + 1 := by
      rw [hfilled.index, List.length_append, List.length_singleton]
    have hhead : st'.freePagesList = some 0 := by rw [hfilled.head, if_neg hne]
    have hcurrent : st'.current = some l.length := by
      rw [hfilled.current, if_neg hne, List.length_append, List.length_singleton,
        Nat.add_sub_cancel]
    have hlist : st.freePagesList = pages := by
      rw [h.head, hhead, pagePointer, RecordLayout.element, Nat.zero_mul, Nat.add_zero]
    have hlast : st.current = structPage.element pages l.length := by
      rw [h.current, hcurrent, pagePointer]
    have hnonzero : st.freePagesList ≠ 0 := hlist ▸ hpages
    refine ⟨?_, ?_, ?_, ?_, fun i hi ↦ ?_⟩
    · simp only [FillMemory.addFrame, FillState.addFrame, h.index]
    · simp only [FillMemory.addFrame, FillState.addFrame, h.total]
    · simp only [FillMemory.addFrame, FillState.addFrame, hhead, if_neg hnonzero,
        Option.getD_some]
      rw [h.head, hhead]
    · simp only [FillMemory.addFrame, FillState.addFrame, h.index, pagePointer]
    · simp only [FillMemory.addFrame, FillState.addFrame, hhead, hcurrent, if_neg hnonzero, hlast]
      simp only [FillState.addFrame] at hi
      have hfits : structPage.element pages st.pageIndex < 2 ^ 64 := by
        have hlt := structPage.element_lt (a := pages) (Nat.lt_add_one st.pageIndex)
        rw [h.index, hindex] at hlt ⊢
        rw [List.length_append, List.length_singleton] at hroom
        omega
      have hapart : l.length ≠ st'.pageIndex := by omega
      rw [Function.update_of_ne hapart]
      by_cases hi' : i = l.length
      · rw [hi', Function.update_self, ← h.index]
        exact (hold l.length (by omega)).link hfits
      · rw [Function.update_of_ne hi']
        refine HoldsPage.set_of_ne ?_ (Ne.symm hi')
        by_cases heq : i = st'.pageIndex
        · rw [heq, Function.update_self, ← h.index]
          exact hnew
        · rw [Function.update_of_ne heq]
          exact hold i (by omega)

/-- The frames of a region are added to both embeddings alike. -/
theorem Fills.foldl_addFrame (h : Fills pages st st') (hfilled : Filled st' frames)
    (hpages : pages ≠ 0) {l : List ℕ} (hl : ∀ j ∈ l, j < 2 ^ 64)
    (hroom : structPage.element pages (frames.length + l.length) ≤ 2 ^ 64) :
    Fills pages (l.foldl (FillMemory.addFrame pages) st) (l.foldl FillState.addFrame st') := by
  induction l generalizing st st' frames with
  | nil => exact h
  | cons j l ih =>
    have hle : structPage.element pages (frames.length + 1) ≤
        structPage.element pages (frames.length + (j :: l).length) := by
      rw [RecordLayout.element, RecordLayout.element, List.length_cons]
      exact Nat.add_le_add_left (Nat.mul_le_mul_right _ (by omega)) _
    have hj := h.addFrame hfilled hpages (hle.trans hroom) (hl j List.mem_cons_self)
    have hlength : (frames ++ [j]).length + l.length = frames.length + (j :: l).length := by
      rw [List.length_append, List.length_singleton, List.length_cons]
      omega
    rw [← hlength] at hroom
    exact ih hj (hfilled.addFrame j) (fun k hk ↦ hl k (List.mem_cons_of_mem j hk)) hroom

/-- The third pass visits the usable frames. -/
theorem foldl_addEntry_memory (pages : ℕ) (st : FillMemory) (entries : List E820) :
    entries.foldl (FillMemory.addEntry pages) st =
      (usableFrames entries).foldl (FillMemory.addFrame pages) st := by
  induction entries generalizing st with
  | nil => rfl
  | cons e l ih =>
    rw [List.foldl_cons, ih, FillMemory.addEntry, usableFrames_cons]
    by_cases hu : e.Usable
    · rw [if_pos hu, List.foldl_append, if_neg (not_not.2 hu)]
      split
      case isTrue hle => rw [e.frames_eq_nil hle, List.foldl_nil]
      case isFalse => rfl
    · rw [if_pos hu, if_neg hu, List.nil_append]

/-- **`init_page` fills the array**, whatever the array was before. -/
theorem fills_init {entries : List E820} (hentries : entries.length ≤ 32) (hpages : pages ≠ 0)
    (hclear : FramesClear entries pages) (m : ByteMemory) (array : ℕ → Page) :
    Fills pages
      (entries.foldl (FillMemory.addEntry pages)
        ⟨m.fill pages (pageCount entries * sizeofPage) 0, 0, 0, 0, 0⟩)
      (entries.foldl FillState.addEntry ⟨array, none, none, 0, 0⟩) := by
  have hstart : Fills pages ⟨m.fill pages (pageCount entries * sizeofPage) 0, 0, 0, 0, 0⟩
      ⟨array, none, none, 0, 0⟩ :=
    ⟨rfl, rfl, rfl, rfl, fun i hi ↦ absurd hi (Nat.not_lt_zero i)⟩
  have hempty : Filled ⟨array, none, none, 0, 0⟩ [] := ⟨rfl, rfl, rfl, by simp, by simp⟩
  have hroom := hclear.bounded
  rw [pageCount_eq hentries, ← Nat.zero_add (usableFrames entries).length] at hroom
  rw [foldl_addEntry_memory, foldl_addEntry]
  exact hstart.foldl_addFrame hempty hpages (fun _ ↦ usableFrames_lt) hroom

/-- A chain of the array is a chain in memory. -/
theorem PageChain.inMemory {array : ℕ → Page} {head : Option ℕ} {l : List ℕ}
    (h : PageChain array head l) (hholds : ∀ i ∈ l, HoldsPage pages m i (array i))
    (hpages : pages ≠ 0) :
    PageMemory.DescriptorChain m (pagePointer pages head) (l.map (structPage.element pages)) := by
  induction l generalizing head with
  | nil =>
    obtain rfl : head = none := h
    rfl
  | cons i l ih =>
    obtain ⟨rfl, hchain⟩ := h
    have hne : structPage.element pages i ≠ 0 := by
      rw [RecordLayout.element]
      omega
    refine ⟨rfl, hne, ?_⟩
    rw [(hholds i List.mem_cons_self).next]
    exact ih hchain fun k hk ↦ hholds k (List.mem_cons_of_mem i hk)

/-! ### The list as a pool

`Holds` relates the bytes of the descriptors to a pool: the `next` pointers spell out the free items
in order, and the counts are the `ref_count` fields. Taking and releasing are then what
`CountedPool` says.
-/

namespace PageMemory

/-- The pool with all of the descriptors free, in order. -/
def allFree (pages n : ℕ) : CountedPool ℕ :=
  ⟨(List.range n).map (structPage.element pages), fun _ ↦ 0⟩

/-- The memory holds the pool, and no frame of a descriptor meets the array. -/
structure Holds (pages n : ℕ) (s : PageMemory) (p : CountedPool ℕ) : Prop where
  chain : DescriptorChain s.mem s.freePagesList p.free
  total : s.totalFreePages = p.free.length
  count : ∀ a ∈ descriptors pages n, structPage.get .refCount s.mem a = p.count a
  clear : ∀ a ∈ descriptors pages n,
    phyToVirt (structPage.get .phyAddr s.mem a) + page2MSize ≤ pages ∨
      structPage.element pages n ≤ phyToVirt (structPage.get .phyAddr s.mem a)

/-- **`init_page` leaves all pages free.** -/
theorem init_holds {entries : List E820} (hentries : entries.length ≤ 32) (hpages : pages ≠ 0)
    (hclear : FramesClear entries pages) (m : ByteMemory) :
    Holds pages (pageCount entries) (init entries pages m) (allFree pages (pageCount entries)) := by
  have hlength := length_usableFrames_le hentries
  have hcount := pageCount_eq hentries
  let start : FillState := ⟨fun _ ↦ ⟨0, 0, none⟩, none, none, 0, 0⟩
  have hfills := fills_init hentries hpages hclear m fun _ ↦ ⟨0, 0, none⟩
  have hfilled := filled_entries (fun _ ↦ ⟨0, 0, none⟩) entries
  have hrefs := start.refCount_foldl (usableFrames entries) fun _ ↦ rfl
  have htotal := start.total_foldl (usableFrames entries) (by simp only [start]; omega)
  rw [← foldl_addEntry] at hrefs htotal
  rw [init]
  generalize entries.foldl FillState.addEntry _ = st' at hfills hfilled hrefs htotal
  generalize entries.foldl (FillMemory.addEntry pages) _ = st at hfills ⊢
  have hholds : ∀ i < (usableFrames entries).length, HoldsPage pages st.mem i (st'.pages i) :=
    fun i hi ↦ hfills.holds i (by rw [hfilled.index]; exact hi)
  refine ⟨?_, ?_, ?_, ?_⟩
  · rw [allFree, hcount]
    dsimp only
    rw [hfills.head]
    exact hfilled.chain.inMemory (fun i hi ↦ hholds i (List.mem_range.1 hi)) hpages
  · rw [allFree, hcount]
    dsimp only
    rw [hfills.total, htotal, List.length_map, List.length_range]
    exact Nat.zero_add _
  · rintro a ⟨i, hi, rfl⟩
    exact (hholds i (hcount ▸ hi)).refCount.trans (hrefs i)
  · rintro a ⟨i, hi, rfl⟩
    rw [hcount] at hi
    rw [(hholds i hi).phyAddr, hfilled.phyAddr i hi]
    have hdisjoint := Set.Ico_disjoint_Ico.1 (hclear.clear _ (List.getElem_mem hi))
    have hlt := structPage.element_lt (a := pages) hi
    have hle : pages ≤ structPage.element pages i := Nat.le_add_right _ _
    have hsizes : 0 < page2MSize ∧ 0 < structPage.size := by decide
    rw [hcount] at hdisjoint ⊢
    omega

/-- A chain depends on the links of its descriptors. -/
theorem DescriptorChain.congr {m' : ByteMemory} {head : ℕ} {l : List ℕ}
    (h : DescriptorChain m head l)
    (heq : ∀ a ∈ l, structPage.get .next m' a = structPage.get .next m a) :
    DescriptorChain m' head l := by
  induction l generalizing head with
  | nil => exact h
  | cons a l ih =>
    refine ⟨h.1, h.2.1, ?_⟩
    rw [heq a List.mem_cons_self]
    exact ih h.2.2 fun b hb ↦ heq b (List.mem_cons_of_mem a hb)

variable {n a b : ℕ} {s t : PageMemory} {pool : CountedPool ℕ} {calls : List (PoolCall ℕ)}

theorem descriptors_apart (ha : a ∈ descriptors pages n) (hb : b ∈ descriptors pages n)
    (hne : a ≠ b) : a + structPage.size ≤ b ∨ b + structPage.size ≤ a := by
  obtain ⟨i, -, rfl⟩ := ha
  obtain ⟨k, -, rfl⟩ := hb
  exact structPage.element_apart fun heq ↦ hne (heq ▸ rfl)

/-- The array is where its elements are. -/
theorem descriptors_bounds (ha : a ∈ descriptors pages n) :
    pages ≤ a ∧ a + structPage.size ≤ structPage.element pages n := by
  obtain ⟨i, hi, rfl⟩ := ha
  exact ⟨Nat.le_add_right _ _, structPage.element_lt hi⟩

/-- A field of a descriptor after a write to a field of a descriptor. -/
theorem get_set (ha : a ∈ descriptors pages n) (hb : b ∈ descriptors pages n) (f g : PageField)
    (hv : v < 256 ^ structPage.width f) :
    structPage.get g (structPage.set f m a v) b =
      if b = a ∧ g = f then v else structPage.get g m b := by
  by_cases hba : b = a
  · subst hba
    by_cases hgf : g = f
    · subst hgf
      rw [structPage.get_set_self hv, if_pos ⟨rfl, rfl⟩]
    · rw [structPage.get_set_of_ne (Ne.symm hgf), if_neg fun h ↦ hgf h.2]
  · rw [structPage.get_set_of_apart (descriptors_apart ha hb (Ne.symm hba)), if_neg fun h ↦ hba h.1]

/-- With an empty list `alloc_page` returns `NULL` and changes nothing. -/
theorem Holds.alloc_none (h : Holds pages n s pool) (hpool : pool.free = []) :
    s.allocPage = (none, s) := by
  have hnull := h.chain
  rw [hpool] at hnull
  exact if_pos hnull

/-- The array after the writes of `alloc_page`: clearing a frame that does not meet it leaves it
alone. -/
theorem get_allocWrites (ha : a ∈ descriptors pages n) (hb : b ∈ descriptors pages n)
    (hclear : phyToVirt (structPage.get .phyAddr m a) + page2MSize ≤ pages ∨
      structPage.element pages n ≤ phyToVirt (structPage.get .phyAddr m a))
    (f : PageField) :
    structPage.get f (allocWrites m a) b =
      if b = a ∧ f = .refCount then 1 else if b = a ∧ f = .next then 0
        else structPage.get f m b := by
  have hset : ∀ g, structPage.get g (structPage.set .refCount (structPage.set .next m a 0) a 1) b =
      if b = a ∧ g = .refCount then 1 else if b = a ∧ g = .next then 0
        else structPage.get g m b := by
    intro g
    rw [get_set ha hb _ _ (by decide), get_set ha hb _ _ (by decide)]
  have hframe : structPage.get .phyAddr
      (structPage.set .refCount (structPage.set .next m a 0) a 1) a =
        structPage.get .phyAddr m a := by
    rw [structPage.get_set_of_ne (by decide), structPage.get_set_of_ne (by decide)]
  have hbounds := descriptors_bounds hb
  rw [allocWrites, structPage.get_fill (by rw [hframe]; omega), hset]

/-- **`alloc_page` takes the first page of the pool.** -/
theorem Holds.alloc_some (h : Holds pages n s pool) {l : List ℕ} (hpool : pool.free = a :: l)
    (hnodup : pool.free.Nodup) (hmem : ∀ b ∈ pool.free, b ∈ descriptors pages n)
    (hlength : pool.free.length < 2 ^ 64) :
    ∃ t, s.allocPage = (some a, t) ∧ Holds pages n t ⟨l, Function.update pool.count a 1⟩ := by
  have hchain := h.chain
  have htotal := h.total
  rw [hpool] at hchain hnodup hmem hlength htotal
  obtain ⟨hhead, hne, hchain⟩ := hchain
  obtain ⟨hout, -⟩ := List.nodup_cons.1 hnodup
  have ha := hmem a List.mem_cons_self
  have hcall : s.allocPage = (some a, ⟨allocWrites s.mem a, structPage.get .next s.mem a,
      u64 (s.totalFreePages + (2 ^ 64 - 1))⟩) := by
    rw [allocPage, hhead, if_neg hne]
  refine ⟨_, hcall, ?_, ?_, fun b hb ↦ ?_, fun b hb ↦ ?_⟩
  · refine hchain.congr fun b hb ↦ ?_
    have hba : b ≠ a := fun heq ↦ hout (heq ▸ hb)
    rw [get_allocWrites ha (hmem b (List.mem_cons_of_mem a hb)) (h.clear a ha),
      if_neg fun h ↦ hba h.1, if_neg fun h ↦ hba h.1]
  · rw [List.length_cons] at htotal hlength
    dsimp only
    rw [htotal, u64]
    omega
  · rw [get_allocWrites ha hb (h.clear a ha)]
    dsimp only
    rw [Function.update_apply, ← h.count b hb]
    simp
  · rw [get_allocWrites ha hb (h.clear a ha), if_neg fun h ↦ PageField.noConfusion h.2,
      if_neg fun h ↦ PageField.noConfusion h.2]
    exact h.clear b hb

theorem Holds.freePagesList_lt (h : Holds pages n s pool)
    (hbounded : structPage.element pages n ≤ 2 ^ 64)
    (hmem : ∀ b ∈ pool.free, b ∈ descriptors pages n) : s.freePagesList < 2 ^ 64 := by
  have hchain := h.chain
  have hsize : 0 < structPage.size := by decide
  rcases hfree : pool.free with - | ⟨b, l⟩
  · rw [hfree] at hchain
    rw [show s.freePagesList = 0 from hchain]
    exact Nat.two_pow_pos 64
  · rw [hfree] at hchain hmem
    have hbounds := descriptors_bounds (hmem b List.mem_cons_self)
    rw [hchain.1]
    omega

/-- **`free_page` releases the page to the pool.** -/
theorem Holds.free (h : Holds pages n s pool) (hpages : pages ≠ 0)
    (hbounded : structPage.element pages n ≤ 2 ^ 64) (ha : a ∈ descriptors pages n)
    (hmem : ∀ b ∈ pool.free, b ∈ descriptors pages n) (hlength : pool.free.length + 1 < 2 ^ 64)
    (hout : (pool.count a + (2 ^ 32 - 1)) % 2 ^ 32 = 0 → a ∉ pool.free) :
    Holds pages n (s.freePage a) (pool.release (2 ^ 32) a) := by
  have hne : a ≠ 0 := by have := descriptors_bounds ha; omega
  have hcount : u32 (structPage.get .refCount s.mem a + (2 ^ 32 - 1)) =
      (pool.count a + (2 ^ 32 - 1)) % 2 ^ 32 := by
    rw [h.count a ha, u32]
  have hlist := h.freePagesList_lt hbounded hmem
  have hfits : ∀ x, x % 2 ^ 32 < 256 ^ structPage.width .refCount := u32_lt
  obtain ⟨m, hm, hset⟩ : ∃ m, m = structPage.set .refCount s.mem a
      ((pool.count a + (2 ^ 32 - 1)) % 2 ^ 32) ∧
      ∀ f, ∀ b ∈ descriptors pages n, structPage.get f m b =
        if b = a ∧ f = .refCount then (pool.count a + (2 ^ 32 - 1)) % 2 ^ 32
        else structPage.get f s.mem b :=
    ⟨_, rfl, fun f b hb ↦ get_set ha hb _ _ (hfits _)⟩
  have hcounts : ∀ b ∈ descriptors pages n, structPage.get .refCount m b =
      Function.update pool.count a ((pool.count a + (2 ^ 32 - 1)) % 2 ^ 32) b := by
    intro b hb
    rw [hset _ b hb, Function.update_apply, ← h.count b hb]
    simp
  have hrest : ∀ f, f ≠ .refCount → ∀ b ∈ descriptors pages n,
      structPage.get f m b = structPage.get f s.mem b :=
    fun f hf b hb ↦ by rw [hset _ b hb, if_neg fun h ↦ hf h.2]
  rw [freePage, if_neg hne]
  simp only [hcount, ← hm, release, Nat.le_zero]
  split
  case isTrue hzero =>
    have hlink : ∀ f, ∀ b ∈ descriptors pages n,
        structPage.get f (structPage.set .next m a s.freePagesList) b =
          if b = a ∧ f = .next then s.freePagesList else structPage.get f m b :=
      fun f b hb ↦ get_set ha hb _ _ hlist
    refine ⟨⟨rfl, hne, ?_⟩, ?_, fun b hb ↦ ?_, fun b hb ↦ ?_⟩
    · rw [hlink _ a ha, if_pos ⟨rfl, rfl⟩]
      refine h.chain.congr fun b hb ↦ ?_
      have hba : b ≠ a := fun heq ↦ hout hzero (heq ▸ hb)
      rw [hlink _ b (hmem b hb), if_neg fun h ↦ hba h.1,
        hrest _ (by decide) b (hmem b hb)]
    · rw [List.length_cons, h.total]
      exact u64_of_lt hlength
    · rw [hlink _ b hb, if_neg fun h ↦ PageField.noConfusion h.2]
      exact hcounts b hb
    · rw [hlink _ b hb, if_neg fun h ↦ PageField.noConfusion h.2, hrest _ (by decide) b hb]
      exact h.clear b hb
  case isFalse =>
    refine ⟨h.chain.congr fun b hb ↦ hrest _ (by decide) b (hmem b hb), h.total, hcounts,
      fun b hb ↦ ?_⟩
    rw [hrest _ (by decide) b hb]
    exact h.clear b hb

/-! ### Every run -/

/-- A list of descriptors, no two the same, is no longer than the array. -/
theorem length_le_of_descriptors {l : List ℕ} (hnodup : l.Nodup)
    (hmem : ∀ b ∈ l, b ∈ descriptors pages n) : l.length ≤ n := by
  have hsub : l ⊆ (List.range n).map (structPage.element pages) := by
    intro b hb
    obtain ⟨i, hi, rfl⟩ := hmem b hb
    exact List.mem_map_of_mem (List.mem_range.2 hi)
  have hle := (hnodup.subperm hsub).length_le
  rwa [List.length_map, List.length_range] at hle

/-- **One call** is a call on the pool. -/
theorem Holds.step (h : Holds pages n s pool) (hpages : pages ≠ 0)
    (hbounded : structPage.element pages n ≤ 2 ^ 64)
    (hsound : Sound (2 ^ 32) (descriptors pages n) calls pool)
    (hcalls : calls.length + 1 < 2 ^ 32) {call : PoolCall ℕ} (hstep : s.Step pages n call t) :
    ∃ pool', pool.Step (2 ^ 32) (descriptors pages n) call pool' ∧ Holds pages n t pool' := by
  have hn : n < 2 ^ 63 := by
    rw [RecordLayout.element, show structPage.size = 24 from rfl] at hbounded
    omega
  have hlength := length_le_of_descriptors hsound.nodup hsound.mem
  cases call with
  | take page =>
    rcases hfree : pool.free with - | ⟨a, l⟩
    · obtain ⟨rfl, rfl⟩ := Prod.mk.inj ((h.alloc_none hfree).symm.trans hstep)
      exact ⟨pool, by rw [CountedPool.Step, take, hfree], h⟩
    · obtain ⟨t', hcall, hholds⟩ := h.alloc_some hfree hsound.nodup hsound.mem (by omega)
      obtain ⟨rfl, rfl⟩ := Prod.mk.inj (hcall.symm.trans hstep)
      exact ⟨_, by rw [CountedPool.Step, take, hfree], hholds⟩
  | release page =>
    cases page with
    | none =>
      obtain rfl : t = s := hstep
      exact ⟨pool, rfl, h⟩
    | some a =>
      obtain ⟨ha, rfl⟩ : a ∈ descriptors pages n ∧ t = s.freePage a := hstep
      exact ⟨_, ⟨ha, rfl⟩, h.free hpages hbounded ha hsound.mem (by omega)
        fun hzero hmem ↦ (hsound.count_free hcalls hmem).1 hzero⟩

/-- What the pool says of the list. -/
theorem Holds.isSet (h : Holds pages n s pool)
    (hsound : Sound (2 ^ 32) (descriptors pages n) calls pool) : IsSet pages n calls s := by
  refine ⟨⟨pool.free, h.chain, hsound.nodup, h.total.symm, hsound.mem, hsound.held_iff⟩, ?_⟩
  intro page t hcall
  rcases hfree : pool.free with - | ⟨a, l⟩
  · exact absurd (Prod.mk.inj ((h.alloc_none hfree).symm.trans hcall)).1 nofun
  · have hchain := h.chain
    rw [hfree] at hchain
    rw [allocPage, hchain.1, if_neg hchain.2.1] at hcall
    obtain rfl := Option.some.inj (Prod.mk.inj hcall).1
    exact hsound.take_notHeld (by rw [take, hfree])

end PageMemory

open PageMemory

/-- At the start every descriptor is free and none is held. -/
theorem sound_allFree {bound n : ℕ} : Sound bound (descriptors pages n) [] (allFree pages n) := by
  have hpos : 0 < structPage.size := by decide
  refine sound_start ?_ (fun a ↦ ?_) fun _ _ ↦ rfl
  · exact List.Nodup.map (fun _ _ ↦ (structPage.element_inj hpos).1) List.nodup_range
  · rw [allFree, List.mem_map]
    simp only [descriptors, Set.mem_ofPred_eq, List.mem_range, eq_comm]

/-- `init_page` does not complete with the array at address 0. -/
theorem pagesStruct_ne_zero {s : MemoryState} (hs : Uninitialised s) {entries : List E820}
    (hcomplete : (initPage entries s).1 = .complete) : (initPage entries s).2.pagesStruct ≠ 0 := by
  revert hcomplete
  rw [initPage]
  split
  case h_1 =>
    intro h
    cases h
  case h_2 room _ =>
    simp only [hs.freePagesList, hs.totalFreePages]
    split
    case isTrue =>
      intro h
      cases h
    case isFalse hne =>
      intro _
      split
      case h_1 => exact hne
      case h_2 =>
        split
        · exact hne
        split <;> exact hne

/-- **The free list is a set.** For every map that `init_page` accepts and whose frames do not meet
the descriptor array, and every run of fewer than `2 ^ 32` calls after it. -/
theorem freeList_isSet {s : MemoryState} (hs : Uninitialised s) {entries : List E820}
    (hentries : entries.length ≤ 32) (hcomplete : (initPage entries s).1 = .complete)
    (hclear : FramesClear entries (initPage entries s).2.pagesStruct) {calls : List (PoolCall ℕ)}
    {t : PageMemory}
    (hrun : Run (PageMemory.Step (initPage entries s).2.pagesStruct (pageCount entries))
      (PageMemory.init entries (initPage entries s).2.pagesStruct s.mem) calls t)
    (hcalls : calls.length < 2 ^ 32) :
    IsSet (initPage entries s).2.pagesStruct (pageCount entries) calls t := by
  have hpages := pagesStruct_ne_zero hs hcomplete
  generalize (initPage entries s).2.pagesStruct = pages at *
  have hstart := init_holds hentries hpages hclear s.mem
  have hpool : calls.length < 2 ^ 32 → ∃ pool,
      Sound (2 ^ 32) (descriptors pages (pageCount entries)) calls pool ∧
      Holds pages (pageCount entries) t pool := by
    refine hrun.traced (I := fun calls t ↦ calls.length < 2 ^ 32 → ∃ pool,
      Sound (2 ^ 32) (descriptors pages (pageCount entries)) calls pool ∧
      Holds pages (pageCount entries) t pool) ?_ fun _ ↦ ⟨_, sound_allFree, hstart⟩
    intro calls t call t' hprev hstep hcalls
    rw [length_snoc] at hcalls
    obtain ⟨pool, hsound, hholds⟩ := hprev (by omega)
    obtain ⟨pool', hstep', hholds'⟩ := hholds.step hpages hclear.bounded hsound hcalls hstep
    exact ⟨pool', hsound.step hcalls hstep', hholds'⟩
  obtain ⟨pool, hsound, hholds⟩ := hpool hcalls
  exact hholds.isSet hsound

/-- Two frames, behind the half MB in which the array goes. -/
def clearMap : List E820 := [⟨0x3f80000, 0x480000, 1⟩]

/-- The machine on which the array lies apart from its frames. -/
theorem framesClear_clearMap : FramesClear clearMap 0xffff800003f80000 := by
  have hframes : usableFrames clearMap = [0x4000000, 0x4200000] := by decide +kernel
  refine ⟨by decide +kernel, fun j hj ↦ ?_⟩
  rw [hframes] at hj
  rw [Set.Ico_disjoint_Ico]
  revert j
  decide +kernel

/-- A page is taken there, and another one released that was free. -/
theorem freeList_isSet_clearMap : ∃ t, Run (PageMemory.Step 0xffff800003f80000 2)
    (PageMemory.init clearMap 0xffff800003f80000 fun _ ↦ 0)
    [.take (some 0xffff800003f80000), .release (some 0xffff800003f80018)] t ∧
    IsSet 0xffff800003f80000 2
      [.take (some 0xffff800003f80000), .release (some 0xffff800003f80018)] t := by
  have hpages : (initPage clearMap .zeroed).2.pagesStruct = 0xffff800003f80000 := by decide +kernel
  have hcount : pageCount clearMap = 2 := by decide +kernel
  have hcall : (PageMemory.init clearMap 0xffff800003f80000 fun _ ↦ 0).allocPage.1 =
      some 0xffff800003f80000 := by decide +kernel
  have hrun : Run (PageMemory.Step 0xffff800003f80000 2)
      (PageMemory.init clearMap 0xffff800003f80000 fun _ ↦ 0)
      [.take (some 0xffff800003f80000), .release (some 0xffff800003f80018)] _ :=
    (Run.single (a := PoolCall.take (some 0xffff800003f80000)) (Prod.ext hcall rfl)).snoc
      ⟨⟨1, by decide, by decide⟩, rfl⟩
  have h := @freeList_isSet .zeroed uninitialised_zeroed clearMap (by decide) (by decide +kernel)
    (hpages ▸ framesClear_clearMap)
  rw [hpages, hcount] at h
  exact ⟨_, hrun, h hrun (by decide)⟩

/-- Three frames, with the array in the first of them. -/
def meetingMap : List E820 := [⟨0x4000000, 0x600000, 1⟩]

/-- The map is accepted, and the first call clears the array: one page is left on the list, and
`total_free_pages` is 2. -/
theorem alloc_page_cuts_list : (initPage meetingMap .zeroed).1 = .complete ∧
    ∃ t, Run (PageMemory.Step (initPage meetingMap .zeroed).2.pagesStruct (pageCount meetingMap))
      (PageMemory.init meetingMap (initPage meetingMap .zeroed).2.pagesStruct fun _ ↦ 0)
      [.take (some 0xffff800004000000)] t ∧
    ¬IsSet (initPage meetingMap .zeroed).2.pagesStruct (pageCount meetingMap)
      [.take (some 0xffff800004000000)] t := by
  have hpages : (initPage meetingMap .zeroed).2.pagesStruct = 0xffff800004000000 := by
    decide +kernel
  have hcall : (PageMemory.init meetingMap 0xffff800004000000 fun _ ↦ 0).allocPage.1 =
      some 0xffff800004000000 := by decide +kernel
  have hlist : (PageMemory.init meetingMap 0xffff800004000000 fun _ ↦ 0).allocPage.2.freePagesList =
      0xffff800004000018 := by decide +kernel
  have hnext : structPage.get .next
      (PageMemory.init meetingMap 0xffff800004000000 fun _ ↦ 0).allocPage.2.mem
      0xffff800004000018 = 0 := by decide +kernel
  have htwo : (PageMemory.init meetingMap 0xffff800004000000 fun _ ↦ 0).allocPage.2.totalFreePages =
      2 := by decide +kernel
  rw [hpages]
  refine ⟨by decide +kernel, _, Run.single (a := PoolCall.take (some 0xffff800004000000))
    (t := (PageMemory.init meetingMap 0xffff800004000000 fun _ ↦ 0).allocPage.2)
    (Prod.ext hcall rfl), ?_⟩
  rintro ⟨⟨l, hchain, -, htotal, -⟩, -⟩
  rw [htwo] at htotal
  match l, htotal, hchain with
  | [a, b], _, hchain =>
    obtain ⟨hhead, -, hback, hne, -⟩ := hchain
    rw [hlist] at hhead
    obtain rfl := hhead.symm
    exact hne (hback.symm.trans hnext)

end LightNight
