import LightNightOS.Memory.FrameList
import LightNightOS.Memory.FreeList
import LightNightOS.Memory.Regions

/-!
# The descriptors in memory and apart from it

`malloc` is modelled on a state that keeps the page descriptors beside the byte memory
(`MemoryState`), the free list on the bytes of the descriptors (`PageMemory`). Where no frame meets
the array the two are the same thing: `Mirrors` relates them, `init_page` makes them so
(`initPage_mirrors`), and `alloc_page` and every write beside the array keep them so, in any order
(`pages_mirrored`). What `malloc` itself writes are headers in the frames. A sound map has its
frames beside the array (`SoundMap.framesClear`).

Where the array lies in a frame the two are not the same: `alloc_page` clears the bytes of the
descriptors with the frame (`alloc_page_cuts_list`), and the descriptors that are apart from memory
stay.
-/

namespace LightNight

open Transition

/-! ### The two states -/

/-- The bytes of the descriptor array. -/
def pageArray (pages n : ℕ) : Set ℕ := Set.Ico pages (structPage.element pages n)

/-- The memory holds what the state keeps beside it, and elsewhere the two memories are equal. The
free list goes through the array, and no frame meets it. -/
structure Mirrors (pages n : ℕ) (s : MemoryState) (t : PageMemory) : Prop where
  head : t.freePagesList = pagePointer pages s.freePagesList
  total : t.totalFreePages = s.totalFreePages
  holds : ∀ i < n, HoldsPage pages t.mem i (s.pages i)
  beside : Set.EqOn t.mem s.mem (pageArray pages n)ᶜ
  list : ∃ l, PageChain s.pages s.freePagesList l ∧ l.Nodup ∧ ∀ i ∈ l, i < n
  clear : ∀ i < n, Disjoint (pageArray pages n)
    (Set.Ico (phyToVirt (s.pages i).phyAddr) (phyToVirt (s.pages i).phyAddr + page2MSize))

/-- What is done to the pages: `alloc_page` is called, or a byte is written. -/
inductive PageCall
  | alloc (page : Option ℕ)
  | write (a : ℕ) (c : UInt8)
  deriving DecidableEq, Repr

/-- A call, with the descriptors apart from memory. -/
def MemoryState.PageStep (s : MemoryState) : PageCall → MemoryState → Prop
  | .alloc none, t => s.allocPage = none ∧ t = s
  | .alloc (some page), t => s.allocPage = some (page, t)
  | .write a c, t => t = { s with mem := Function.update s.mem a c }

/-- The same call, with the descriptors in memory. -/
def PageMemory.PageStep (pages : ℕ) (s : PageMemory) : PageCall → PageMemory → Prop
  | .alloc page, t => s.allocPage = (page.map (structPage.element pages), t)
  | .write a c, t => t = { s with mem := Function.update s.mem a c }

/-- The condition on a call: only bytes beside the array are written. -/
def WritesBeside (pages n : ℕ) (_ : MemoryState) : PageCall → Prop
  | .alloc _ => True
  | .write a _ => a ∉ pageArray pages n

/-! ### One call

A write keeps the relation if it changes no byte of a descriptor. `alloc_page` changes fields of the
first descriptor and clears its frame; on the other side the same fields are assigned. -/

section Mirrors

variable {pages n i k : ℕ} {s s' : MemoryState} {t : PageMemory} {m m' : ByteMemory}

theorem bytes_subset_pageArray (hi : i < n) :
    structPage.bytes (structPage.element pages i) ⊆ pageArray pages n :=
  structPage.bytes_element_subset hi

/-- A descriptor depends on the bytes of the array. -/
theorem HoldsPage.congr {p : Page} (h : HoldsPage pages m i p) (hi : i < n)
    (hm : Set.EqOn m' m (pageArray pages n)) : HoldsPage pages m' i p := by
  have hbytes := hm.mono (bytes_subset_pageArray hi)
  refine ⟨?_, ?_, ?_⟩ <;> rw [structPage.get_congr hbytes]
  exacts [h.phyAddr, h.refCount, h.next]

/-- **A write beside the array.** -/
theorem Mirrors.write (h : Mirrors pages n s t) {a : ℕ} (ha : a ∉ pageArray pages n) (c : UInt8) :
    Mirrors pages n { s with mem := Function.update s.mem a c }
      { t with mem := Function.update t.mem a c } where
  head := h.head
  total := h.total
  holds i hi := by
    refine (h.holds i hi).congr hi fun x hx ↦ Function.update_of_ne ?_ _ _
    rintro rfl
    exact ha hx
  beside x hx := by
    dsimp only
    by_cases heq : x = a
    · rw [heq, Function.update_self, Function.update_self]
    · rw [Function.update_of_ne heq, Function.update_of_ne heq]
      exact h.beside hx
  list := h.list
  clear := h.clear

/-- The descriptors after the writes of `alloc_page`. -/
theorem Mirrors.holds_allocWrites (h : Mirrors pages n s t) (hi : i < n) (hk : k < n) :
    HoldsPage pages (PageMemory.allocWrites t.mem (structPage.element pages i)) k
      (Function.update s.pages i { s.pages i with next := none, refCount := 1 } k) := by
  have hpos : 0 < structPage.size := by decide
  have hsize : 0 < page2MSize := by decide
  have hclear := Set.Ico_disjoint_Ico.1 (h.clear i hi)
  have hlt := structPage.element_lt (a := pages) hi
  have hle : pages ≤ structPage.element pages i := Nat.le_add_right _ _
  have hget : ∀ f, structPage.get f (PageMemory.allocWrites t.mem (structPage.element pages i))
      (structPage.element pages k) =
        if k = i ∧ f = .refCount then 1 else if k = i ∧ f = .next then 0
        else structPage.get f t.mem (structPage.element pages k) := by
    intro f
    rw [PageMemory.get_allocWrites ⟨i, hi, rfl⟩ ⟨k, hk, rfl⟩
      (by rw [(h.holds i hi).phyAddr]; omega)]
    simp only [structPage.element_inj hpos]
  by_cases hki : k = i
  · subst hki
    rw [Function.update_self]
    refine ⟨?_, ?_, ?_⟩
    · rw [hget, if_neg (by simp), if_neg (by simp)]
      exact (h.holds k hk).phyAddr
    · rw [hget, if_pos ⟨rfl, rfl⟩]
    · rw [hget, if_neg (by simp), if_pos ⟨rfl, rfl⟩]
      rfl
  · rw [Function.update_of_ne hki]
    refine ⟨?_, ?_, ?_⟩ <;> rw [hget, if_neg fun h ↦ hki h.1, if_neg fun h ↦ hki h.1]
    exacts [(h.holds k hk).phyAddr, (h.holds k hk).refCount, (h.holds k hk).next]

/-- The writes of `alloc_page` beside the array: the frame is cleared. -/
theorem Mirrors.beside_allocWrites (h : Mirrors pages n s t) (hi : i < n) :
    Set.EqOn (PageMemory.allocWrites t.mem (structPage.element pages i))
      (s.mem.fill (phyToVirt (s.pages i).phyAddr) page2MSize 0) (pageArray pages n)ᶜ := by
  intro x hx
  have hbytes : x ∉ structPage.bytes (structPage.element pages i) :=
    fun hmem ↦ hx (bytes_subset_pageArray hi hmem)
  have hphy : structPage.get .phyAddr
      (structPage.set .refCount (structPage.set .next t.mem (structPage.element pages i) 0)
        (structPage.element pages i) 1) (structPage.element pages i) = (s.pages i).phyAddr := by
    rw [structPage.get_set_of_ne (by decide), structPage.get_set_of_ne (by decide)]
    exact (h.holds i hi).phyAddr
  rw [PageMemory.allocWrites, hphy]
  by_cases hframe : x ∈ Set.Ico (phyToVirt (s.pages i).phyAddr)
      (phyToVirt (s.pages i).phyAddr + page2MSize)
  · rw [ByteMemory.fill_of_mem hframe, ByteMemory.fill_of_mem hframe]
  · rw [ByteMemory.fill_of_notMem hframe, ByteMemory.fill_of_notMem hframe,
      structPage.set_eqOn hbytes, structPage.set_eqOn hbytes]
    exact h.beside hx

/-- `alloc_page` without a page. -/
theorem Mirrors.alloc_none (h : Mirrors pages n s t) (halloc : s.allocPage = none) :
    t.allocPage = (none, t) := by
  have hlist : s.freePagesList = none := by
    rw [MemoryState.allocPage] at halloc
    split at halloc
    case h_1 heq => exact heq
    case h_2 => cases halloc
  exact if_pos (h.head.trans (congrArg (pagePointer pages) hlist))

/-- **`alloc_page` with a page**: both hand out the same one. -/
theorem Mirrors.alloc_some (h : Mirrors pages n s t) (hpages : pages ≠ 0)
    (halloc : s.allocPage = some (i, s')) :
    ∃ t', t.allocPage = (some (structPage.element pages i), t') ∧ Mirrors pages n s' t' := by
  rw [MemoryState.allocPage] at halloc
  split at halloc
  case h_1 => cases halloc
  case h_2 page hlist =>
    obtain ⟨rfl, rfl⟩ := Prod.mk.inj (Option.some.inj halloc)
    obtain ⟨l, hchain, hnodup, hmem⟩ := h.list
    rw [hlist] at hchain
    cases l with
    | nil => exact absurd hchain (Option.some_ne_none page)
    | cons i l =>
      obtain ⟨hi, hchain⟩ := hchain
      obtain rfl := Option.some.inj hi
      obtain ⟨hout, hnodup⟩ := List.nodup_cons.1 hnodup
      have hi := hmem page List.mem_cons_self
      have hhead : t.freePagesList = structPage.element pages page := by
        rw [h.head, hlist, pagePointer]
      have hne : structPage.element pages page ≠ 0 := by
        have hle : pages ≤ structPage.element pages page := Nat.le_add_right _ _
        omega
      refine ⟨⟨PageMemory.allocWrites t.mem (structPage.element pages page),
        structPage.get .next t.mem (structPage.element pages page),
        u64 (t.totalFreePages + (2 ^ 64 - 1))⟩, ?_, ?_⟩
      · rw [PageMemory.allocPage, hhead, if_neg hne]
      refine ⟨(h.holds page hi).next, ?_, fun k hk ↦ ?_, ?_,
        ⟨l, ?_, hnodup, fun k hk ↦ hmem k (List.mem_cons_of_mem page hk)⟩, fun k hk ↦ ?_⟩
      · rw [h.total]
      · dsimp only
        exact h.holds_allocWrites hi hk
      · dsimp only
        exact h.beside_allocWrites hi
      · refine hchain.congr fun k hk ↦ ?_
        have hne : k ≠ page := by
          rintro rfl
          exact hout hk
        dsimp only
        rw [Function.update_of_ne hne]
      · have hphy : (Function.update s.pages page { s.pages page with next := none, refCount := 1 }
            k).phyAddr = (s.pages k).phyAddr := by
          by_cases hkp : k = page
          · rw [hkp, Function.update_self]
          · rw [Function.update_of_ne hkp]
        dsimp only
        rw [hphy]
        exact h.clear k hk

/-- **One call** of the state that keeps the descriptors apart is the same call on the memory. -/
theorem Mirrors.step (h : Mirrors pages n s t) (hpages : pages ≠ 0) {call : PageCall}
    (hbeside : WritesBeside pages n s call) (hstep : s.PageStep call s') :
    ∃ t', t.PageStep pages call t' ∧ Mirrors pages n s' t' := by
  cases call with
  | alloc page =>
    cases page with
    | none =>
      obtain ⟨halloc, rfl⟩ := hstep
      exact ⟨t, h.alloc_none halloc, h⟩
    | some page => exact h.alloc_some hpages hstep
  | write a c =>
    obtain rfl : s' = _ := hstep
    exact ⟨_, rfl, h.write hbeside c⟩

end Mirrors

/-! ### From `init_page` on

Both embeddings of `init_page` go through the map entry by entry, and have written the same
descriptors after each of them. -/

section Init

variable {pages n : ℕ} {entries : List E820} {s s' : MemoryState}

/-- The third pass writes in the array alone. -/
theorem FillMemory.foldl_addFrame_eqOn {st : FillMemory} {l : List ℕ}
    (hcurrent : st.freePagesList = 0 ∨ ∃ k < st.pageIndex, st.current = structPage.element pages k)
    (hroom : st.pageIndex + l.length ≤ n) :
    Set.EqOn (l.foldl (FillMemory.addFrame pages) st).mem st.mem (pageArray pages n)ᶜ := by
  induction l generalizing st with
  | nil => exact fun _ _ ↦ rfl
  | cons j l ih =>
    rw [List.length_cons] at hroom
    refine (ih (Or.inr ⟨st.pageIndex, Nat.lt_succ_self _, rfl⟩) ?_).trans fun x hx ↦ ?_
    · have hindex : (st.addFrame pages j).pageIndex = st.pageIndex + 1 := rfl
      omega
    have hbeside : ∀ k < n, x ∉ structPage.bytes (structPage.element pages k) :=
      fun k hk hmem ↦ hx (bytes_subset_pageArray hk hmem)
    have hnew := hbeside st.pageIndex (by omega)
    rw [FillMemory.addFrame]
    dsimp only
    split
    case isTrue =>
      rw [structPage.set_eqOn hnew, structPage.set_eqOn hnew, structPage.set_eqOn hnew]
    case isFalse hne =>
      obtain ⟨k, hk, hlast⟩ := hcurrent.resolve_left hne
      rw [hlast, structPage.set_eqOn (hbeside k (by omega)), structPage.set_eqOn hnew,
        structPage.set_eqOn hnew, structPage.set_eqOn hnew]

/-- `init_page` leaves the memory beside the array alone. -/
theorem initPage_mem (entries : List E820) (s : MemoryState) :
    (initPage entries s).2.mem = s.mem := by
  rw [initPage]
  split
  case h_1 => rfl
  case h_2 room _ =>
    simp only
    split
    case isTrue => rfl
    case isFalse =>
      split
      · rfl
      split
      · rfl
      split <;> rfl

/-- **After `init_page`** the memory holds the descriptors. -/
theorem initPage_mirrors (hs : Uninitialised s) (hentries : entries.length ≤ 32)
    (hcomplete : (initPage entries s).1 = .complete)
    (hclear : FramesClear entries (initPage entries s).2.pagesStruct) :
    Mirrors (initPage entries s).2.pagesStruct (pageCount entries) (initPage entries s).2
      (PageMemory.init entries (initPage entries s).2.pagesStruct s.mem) := by
  have hpages := pagesStruct_ne_zero hs hcomplete
  have hroom : (initPage entries s).1 ≠ .noRoom := by rw [hcomplete]; decide
  obtain ⟨harray, hlist, htotal⟩ := initPage_pass hs hroom
  have hmem := initPage_mem entries s
  rw [passStart, hs.freePagesList, hs.totalFreePages] at harray hlist htotal
  generalize (initPage entries s).2.pagesStruct = pages at *
  have hcount := pageCount_eq hentries
  have hfills := fills_init hentries hpages hclear s.mem
    fun i ↦ if i < pageCount entries then ⟨0, 0, none⟩ else s.pages i
  have hfilled :=
    filled_entries (fun i ↦ if i < pageCount entries then ⟨0, 0, none⟩ else s.pages i) entries
  have hwrites : Set.EqOn (entries.foldl (FillMemory.addEntry pages)
      ⟨s.mem.fill pages (pageCount entries * sizeofPage) 0, 0, 0, 0, 0⟩).mem s.mem
      (pageArray pages (pageCount entries))ᶜ := by
    intro x hx
    rw [foldl_addEntry_memory,
      FillMemory.foldl_addFrame_eqOn (n := pageCount entries) (Or.inl rfl) (by simp [hcount]) hx]
    exact ByteMemory.fill_of_notMem hx
  refine ⟨?_, ?_, fun i hi ↦ ?_, ?_,
    ⟨List.range (usableFrames entries).length, ?_, List.nodup_range, ?_⟩,
    fun i hi ↦ ?_⟩
  · rw [hlist]
    exact hfills.head
  · rw [htotal]
    exact hfills.total
  · rw [harray]
    exact hfills.holds i (by rw [hfilled.index]; exact hcount ▸ hi)
  · rw [hmem]
    exact hwrites
  · rw [harray, hlist]
    exact hfilled.chain
  · exact fun i hi ↦ hcount ▸ List.mem_range.1 hi
  · rw [harray, hfilled.phyAddr i (hcount ▸ hi)]
    exact hclear.clear _ (List.getElem_mem _)

/-- **The descriptors may be kept apart from memory.** On a map whose frames do not meet the array:
whatever is done to the pages after `init_page`, in any order, is done in the same way with the
descriptors in memory, and the two states stay the same. -/
theorem pages_mirrored (hs : Uninitialised s) (hentries : entries.length ≤ 32)
    (hcomplete : (initPage entries s).1 = .complete)
    (hclear : FramesClear entries (initPage entries s).2.pagesStruct) {calls : List PageCall}
    (hrun : Run (Guarded (WritesBeside (initPage entries s).2.pagesStruct (pageCount entries))
      MemoryState.PageStep) (initPage entries s).2 calls s') :
    ∃ t, Run (PageMemory.PageStep (initPage entries s).2.pagesStruct)
      (PageMemory.init entries (initPage entries s).2.pagesStruct s.mem) calls t ∧
      Mirrors (initPage entries s).2.pagesStruct (pageCount entries) s' t :=
  hrun.simulates (PageMemory.PageStep (initPage entries s).2.pagesStruct)
    (R := fun _ ↦ Mirrors (initPage entries s).2.pagesStruct (pageCount entries))
    (fun _ h hstep ↦ h.step (pagesStruct_ne_zero hs hcomplete) hstep.1 hstep.2)
    (initPage_mirrors hs hentries hcomplete hclear) le_rfl

/-- The frames of a sound map do not meet the array, if neither of its ends wraps. -/
theorem SoundMap.framesClear (hmap : SoundMap entries) {room : E820}
    (hroom : room ∈ findRoom (pageCount entries) entries)
    (hphy : room.address + pageCount entries * sizeofPage ≤ 2 ^ 64)
    (hvirt : phyToVirt room.address + pageCount entries * sizeofPage ≤ 2 ^ 64) :
    FramesClear entries (phyToVirt room.address) := by
  have helement : structPage.element (phyToVirt room.address) (pageCount entries) =
      phyToVirt room.address + pageCount entries * sizeofPage := by
    rw [RecordLayout.element, show structPage.size = sizeofPage from rfl]
  refine ⟨helement ▸ hvirt, fun j hj ↦ ?_⟩
  have hdisjoint := hmap.descriptors room hroom j hj
  have hframe := usableFrames_add_le hj
  obtain ⟨c, rfl⟩ := usableFrames_dvd hj
  rw [descriptorRange, Set.Ico_disjoint_Ico] at hdisjoint
  rw [Set.Ico_disjoint_Ico, helement]
  generalize pageCount entries * sizeofPage = length at *
  rw [page2MSize_eq] at hdisjoint hframe ⊢
  simp only [phyToVirt, u64, pageOffset] at hvirt ⊢
  omega

end Init

end LightNight
