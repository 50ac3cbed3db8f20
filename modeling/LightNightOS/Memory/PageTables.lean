import LightNightOS.Memory.HeldHeap

/-!
# The page tables of `boot.asm`

The tables the boot loader emits, as the quadwords at their addresses, and the walk the processor
makes through them. Everything before the tables takes less than a page from `0x8000` on, so the
five `align 4096` put them at `0x9000` and the four pages behind it; what `align` fills in is `nop`,
whose lowest bit is 0.

The walk covers exactly two ranges of 1 GB, at 0 and at `PAGE_OFFSET` (`translate_eq_some_iff`).
`init_page` puts every usable frame of the map on the free list, wherever it is. So each page that
can be allocated is mapped exactly when no frame lies past the first GB (`frames_mapped_iff`); the
second case of the condition is a physical address so large that `Phy_To_Virt` wraps into the low
range.
-/

namespace LightNight

namespace BootTables

/-! ### The tables -/

/-- `pml4_table` -/
def pml4Table : ℕ := 0x9000

/-- `pdpt_table` -/
def pdptTable : ℕ := 0xA000

/-- `pdpt_table_high` -/
def pdptTableHigh : ℕ := 0xB000

/-- `pd_table` -/
def pdTable : ℕ := 0xC000

/-- `pd_table_high` -/
def pdTableHigh : ℕ := 0xD000

/-- Eight bytes of padding. -/
def padding : ℕ := 0x9090909090909090

/-- The quadword `i` of the table at an address. -/
def quadword (table i : ℕ) : ℕ :=
  if table = pml4Table then
    if i = 0 then pdptTable + 0x003
    else if i = 256 then pdptTableHigh + 0x003
    else if i < 511 then 0 else padding
  else if table = pdptTable then
    if i = 0 then pdTable + 0x003 else if i < 4 then 0 else padding
  else if table = pdptTableHigh then
    if i = 0 then pdTableHigh + 0x003 else 0
  else if table = pdTable ∨ table = pdTableHigh then i * 0x200000 + 0x083
  else 0

/-! ### The walk -/

/-- `PAGE_Present` -/
def Present (entry : ℕ) : Prop := entry.testBit 0 = true

/-- `PAGE_PS`: the entry maps a page instead of a table. -/
def IsPage (entry : ℕ) : Prop := entry.testBit 7 = true

instance (entry : ℕ) : Decidable (Present entry) := inferInstanceAs (Decidable (_ = true))

instance (entry : ℕ) : Decidable (IsPage entry) := inferInstanceAs (Decidable (_ = true))

/-- The address field of an entry, bits 12 to 51. -/
def address (entry : ℕ) : ℕ := entry % 2 ^ 52 / 2 ^ 12 * 2 ^ 12

/-- An address is canonical when bits 47 to 63 are the same. -/
def Canonical (v : ℕ) : Prop := v < 2 ^ 47 ∨ 2 ^ 64 - 2 ^ 47 ≤ v

instance (v : ℕ) : Decidable (Canonical v) := inferInstanceAs (Decidable (_ ∨ _))

/-- The walk from a page directory pointer table on. There is no table below a page directory. -/
def walkPdpt (table v : ℕ) : Option ℕ :=
  let e := quadword table (v / 2 ^ 30 % 512)
  if ¬Present e then none
  else if IsPage e then some (address e / 2 ^ 30 * 2 ^ 30 + v % 2 ^ 30)
  else
    let e := quadword (address e) (v / 2 ^ 21 % 512)
    if Present e ∧ IsPage e then some (address e / 2 ^ 21 * 2 ^ 21 + v % 2 ^ 21) else none

/-- The walk of the processor from `cr3 = pml4_table`. -/
def translate (v : ℕ) : Option ℕ :=
  if ¬Canonical v then none
  else
    let e := quadword pml4Table (v / 2 ^ 39 % 512)
    if Present e then walkPdpt (address e) v else none

/-! ### What the tables map -/

theorem quadword_pml4 (i : ℕ) : quadword pml4Table i =
    if i = 0 then 0xA003 else if i = 256 then 0xB003 else if i < 511 then 0 else padding :=
  if_pos rfl

theorem quadword_pdpt (i : ℕ) : quadword pdptTable i =
    if i = 0 then 0xC003 else if i < 4 then 0 else padding := by
  rw [quadword, if_neg (by decide), if_pos rfl]
  rfl

theorem quadword_pdptHigh (i : ℕ) : quadword pdptTableHigh i = if i = 0 then 0xD003 else 0 := by
  rw [quadword, if_neg (by decide), if_neg (by decide), if_pos rfl]
  rfl

theorem quadword_directory {table : ℕ} (ht : table = pdTable ∨ table = pdTableHigh) (i : ℕ) :
    quadword table i = i * 0x200000 + 0x083 := by
  have hne : table ≠ pml4Table ∧ table ≠ pdptTable ∧ table ≠ pdptTableHigh := by
    rcases ht with rfl | rfl <;> decide
  rw [quadword, if_neg hne.1, if_neg hne.2.1, if_neg hne.2.2, if_pos ht]

theorem not_present_zero : ¬Present 0 := by decide

theorem not_present_padding : ¬Present padding := by decide

/-- An entry of a page directory maps its 2 MB. -/
theorem directory_entry : ∀ i < 512, Present (i * 0x200000 + 0x083) ∧
    IsPage (i * 0x200000 + 0x083) ∧ address (i * 0x200000 + 0x083) = i * 0x200000 := by
  decide +kernel

/-- Both page directory pointer tables map one GB, through their first entry. -/
theorem pdpt_entry {table : ℕ} (ht : table = pdptTable ∨ table = pdptTableHigh) (i : ℕ) :
    if i = 0 then ∃ d, (d = pdTable ∨ d = pdTableHigh) ∧ quadword table i = d + 0x003
    else ¬Present (quadword table i) := by
  split
  case isTrue hi =>
    rcases ht with rfl | rfl
    · exact ⟨pdTable, Or.inl rfl, by rw [quadword_pdpt, if_pos hi]; rfl⟩
    · exact ⟨pdTableHigh, Or.inr rfl, by rw [quadword_pdptHigh, if_pos hi]; rfl⟩
  case isFalse hi =>
    rcases ht with rfl | rfl
    · rw [quadword_pdpt, if_neg hi]
      split
      exacts [not_present_zero, not_present_padding]
    · rw [quadword_pdptHigh, if_neg hi]
      exact not_present_zero

theorem walkPdpt_eq {table : ℕ} (ht : table = pdptTable ∨ table = pdptTableHigh) (v : ℕ) :
    walkPdpt table v = if v / 2 ^ 30 % 512 = 0 then some (v % 2 ^ 30) else none := by
  have hentry := pdpt_entry ht (v / 2 ^ 30 % 512)
  rw [walkPdpt]
  split at hentry
  case isFalse hi => rw [if_pos hentry, if_neg hi]
  case isTrue hi =>
    obtain ⟨d, hd, heq⟩ := hentry
    have htable : Present (d + 0x003) ∧ ¬IsPage (d + 0x003) ∧ address (d + 0x003) = d := by
      rcases hd with rfl | rfl <;> decide
    obtain ⟨hpresent, hpage, haddress⟩ :=
      directory_entry (v / 2 ^ 21 % 512) (Nat.mod_lt _ (by decide))
    have hindex := quadword_directory hd (v / 2 ^ 21 % 512)
    rw [if_pos hi]
    simp only [heq, htable, hindex, haddress, hpresent, hpage, and_self, if_true, not_true_eq_false,
      if_false, Option.some.injEq]
    omega

/-- The first and the middle entry of the top table are all that is present. -/
theorem pml4_entry (i : ℕ) : (i = 0 ∧ quadword pml4Table i = 0xA003) ∨
    (i = 256 ∧ quadword pml4Table i = 0xB003) ∨
    (i ≠ 0 ∧ i ≠ 256 ∧ ¬Present (quadword pml4Table i)) := by
  rw [quadword_pml4]
  by_cases h0 : i = 0
  · exact Or.inl ⟨h0, if_pos h0⟩
  rw [if_neg h0]
  by_cases h256 : i = 256
  · exact Or.inr (Or.inl ⟨h256, if_pos h256⟩)
  rw [if_neg h256]
  refine Or.inr (Or.inr ⟨h0, h256, ?_⟩)
  split
  exacts [not_present_zero, not_present_padding]

/-- **What the tables map**: the first GB of physical memory, at 0 and at `PAGE_OFFSET`. -/
theorem translate_eq_some_iff {v p : ℕ} (hv : v < 2 ^ 64) : translate v = some p ↔
    (v < 2 ^ 30 ∨ pageOffset ≤ v ∧ v < pageOffset + 2 ^ 30) ∧ p = v % 2 ^ 30 := by
  rw [translate, pageOffset]
  by_cases hc : Canonical v
  · rw [if_neg (not_not.2 hc)]
    rw [Canonical] at hc
    rcases pml4_entry (v / 2 ^ 39 % 512) with ⟨hi, he⟩ | ⟨hi, he⟩ | ⟨h0, h256, he⟩
    · simp only [he]
      rw [if_pos (by decide), walkPdpt_eq (Or.inl (by decide))]
      split
      · rw [Option.some.injEq, eq_comm, and_iff_right (by omega)]
      · exact iff_of_false (fun h ↦ by cases h) fun h ↦ by omega
    · simp only [he]
      rw [if_pos (by decide), walkPdpt_eq (Or.inr (by decide))]
      split
      · rw [Option.some.injEq, eq_comm, and_iff_right (by omega)]
      · exact iff_of_false (fun h ↦ by cases h) fun h ↦ by omega
    · simp only [he, if_false]
      exact iff_of_false (fun h ↦ by cases h) fun h ↦ by omega
  · rw [if_pos hc]
    rw [Canonical] at hc
    exact iff_of_false (fun h ↦ by cases h) fun h ↦ by omega

end BootTables

/-! ### The frames on the free list -/

/-- The page at a virtual address is covered by the tables: every byte `alloc_page` clears. -/
def PageMapped (v : ℕ) : Prop :=
  ∀ x ∈ Set.Ico v (v + page2MSize), ∃ p, BootTables.translate x = some p

/-- Every page on the free list is covered. -/
def FreePagesMapped (s : MemoryState) : Prop :=
  ∀ l, PageChain s.pages s.freePagesList l → ∀ i ∈ l, PageMapped (phyToVirt (s.pages i).phyAddr)

/-- The frame is in the first GB, or in the GB at `2 ^ 47`, which `Phy_To_Virt` wraps to address
0. -/
def FrameMapped (j : ℕ) : Prop := j < 2 ^ 30 ∨ 2 ^ 47 ≤ j ∧ j < 2 ^ 47 + 2 ^ 30

/-- Where a chain of descriptors ends, it is the only one. -/
theorem PageChain.unique {pages : ℕ → Page} {head : Option ℕ} {l l' : List ℕ}
    (h : PageChain pages head l) (h' : PageChain pages head l') : l = l' := by
  induction l generalizing head l' with
  | nil =>
    cases l' with
    | nil => rfl
    | cons j l' => exact absurd (h.symm.trans h'.1) nofun
  | cons i l ih =>
    cases l' with
    | nil => exact absurd (h'.symm.trans h.1) nofun
    | cons j l' =>
      obtain rfl := Option.some.inj (h.1.symm.trans h'.1)
      rw [ih h.2 h'.2]

/-- **A frame is covered** exactly if it is in one of the two GBs. -/
theorem pageMapped_iff {j : ℕ} (hj : j < 2 ^ 64) (hdvd : page2MSize ∣ j) :
    PageMapped (phyToVirt j) ↔ FrameMapped j := by
  rw [page2MSize_eq] at hdvd
  have hdef : ∀ x, x < 2 ^ 64 → ((∃ p, BootTables.translate x = some p) ↔
      (x < 2 ^ 30 ∨ pageOffset ≤ x ∧ x < pageOffset + 2 ^ 30)) := by
    intro x hx
    simp only [BootTables.translate_eq_some_iff hx, exists_and_left, exists_eq, and_true]
  rw [PageMapped, FrameMapped]
  constructor
  · intro hmapped
    have h := hmapped (phyToVirt j) ⟨le_rfl, by rw [page2MSize_eq]; omega⟩
    rw [hdef (phyToVirt j) (u64_lt _), phyToVirt, u64, pageOffset] at h
    omega
  · rintro hframe x ⟨hlo, hhi⟩
    rw [phyToVirt, u64, pageOffset] at hlo hhi
    rw [page2MSize_eq] at hhi
    rw [hdef x (by omega), pageOffset]
    omega

/-- **Which maps leave every page covered.** For every map that `init_page` finds room in, the pages
on the free list are all covered by the tables of the boot loader if and only if every frame of the
map is in the first GB, or in the one at `2 ^ 47`. -/
theorem frames_mapped_iff {s : MemoryState} (hs : Uninitialised s) {entries : List E820}
    (haccepted : (initPage entries s).1 ≠ .noRoom) :
    FreePagesMapped (initPage entries s).2 ↔ ∀ j ∈ usableFrames entries, FrameMapped j := by
  have hsupplies := (initPage_supplies hs entries).1
  rw [if_neg haccepted] at hsupplies
  obtain ⟨l, hchain, -, hmap⟩ := hsupplies
  have hframe : ∀ j ∈ usableFrames entries, PageMapped (phyToVirt j) ↔ FrameMapped j := by
    intro j hj
    obtain ⟨e, -, -, hj⟩ := mem_usableFrames.1 hj
    obtain ⟨hdvd, -, hend⟩ := E820.mem_frames.1 hj
    have htop : e.stop < 2 ^ 64 := u64_lt _
    have hsize : 0 < page2MSize := by decide
    exact pageMapped_iff (by have := e.frameEnd_le; omega) hdvd
  have hlist : FreePagesMapped (initPage entries s).2 ↔
      ∀ a ∈ (usableFrames entries).map phyToVirt, PageMapped a := by
    rw [hmap, List.forall_mem_map]
    constructor
    · exact fun h ↦ h l hchain
    · intro h l' hchain'
      rwa [← hchain.unique hchain']
  rw [hlist, List.forall_mem_map]
  exact forall₂_congr hframe

theorem frames_mapped_smallMap :
    FreePagesMapped (initPage smallMap .zeroed).2 ↔ ∀ j ∈ usableFrames smallMap, FrameMapped j :=
  frames_mapped_iff uninitialised_zeroed (by decide +kernel)

/-- 4 MB behind the first GB. -/
def highMap : List E820 := [⟨0x40000000, 0x400000, 1⟩]

/-- The map is accepted, and the tables have no entry for the page at the head of the free list. -/
theorem high_frame_unmapped :
    (initPage highMap .zeroed).1 = .complete ∧ ¬FreePagesMapped (initPage highMap .zeroed).2 := by
  refine ⟨by decide +kernel, fun hmapped ↦ ?_⟩
  have hchain : PageChain (initPage highMap .zeroed).2.pages
      (initPage highMap .zeroed).2.freePagesList [0, 1] :=
    ⟨by decide +kernel, by decide +kernel, show _ = none by decide +kernel⟩
  have hnone : BootTables.translate 0xffff800040000000 = none := by decide +kernel
  have hpage : phyToVirt ((initPage highMap .zeroed).2.pages 0).phyAddr = 0xffff800040000000 := by
    decide +kernel
  obtain ⟨p, hp⟩ := hmapped _ hchain 0 (by simp) 0xffff800040000000
    (hpage ▸ ⟨le_rfl, by decide⟩)
  exact absurd (hnone.symm.trans hp) nofun

end LightNight
