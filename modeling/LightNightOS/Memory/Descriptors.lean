import LightNightOS.Memory.PageInit
import Mathlib.Order.Interval.Set.Disjoint

/-!
# Where `init_page` puts the page descriptors

The descriptor array goes to the start of the first usable region that is long enough. Nothing else
is looked at: not the frames the region itself contributes to the free list, not the kernel image,
not the page tables of the boot loader, which the kernel goes on using.

`descriptorsApart_iff` says for which maps the placement is harmless: the descriptors fit below the
region's first 2 MB boundary and on one side of the image and of the tables.
`descriptors_overlap_bootTables` is an ordinary map of a machine with 4 GB of memory for which they
do not: the array starts at address 0 and reaches into the page tables.
-/

namespace LightNight

/-! ### What must be left alone -/

/-- The five pages from `pml4_table` to `pd_table_high`, where the boot image puts them. -/
def bootTables : Set ℕ := Set.Ico 0x9000 0xe000

/-- The memory map is one that firmware can report: at most `E820_MAX_ENTRIES` regions inside the
64-bit address space, no two of which overlap. -/
structure DisjointMap (entries : List E820) : Prop where
  length_le : entries.length ≤ 32
  bounded : ∀ e ∈ entries, e.length < 2 ^ 64 ∧ e.address + e.length ≤ 2 ^ 64
  disjoint : entries.Pairwise fun e e' ↦
    Disjoint (Set.Ico e.address (e.address + e.length))
      (Set.Ico e'.address (e'.address + e'.length))

/-- The descriptor array overlaps no frame of the free list, nothing of the kernel image
`[startCode, endBrk)`, and no active page table. -/
def DescriptorsApart (entries : List E820) (room : E820) (startCode endBrk : ℕ) : Prop :=
  (∀ j ∈ usableFrames entries,
    Disjoint (descriptorRange entries room) (Set.Ico j (j + page2MSize))) ∧
  Disjoint (descriptorRange entries room) (Set.Ico startCode endBrk) ∧
  Disjoint (descriptorRange entries room) bootTables

/-! ### Counting frames -/

theorem E820.length_frames (e : E820) :
    e.frames.length = (e.frameEnd - e.frameStart) / page2MSize := by
  obtain ⟨a, ha⟩ := e.frameStart_dvd
  have hb := e.frameEnd_eq
  rw [frames, List.length_range', ha, hb, page2MSize_eq]
  omega

/-- A region has at most as many frames as there are addresses for. -/
theorem E820.length_frames_le (e : E820) : e.frames.length ≤ 8796093022208 := by
  have hend : e.frameEnd < 2 ^ 64 := e.frameEnd_le.trans_lt (u64_lt _)
  rw [length_frames, page2MSize_eq]
  omega

/-- **The first pass counts the frames of the third**: the counter does not wrap. -/
theorem pageCount_eq {entries : List E820} (h : entries.length ≤ 32) :
    pageCount entries = (usableFrames entries).length := by
  have hfold : ∀ (l : List E820) (n : ℕ), n + l.length * 8796093022208 < 2 ^ 64 →
      l.foldl countEntry n = n + (usableFrames l).length := by
    intro l
    induction l with
    | nil => simp [usableFrames]
    | cons e l ih =>
      intro n hn
      have hle := e.length_frames_le
      rw [List.length_cons, Nat.add_mul, Nat.one_mul] at hn
      have hrest : n + e.frames.length + l.length * 8796093022208 < 2 ^ 64 := by omega
      have hskip : n + l.length * 8796093022208 < 2 ^ 64 :=
        (Nat.add_le_add_right (Nat.le_add_right n _) _).trans_lt hrest
      rw [List.foldl_cons, countEntry, usableFrames_cons]
      by_cases hu : e.Usable
      · have hcount : (if e.frameEnd ≤ e.frameStart then n
            else u64 (n + (e.frameEnd - e.frameStart) >>> page2MShift)) =
              n + e.frames.length := by
          rw [E820.length_frames] at hle ⊢
          split
          case isTrue hlt =>
            rw [Nat.sub_eq_zero_of_le hlt, Nat.zero_div, Nat.add_zero]
          case isFalse =>
            rw [Nat.shiftRight_eq_div_pow]
            exact u64_of_lt (by rw [page2MSize] at hle; omega)
        rw [if_neg (not_not.2 hu), hcount, ih _ hrest, if_pos hu, List.length_append, Nat.add_assoc]
      · rw [if_pos hu, ih n hskip, if_neg hu, List.nil_append]
  have hbound : entries.length * 8796093022208 < 2 ^ 64 := by omega
  have hcount := hfold entries 0 ((Nat.zero_add _).trans_lt hbound)
  rwa [Nat.zero_add] at hcount

/-- So a map of 32 regions has fewer than `2 ^ 48` of them. -/
theorem length_usableFrames_le {entries : List E820} (h : entries.length ≤ 32) :
    (usableFrames entries).length ≤ 2 ^ 48 := by
  have hle : ∀ l : List E820, (usableFrames l).length ≤ l.length * 8796093022208 := by
    intro l
    induction l with
    | nil => simp [usableFrames]
    | cons e l ih =>
      have he := e.length_frames_le
      rw [List.length_cons, Nat.add_mul, Nat.one_mul, usableFrames_cons, List.length_append]
      split
      case isTrue => omega
      case isFalse =>
        rw [List.length_nil]
        omega
  have htop : entries.length * 8796093022208 ≤ 2 ^ 48 := by omega
  exact (hle entries).trans htop

/-- What the second pass finds: a usable region of the map that is long enough. -/
theorem findRoom_spec {entries : List E820} (hmap : DisjointMap entries) {room : E820}
    (hroom : findRoom (pageCount entries) entries = some room) :
    room ∈ entries ∧ room.Usable ∧ pageCount entries * sizeofPage ≤ room.length := by
  have hmem := List.mem_of_find?_eq_some hroom
  have hfound := List.find?_some hroom
  simp only [decide_eq_true_eq] at hfound
  obtain ⟨hu, hle⟩ := hfound
  obtain ⟨hlength, hbound⟩ := hmap.bounded room hmem
  refine ⟨hmem, hu, ?_⟩
  have hcount : pageCount entries ≤ 2 ^ 48 := by
    rw [pageCount_eq hmap.length_le]
    exact length_usableFrames_le hmap.length_le
  have hsize : u64 (pageCount entries * sizeofPage) = pageCount entries * sizeofPage :=
    u64_of_lt (by rw [sizeofPage]; omega)
  have hstop : u64 (room.stop + (2 ^ 64 - room.address)) = room.length := by
    rw [E820.stop, u64, u64]
    omega
  rwa [hsize, hstop] at hle

/-! ### The exact condition

Where the descriptors do not fit below the first 2 MB boundary of their region they lie in a frame
of the region, which is listed. A region that starts in the last 2 MB below `2 ^ 64`, where rounding
up wraps, has to be excluded as well, unless it ends there (`NoWrap`). -/

/-- `PAGE_2M_ALIGN(address)` does not wrap, or the region ends at the top of the address space, so
that its end wraps to 0 as well and it has no frame. -/
def E820.NoWrap (e : E820) : Prop :=
  e.address + page2MSize ≤ 2 ^ 64 ∨ e.address + e.length = 2 ^ 64

instance (e : E820) : Decidable e.NoWrap := inferInstanceAs (Decidable (_ ∨ _))

/-- The descriptors of all frames fit below the first 2 MB boundary of the region, and on one side
of the kernel image and of the page tables. -/
structure DescriptorsFit (entries : List E820) (room : E820) (startCode endBrk : ℕ) : Prop where
  noWrap : ∀ e ∈ entries, e.Usable → e.NoWrap
  frames : room.frames = [] ∨
    room.address + (usableFrames entries).length * sizeofPage ≤ room.frameStart
  image : endBrk ≤ startCode ∨
    room.address + (usableFrames entries).length * sizeofPage ≤ startCode ∨ endBrk ≤ room.address
  tables : room.address + (usableFrames entries).length * sizeofPage ≤ 0x9000 ∨
    0xe000 ≤ room.address

namespace E820

/-- The frames of a region lie inside it, when nothing wraps. -/
theorem frame_bounds {e : E820} (hwrap : e.NoWrap) {j : ℕ} (hj : j ∈ e.frames) :
    e.address ≤ e.frameStart ∧ e.frameStart ≤ j ∧ j + page2MSize ≤ e.address + e.length := by
  obtain ⟨-, hlo, hhi⟩ := mem_frames.1 hj
  have hpos : 0 < page2MSize := by decide
  have hstop : e.stop ≤ e.address + e.length := Nat.mod_le _ _
  have hend := e.frameEnd_le
  refine ⟨?_, hlo, by omega⟩
  rcases hwrap with hwrap | htop
  · rw [frameStart, page2MAlign_eq hwrap, page2MSize_eq]
    omega
  · have hzero : e.stop = 0 := by
      rw [stop, htop]
      rfl
    omega

/-- A region whose start wraps gives out frames everywhere. -/
theorem frames_of_wrap {e : E820} (hbound : e.address + e.length ≤ 2 ^ 64) (hwrap : ¬e.NoWrap) :
    e.frameStart = 0 ∧ e.frameEnd = 2 ^ 64 - page2MSize := by
  obtain ⟨hwrap, htop⟩ := not_or.1 hwrap
  have hend : e.frameEnd = 2 ^ 64 - page2MSize := by
    have hstop : e.stop = e.address + e.length := u64_of_lt (by omega)
    rw [frameEnd_eq, hstop, page2MSize_eq]
    rw [page2MSize_eq] at hwrap
    omega
  refine ⟨?_, hend⟩
  rw [frameStart, page2MAlign, page2MMask, and_lowMask (u64_lt _) (by decide)]
  have hsmall : u64 (u64 (e.address + page2MSize) + (2 ^ 64 - 1)) < page2MSize := by
    rw [page2MSize_eq] at hwrap ⊢
    simp only [u64]
    omega
  rw [Nat.div_eq_of_lt (show _ < 2 ^ page2MShift from hsmall), Nat.zero_mul]

end E820

theorem length_frames_le_usableFrames {entries : List E820} {e : E820} (he : e ∈ entries)
    (hu : e.Usable) : e.frames.length ≤ (usableFrames entries).length := by
  obtain ⟨l₁, l₂, rfl⟩ := List.append_of_mem he
  have hsplit : usableFrames (l₁ ++ e :: l₂) =
      usableFrames l₁ ++ (e.frames ++ usableFrames l₂) := by
    simp [usableFrames, hu]
  rw [hsplit, List.length_append, List.length_append]
  omega

variable {entries : List E820} {room : E820} {startCode endBrk : ℕ}

/-- A region whose start wraps has a frame at the descriptors. -/
theorem noWrap_of_apart (hmap : DisjointMap entries)
    (hroom : findRoom (pageCount entries) entries = some room)
    (hapart : DescriptorsApart entries room startCode endBrk) {e : E820} (he : e ∈ entries)
    (hu : e.Usable) : e.NoWrap := by
  by_contra hwrap
  obtain ⟨hmem, -, hlength⟩ := findRoom_spec hmap hroom
  obtain ⟨hstart, hend⟩ := E820.frames_of_wrap (hmap.bounded e he).2 hwrap
  have hbound := (hmap.bounded room hmem).2
  have hframes : e.frames.length = 8796093022207 := by
    rw [E820.length_frames, hstart, hend, page2MSize_eq]
    norm_num
  have hcount : e.frames.length ≤ pageCount entries := by
    rw [pageCount_eq hmap.length_le]
    exact length_frames_le_usableFrames he hu
  rw [sizeofPage] at hlength
  have hj : room.address / page2MSize * page2MSize ∈ e.frames := by
    refine E820.mem_frames.2 ⟨Nat.dvd_mul_left _ _, by omega, ?_⟩
    rw [hend, page2MSize_eq]
    omega
  have hframe := hapart.1 _ (mem_usableFrames.2 ⟨e, he, hu, hj⟩)
  have hin : room.address ∈ descriptorRange entries room := by
    rw [descriptorRange, sizeofPage]
    exact ⟨le_rfl, by omega⟩
  refine Set.disjoint_left.1 hframe hin ?_
  rw [page2MSize_eq]
  exact ⟨by omega, by omega⟩

/-- **Where the descriptors are harmless.** On a map of disjoint regions in which `init_page` finds
room, the descriptor array is apart from the frames, the kernel image and the boot page tables
exactly if there is no frame, or the descriptors fit. -/
theorem descriptorsApart_iff (hmap : DisjointMap entries)
    (hroom : findRoom (pageCount entries) entries = some room) (startCode endBrk : ℕ) :
    DescriptorsApart entries room startCode endBrk ↔
      usableFrames entries = [] ∨ DescriptorsFit entries room startCode endBrk := by
  obtain ⟨hmem, hu, hlength⟩ := findRoom_spec hmap hroom
  rw [pageCount_eq hmap.length_le] at hlength
  have hrange : descriptorRange entries room =
      Set.Ico room.address (room.address + (usableFrames entries).length * sizeofPage) := by
    rw [descriptorRange, pageCount_eq hmap.length_le]
  constructor
  · intro hapart
    by_cases hnil : usableFrames entries = []
    · exact Or.inl hnil
    have hpos : 0 < (usableFrames entries).length * sizeofPage :=
      Nat.mul_pos (List.length_pos_of_ne_nil hnil) (by decide)
    have hnoWrap : ∀ e ∈ entries, e.Usable → e.NoWrap := fun e he hu ↦
      noWrap_of_apart hmap hroom hapart he hu
    obtain ⟨hframes, himage, htables⟩ := hapart
    rw [hrange] at hframes himage htables
    refine Or.inr ⟨hnoWrap, ?_, ?_, ?_⟩
    · by_contra hno
      obtain ⟨hne, hover⟩ := not_or.1 hno
      obtain ⟨j, hj⟩ := List.exists_mem_of_ne_nil _ hne
      obtain ⟨hlo, -, -⟩ := E820.frame_bounds (hnoWrap room hmem hu) hj
      have hfirst : room.frameStart ∈ room.frames := by
        obtain ⟨-, hle, hhi⟩ := E820.mem_frames.1 hj
        exact E820.mem_frames.2 ⟨room.frameStart_dvd, le_rfl, by omega⟩
      have hdisjoint := hframes _ (mem_usableFrames.2 ⟨room, hmem, hu, hfirst⟩)
      have hin : room.frameStart ∈ Set.Ico room.frameStart (room.frameStart + page2MSize) :=
        ⟨le_rfl, by rw [page2MSize_eq]; omega⟩
      exact Set.disjoint_left.1 hdisjoint ⟨hlo, by omega⟩ hin
    · rw [Set.Ico_disjoint_Ico] at himage
      omega
    · rw [bootTables, Set.Ico_disjoint_Ico] at htables
      omega
  · rintro (hnil | hfit)
    · rw [DescriptorsApart, hrange, hnil, List.length_nil, Nat.zero_mul, Nat.add_zero, Set.Ico_self]
      exact ⟨fun _ _ ↦ Set.empty_disjoint _, Set.empty_disjoint _, Set.empty_disjoint _⟩
    rw [DescriptorsApart, hrange]
    refine ⟨fun j hj ↦ ?_, ?_, ?_⟩
    · obtain ⟨e, he, hue, hj⟩ := mem_usableFrames.1 hj
      obtain ⟨haddr, hlo, hhi⟩ := E820.frame_bounds (hfit.noWrap e he hue) hj
      by_cases hroomEq : room = e
      · subst hroomEq
        have hbelow := hfit.frames.resolve_left (List.ne_nil_of_mem hj)
        rw [Set.Ico_disjoint_Ico]
        omega
      · have : Std.Symm fun e e' : E820 ↦ Disjoint (Set.Ico e.address (e.address + e.length))
            (Set.Ico e'.address (e'.address + e'.length)) := ⟨fun _ _ h ↦ h.symm⟩
        have hapart := hmap.disjoint.forall hmem he hroomEq
        exact Set.disjoint_of_subset (Set.Ico_subset_Ico_right (by omega))
          (Set.Ico_subset_Ico (haddr.trans hlo) hhi) hapart
    · have himage := hfit.image
      rw [Set.Ico_disjoint_Ico]
      omega
    · have htables := hfit.tables
      rw [bootTables, Set.Ico_disjoint_Ico]
      omega

/-! ### Two maps -/

/-- Regions that lie apart do not overlap. -/
theorem disjointMap_of_apart {entries : List E820} (hlength : entries.length ≤ 32)
    (hbounded : ∀ e ∈ entries, e.length < 2 ^ 64 ∧ e.address + e.length ≤ 2 ^ 64)
    (hapart : entries.Pairwise fun e e' ↦
      e.address + e.length ≤ e'.address ∨ e'.address + e'.length ≤ e.address) :
    DisjointMap entries :=
  ⟨hlength, hbounded, hapart.imp fun h ↦ Set.Ico_disjoint_Ico.2 (by omega)⟩

/-- The low memory below the BIOS data area. -/
def lowMemory : E820 := ⟨0, 0x9fc00, 1⟩

/-- The map of a machine with 128 MB. -/
def smallMachine : List E820 := [lowMemory, ⟨0x9fc00, 0x60400, 2⟩, ⟨0x100000, 0x7f00000, 1⟩]

/-- The map of a machine with 4 GB, 3 of them below the device window. -/
def largeMachine : List E820 :=
  [lowMemory, ⟨0x9fc00, 0x60400, 2⟩, ⟨0x100000, 0xbfee0000, 1⟩, ⟨0xbffe0000, 0x40020000, 2⟩,
    ⟨0x100000000, 0x40000000, 1⟩]

/-- On the small machine the descriptors take the first 1512 bytes of memory. -/
theorem descriptorsApart_smallMachine :
    DescriptorsApart smallMachine lowMemory 0x100000 0x140000 ↔
      usableFrames smallMachine = [] ∨
        DescriptorsFit smallMachine lowMemory 0x100000 0x140000 :=
  descriptorsApart_iff (disjointMap_of_apart (by decide) (by decide) (by decide))
    (by decide +kernel) 0x100000 0x140000

/-- **Descriptors over the page tables.** With 4 GB the descriptors take the first 49104 bytes,
which reach from address 0 into the page tables of the boot loader. -/
theorem descriptors_overlap_bootTables :
    DisjointMap largeMachine ∧
      findRoom (pageCount largeMachine) largeMachine = some lowMemory ∧
      ¬DescriptorsApart largeMachine lowMemory 0x100000 0x140000 := by
  refine ⟨disjointMap_of_apart (by decide) (by decide) (by decide), by decide +kernel, ?_⟩
  rintro ⟨-, -, htables⟩
  have hcount : pageCount largeMachine = 2046 := by decide +kernel
  rw [descriptorRange, bootTables, hcount, Set.Ico_disjoint_Ico] at htables
  exact absurd htables (by decide)

end LightNight
