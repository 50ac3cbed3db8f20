import LightNightOS.Memory.FrameList
import Mathlib.Data.Nat.ModEq

/-!
# Looking up the descriptor of a frame

`Phy_to_2M_Page` and `Virt_To_2M_Page` take the number of a frame for the index of its descriptor.
But `init_page` fills the descriptors one behind the other over the usable regions. The two agree
exactly if the frames of the table are numbered without a hole, from frame 0 on (`lookup_iff`): each
usable region that holds a frame starts where the one before it ends (`Seamless`).

The macros divide a physical address by the size of a frame. On a PC the first 2 MB are no frame of
any region, so that frame 0 is not in the table and the lookups are off by one
(`lookup_misses_smallMachine`).
-/

namespace LightNight

/-! ### The macros -/

/-- `Virt_To_Phy` -/
def virtToPhy (addr : ℕ) : ℕ := u64 (addr + (2 ^ 64 - pageOffset))

namespace MemoryState

/-- The address of descriptor `i`: `pages_struct + i`. -/
def pageAt (s : MemoryState) (i : ℕ) : ℕ := u64 (s.pagesStruct + i * sizeofPage)

/-- `Phy_to_2M_Page` -/
def phyTo2MPage (s : MemoryState) (addr : ℕ) : ℕ := s.pageAt (addr >>> page2MShift)

/-- `Virt_To_2M_Page` -/
def virtTo2MPage (s : MemoryState) (addr : ℕ) : ℕ := s.pageAt (virtToPhy addr >>> page2MShift)

end MemoryState

/-- Both lookups find descriptor `i`. -/
def MemoryState.LooksUp (s : MemoryState) (i : ℕ) : Prop :=
  s.phyTo2MPage (s.pages i).phyAddr = s.pageAt i ∧
    s.virtTo2MPage (phyToVirt (s.pages i).phyAddr) = s.pageAt i

instance (s : MemoryState) : DecidablePred s.LooksUp := fun _ ↦ inferInstanceAs (Decidable (_ ∧ _))

/-- From the address `cursor` on, the usable regions that hold a frame follow each other without a
hole. -/
def Seamless : ℕ → List E820 → Prop
  | _, [] => True
  | cursor, e :: entries =>
    if e.Usable ∧ e.frameStart < e.frameEnd then e.frameStart = cursor ∧ Seamless e.frameEnd entries
    else Seamless cursor entries

/-- Whether they do can be computed. -/
def decidableSeamless : ∀ cursor entries, Decidable (Seamless cursor entries)
  | _, [] => isTrue trivial
  | cursor, e :: entries =>
    have := decidableSeamless cursor entries
    have := decidableSeamless e.frameEnd entries
    inferInstanceAs (Decidable (if e.Usable ∧ e.frameStart < e.frameEnd then
      e.frameStart = cursor ∧ Seamless e.frameEnd entries else Seamless cursor entries))

instance (cursor : ℕ) (entries : List E820) : Decidable (Seamless cursor entries) :=
  decidableSeamless cursor entries

section Lookup

variable {entries : List E820} {s : MemoryState} {i j : ℕ}

/-! ### Frames without a hole -/

/-- The frames of a region, counted. -/
theorem E820.frames_eq_range' (e : E820) : ∃ n, e.frames = List.range' e.frameStart n page2MSize ∧
    (e.frameStart < e.frameEnd → 0 < n ∧ e.frameEnd = e.frameStart + page2MSize * n) := by
  refine ⟨_, rfl, fun hlt ↦ ?_⟩
  obtain ⟨a, ha⟩ := e.frameStart_dvd
  have hb := e.frameEnd_eq
  rw [page2MSize_eq] at ha hb ⊢
  omega

/-- **The frames are numbered without a hole** exactly if the regions follow each other without
one. -/
theorem usableFrames_eq_range'_iff (cursor : ℕ) (entries : List E820) :
    usableFrames entries = List.range' cursor (usableFrames entries).length page2MSize ↔
      Seamless cursor entries := by
  induction entries generalizing cursor with
  | nil => exact iff_of_true rfl trivial
  | cons e entries ih =>
    rw [usableFrames_cons, Seamless]
    split
    case isFalse hu =>
      rw [if_neg fun h ↦ hu h.1]
      exact ih cursor
    case isTrue hu =>
      rcases Nat.lt_or_ge e.frameStart e.frameEnd with hlt | hle
      · rw [if_pos ⟨hu, hlt⟩]
        obtain ⟨n, hframes, hn⟩ := e.frames_eq_range'
        obtain ⟨hpos, hend⟩ := hn hlt
        rw [hframes, List.length_append, List.length_range', ← List.range'_append]
        constructor
        · intro heq
          obtain ⟨hfirst, hrest⟩ := List.append_inj heq (by simp)
          have hstart : e.frameStart = cursor := by
            obtain ⟨k, rfl⟩ := Nat.exists_eq_succ_of_ne_zero hpos.ne'
            rw [List.range'_succ, List.range'_succ] at hfirst
            exact (List.cons.inj hfirst).1
          exact ⟨hstart, (ih _).1 (by rw [hend, hstart]; exact hrest)⟩
        · rintro ⟨rfl, hrest⟩
          rw [← hend, ← (ih _).2 hrest]
      · rw [if_neg fun h ↦ absurd h.2 (Nat.not_lt.2 hle), e.frames_eq_nil hle, List.nil_append]
        exact ih cursor

/-! ### The lookups -/

/-- The macros undo `Phy_To_Virt`. -/
theorem virtToPhy_phyToVirt {addr : ℕ} (h : addr < 2 ^ 64) : virtToPhy (phyToVirt addr) = addr := by
  rw [virtToPhy, phyToVirt, u64, u64, pageOffset]
  omega

/-- Descriptors below index `2 ^ 61` are at different addresses. -/
theorem pageAt_inj (hi : i < 2 ^ 61) (hj : j < 2 ^ 61) : s.pageAt i = s.pageAt j ↔ i = j := by
  refine ⟨fun h ↦ ?_, fun h ↦ h ▸ rfl⟩
  rw [MemoryState.pageAt, MemoryState.pageAt, u64, u64, sizeofPage] at h
  have hmod : Nat.ModEq (2 ^ 64) (i * 24) (j * 24) := Nat.ModEq.add_left_cancel' _ h
  -- the size of a descriptor is eight times an odd number
  have hcancel : Nat.ModEq (2 ^ 61) i j := Nat.ModEq.cancel_right_div_gcd (by decide) hmod
  exact hcancel.eq_of_lt_of_lt hi hj

/-- A descriptor is found if its index is the number of its frame. -/
theorem looksUp_iff (hphy : (s.pages i).phyAddr < 2 ^ 64) :
    s.LooksUp i ↔ s.pageAt ((s.pages i).phyAddr / page2MSize) = s.pageAt i := by
  rw [MemoryState.LooksUp, MemoryState.virtTo2MPage, virtToPhy_phyToVirt hphy,
    MemoryState.phyTo2MPage, Nat.shiftRight_eq_div_pow]
  exact and_self_iff

end Lookup

/-- **When do the lookups find the descriptors?** For every table in which `init_page` finds room
for the descriptors: `Phy_to_2M_Page` of the address in each descriptor it fills, and
`Virt_To_2M_Page` of that address through `Phy_To_Virt`, are this descriptor if and only if the
usable regions that hold a frame follow each other without a hole, in the order of the table, from
address 0 on. -/
theorem lookup_iff {s : MemoryState} (hs : Uninitialised s) {entries : List E820}
    (hroom : (initPage entries s).1 ≠ .noRoom) :
    (∀ i < (usableFrames entries).length, (initPage entries s).2.LooksUp i) ↔
      Seamless 0 entries := by
  have hfilled := filled_entries (fun i ↦ if i < pageCount entries then ⟨0, 0, none⟩ else s.pages i)
    entries
  have hphy : ∀ (i : ℕ) (hi : i < (usableFrames entries).length),
      ((initPage entries s).2.pages i).phyAddr = (usableFrames entries)[i] := by
    intro i hi
    rw [(initPage_pass hs hroom).1, passStart, hs.freePagesList, hs.totalFreePages]
    exact hfilled.phyAddr i hi
  have hlooks : ∀ (i : ℕ) (hi : i < (usableFrames entries).length),
      (initPage entries s).2.LooksUp i ↔ (initPage entries s).2.pageAt
        ((usableFrames entries)[i] / page2MSize) = (initPage entries s).2.pageAt i := by
    intro i hi
    rw [looksUp_iff (by rw [hphy i hi]; exact usableFrames_lt (List.getElem_mem hi)), hphy i hi]
  have hnumber : ∀ (i : ℕ) (hi : i < (usableFrames entries).length),
      (usableFrames entries)[i] / page2MSize < 2 ^ 43 := by
    intro i hi
    have hlt := usableFrames_lt (List.getElem_mem hi)
    rw [page2MSize_eq]
    omega
  rw [← usableFrames_eq_range'_iff]
  constructor
  · intro hall
    -- the descriptor with index `2 ^ 43` would have no frame
    have hlength : (usableFrames entries).length ≤ 2 ^ 43 := by
      by_contra! hlt
      have hnum := hnumber _ hlt
      have heq := (pageAt_inj (by omega) (by omega)).1 ((hlooks _ hlt).1 (hall _ hlt))
      omega
    refine List.ext_getElem (by simp) fun i hi _ ↦ ?_
    have hnum := hnumber i hi
    have heq := (pageAt_inj (by omega) (by omega)).1 ((hlooks i hi).1 (hall i hi))
    have haligned := usableFrames_dvd (List.getElem_mem hi)
    rw [List.getElem_range', Nat.zero_add, ← Nat.div_mul_cancel haligned, heq, Nat.mul_comm]
  · intro hrange i hi
    have hframe := List.getElem_of_eq hrange hi
    rw [List.getElem_range', Nat.zero_add] at hframe
    rw [hlooks i hi, hframe, Nat.mul_div_cancel_left _ (by decide)]

/-- The general theorem on one region of 128 MB that starts at 0. -/
theorem lookup_wholeMap : (∀ i < (usableFrames [⟨0, 0x8000000, 1⟩]).length,
      (initPage [⟨0, 0x8000000, 1⟩] .zeroed).2.LooksUp i) ↔ Seamless 0 [⟨0, 0x8000000, 1⟩] :=
  lookup_iff uninitialised_zeroed (by decide +kernel)

/-- **Low memory is not a frame.** On a small machine `init_page` completes, and the first
descriptor is for the frame at 2 MB; both lookups find the second one for it. -/
theorem lookup_misses_smallMachine :
    (initPage smallMachine .zeroed).1 = .complete ∧ 0 < (usableFrames smallMachine).length ∧
    ((initPage smallMachine .zeroed).2.pages 0).phyAddr = 0x200000 ∧
    (initPage smallMachine .zeroed).2.phyTo2MPage 0x200000 =
      (initPage smallMachine .zeroed).2.pageAt 1 ∧
    ¬(initPage smallMachine .zeroed).2.LooksUp 0 := by
  decide +kernel

end LightNight
