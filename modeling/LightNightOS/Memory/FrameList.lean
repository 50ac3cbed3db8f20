import LightNightOS.Memory.Descriptors
import LightNightOS.Memory.MemoryMap

/-!
# The frames that `init_page` lists

The first pass of `init_page`, its third pass and the second loop of `init_memory_map` each round
the bounds of a region and count on their own. They agree, whatever the regions are: the frames of a
region are the aligned frames inside it, the array has as many descriptors as there are frames, and
the index of the third pass stays below that.
-/

namespace LightNight

/-! ### The third pass, body by body -/

/-- The states in which the body runs, for the frames of one region. -/
def bodyStates : FillState → List ℕ → List FillState
  | _, [] => []
  | st, j :: frames => st :: bodyStates (st.addFrame j) frames

/-- The states in which the body of the third pass runs. -/
def passStates : FillState → List E820 → List FillState
  | _, [] => []
  | st, e :: entries =>
    (if ¬e.Usable then [] else if e.frameEnd ≤ e.frameStart then [] else bodyStates st e.frames) ++
      passStates (st.addEntry e) entries

/-- The variables of the third pass, on the descriptors that `init_page` clears. -/
def passStart (entries : List E820) (s : MemoryState) : FillState :=
  ⟨fun i ↦ if i < pageCount entries then ⟨0, 0, none⟩ else s.pages i, s.freePagesList, none, 0,
    s.totalFreePages⟩

/-- A frame that lies inside the region, which is usable. -/
def E820.Contains (e : E820) (j : ℕ) : Prop :=
  e.Usable ∧ page2MSize ∣ j ∧ e.address ≤ j ∧ j + page2MSize ≤ e.address + e.length

/-- The region ends inside the address space, and its start can be rounded up. -/
structure E820.Bounded (e : E820) : Prop where
  stop : e.address + e.length < 2 ^ 64
  roundUp : e.address + (page2MSize - 1) < 2 ^ 64

/-- The list of frames that a table should give: in table order, and in ascending order in each
region. -/
def ListsFrames (entries : List E820) (frames : List ℕ) : Prop :=
  ∃ inside : E820 → List ℕ,
    (∀ e ∈ entries, (inside e).Pairwise (· < ·) ∧ ∀ j, j ∈ inside e ↔ e.Contains j) ∧
    frames = entries.flatMap inside

/-- What `init_page` should leave for a table. -/
structure BuildsFrames (entries : List E820) (s t : MemoryState) : Prop where
  list : ∃ l, PageChain t.pages t.freePagesList l ∧ l.Nodup ∧
    (l.map fun i ↦ (t.pages i).phyAddr).Nodup ∧
    ListsFrames entries (l.map fun i ↦ (t.pages i).phyAddr)
  index : ∀ st ∈ passStates (passStart entries s) entries, st.pageIndex < pageCount entries
  total : t.totalFreePages = pageCount entries
  printed : t.totalFreePages = totalFrames entries

/-! ### The frames of a region -/

variable {e : E820} {entries : List E820} {s : MemoryState}

/-- **The frames between the rounded bounds are the frames inside.** -/
theorem mem_frames_iff_contains (he : e.Bounded) (hu : e.Usable) {j : ℕ} :
    j ∈ e.frames ↔ e.Contains j := by
  have hstop : e.stop = e.address + e.length := u64_of_lt he.stop
  have hup := he.roundUp
  have hsize := page2MSize_eq
  rw [E820.mem_frames, E820.Contains, E820.frameEnd_eq, hstop, E820.frameStart,
    page2MAlign_eq (by omega), hsize]
  refine ⟨?_, ?_⟩
  · rintro ⟨⟨c, rfl⟩, hlo, hhi⟩
    exact ⟨hu, ⟨c, rfl⟩, by omega, by omega⟩
  · rintro ⟨-, ⟨c, rfl⟩, hlo, hhi⟩
    exact ⟨⟨c, rfl⟩, by omega, by omega⟩

/-- The frames of a region come in ascending order. -/
theorem frames_pairwise (e : E820) : e.frames.Pairwise (· < ·) := by
  have hrange : ∀ start count step : ℕ, 0 < step →
      (List.range' start count step).Pairwise (· < ·) :=
    fun _ _ step hstep ↦ List.pairwise_lt_range' step hstep
  have hsize : 0 < page2MSize := by decide
  rw [E820.frames]
  generalize page2MSize = size at *
  exact hrange _ _ _ hsize

/-- The usable frames, region by region. -/
theorem usableFrames_eq_flatMap (entries : List E820) :
    usableFrames entries = entries.flatMap fun e ↦ if e.Usable then e.frames else [] := by
  induction entries with
  | nil => simp [usableFrames]
  | cons e entries ih => rw [List.flatMap_cons, ← ih, usableFrames_cons]

/-- The list of the third pass has the frames of the usable regions. -/
theorem listsFrames_usableFrames (hentries : ∀ e ∈ entries, e.Bounded) :
    ListsFrames entries (usableFrames entries) := by
  refine ⟨_, fun e he ↦ ?_, usableFrames_eq_flatMap entries⟩
  split
  case isTrue hu =>
    exact ⟨frames_pairwise e, fun j ↦ mem_frames_iff_contains (hentries e he) hu⟩
  case isFalse hu =>
    exact ⟨List.Pairwise.nil, fun j ↦ iff_of_false List.not_mem_nil fun h ↦ hu h.1⟩

/-- A frame inside two regions would be in both of them. -/
theorem usableFrames_nodup (hmap : DisjointMap entries) (hentries : ∀ e ∈ entries, e.Bounded) :
    (usableFrames entries).Nodup := by
  rw [usableFrames_eq_flatMap, List.nodup_flatMap]
  refine ⟨fun e _ ↦ ?_, ?_⟩
  · split
    exacts [(frames_pairwise e).imp Nat.ne_of_lt, List.nodup_nil]
  · refine hmap.disjoint.imp_of_mem fun {e e'} he he' hdisjoint ↦ ?_
    intro j hj hj'
    dsimp only at hj hj'
    split at hj
    case isFalse => exact absurd hj List.not_mem_nil
    case isTrue hu =>
      split at hj'
      case isFalse => exact absurd hj' List.not_mem_nil
      case isTrue hu' =>
        obtain ⟨-, -, hlo, hhi⟩ := (mem_frames_iff_contains (hentries e he) hu).1 hj
        obtain ⟨-, -, hlo', hhi'⟩ := (mem_frames_iff_contains (hentries e' he') hu').1 hj'
        have hsize := page2MSize_eq
        have hin : j ∈ Set.Ico e.address (e.address + e.length) := ⟨hlo, by omega⟩
        exact Set.disjoint_left.1 hdisjoint hin ⟨hlo', by omega⟩

/-! ### The three passes

The first pass counts, the third fills; the sum of what is counted is the number of turns, so the
index stays below it and ends at it. -/

/-- The loop of `init_memory_map` counts as the first pass of `init_page` does. -/
theorem totalFrames_eq (entries : List E820) : totalFrames entries = pageCount entries := by
  have hentry : totalEntry = countEntry := by
    funext total e
    simp only [totalEntry, countEntry, E820.Usable, E820.frameStart, E820.frameEnd, E820.stop,
      ne_eq]
    congr
  rw [totalFrames, pageCount, hentry]

/-- The body runs once for each usable frame. -/
theorem passStates_eq (st : FillState) (entries : List E820) :
    passStates st entries = bodyStates st (usableFrames entries) := by
  have happend : ∀ (l l' : List ℕ) (st : FillState), bodyStates st (l ++ l') =
      bodyStates st l ++ bodyStates (l.foldl FillState.addFrame st) l' := by
    intro l l'
    induction l with
    | nil => exact fun _ ↦ rfl
    | cons j l ih =>
      intro st
      rw [List.cons_append, bodyStates, ih, bodyStates, List.cons_append, List.foldl_cons]
  induction entries generalizing st with
  | nil => rfl
  | cons e entries ih =>
    rw [passStates, ih, usableFrames_cons, happend, FillState.addEntry]
    by_cases hu : e.Usable
    · by_cases hle : e.frameEnd ≤ e.frameStart
      · simp [hu, hle, e.frames_eq_nil hle, bodyStates]
      · simp [hu, hle]
    · simp [hu, bodyStates]

/-- In each turn of the third pass the index is that of a descriptor which was counted. -/
theorem pageIndex_bodyStates {st st' : FillState} {frames : List ℕ}
    (hst : st' ∈ bodyStates st frames) :
    st.pageIndex ≤ st'.pageIndex ∧ st'.pageIndex < st.pageIndex + frames.length := by
  induction frames generalizing st with
  | nil => exact absurd hst List.not_mem_nil
  | cons j frames ih =>
    have hone : (st.addFrame j).pageIndex = st.pageIndex + 1 := rfl
    rw [bodyStates, List.mem_cons] at hst
    rw [List.length_cons]
    rcases hst with rfl | hst
    · exact ⟨le_rfl, by omega⟩
    · obtain ⟨hlo, hhi⟩ := ih hst
      rw [hone] at hlo hhi
      exact ⟨by omega, by omega⟩

/-- What `init_page` leaves of the third pass. -/
theorem initPage_pass (hs : Uninitialised s) (hroom : (initPage entries s).1 ≠ .noRoom) :
    (initPage entries s).2.pages = (entries.foldl FillState.addEntry (passStart entries s)).pages ∧
      (initPage entries s).2.freePagesList =
        (entries.foldl FillState.addEntry (passStart entries s)).freePagesList ∧
      (initPage entries s).2.totalFreePages =
        (entries.foldl FillState.addEntry (passStart entries s)).totalFreePages := by
  revert hroom
  rw [initPage]
  split
  case h_1 => exact fun hroom ↦ absurd rfl hroom
  case h_2 room _ =>
    simp only [passStart, hs.freePagesList, hs.totalFreePages]
    split
    case isTrue => exact fun hroom ↦ absurd rfl hroom
    case isFalse =>
      intro _
      split
      · exact ⟨rfl, rfl, rfl⟩
      split
      · exact ⟨rfl, rfl, rfl⟩
      split <;> exact ⟨rfl, rfl, rfl⟩

/-- **`init_page` builds the frames of the table.** For every table of disjoint regions, if it finds
room for the descriptors. -/
theorem initPage_buildsFrames (hs : Uninitialised s) (hlength : entries.length ≤ 32)
    (hdisjoint : entries.Pairwise fun e e' ↦
      Disjoint (Set.Ico e.address (e.address + e.length))
        (Set.Ico e'.address (e'.address + e'.length)))
    (hentries : ∀ e ∈ entries, e.Bounded) (hroom : (initPage entries s).1 ≠ .noRoom) :
    BuildsFrames entries s (initPage entries s).2 := by
  have hmap : DisjointMap entries :=
    ⟨hlength, fun e he ↦ by have := (hentries e he).stop; omega, hdisjoint⟩
  have hcount := pageCount_eq hlength
  have hbound := length_usableFrames_le hlength
  obtain ⟨hpages, hlist, htotal⟩ := initPage_pass hs hroom
  have hstart : passStart entries s =
      ⟨fun i ↦ if i < pageCount entries then ⟨0, 0, none⟩ else s.pages i, none, none, 0, 0⟩ := by
    rw [passStart, hs.freePagesList, hs.totalFreePages]
  have hfilled := filled_entries (fun i ↦ if i < pageCount entries then ⟨0, 0, none⟩ else s.pages i)
    entries
  rw [← hstart] at hfilled
  have htotal' : (initPage entries s).2.totalFreePages = pageCount entries := by
    rw [htotal, foldl_addEntry, FillState.total_foldl _ _ (by rw [hstart]; dsimp only; omega),
      hcount, hstart]
    exact Nat.zero_add _
  have hphy : ((List.range (usableFrames entries).length).map fun i ↦
      ((initPage entries s).2.pages i).phyAddr) = usableFrames entries := by
    rw [hpages]
    refine List.ext_getElem (by simp) fun i hi _ ↦ ?_
    rw [List.length_map, List.length_range] at hi
    simp [hfilled.phyAddr i hi]
  refine ⟨⟨List.range (usableFrames entries).length, ?_, List.nodup_range, ?_, ?_⟩, ?_, htotal', ?_⟩
  · rw [hpages, hlist]
    exact hfilled.chain
  · rw [hphy]
    exact usableFrames_nodup hmap hentries
  · rw [hphy]
    exact listsFrames_usableFrames hentries
  · intro st hst
    rw [passStates_eq] at hst
    have hindex := (pageIndex_bodyStates hst).2
    rwa [hstart, Nat.zero_add, ← hcount] at hindex
  · rw [htotal', totalFrames_eq]

theorem initPage_buildsFrames_smallMachine :
    BuildsFrames smallMachine .zeroed (initPage smallMachine .zeroed).2 := by
  refine initPage_buildsFrames uninitialised_zeroed (by decide) ?_ (fun e he ↦ ?_)
    (by decide +kernel)
  · exact (disjointMap_of_apart (by decide) (by decide) (by decide)).disjoint
  · have hall : ∀ e ∈ smallMachine, e.address + e.length < 2 ^ 64 ∧
        e.address + (page2MSize - 1) < 2 ^ 64 := by decide
    exact ⟨(hall e he).1, (hall e he).2⟩

end LightNight
