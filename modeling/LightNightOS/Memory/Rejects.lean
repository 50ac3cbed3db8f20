import LightNightOS.Memory.Reuse

/-!
# What `free` does to a pointer that is not live

`free` checks a range of addresses and the size word in front of the pointer, nothing else. So it
accepts pointers into the middle of a block and pointers that have been freed already, sets the flag
in front of them and counts the size word (`free_twice`).

`HarmlessFree` is the condition under which such a call changes nothing that anybody relies on: the
pointer is rejected, or the size word is 0 and the flag bytes hold the number 1 already wherever
they belong to a header or to live data. `free_rejects` says that this is enough, and that it is
needed for every pointer in front of which no link of the list is overwritten. (After a link has
been overwritten the coalescing loop follows it into memory that is not the allocator's.)
-/

namespace LightNight

open Interval BlockHeap Transition

/-! ### The condition and the property -/

/-- Setting the flag of a header at `h` changes no byte of `s`: those written hold the number 1
already. -/
def FlagKeeps (m : ByteMemory) (h : ℕ) (s : Set ℕ) : Prop :=
  ∀ x ∈ Set.Ico (h + 16) (h + 20), x ∈ s → m x = if x = h + 16 then 1 else 0

/-- The bytes of the fields of the headers, which are followed by four bytes of padding. -/
def fieldBytes (blocks : List Block) : Set ℕ := region (fun b ↦ Set.Ico b.addr (b.addr + 20)) blocks

/-- The bytes of the `next` fields. -/
def linkBytes (blocks : List Block) : Set ℕ :=
  region (fun b ↦ Set.Ico (b.addr + 8) (b.addr + 16)) blocks

/-- The bytes the program has asked for. -/
def liveBytes (live : List (ℕ × ℕ)) : Set ℕ := region (fun a ↦ Set.Ico a.1 (a.1 + a.2)) live

/-- `free p` is rejected, or what it writes is there already. -/
def HarmlessFree (u : HeapUse) (blocks : List Block) (p : ℕ) : Prop :=
  ¬u.state.InRange p ∨ page2MSize < Header.size u.state.mem (headerOf p) ∨
    (Header.size u.state.mem (headerOf p) = 0 ∧
      FlagKeeps u.state.mem (headerOf p) (fieldBytes blocks ∪ liveBytes u.live))

/-- Nothing has changed: the blocks with their sizes, flags and links, the live data, and the
counters. -/
structure Untouched (u : HeapUse) (blocks : List Block) (s : MemoryState) : Prop where
  blocks : Linked s.mem s.mallocHead blocks 0
  data : Set.EqOn s.mem u.state.mem (liveBytes u.live)
  allocated : s.mallocTotalAllocated = u.state.mallocTotalAllocated
  freed : s.mallocTotalFreed = u.state.mallocTotalFreed

/-! ### The flag -/

theorem flagKeeps_iff {m : ByteMemory} {h : ℕ} {s : Set ℕ} :
    FlagKeeps m h s ↔ Set.EqOn (Header.setIsFree m h 1) m s := by
  have hone : ∀ i < 4, LittleEndian.byte 1 i = if i = 0 then 1 else 0 := by decide +kernel
  have hbyte : ∀ x, x ∈ Set.Ico (h + 16) (h + 20) →
      Header.setIsFree m h 1 x = if x = h + 16 then 1 else 0 := by
    intro x hx
    obtain ⟨i, rfl⟩ := Nat.exists_eq_add_of_le hx.1
    have hi : i < 4 := by
      have hhi := hx.2
      omega
    show (if _ then LittleEndian.byte 1 (h + 16 + i - (h + 16)) else _) = _
    rw [if_pos ⟨hx.1, hx.2⟩, Nat.add_sub_cancel_left, hone i hi]
    simp only [Nat.add_eq_left]
  constructor
  · intro hkeeps x hx
    by_cases hmem : x ∈ Set.Ico (h + 16) (h + 20)
    · rw [hbyte x hmem, hkeeps x hmem hx]
    · exact ByteMemory.store_of_notMem hmem
  · intro heq x hmem hx
    rw [← heq hx, hbyte x hmem]

/-! ### The coalescing loop on any headers

On headers that are no blocks of a heap the loop still walks and adds up sizes. What it leaves alone
follows from the walk, and a walk that ends lets it end. -/

/-- Following `next` from `p` meets the headers `l` and ends at `NULL`, whatever their sizes and
flags are. -/
def Walks (m : ByteMemory) : ℕ → List ℕ → Prop
  | p, [] => p = 0
  | p, h :: l => p = h ∧ h ≠ 0 ∧ Walks m (Header.next m h) l

theorem Linked.walks {m : ByteMemory} {p : ℕ} {blocks : List Block} (h : Linked m p blocks 0) :
    Walks m p (blocks.map Block.addr) := by
  induction blocks generalizing p with
  | nil => exact h
  | cons b l ih => exact ⟨h.1, h.2.1, ih h.2.2.2.2⟩

theorem Walks.congr {m m' : ByteMemory} {p : ℕ} {l : List ℕ} (h : Walks m p l)
    (hm : ∀ a ∈ l, Header.next m' a = Header.next m a) : Walks m' p l := by
  induction l generalizing p with
  | nil => exact h
  | cons a l ih =>
    refine ⟨h.1, h.2.1, ?_⟩
    rw [hm a List.mem_cons_self]
    exact ih h.2.2 fun b hb ↦ hm b (List.mem_cons_of_mem a hb)

/-- **The loop writes sizes and links only**, of the headers it meets. -/
theorem mergeLoop_eqOn {fuel p : ℕ} {m m' : ByteMemory} {l : List ℕ} (hwalk : Walks m p l)
    (hapart : l.Pairwise fun a b ↦ Disjoint (Header.bytes a) (Header.bytes b))
    (hloop : MemoryState.mergeLoop fuel m p = some m') {x : ℕ}
    (hx : ∀ a ∈ l, x ∉ Set.Ico a (a + 16)) : m' x = m x := by
  induction fuel generalizing m p l with
  | zero => cases hloop
  | succ fuel ih =>
    rw [MemoryState.mergeLoop] at hloop
    split at hloop
    case isTrue => rw [Option.some.inj hloop]
    case isFalse hgo =>
      obtain ⟨hp, hnext⟩ := not_or.1 hgo
      rcases l with - | ⟨a, - | ⟨b, l⟩⟩
      · exact absurd hwalk hp
      · obtain ⟨hpa, _, hwalk⟩ := hwalk
        subst hpa
        exact absurd hwalk hnext
      · obtain ⟨hpa, hane, hb, hbne, hwalk⟩ := hwalk
        subst hpa
        rw [hb] at hloop
        split at hloop
        case isFalse =>
          have htail : Walks m b (b :: l) := ⟨rfl, hbne, hwalk⟩
          exact ih htail hapart.tail hloop fun c hc ↦ hx c (List.mem_cons_of_mem p hc)
        case isTrue =>
          -- the header at `p` takes over the one at `b`, and the walk goes on behind it
          obtain ⟨hfront, htail⟩ := List.pairwise_cons.1 hapart
          have hkeep : ∀ (M : ByteMemory) (f : Header.Field) (v : ℕ), ∀ c ∈ b :: l,
              Header.next (Header.set f M p v) c = Header.next M c :=
            fun M f v c hc ↦ Header.get_congr (Header.set_eqOn (hfront c hc))
          have hlink : ∀ v, Header.next (Header.setSize m p v) p = b :=
            fun v ↦ (Header.get_set_of_ne (by decide)).trans hb
          simp only [hlink, hkeep m .size _ b List.mem_cons_self] at hloop
          have hwalk' : ∀ v, Walks (Header.setNext (Header.setSize m p v) p (Header.next m b)) p
              (p :: l) := by
            intro v
            refine ⟨rfl, hane, ?_⟩
            rw [show Header.next (Header.setNext _ p _) p = Header.next m b from
              Header.get_set_self Header.get_lt_two_pow]
            refine hwalk.congr fun c hc ↦ ?_
            have hc := List.mem_cons_of_mem b hc
            exact (hkeep _ .next _ c hc).trans (hkeep _ .size _ c hc)
          have hrest : (p :: l).Pairwise fun a b ↦ Disjoint (Header.bytes a) (Header.bytes b) :=
            hapart.sublist (List.Sublist.cons_cons p (List.sublist_cons_self b l))
          have hxp := hx p List.mem_cons_self
          rw [ih (hwalk' _) hrest hloop fun c hc ↦ ?_]
          · refine (ByteMemory.store_of_notMem fun hmem ↦ hxp ?_).trans
              (ByteMemory.store_of_notMem fun hmem ↦ hxp ?_)
            · obtain ⟨hlo, hhi⟩ := hmem
              exact ⟨(Nat.le_add_right p 8).trans hlo, hhi⟩
            · obtain ⟨hlo, hhi⟩ := hmem
              exact ⟨hlo, hhi.trans_le (Nat.add_le_add_left (by decide) p)⟩
          · rcases List.mem_cons.1 hc with rfl | hc
            exacts [hxp, hx c (by simp [hc])]

/-! ### One call of `free` on any pointer

The flag is set in front of the pointer, whatever is there; the loop is then run over the list,
which has no two free neighbours unless the flag has made a block free. -/

/-- An accepted pointer: the flag is set and the loop is run. -/
theorem free_eq_mergeLoop {s : MemoryState} {p : ℕ} (hrange : s.InRange p)
    (hsize : Header.size s.mem (headerOf p) ≤ page2MSize) :
    s.free p = (MemoryState.mergeLoop MemoryState.walkBound
      (Header.setIsFree s.mem (headerOf p) 1) s.mallocHead).map fun m ↦
        { s with mem := m
                 mallocTotalFreed :=
                  u64 (s.mallocTotalFreed + Header.size s.mem (headerOf p)) } := by
  obtain ⟨hne, hlo, hhi⟩ := hrange
  have hkeep : Header.size (Header.setIsFree s.mem (headerOf p) 1) (headerOf p) =
      Header.size s.mem (headerOf p) := Header.get_set_of_ne (by decide)
  rw [MemoryState.free, if_neg hne, if_neg (by omega)]
  show (if page2MSize < Header.size s.mem (headerOf p) then _ else _) = _
  rw [if_neg (Nat.not_lt.2 hsize)]
  simp only [headerOf] at hkeep ⊢
  rw [hkeep]
  cases MemoryState.mergeLoop MemoryState.walkBound (Header.setIsFree s.mem
    (u64 (p + (2 ^ 64 - sizeofHeader))) 1) s.mallocHead <;> rfl

/-- The bytes of a block's field are field bytes. -/
theorem field_subset_fieldBytes {blocks : List Block} {b : Block} (hb : b ∈ blocks)
    (f : Header.Field) :
    Set.Ico (b.addr + f.offset) (b.addr + f.offset + f.width) ⊆ fieldBytes blocks := by
  refine Set.Subset.trans (fun x hx ↦ ?_)
    (@subset_region _ (fun b : Block ↦ Set.Ico b.addr (b.addr + 20)) _ _ hb)
  have hwidth : f.offset + f.width ≤ 20 := by cases f <;> decide
  have hlo := hx.1
  have hhi := hx.2
  exact ⟨by omega, by omega⟩

/-- **A harmless call changes nothing.** -/
theorem Reusable.untouched {u : HeapUse} {h : BlockHeap} {p : ℕ} (hu : Reusable u h)
    (hfreed : h.freed < 2 ^ 64) (hharmless : HarmlessFree u h.blocks p) :
    ∃ s', u.state.free p = some s' ∧ Untouched u h.blocks s' := by
  by_cases hreject : ¬u.state.InRange p ∨ page2MSize < Header.size u.state.mem (headerOf p)
  case pos =>
    exact ⟨_, free_eq_self hreject, hu.represents.blocks, fun _ _ ↦ rfl, rfl, rfl⟩
  case neg =>
    obtain ⟨hrange, hsize⟩ := not_or.1 hreject
    obtain ⟨hzero, hkeeps⟩ :=
      (hharmless.resolve_left hrange).resolve_left hsize
    have hflag := flagKeeps_iff.1 hkeeps
    have hlinked : Linked (Header.setIsFree u.state.mem (headerOf p) 1) u.state.mallocHead
        h.blocks 0 := by
      refine hu.represents.blocks.congr_get fun b hb f ↦ ?_
      exact ByteMemory.load_congr (hflag.mono
        ((field_subset_fieldBytes hb f).trans Set.subset_union_left))
    have hloop := mergeLoop_eq_self hlinked hu.noFreeNeighbours hu.wellFormed.length_lt
    rw [free_eq_mergeLoop (not_not.1 hrange) (Nat.not_lt.1 hsize), hloop, hzero, Nat.add_zero]
    refine ⟨_, rfl, hlinked, hflag.mono Set.subset_union_right, rfl, u64_of_lt ?_⟩
    rw [hu.represents.freed]
    exact hfreed

/-- Headers on a walk whose flags are known spell out a list. -/
theorem Walks.linked {m : ByteMemory} {p : ℕ} {blocks : List Block}
    (h : Walks m p (blocks.map Block.addr)) {size : Block → ℕ}
    (hsize : ∀ b ∈ blocks, Header.size m b.addr = size b)
    (hflag : ∀ b ∈ blocks, Header.isFree m b.addr = b.flag) :
    Linked m p (blocks.map fun b ↦ { b with size := size b }) 0 := by
  induction blocks generalizing p with
  | nil => exact h
  | cons b l ih =>
    obtain ⟨hp, hne, hwalk⟩ := h
    refine ⟨hp, hne, hsize b List.mem_cons_self, hflag b List.mem_cons_self, ih hwalk ?_ ?_⟩
    · exact fun c hc ↦ hsize c (List.mem_cons_of_mem b hc)
    · exact fun c hc ↦ hflag c (List.mem_cons_of_mem b hc)

/-- The sizes do not matter for which neighbours are free. -/
theorem isChain_resize {l : List Block} (size : Block → ℕ)
    (h : l.IsChain fun a b ↦ Block.bothFree a b = false) :
    (l.map fun b ↦ { b with size := size b }).IsChain fun a b ↦ Block.bothFree a b = false :=
  (List.isChain_map _).2 h

/-- **A call that changes nothing was harmless**, if it overwrote no link. -/
theorem Reusable.harmless {u : HeapUse} {h : BlockHeap} {p : ℕ} (hu : Reusable u h)
    (hlinks : FlagKeeps u.state.mem (headerOf p) (linkBytes h.blocks)) {s' : MemoryState}
    (hfree : u.state.free p = some s') (huntouched : Untouched u h.blocks s') :
    HarmlessFree u h.blocks p := by
  by_cases hreject : ¬u.state.InRange p ∨ page2MSize < Header.size u.state.mem (headerOf p)
  case pos => exact hreject.imp_right Or.inl
  case neg =>
    obtain ⟨hrange, hsize⟩ := not_or.1 hreject
    rw [free_eq_mergeLoop (not_not.1 hrange) (Nat.not_lt.1 hsize)] at hfree
    obtain ⟨m', hloop, rfl⟩ := Option.map_eq_some_iff.1 hfree
    have hzero : Header.size u.state.mem (headerOf p) = 0 := by
      have hcounter : u64 (u.state.mallocTotalFreed + Header.size u.state.mem (headerOf p)) =
          u.state.mallocTotalFreed := huntouched.freed
      rw [hu.represents.freed] at hcounter
      rw [page2MSize_eq] at hsize
      simp only [u64] at hcounter
      omega
    -- the links are as they were, so the loop meets the headers of the list
    have hlink := flagKeeps_iff.1 hlinks
    have hnext : ∀ b ∈ h.blocks, Header.next (Header.setIsFree u.state.mem (headerOf p) 1) b.addr =
        Header.next u.state.mem b.addr := fun b hb ↦ ByteMemory.load_congr (hlink.mono
      (@subset_region _ (fun b : Block ↦ Set.Ico (b.addr + 8) (b.addr + 16)) _ _ hb))
    have hwalk := hu.represents.blocks.walks.congr (List.forall_mem_map.2 hnext)
    have hwritten := fun x ↦ mergeLoop_eqOn (x := x) hwalk
      (List.pairwise_map.2 hu.wellFormed.headersApart) hloop
    have hflag : ∀ b ∈ h.blocks,
        Header.isFree (Header.setIsFree u.state.mem (headerOf p) 1) b.addr = b.flag := by
      intro b hb
      refine Eq.trans (ByteMemory.load_congr fun x hx ↦ (hwritten x fun a ha hxa ↦ ?_).symm)
        (huntouched.blocks.fields hb).2.2
      obtain ⟨c, hc, rfl⟩ := List.mem_map.1 ha
      have hlo : b.addr + 16 ≤ x := hx.1
      have hhi : x < b.addr + 16 + 4 := hx.2
      have hcb := hu.wellFormed.eq_of_mem_extent hc hb (c.headerBytes_subset ⟨hxa.1, ?_⟩)
        (b.headerBytes_subset ⟨by omega, by rw [sizeofHeader]; omega⟩)
      · rw [hcb] at hxa
        exact absurd hxa.2 (Nat.not_lt.2 hlo)
      · exact hxa.2.trans_le (Nat.add_le_add_left (by decide) c.addr)
    -- so no two neighbours are free, whatever the sizes are, and the loop changes nothing
    have hself : MemoryState.mergeLoop MemoryState.walkBound
        (Header.setIsFree u.state.mem (headerOf p) 1) u.state.mallocHead =
          some (Header.setIsFree u.state.mem (headerOf p) 1) := by
      refine mergeLoop_eq_self (hwalk.linked (fun _ _ ↦ rfl) hflag) ?_ ?_
      · exact isChain_resize _ hu.noFreeNeighbours
      · rw [List.length_map]
        exact hu.wellFormed.length_lt
    have hsame : m' = Header.setIsFree u.state.mem (headerOf p) 1 :=
      Option.some.inj (hloop.symm.trans hself)
    refine Or.inr (Or.inr ⟨hzero, flagKeeps_iff.2 ?_⟩)
    have hblocks : Linked m' u.state.mallocHead h.blocks 0 := huntouched.blocks
    have hdata : Set.EqOn m' u.state.mem (liveBytes u.live) := huntouched.data
    rw [hsame] at hblocks hdata
    refine Set.EqOn.union (fun x hx ↦ ?_) hdata
    obtain ⟨b, hb, hlo, hhi⟩ := Set.mem_iUnion₂.1 hx
    obtain ⟨-, hsize', hflag'⟩ := hblocks.fields hb
    obtain ⟨-, hsize, hflag⟩ := hu.represents.blocks.fields hb
    by_cases hsizeByte : x < b.addr + 8
    · exact ByteMemory.eqOn_of_load_eq (hsize'.trans hsize.symm) ⟨hlo, hsizeByte⟩
    by_cases hlinkByte : x < b.addr + 16
    · exact ByteMemory.eqOn_of_load_eq (hnext b hb) ⟨Nat.not_lt.1 hsizeByte, hlinkByte⟩
    · exact ByteMemory.eqOn_of_load_eq (hflag'.trans hflag.symm) ⟨Nat.not_lt.1 hlinkByte, hhi⟩

/-! ### Runs -/

theorem BlockHeap.after_freed_lt {h : BlockHeap} (hfreed : h.freed < 2 ^ 64) (a : HeapCall) :
    (h.after a).freed < 2 ^ 64 := by
  cases a with
  | malloc n =>
    rw [BlockHeap.after]
    rcases h.malloc_cases n with ⟨hfail, -⟩ | ⟨-, -, l₁, b, l₂, -, -, -, hplaced⟩ |
      ⟨-, -, -, page, supply, -, hpage⟩
    · rwa [hfail]
    · rwa [hplaced]
    · rwa [hpage]
  | free p =>
    rw [BlockHeap.after, BlockHeap.free]
    split
    · exact hfreed
    split
    exacts [u64_lt _, hfreed]
  | write => exact hfreed

/-- **When `free` leaves everything alone.** After any run of guarded calls from the heap that
`init_page` leaves, take any pointer, live or not. If the call is harmless then it returns, and the
blocks, the live data and the counters are as they were. The converse holds where no link of the
list is overwritten. -/
theorem free_rejects {s₀ : MemoryState} (hs : Uninitialised s₀) {entries : List E820}
    (hmap : SoundMap entries) {calls : List HeapCall} {u : HeapUse}
    (hrun : Run (Guarded GuardedCall HeapStep) ⟨(initPage entries s₀).2, []⟩ calls u) (p : ℕ) :
    ∃ blocks, Linked u.state.mem u.state.mallocHead blocks 0 ∧
      (HarmlessFree u blocks p → ∃ s', u.state.free p = some s' ∧ Untouched u blocks s') ∧
      (FlagKeeps u.state.mem (headerOf p) (linkBytes blocks) →
        (∃ s', u.state.free p = some s' ∧ Untouched u blocks s') → HarmlessFree u blocks p) := by
  obtain ⟨-, hfreed⟩ := initPage_counters hs entries
  obtain ⟨h, hu, hfreed⟩ := hrun.invariant (I := fun u ↦ ∃ h, Reusable u h ∧ h.freed < 2 ^ 64)
    (fun h hstep ↦ by
      obtain ⟨_, hu, hfreed⟩ := h
      exact ⟨_, hu.step hstep.1 hstep.2, BlockHeap.after_freed_lt hfreed _⟩)
    ⟨_, ⟨initPage_confined hs hmap, List.isChain_nil, by simp⟩, by
      rw [emptyHeap, hfreed]
      exact (by decide : 0 < 2 ^ 64)⟩
  refine ⟨h.blocks, hu.represents.blocks, hu.untouched hfreed, fun hlinks hreturns ↦ ?_⟩
  obtain ⟨_, hfree, huntouched⟩ := hreturns
  exact hu.harmless hlinks hfree huntouched

/-- The general theorem with one block live, for the pointer to it and every other. -/
theorem free_rejects_smallMap : ∃ u : HeapUse, u.live = [(0xffff800000200018, 100)] ∧
    ∀ p, ∃ blocks, Linked u.state.mem u.state.mallocHead blocks 0 ∧
      (HarmlessFree u blocks p → ∃ s', u.state.free p = some s' ∧ Untouched u blocks s') ∧
      (FlagKeeps u.state.mem (headerOf p) (linkBytes blocks) →
        (∃ s', u.state.free p = some s' ∧ Untouched u blocks s') → HarmlessFree u blocks p) := by
  have hs := initPage_fresh uninitialised_zeroed smallMap
  rw [smallMap_supply] at hs
  obtain ⟨u, hstep, -, hlive⟩ := hs.held.exists_malloc (n := 100)
    (smallPages_valid.sublist (List.singleton_sublist.2 (by decide)))
  have hguard : GuardedCall ⟨(initPage smallMap .zeroed).2, []⟩ (.malloc 100) := trivial
  exact ⟨u, hlive, free_rejects uninitialised_zeroed soundMap_smallMap (Run.single ⟨hguard, hstep⟩)⟩

/-- The small machine after a block has been allocated and freed. -/
def emptiedHeap : BlockHeap := (smallHeap.malloc 100).2.free 0xffff800000200018

/-- **A pointer freed twice is counted twice.** Nothing is live any more, but `free` of the same
pointer adds the size of the block that now fills the page to the counter. -/
theorem free_twice : ∃ u, Run HeapStep ⟨(initPage smallMap .zeroed).2, []⟩
      [.malloc 100, .free 0xffff800000200018] u ∧ u.live = [] ∧
    ∃ s', u.state.free 0xffff800000200018 = some s' ∧
      s'.mallocTotalFreed ≠ u.state.mallocTotalFreed := by
  have hs := initPage_fresh uninitialised_zeroed smallMap
  rw [smallMap_supply] at hs
  obtain ⟨u, hstep, hu, hlive⟩ := hs.held.exists_malloc (n := 100)
    (smallPages_valid.sublist (List.singleton_sublist.2 (by decide)))
  have hlive : u.live = [(0xffff800000200018, 100)] := hlive
  obtain ⟨s, hfree, hr⟩ := hu.exists_free (p := 0xffff800000200018) (by simp [hlive])
  have hr : Represents s emptiedHeap := hr
  have hblocks : emptiedHeap.blocks = [⟨0xffff800000200000, 2097128, true⟩] := by decide +kernel
  have hstart : emptiedHeap.rangeStart = 0xffff800000200000 := by decide +kernel
  have hend : emptiedHeap.rangeEnd = 0xffff800000600000 := by decide +kernel
  have hcounted : u64 (emptiedHeap.freed + 2097128) ≠ emptiedHeap.freed := by decide +kernel
  have hheader : headerOf 0xffff800000200018 = 0xffff800000200000 := by decide
  have hlinked : Linked s.mem s.mallocHead [⟨0xffff800000200000, 2097128, true⟩] 0 :=
    hblocks ▸ hr.blocks
  obtain ⟨-, hsize, hflag⟩ := hlinked.fields List.mem_cons_self
  have hrange : s.InRange 0xffff800000200018 := by
    refine ⟨by decide, ?_, ?_⟩
    · rw [hr.rangeStart, hstart]
      decide
    · rw [hr.rangeEnd, hend]
      decide
  -- the flag is set already, so the loop finds the list as it is
  have hsame : Header.setIsFree s.mem 0xffff800000200000 1 = s.mem := Header.set_get_self hflag
  have hloop : MemoryState.mergeLoop MemoryState.walkBound s.mem s.mallocHead = some s.mem :=
    mergeLoop_eq_self hlinked (List.isChain_singleton _) (by decide)
  have hagain := free_eq_mergeLoop hrange (by rw [hheader, hsize]; decide)
  rw [hheader, hsame, hloop, hsize, Option.map_some] at hagain
  refine ⟨_, (Run.single hstep).snoc hfree, by simp [hlive], _, hagain, ?_⟩
  show u64 (s.mallocTotalFreed + 2097128) ≠ s.mallocTotalFreed
  rw [hr.freed]
  exact hcounted

end LightNight
