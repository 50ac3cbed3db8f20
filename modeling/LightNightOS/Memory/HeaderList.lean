import LightNightOS.Memory.BlockHeapInvariants
import LightNightOS.Memory.Heap

/-!
# Lists of block headers in memory

The pointer loops of `malloc` and `free`, read as operations on the list of blocks that the headers
spell out. `Linked m p l q` says that following `next` from `p` meets exactly the blocks of `l`,
with their sizes and flags, and ends at `q`; the walk determines the list (`Linked.unique`).

* `findFit_found`, `findFit_none` — the search loop finds the first block that fits, or the last
  block of the list;
* `linked_carve` — splitting a block lays out the carved block in its place;
* `mergeLoop_spec` — the coalescing loop computes `coalesce` on the list.

A list depends on memory only through the bytes of its headers (`Linked.congr`), so every step needs
one disjointness fact and no more.

* `linked_layFreshPage`, `linked_merge` — a page at the end of the list, and two blocks made one;
* `split_eqOn`, `layFreshPage_eqOn` — the bytes that are not written.
-/

namespace LightNight

open Interval

namespace Block

/-- The value of the block's `is_free` field. -/
def flag (b : Block) : ℕ := if b.isFree then 1 else 0

theorem flag_ne_zero {b : Block} : b.flag ≠ 0 ↔ b.isFree = true := by
  simp [flag]

/-- The payload bytes. -/
def payloadRegion (b : Block) : Set ℕ := Set.Ico b.payload b.stop

theorem headerBytes_subset (b : Block) : Header.bytes b.addr ⊆ b.extent := fun x hx ↦
  ⟨hx.1, hx.2.trans_le (by simp only [stop]; omega)⟩

theorem payloadRegion_subset (b : Block) : b.payloadRegion ⊆ b.extent := fun x hx ↦
  ⟨by have h := hx.1; simp only [payload] at h; omega, hx.2⟩

theorem header_disjoint_payload (b : Block) : Disjoint (Header.bytes b.addr) b.payloadRegion :=
  Set.disjoint_left.2 fun _ hx hx' ↦ absurd (hx.2.trans_le hx'.1) (lt_irrefl _)

/-- The headers of two blocks do not overlap. -/
def HeadersApart (a b : Block) : Prop :=
  Disjoint (Header.bytes a.addr) (Header.bytes b.addr)

theorem headersApart_of_disjoint {a b : Block} (h : Disjoint a.extent b.extent) :
    HeadersApart a b :=
  Set.disjoint_of_subset a.headerBytes_subset b.headerBytes_subset h

end Block

/-! ### Lists of headers in memory

The same memory cannot spell out two lists from one pointer, since each header determines the block
and the next pointer. So a list that is known to be there may be used in place of the walk. -/

/-- Following `next` from `p` meets the blocks of the list, in order, and ends at `q`. -/
def Linked (m : ByteMemory) : ℕ → List Block → ℕ → Prop
  | p, [], q => p = q
  | p, b :: l, q => p = b.addr ∧ b.addr ≠ 0 ∧ Header.size m b.addr = b.size ∧
      Header.isFree m b.addr = b.flag ∧ Linked m (Header.next m b.addr) l q

section Linked

variable {m m' : ByteMemory} {p q : ℕ} {l : List Block}

theorem linked_append {l' : List Block} :
    Linked m p (l ++ l') q ↔ ∃ r, Linked m p l r ∧ Linked m r l' q := by
  induction l generalizing p with
  | nil => simp [Linked]
  | cons b l ih => simp [Linked, ih, and_assoc]

/-- A list of headers depends only on the fields of its headers. -/
theorem Linked.congr_get (h : Linked m p l q)
    (hm : ∀ b ∈ l, ∀ f, Header.get f m' b.addr = Header.get f m b.addr) : Linked m' p l q := by
  induction l generalizing p with
  | nil => exact h
  | cons b l ih =>
    obtain ⟨hp, hne, hsize, hflag, htail⟩ := h
    have hb := hm b List.mem_cons_self
    refine ⟨hp, hne, (hb .size).trans hsize, (hb .isFree).trans hflag, ?_⟩
    rw [show Header.next m' b.addr = Header.next m b.addr from hb .next]
    exact ih htail fun c hc ↦ hm c (List.mem_cons_of_mem b hc)

/-- So it depends only on the bytes of its headers. -/
theorem Linked.congr (h : Linked m p l q) (hm : ∀ b ∈ l, Set.EqOn m' m (Header.bytes b.addr)) :
    Linked m' p l q :=
  h.congr_get fun b hb _ ↦ Header.get_congr (hm b hb)

/-- The fields of a block of the list. -/
theorem Linked.fields (h : Linked m p l q) {b : Block} (hb : b ∈ l) :
    b.addr ≠ 0 ∧ Header.size m b.addr = b.size ∧ Header.isFree m b.addr = b.flag := by
  obtain ⟨l₁, l₂, rfl⟩ := List.append_of_mem hb
  obtain ⟨r, -, -, hne, hsize, hflag, -⟩ := linked_append.1 h
  exact ⟨hne, hsize, hflag⟩

theorem Linked.head_eq {b : Block} (h : Linked m p (b :: l) q) : p = b.addr := h.1

theorem Linked.eq_zero_iff (h : Linked m p l 0) : p = 0 ↔ l = [] := by
  cases l with
  | nil => simpa [Linked] using h
  | cons b l =>
    have hne : p ≠ 0 := h.1 ▸ h.2.1
    simp [hne]

/-- **The walk determines the list.** -/
theorem Linked.unique {l' : List Block} (h : Linked m p l 0) (h' : Linked m p l' 0) : l = l' := by
  induction l generalizing p l' with
  | nil => exact (h'.eq_zero_iff.1 h).symm
  | cons b l ih =>
    cases l' with
    | nil => exact absurd (h.eq_zero_iff.1 h') (List.cons_ne_nil b l)
    | cons c l' =>
      obtain ⟨rfl, -, hsize, hflag, htail⟩ := h
      obtain ⟨haddr, -, hsize', hflag', htail'⟩ := h'
      have hfree : b.isFree = c.isFree := by
        have hflags : b.flag = c.flag := by rw [← hflag, ← hflag', haddr]
        cases hb : b.isFree <;> cases hc : c.isFree <;> simp_all [Block.flag]
      have hbc : b = c := by
        cases b
        cases c
        simp_all
      rw [hbc, ih htail (hbc ▸ htail')]

/-- The address of the last block passed by a walk, `prev` if there is none. -/
def lastAddr (prev : ℕ) : List Block → ℕ
  | [] => prev
  | b :: l => lastAddr b.addr l

theorem lastAddr_append_singleton (prev : ℕ) (l : List Block) (b : Block) :
    lastAddr prev (l ++ [b]) = b.addr := by
  induction l generalizing prev with
  | nil => rfl
  | cons c l ih => exact ih c.addr

/-- Relinking the last block of a list to `r`. -/
theorem Linked.relink {b : Block} {r : ℕ} (h : Linked m p (l ++ [b]) q)
    (hapart : ∀ c ∈ l, c.HeadersApart b) (hr : r < 2 ^ 64) :
    Linked (Header.setNext m b.addr r) p (l ++ [b]) r := by
  obtain ⟨a, hl, ha, hne, hsize, hflag, -⟩ := linked_append.1 h
  refine linked_append.2 ⟨a, hl.congr fun c hc ↦ Header.set_eqOn ?_, ha, hne, ?_, ?_, ?_⟩
  · exact (hapart c hc).symm
  · rw [← hsize]
    exact Header.get_set_of_ne (by decide)
  · rw [← hflag]
    exact Header.get_set_of_ne (by decide)
  · exact Header.get_set_self (by simpa [Header.Field.width] using hr)

end Linked

/-! ### The search loop -/

section Search

variable {m : ByteMemory} {p q prev size fuel : ℕ}

/-- The test of the search loop, on the fields of the header. -/
theorem fits_iff {b : Block} (hsize : Header.size m b.addr = b.size)
    (hflag : Header.isFree m b.addr = b.flag) :
    (Header.isFree m b.addr ≠ 0 ∧ size + sizeofHeader ≤ Header.size m b.addr) ↔ b.Fits size := by
  rw [hsize, hflag, Block.flag_ne_zero, Block.Fits]

/-- The loop passes the blocks that do not fit. -/
theorem findFit_append (prev : ℕ) {l₁ l₂ : List Block} (h : Linked m p (l₁ ++ l₂) 0)
    (hno : ∀ b ∈ l₁, ¬b.Fits size) (hfuel : l₁.length ≤ fuel) :
    ∃ r, Linked m r l₂ 0 ∧ MemoryState.findFit m (size + sizeofHeader) fuel p prev =
      MemoryState.findFit m (size + sizeofHeader) (fuel - l₁.length) r (lastAddr prev l₁) := by
  induction l₁ generalizing p prev fuel with
  | nil => exact ⟨p, h, rfl⟩
  | cons b l₁ ih =>
    obtain ⟨rfl, hne, hsize, hflag, htail⟩ := h
    have hb : ¬b.Fits size := hno b List.mem_cons_self
    rw [List.length_cons] at hfuel
    obtain ⟨fuel, rfl⟩ := Nat.exists_eq_add_of_le' (show 1 ≤ fuel by omega)
    obtain ⟨r, hr, heq⟩ := ih b.addr htail
      (fun c hc ↦ hno c (List.mem_cons_of_mem b hc)) (show l₁.length ≤ fuel by omega)
    refine ⟨r, hr, ?_⟩
    rw [MemoryState.findFit, if_neg hne, if_neg fun hfit ↦ hb ((fits_iff hsize hflag).1 hfit), heq,
      List.length_cons, lastAddr, Nat.add_sub_add_right]

/-- The search stops at the first block that fits, and remembers the one before. -/
theorem findFit_found (prev : ℕ) {l₁ l₂ : List Block} {b : Block} (h : Linked m p (l₁ ++ b :: l₂) 0)
    (hno : ∀ c ∈ l₁, ¬c.Fits size) (hb : b.Fits size) (hfuel : l₁.length < fuel) :
    MemoryState.findFit m (size + sizeofHeader) fuel p prev =
      some (b.addr, lastAddr prev l₁) := by
  obtain ⟨r, ⟨rfl, hne, hsize, hflag, -⟩, heq⟩ := findFit_append prev h hno hfuel.le
  obtain ⟨k, hk⟩ := Nat.exists_eq_add_of_le' (show 1 ≤ fuel - l₁.length by omega)
  rw [heq, hk, MemoryState.findFit, if_neg hne, if_pos ((fits_iff hsize hflag).2 hb)]

theorem findFit_none (prev : ℕ) {l : List Block} (h : Linked m p l 0) (hno : ∀ b ∈ l, ¬b.Fits size)
    (hfuel : l.length < fuel) :
    MemoryState.findFit m (size + sizeofHeader) fuel p prev = some (0, lastAddr prev l) := by
  obtain ⟨r, hr, heq⟩ := findFit_append prev
    (show Linked m p (l ++ []) 0 from (List.append_nil l).symm ▸ h) hno hfuel.le
  obtain ⟨k, hk⟩ := Nat.exists_eq_add_of_le' (show 1 ≤ fuel - l.length by omega)
  rw [heq, hk, MemoryState.findFit, if_pos (show r = 0 from hr)]

end Search

/-! ### Splitting a block in memory

The writes of `split` in the order of the source: the header of the rest, then the size and the link
of the block. They stay inside the block. -/

section Split

variable {m : ByteMemory} {b : Block} {size r : ℕ} {next : ByteMemory → ℕ}

/-- Splitting writes only inside the block. -/
theorem split_eqOn {s : Set ℕ} (hsize : Header.size m b.addr = b.size) (hstop : b.stop ≤ 2 ^ 64)
    (hs : Disjoint b.extent s) : Set.EqOn (MemoryState.split m b.addr size next) m s := by
  rw [MemoryState.split, hsize]
  split
  case isFalse => exact fun _ _ ↦ rfl
  case isTrue hlt =>
    have hnew : u64 (b.addr + (size + sizeofHeader)) = b.addr + (size + sizeofHeader) := by
      refine u64_of_lt ?_
      simp only [Block.stop, sizeofHeader] at hstop hlt ⊢
      omega
    have hold : Disjoint (Header.bytes b.addr) s :=
      Set.disjoint_of_subset_left b.headerBytes_subset hs
    have hrest : Disjoint (Header.bytes (b.addr + (size + sizeofHeader))) s := by
      refine Set.disjoint_of_subset_left (fun x hx ↦ ?_) hs
      have hlo := hx.1
      have hhi := hx.2
      refine ⟨by omega, hhi.trans_le ?_⟩
      simp only [Block.stop]
      omega
    rw [hnew]
    exact ((((Header.set_eqOn hold).trans (Header.set_eqOn hold)).trans
      (Header.set_eqOn hrest)).trans (Header.set_eqOn hrest)).trans (Header.set_eqOn hrest)

/-- **Splitting lays out the carved block**, once the flag of its first half is cleared. -/
theorem linked_carve (hne : b.addr ≠ 0) (hsize : Header.size m b.addr = b.size)
    (hstop : b.stop ≤ 2 ^ 64) (hkeep : Header.next m b.addr = r)
    (hnext : ∀ v, next (Header.setSize m (b.addr + (size + sizeofHeader)) v) = r) :
    Linked (Header.setIsFree (MemoryState.split m b.addr size next) b.addr 0) b.addr
      (b.carve size) r := by
  have hr : r < 2 ^ 64 := hkeep ▸ Header.get_lt_two_pow
  have hclear : ∀ M : ByteMemory, Header.isFree (Header.setIsFree M b.addr 0) b.addr = 0 :=
    fun M ↦ Header.get_set_self (by decide)
  simp only [Block.stop, sizeofHeader] at hstop
  rw [Block.carve, MemoryState.split, hsize]
  split
  case isTrue hlt =>
    simp only [sizeofHeader] at hlt
    have hnew : u64 (b.addr + (size + sizeofHeader)) = b.addr + (size + sizeofHeader) := by
      refine u64_of_lt ?_
      simp only [sizeofHeader]
      omega
    have hapart : b.addr + sizeofHeader ≤ b.addr + (size + sizeofHeader) := by omega
    have hnext_lt : b.addr + (size + sizeofHeader) < 2 ^ 64 := hnew ▸ u64_lt _
    have hsize_lt : size < 2 ^ 64 := by omega
    have hrest_lt : b.size - (size + sizeofHeader) < 2 ^ 64 := by omega
    simp only [hnew, hnext]
    refine ⟨rfl, hne, ?_, hclear _, ?_⟩
    · show Header.get .size _ b.addr = size
      rw [Header.get_set_of_ne (by decide), Header.get_set_of_ne (by decide),
        Header.get_set_self hsize_lt]
    · have hlink : ∀ M : ByteMemory, Header.next (Header.setIsFree
          (Header.setNext M b.addr (b.addr + (size + sizeofHeader))) b.addr 0) b.addr =
            b.addr + (size + sizeofHeader) := fun M ↦
        (Header.get_set_of_ne (by decide)).trans (Header.get_set_self hnext_lt)
      rw [hlink]
      refine ⟨rfl, by simp only [sizeofHeader]; omega, ?_, ?_, ?_⟩
      · show Header.get .size _ (b.addr + (size + sizeofHeader)) = _
        rw [Header.get_set_of_apart (Or.inr hapart), Header.get_set_of_apart (Or.inr hapart),
          Header.get_set_of_apart (Or.inr hapart), Header.get_set_of_ne (by decide),
          Header.get_set_of_ne (by decide), Header.get_set_self hrest_lt]
      · show Header.get .isFree _ (b.addr + (size + sizeofHeader)) = 1
        rw [Header.get_set_of_apart (Or.inr hapart), Header.get_set_of_apart (Or.inr hapart),
          Header.get_set_of_apart (Or.inr hapart), Header.get_set_self (by decide)]
      · show Header.get .next _ (b.addr + (size + sizeofHeader)) = r
        rw [Header.get_set_of_apart (Or.inr hapart), Header.get_set_of_apart (Or.inr hapart),
          Header.get_set_of_apart (Or.inr hapart), Header.get_set_of_ne (by decide),
          Header.get_set_self hr]
  case isFalse =>
    exact ⟨rfl, hne, (Header.get_set_of_ne (by decide)).trans hsize, hclear _,
      (Header.get_set_of_ne (by decide)).trans hkeep⟩

/-- Splitting does not look at the flag of the block. -/
theorem split_isFree {m : ByteMemory} {b : Block} {next : ByteMemory → ℕ}
    (hsize : Header.size m b.addr = b.size) (hstop : b.stop ≤ 2 ^ 64) :
    Header.isFree (MemoryState.split m b.addr size next) b.addr = Header.isFree m b.addr := by
  rw [MemoryState.split, hsize]
  split
  case isFalse => rfl
  case isTrue hlt =>
    have hnew : u64 (b.addr + (size + sizeofHeader)) = b.addr + (size + sizeofHeader) := by
      refine u64_of_lt ?_
      simp only [Block.stop, sizeofHeader] at hstop hlt ⊢
      omega
    have hapart : b.addr + sizeofHeader ≤ b.addr + (size + sizeofHeader) := by omega
    rw [hnew]
    show Header.get .isFree _ b.addr = _
    rw [Header.get_set_of_ne (by decide), Header.get_set_of_ne (by decide),
      Header.get_set_of_apart (Or.inl hapart), Header.get_set_of_apart (Or.inl hapart),
      Header.get_set_of_apart (Or.inl hapart)]

/-- Splitting a block whose flag is clear already. -/
theorem linked_carve_of_used (hne : b.addr ≠ 0) (hsize : Header.size m b.addr = b.size)
    (hstop : b.stop ≤ 2 ^ 64) (hkeep : Header.next m b.addr = r)
    (hnext : ∀ v, next (Header.setSize m (b.addr + (size + sizeofHeader)) v) = r)
    (hflag : Header.isFree m b.addr = 0) :
    Linked (MemoryState.split m b.addr size next) b.addr (b.carve size) r := by
  have hsame : Header.setIsFree (MemoryState.split m b.addr size next) b.addr 0 =
      MemoryState.split m b.addr size next :=
    Header.set_get_self ((split_isFree hsize hstop).trans hflag)
  rw [← hsame]
  exact linked_carve hne hsize hstop hkeep hnext

/-- The header of a fresh page, before the block is split. -/
theorem freshPage_header {page last : ℕ}
    (hapart : Disjoint (Header.bytes last) (Header.bytes page)) {m' : ByteMemory}
    (hm' : m' = Header.setNext (Header.setIsFree (Header.setNext (Header.setSize m page
      (page2MSize - sizeofHeader)) page 0) page 0) last page) :
    Header.size m' page = (BlockHeap.pageBlock page).size ∧ Header.next m' page = 0 ∧
      Header.isFree m' page = 0 := by
  have hfields : ∀ f, Header.get f m' page = Header.get f (Header.setIsFree (Header.setNext
      (Header.setSize m page (page2MSize - sizeofHeader)) page 0) page 0) page := by
    intro f
    rw [hm']
    exact Header.get_congr (Header.set_eqOn hapart)
  refine ⟨?_, ?_, ?_⟩
  · refine (hfields .size).trans ?_
    rw [Header.get_set_of_ne (by decide), Header.get_set_of_ne (by decide),
      Header.get_set_self (by decide), BlockHeap.pageBlock]
  · exact ((hfields .next).trans (Header.get_set_of_ne (by decide))).trans
      (Header.get_set_self (by decide))
  · exact (hfields .isFree).trans (Header.get_set_self (by decide))

/-- Laying out a fresh page writes only on the page and in the last header. -/
theorem layFreshPage_eqOn {page last : ℕ} {s : Set ℕ} (hne : last ≠ 0)
    (hapart : Disjoint (Header.bytes last) (BlockHeap.pageBlock page).extent)
    (hstop : (BlockHeap.pageBlock page).stop ≤ 2 ^ 64)
    (hs : Disjoint (BlockHeap.pageBlock page).extent s) (hlast : Disjoint (Header.bytes last) s) :
    Set.EqOn (MemoryState.layFreshPage m last page size) m s := by
  have hpage : Header.bytes page ⊆ (BlockHeap.pageBlock page).extent :=
    (BlockHeap.pageBlock page).headerBytes_subset
  have hheader : Disjoint (Header.bytes page) s := Set.disjoint_of_subset_left hpage hs
  obtain ⟨hsize, -, -⟩ := freshPage_header (m := m)
    (Set.disjoint_of_subset_right hpage hapart) rfl
  rw [MemoryState.layFreshPage]
  simp only [if_pos hne]
  exact ((((split_eqOn (b := BlockHeap.pageBlock page) hsize hstop hs).trans
    (Header.set_eqOn hlast)).trans (Header.set_eqOn hheader)).trans
    (Header.set_eqOn hheader)).trans (Header.set_eqOn hheader)

/-- **A fresh page is appended to a non-empty list**, carved. -/
theorem linked_layFreshPage {page head : ℕ} {l : List Block} {last : Block}
    (hlinked : Linked m head (l ++ [last]) 0)
    (hapart : (l ++ [last]).Pairwise Block.HeadersApart)
    (hbeside : ∀ c ∈ l ++ [last],
      Disjoint (BlockHeap.pageBlock page).extent (Header.bytes c.addr))
    (hpos : page ≠ 0) (hstop : (BlockHeap.pageBlock page).stop ≤ 2 ^ 64) :
    Linked (MemoryState.layFreshPage m last.addr page size) head
      (l ++ [last] ++ (BlockHeap.pageBlock page).carve size) 0 := by
  have hpage : Header.bytes page ⊆ (BlockHeap.pageBlock page).extent :=
    (BlockHeap.pageBlock page).headerBytes_subset
  have hlastNe : last.addr ≠ 0 := by
    obtain ⟨_, -, -, hne, -⟩ := linked_append.1 hlinked
    exact hne
  have hlastApart : Disjoint (Header.bytes last.addr) (Header.bytes page) :=
    (Set.disjoint_of_subset_left hpage (hbeside last (by simp))).symm
  have hpage_lt : page < 2 ^ 64 := (BlockHeap.pageBlock page).addr_lt_stop.trans_le hstop
  obtain ⟨hsize, hnext, hflag⟩ := freshPage_header (m := m) hlastApart rfl
  rw [MemoryState.layFreshPage]
  simp only [if_pos hlastNe]
  refine linked_append.2 ⟨page, ?_, ?_⟩
  · have hheader : Linked (Header.setIsFree (Header.setNext (Header.setSize m page
        (page2MSize - sizeofHeader)) page 0) page 0) head (l ++ [last]) 0 := by
      refine hlinked.congr fun c hc ↦ ?_
      have hc : Disjoint (Header.bytes page) (Header.bytes c.addr) :=
        Set.disjoint_of_subset_left hpage (hbeside c hc)
      exact ((Header.set_eqOn hc).trans (Header.set_eqOn hc)).trans (Header.set_eqOn hc)
    refine (hheader.relink (fun c hc ↦ ?_) hpage_lt).congr fun c hc ↦ ?_
    · exact (List.pairwise_append.1 hapart).2.2 c hc last (by simp)
    · exact split_eqOn (b := BlockHeap.pageBlock page) hsize hstop (hbeside c hc)
  · exact linked_carve_of_used (b := BlockHeap.pageBlock page) hpos hsize hstop hnext
      (fun _ ↦ rfl) hflag

end Split

/-! ### The coalescing loop

One turn merges two headers or moves on, and each turn of the loop is one comparison of the pass
over the list. The fuel is never used up, since a turn leaves one block fewer to look at. -/

section Merge

/-- The bytes of the headers of a list. -/
def headerRegion (l : List Block) : Set ℕ := region (fun b ↦ Header.bytes b.addr) l

/-- The header of a block of the list is among the headers. -/
theorem subset_headerRegion {l : List Block} {b : Block} (hb : b ∈ l) :
    Header.bytes b.addr ⊆ headerRegion l :=
  @subset_region _ (fun b ↦ Header.bytes b.addr) _ _ hb

/-- One merge: the left header gets the joint size and the right one's link. -/
theorem linked_merge {m : ByteMemory} {a b : Block} {l : List Block}
    (hlinked : Linked m a.addr (a :: b :: l) 0) (hapart : ∀ c ∈ b :: l, a.HeadersApart c)
    (hlt : (a.merge b).size < 2 ^ 64) :
    Linked (Header.setNext (Header.setSize m a.addr (a.merge b).size) a.addr
      (Header.next m b.addr)) a.addr (a.merge b :: l) 0 := by
  obtain ⟨-, hane, -, haflag, -, -, -, -, htail⟩ := hlinked
  have hlink : Header.next (Header.setNext (Header.setSize m a.addr (a.merge b).size) a.addr
      (Header.next m b.addr)) a.addr = Header.next m b.addr :=
    Header.get_set_self Header.get_lt_two_pow
  refine ⟨rfl, hane, ?_, ?_, ?_⟩
  · exact (Header.get_set_of_ne (by decide)).trans (Header.get_set_self hlt)
  · exact (Header.get_set_of_ne (by decide)).trans
      ((Header.get_set_of_ne (by decide)).trans haflag)
  · show Linked _ (Header.next _ a.addr) l 0
    rw [hlink]
    refine htail.congr fun c hc ↦ ?_
    have hac : a.HeadersApart c := hapart c (List.mem_cons_of_mem b hc)
    exact (Header.set_eqOn hac).trans (Header.set_eqOn hac)

/-- **The coalescing loop computes `coalesce`.** It returns when its bound exceeds the length of the
list, and it writes nothing but headers. -/
theorem mergeLoop_spec {m : ByteMemory} {a : Block} {l : List Block} {fuel : ℕ}
    (hlinked : Linked m a.addr (a :: l) 0) (hapart : (a :: l).Pairwise Block.HeadersApart)
    (hsum : ((a :: l).map fun b ↦ sizeofHeader + b.size).sum < 2 ^ 64) (hfuel : l.length < fuel) :
    ∃ m', MemoryState.mergeLoop fuel m a.addr = some m' ∧
      Linked m' a.addr (coalesceFrom Block.bothFree Block.merge a l) 0 ∧
      ∀ s, Disjoint (headerRegion (a :: l)) s → Set.EqOn m' m s := by
  induction l generalizing m a fuel with
  | nil =>
    obtain ⟨fuel, rfl⟩ := Nat.exists_eq_add_of_le' (show 1 ≤ fuel from hfuel)
    refine ⟨m, ?_, hlinked, fun _ _ _ _ ↦ rfl⟩
    rw [MemoryState.mergeLoop, if_pos (Or.inr (show Header.next m a.addr = 0 from hlinked.2.2.2.2))]
  | cons b l ih =>
    obtain ⟨-, hane, hasize, haflag, hnext, hbne, hbsize, hbflag, htail⟩ := hlinked
    rw [List.length_cons] at hfuel
    obtain ⟨fuel, rfl⟩ := Nat.exists_eq_add_of_le' (show 1 ≤ fuel by omega)
    have hboth : (Header.isFree m a.addr ≠ 0 ∧ Header.isFree m (Header.next m a.addr) ≠ 0) ↔
        Block.bothFree a b = true := by
      rw [hnext, haflag, hbflag, Block.flag_ne_zero, Block.flag_ne_zero]
      simp [Block.bothFree]
    have hgo : ¬(a.addr = 0 ∨ Header.next m a.addr = 0) := by
      rw [hnext]
      exact not_or.2 ⟨hane, hbne⟩
    have hapartAll := List.pairwise_cons.1 hapart
    rw [MemoryState.mergeLoop, if_neg hgo]
    by_cases hfree : Block.bothFree a b = true
    · rw [if_pos (hboth.2 hfree), coalesceFrom, if_pos hfree, hnext, hasize, hbsize]
      simp only [List.map_cons, List.sum_cons] at hsum
      have hmerged : u64 (u64 (a.size + sizeofHeader) + b.size) = (a.merge b).size := by
        rw [u64_of_lt (show a.size + sizeofHeader < 2 ^ 64 by omega), u64_of_lt (by omega)]
        rfl
      simp only [hmerged]
      have hab := hapartAll.1 b List.mem_cons_self
      -- reading the link past `b` does not see the new size of `a`
      have hlink : Header.next (Header.setSize m a.addr (a.merge b).size) b.addr =
          Header.next m b.addr := Header.get_congr (Header.set_eqOn hab)
      rw [show Header.next (Header.setSize m a.addr (a.merge b).size) a.addr = b.addr from
        (Header.get_set_of_ne (by decide)).trans hnext, hlink]
      have hmergedLinked := linked_merge (b := b)
        ⟨rfl, hane, hasize, haflag, hnext, hbne, hbsize, hbflag, htail⟩ hapartAll.1
        (hmerged ▸ u64_lt _)
      have hmergedApart : (a.merge b :: l).Pairwise Block.HeadersApart :=
        List.pairwise_cons.2 ⟨fun c hc ↦ hapartAll.1 c (List.mem_cons_of_mem b hc),
          (List.pairwise_cons.1 hapartAll.2).2⟩
      have hmergedSum : ((a.merge b :: l).map fun b ↦ sizeofHeader + b.size).sum < 2 ^ 64 := by
        simp only [List.map_cons, List.sum_cons, Block.merge]
        omega
      obtain ⟨m', hloop, hlinked', hframe⟩ :=
        ih hmergedLinked hmergedApart hmergedSum (show l.length < fuel by omega)
      refine ⟨m', hloop, hlinked', fun s hs ↦ (hframe s ?_).trans ?_⟩
      · refine Set.disjoint_of_subset_left (region_subset_iff.2 fun c hc ↦ ?_) hs
        rcases List.mem_cons.1 hc with rfl | hc
        · exact subset_headerRegion (b := a) List.mem_cons_self
        · exact subset_headerRegion (List.mem_cons_of_mem a (List.mem_cons_of_mem b hc))
      · have hbytes : Disjoint (Header.bytes a.addr) s :=
          Set.disjoint_of_subset_left (subset_headerRegion List.mem_cons_self) hs
        exact (Header.set_eqOn hbytes).trans (Header.set_eqOn hbytes)
    · rw [if_neg fun h ↦ hfree (hboth.1 h), coalesceFrom, if_neg hfree, hnext]
      have htailSum : ((b :: l).map fun b ↦ sizeofHeader + b.size).sum < 2 ^ 64 := by
        simp only [List.map_cons, List.sum_cons] at hsum ⊢
        omega
      obtain ⟨m', hloop, hlinked', hframe⟩ := ih ⟨rfl, hbne, hbsize, hbflag, htail⟩ hapartAll.2
        htailSum (show l.length < fuel by omega)
      have hhead : Set.EqOn m' m (Header.bytes a.addr) := by
        refine hframe _ (Set.disjoint_iUnion₂_left.2 fun c hc ↦ ?_)
        exact (hapartAll.1 c hc).symm
      refine ⟨m', hloop, ⟨rfl, hane, ?_, ?_, ?_⟩, fun s hs ↦ hframe s ?_⟩
      · exact (Header.get_congr hhead).trans hasize
      · exact (Header.get_congr hhead).trans haflag
      · rw [show Header.next m' a.addr = b.addr from (Header.get_congr hhead).trans hnext]
        exact hlinked'
      · refine Set.disjoint_of_subset_left (region_subset_iff.2 fun c hc ↦ ?_) hs
        exact subset_headerRegion (List.mem_cons_of_mem a hc)

/-- On a list without free neighbours the loop writes nothing. -/
theorem mergeLoop_eq_self {m : ByteMemory} {p fuel : ℕ} {l : List Block} (hlinked : Linked m p l 0)
    (hno : l.IsChain fun a b ↦ Block.bothFree a b = false) (hfuel : l.length < fuel) :
    MemoryState.mergeLoop fuel m p = some m := by
  induction l generalizing p fuel with
  | nil =>
    obtain ⟨fuel, rfl⟩ := Nat.exists_eq_add_of_le' (show 1 ≤ fuel from hfuel)
    rw [MemoryState.mergeLoop, if_pos (Or.inl (show p = 0 from hlinked))]
  | cons a l ih =>
    obtain ⟨rfl, -, -, haflag, htail⟩ := hlinked
    rw [List.length_cons] at hfuel
    obtain ⟨fuel, rfl⟩ := Nat.exists_eq_add_of_le' (show 1 ≤ fuel by omega)
    rw [MemoryState.mergeLoop]
    split
    case isTrue => rfl
    case isFalse hgo =>
      cases l with
      | nil => exact absurd (Or.inr (show Header.next m a.addr = 0 from htail)) hgo
      | cons b l =>
        have hab := (List.isChain_cons_cons.1 hno).1
        rw [if_neg fun hboth ↦ ?_]
        · exact ih htail hno.tail (by omega)
        · obtain ⟨ha, hb⟩ := hboth
          rw [haflag, Block.flag_ne_zero] at ha
          rw [htail.1, htail.2.2.2.1, Block.flag_ne_zero] at hb
          rw [Block.bothFree, ha, hb] at hab
          cases hab

/-- The coalescing loop from the head of a list. -/
theorem mergeLoop_coalesce {m : ByteMemory} {p fuel : ℕ} {l : List Block}
    (hlinked : Linked m p l 0) (hapart : l.Pairwise Block.HeadersApart)
    (hsum : (l.map fun b ↦ sizeofHeader + b.size).sum < 2 ^ 64) (hfuel : l.length < fuel) :
    ∃ m', MemoryState.mergeLoop fuel m p = some m' ∧
      Linked m' p (coalesce Block.bothFree Block.merge l) 0 ∧
      ∀ s, Disjoint (headerRegion l) s → Set.EqOn m' m s := by
  cases l with
  | nil =>
    obtain ⟨fuel, rfl⟩ := Nat.exists_eq_add_of_le' (show 1 ≤ fuel from hfuel)
    refine ⟨m, ?_, hlinked, fun _ _ _ _ ↦ rfl⟩
    rw [MemoryState.mergeLoop, if_pos (Or.inl (show p = 0 from hlinked))]
  | cons a l =>
    obtain rfl := hlinked.head_eq
    rw [List.length_cons] at hfuel
    exact mergeLoop_spec hlinked hapart hsum (by omega)

end Merge

end LightNight
