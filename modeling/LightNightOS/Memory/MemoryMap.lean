import LightNightOS.Foundation.RecordLayout
import LightNightOS.Memory.PageTables

/-!
# The memory map, from the firmware to the kernel

`read_e820` of `boot.asm` stores the entries that the firmware reports, one behind the other, and
`init_memory_map` reads them. The count goes wrong on the way: `mov ecx, 20` is inside the loop, so
the boot loader always stores 21, and the kernel does not look at it. It stops before an entry whose
type is past 4 or whose length is 0, though the firmware may report such a type, and nothing writes
such an entry behind the last one.

* `memoryMap_agrees_iff` — the kernel has the reported entries exactly if the types from the second
  on are at most 4 and what happens to be behind the last entry makes it stop.
* `readLoop_leaves` — the loop of the boot loader, for any number of entries;
* `mapLoop_length_eq_iff`, `mapLoop_e820` — where the loop of the kernel stops, and what it has read
  by then;
* `faulty_entry_lost` — a map with an entry of type 5.
-/

namespace LightNight

/-! ### `struct E820` in memory -/

/-- The fields of `struct E820`. -/
inductive E820Field
  | address
  | length
  | type
  deriving DecidableEq, Repr

/-- `struct E820`, packed. -/
def structE820 : RecordLayout E820Field where
  offset
    | .address => 0
    | .length => 8
    | .type => 16
  width
    | .address => 8
    | .length => 8
    | .type => 4
  size := 20
  inside f := by cases f <;> decide
  apart f g := by cases f <;> cases g <;> decide

/-- The entry at an address. -/
def entryAt (m : ByteMemory) (p : ℕ) : E820 :=
  ⟨structE820.get .address m p, structE820.get .length m p, structE820.get .type m p⟩

/-- Store an entry. -/
def storeEntry (m : ByteMemory) (p : ℕ) (e : E820) : ByteMemory :=
  structE820.set .type (structE820.set .length (structE820.set .address m p e.address) p e.length) p
    e.type

/-- An entry that the firmware can report: its fields fit, and it is not empty. -/
structure E820.Reported (e : E820) : Prop where
  address : e.address < 2 ^ 64
  length : e.length < 2 ^ 64
  type : e.type < 2 ^ 32
  length_pos : 0 < e.length

/-! ### `read_e820` -/

/-- `E820_BUF` -/
def e820Buf : ℕ := 0x5000

/-- `E820_COUNT` -/
def e820Count : ℕ := 0x4ffc

/-- `E820_MAX_ENTRIES` -/
def e820MaxEntries : ℕ := 32

/-- `'SMAP'` -/
def smap : ℕ := 0x534d4150

/-- What `int 0x15` comes back with: the carry flag, three registers, and the entry it stored at
`es:di` if it did not fail. -/
structure BiosReply where
  carry : Bool
  eax : ℕ
  ebx : ℕ
  ecx : ℕ
  entry : E820

/-- `.read_loop`, with memory and `ecx` at `.done`. A firmware with no more replies fails. -/
def readLoop : List BiosReply → ByteMemory → ℕ → ByteMemory × ℕ
  | [], m, di => (m.store ((di + 20) % 2 ^ 16) 4 1, 20)
  | r :: replies, m, di =>
    let m := m.store ((di + 20) % 2 ^ 16) 4 1
    if r.carry then (m, r.ecx)
    else
      let m := storeEntry m di r.entry
      if r.eax ≠ smap then (m, r.ecx)
      else
        let ecx := u32 (r.ecx + 1)
        let di := (di + 20) % 2 ^ 16
        -- `jge` compares signed
        if e820MaxEntries ≤ ecx ∧ ecx < 2 ^ 31 then (m, ecx)
        else if r.ebx ≠ 0 then readLoop replies m di
        else (m, ecx)

/-- `read_e820` on physical memory. -/
def readE820 (replies : List BiosReply) (m : ByteMemory) : ByteMemory :=
  let (m, ecx) := readLoop replies m e820Buf
  m.store e820Count 4 ecx

/-- The reply delivers the entry. -/
structure BiosReply.Delivers (r : BiosReply) (e : E820) : Prop where
  carry : r.carry = false
  eax : r.eax = smap
  ecx : r.ecx = 20
  entry : r.entry = e

/-- The replies deliver the entries, the last one with `ebx = 0`. -/
def Deliver : List BiosReply → List E820 → Prop
  | [], [] => True
  | r :: replies, e :: entries =>
    r.Delivers e ∧ (r.ebx = 0 ↔ entries = []) ∧ Deliver replies entries
  | _, _ => False

/-! ### `init_memory_map` -/

/-- What the kernel sees at an address, through the tables of the boot loader. -/
def kernelView (m : ByteMemory) : ByteMemory := fun v ↦ (BootTables.translate v).elim 0 m

/-- `memory_management_struct`, as far as the map goes, and `TotalMem`. -/
structure MapState where
  e820 : ℕ → E820
  e820Length : ℕ
  totalMem : ℕ

/-- The first loop, from entry `i` at `p` on, with `k` more turns. -/
def mapLoop (m : ByteMemory) : ℕ → ℕ → ℕ → MapState → MapState
  | 0, _, _, st => st
  | k + 1, i, p, st =>
    let e := entryAt m p
    let st : MapState :=
      { e820 := Function.update st.e820 i e
        e820Length := i + 1
        totalMem := if e.type = 1 then u64 (st.totalMem + e.length) else st.totalMem }
    let p := p + structE820.size
    if 4 < (entryAt m p).type ∨ (entryAt m p).length = 0 then st else mapLoop m k (i + 1) p st

/-- One turn of the second loop. -/
def totalEntry (totalMem : ℕ) (e : E820) : ℕ :=
  if e.type ≠ 1 then totalMem
  else
    let start := page2MAlign e.address
    let stop := page2MFloor (u64 (e.address + e.length))
    if stop ≤ start then totalMem
    else u64 (totalMem + (stop - start) >>> page2MShift)

/-- The second loop: the number of frames, which is printed. -/
def totalFrames (entries : List E820) : ℕ := entries.foldl totalEntry 0

/-- `init_memory_map`: the map it stores and the number of frames it prints. -/
def initMemoryMap (m : ByteMemory) (e820 : ℕ → E820) : MapState × ℕ :=
  let st := mapLoop m 32 0 0xffff800000005000 ⟨e820, 0, 0⟩
  (st, totalFrames ((List.range st.e820Length).map st.e820))

/-- The map holds the entries, in order. -/
def MapState.Agrees (st : MapState) (entries : List E820) : Prop :=
  st.e820Length = entries.length ∧ ∀ (i : ℕ) (h : i < entries.length), st.e820 i = entries[i]

/-- The reader stops before this entry. -/
def E820.Stops (e : E820) : Prop := 4 < e.type ∨ e.length = 0

instance (e : E820) : Decidable e.Stops := inferInstanceAs (Decidable (_ ∨ _))

/-! ### What the boot loader leaves

After `k` turns the first `k` entries are in the buffer, in order, and everything beyond the count
and the buffer is as it was. -/

variable {m m' : ByteMemory} {p q : ℕ} {e : E820}

/-- An entry reads back. -/
theorem entryAt_storeEntry (he : e.Reported) : entryAt (storeEntry m p e) p = e := by
  rw [entryAt, storeEntry, structE820.get_set_of_ne (by decide),
    structE820.get_set_of_ne (by decide), structE820.get_set_self he.address,
    structE820.get_set_of_ne (by decide), structE820.get_set_self he.length,
    structE820.get_set_self he.type]

theorem get_storeEntry {f : E820Field} (hpq : p + structE820.size ≤ q ∨ q + structE820.size ≤ p) :
    structE820.get f (storeEntry m p e) q = structE820.get f m q := by
  rw [storeEntry, structE820.get_set_of_apart hpq, structE820.get_set_of_apart hpq,
    structE820.get_set_of_apart hpq]

/-- The buffer's element `i`. -/
def bufEntry (i : ℕ) : ℕ := structE820.element e820Buf i

/-- What the loop leaves: the entries at their place, what is before them, and behind them
everything but an address, which is marked. -/
structure LoopLeaves (m : ByteMemory) (k : ℕ) (entries : List E820) (m' : ByteMemory) : Prop where
  before : ∀ i < k, entryAt m' (bufEntry i) = entryAt m (bufEntry i)
  stored : ∀ (i : ℕ) (h : i < entries.length), entryAt m' (bufEntry (k + i)) = entries[i]
  behind : ∀ i, k + entries.length ≤ i → ∀ f, f ≠ .address →
    structE820.get f m' (bufEntry i) = structE820.get f m (bufEntry i)

/-- The entries follow each other from the buffer on. -/
theorem bufEntry_eq (i : ℕ) : bufEntry i = 0x5000 + i * 20 := rfl

/-- The loop goes on where it was. -/
theorem LoopLeaves.append {k : ℕ} {entries : List E820} {m'' : ByteMemory}
    (h : LoopLeaves m k [e] m') (h' : LoopLeaves m' (k + 1) entries m'') :
    LoopLeaves m k (e :: entries) m'' := by
  refine ⟨fun i hi ↦ ?_, fun i hi ↦ ?_, fun i hi f hf ↦ ?_⟩
  · rw [h'.before i (by omega), h.before i hi]
  · cases i with
    | zero =>
      rw [Nat.add_zero, h'.before k (by omega)]
      exact h.stored 0 Nat.one_pos
    | succ i =>
      rw [List.length_cons] at hi
      have hadd : k + (i + 1) = k + 1 + i := by omega
      rw [hadd, h'.stored i (by omega), List.getElem_cons_succ]
  · rw [List.length_cons] at hi
    rw [h'.behind i (by omega) f hf, h.behind i (by rw [List.length_singleton]; omega) f hf]

/-- One turn leaves the other entries, but for the address of the next one. -/
theorem get_turn (m : ByteMemory) (e : E820) {i k : ℕ} (hik : i ≠ k) {f : E820Field}
    (hf : i ≠ k + 1 ∨ f ≠ .address) :
    structE820.get f (storeEntry (m.store (bufEntry k + 20) 4 1) (bufEntry k) e) (bufEntry i) =
      structE820.get f m (bufEntry i) := by
  have hsize : structE820.size = 20 := rfl
  have hinside := structE820.inside f
  have hoffset : f ≠ .address → 8 ≤ structE820.offset f := by cases f <;> simp [structE820]
  rw [get_storeEntry (by rw [hsize, bufEntry_eq, bufEntry_eq]; omega)]
  refine ByteMemory.load_store_of_disjoint ?_
  rw [bufEntry_eq, bufEntry_eq]
  rcases hf with hf | hf
  · omega
  · have := hoffset hf
    omega

/-- One turn of the loop: the mark behind the entry, then the entry. -/
theorem loopLeaves_one (he : e.Reported) (m : ByteMemory) (k : ℕ) :
    LoopLeaves m k [e] (storeEntry (m.store (bufEntry k + 20) 4 1) (bufEntry k) e) := by
  refine ⟨fun i hi ↦ ?_, fun i hi ↦ ?_, fun i hi f hf ↦ ?_⟩
  · have hturn := fun f ↦ get_turn m e (i := i) (k := k) (by omega) (f := f) (Or.inl (by omega))
    rw [entryAt, entryAt, hturn, hturn, hturn]
  · rw [List.length_singleton, Nat.lt_one_iff] at hi
    subst hi
    exact entryAt_storeEntry he
  · rw [List.length_singleton] at hi
    exact get_turn m e (by omega) (Or.inr hf)

/-- **The loop stores the entries**, from the buffer's element `k` on. -/
theorem readLoop_leaves {replies : List BiosReply} {entries : List E820}
    (hdeliver : Deliver replies entries) (hreported : ∀ e ∈ entries, e.Reported)
    (hne : entries ≠ []) {k : ℕ} (hk : k + entries.length ≤ 31) (m : ByteMemory) :
    LoopLeaves m k entries (readLoop replies m (bufEntry k)).1 := by
  induction entries generalizing replies k m with
  | nil => exact absurd rfl hne
  | cons e entries ih =>
    cases replies with
    | nil => exact absurd hdeliver id
    | cons r replies =>
      obtain ⟨hr, hebx, hdeliver⟩ := hdeliver
      rw [List.length_cons] at hk
      have hone := loopLeaves_one (hreported e List.mem_cons_self) m k
      have hecx : ¬(e820MaxEntries ≤ u32 (r.ecx + 1) ∧ u32 (r.ecx + 1) < 2 ^ 31) := by
        rw [hr.ecx]
        decide
      have hdi : (bufEntry k + 20) % 2 ^ 16 = bufEntry k + 20 := by
        rw [bufEntry_eq]
        omega
      have hnext : bufEntry (k + 1) = bufEntry k + 20 := by
        rw [bufEntry_eq, bufEntry_eq]
        omega
      rw [readLoop]
      simp only [hr.carry, hr.eax, hr.entry, hdi, if_neg hecx]
      simp only [Bool.false_eq_true, if_false, ne_eq, not_true_eq_false]
      by_cases hlast : entries = []
      · rw [if_neg (not_not.2 (hebx.2 hlast)), hlast]
        exact hone
      · rw [if_pos (mt hebx.1 hlast)]
        have hrest := ih hdeliver (fun e' h ↦ hreported e' (List.mem_cons_of_mem e h)) hlast
          (k := k + 1) (by omega) (storeEntry (m.store (bufEntry k + 20) 4 1) (bufEntry k) e)
        rw [hnext] at hrest
        exact hone.append hrest

/-! ### What the kernel reads

The kernel reads the low memory at its virtual address. It takes the first entry without a look, and
each further one if the test of its type and length lets it. -/

/-- The first GB of physical memory, through the upper range of the tables. -/
theorem kernelView_add {x : ℕ} (hx : x < 2 ^ 30) (m : ByteMemory) :
    kernelView m (pageOffset + x) = m x := by
  have htranslate : BootTables.translate (pageOffset + x) = some x := by
    rw [BootTables.translate_eq_some_iff (by rw [pageOffset]; omega), pageOffset]
    omega
  rw [kernelView, htranslate]
  rfl

/-- The pointer `p` in turn `i`. -/
def kernelEntry (i : ℕ) : ℕ := pageOffset + bufEntry i

theorem kernelEntry_succ (i : ℕ) : kernelEntry i + structE820.size = kernelEntry (i + 1) := by
  rw [kernelEntry, kernelEntry, bufEntry_eq, bufEntry_eq, show structE820.size = 20 from rfl]
  omega

/-- The kernel sees the buffer. -/
theorem entryAt_kernelView {i : ℕ} (hi : i ≤ 32) (m : ByteMemory) :
    entryAt (kernelView m) (kernelEntry i) = entryAt m (bufEntry i) := by
  have hget : ∀ f, structE820.get f (kernelView m) (kernelEntry i) =
      structE820.get f m (bufEntry i) := by
    intro f
    have hinside := structE820.inside f
    rw [show structE820.size = 20 from rfl] at hinside
    refine LittleEndian.decode_congr fun x hx ↦ ?_
    rw [kernelEntry, Nat.add_assoc, Nat.add_assoc, kernelView_add (by rw [bufEntry_eq]; omega),
      Nat.add_assoc]
  rw [entryAt, entryAt, hget, hget, hget]

variable {st : MapState} {k i n : ℕ}

/-- The loop looks at the entry behind the one it has just read. -/
theorem mapLoop_succ (m : ByteMemory) (k i p : ℕ) (st : MapState) : mapLoop m (k + 1) i p st =
    if (entryAt m (p + structE820.size)).Stops then
      { e820 := Function.update st.e820 i (entryAt m p)
        e820Length := i + 1
        totalMem := if (entryAt m p).type = 1 then u64 (st.totalMem + (entryAt m p).length)
          else st.totalMem }
    else mapLoop m k (i + 1) (p + structE820.size)
      { e820 := Function.update st.e820 i (entryAt m p)
        e820Length := i + 1
        totalMem := if (entryAt m p).type = 1 then u64 (st.totalMem + (entryAt m p).length)
          else st.totalMem } := rfl

/-- Another turn stores another entry. -/
theorem lt_mapLoop_length (m : ByteMemory) (k i p : ℕ) (st : MapState) :
    i < (mapLoop m (k + 1) i p st).e820Length := by
  induction k generalizing i p st with
  | zero =>
    rw [mapLoop_succ]
    split <;> exact Nat.lt_succ_self i
  | succ k ih =>
    rw [mapLoop_succ]
    split
    · exact Nat.lt_succ_self i
    · exact (Nat.lt_succ_self i).trans (ih (i + 1) _ _)

/-- **Where the reader stops**: before the first entry that stops it. -/
theorem mapLoop_length_eq_iff (hin : i < n) (hnk : n < i + k) :
    (mapLoop m k i (kernelEntry i) st).e820Length = n ↔
      (∀ j, i < j → j < n → ¬(entryAt m (kernelEntry j)).Stops) ∧
        (entryAt m (kernelEntry n)).Stops := by
  induction k generalizing i st with
  | zero => omega
  | succ k ih =>
    rw [mapLoop_succ, kernelEntry_succ]
    split
    case isTrue hstop =>
      constructor
      · intro heq
        obtain rfl : i + 1 = n := heq
        exact ⟨fun j hlo hhi ↦ by omega, hstop⟩
      · rintro ⟨hgo, -⟩
        by_contra hne
        have hlt : i + 1 < n := by
          have : i + 1 ≠ n := hne
          omega
        exact hgo (i + 1) (Nat.lt_succ_self i) hlt hstop
    case isFalse hgo =>
      by_cases hn : i + 1 = n
      · subst hn
        obtain ⟨k, rfl⟩ : ∃ k', k = k' + 1 := ⟨k - 1, by omega⟩
        have hlt := lt_mapLoop_length m k (i + 1) (kernelEntry (i + 1))
          { e820 := Function.update st.e820 i (entryAt m (kernelEntry i))
            e820Length := i + 1
            totalMem := if (entryAt m (kernelEntry i)).type = 1 then
              u64 (st.totalMem + (entryAt m (kernelEntry i)).length) else st.totalMem }
        exact iff_of_false hlt.ne' fun h ↦ hgo h.2
      · rw [ih (by omega) (by omega)]
        refine and_congr_left fun _ ↦ ⟨fun h j hlo hhi ↦ ?_, fun h j hlo hhi ↦ h j (by omega) hhi⟩
        rcases Nat.lt_or_ge (i + 1) j with hj | hj
        · exact h j hj hhi
        · obtain rfl : j = i + 1 := by omega
          exact hgo

/-- **What the reader stores**: the entries it goes over. -/
theorem mapLoop_e820 (m : ByteMemory) (st : MapState) {j : ℕ}
    (hj : j < (mapLoop m k i (kernelEntry i) st).e820Length) (hst : st.e820Length = i)
    (hbefore : ∀ j < i, st.e820 j = entryAt m (kernelEntry j)) :
    (mapLoop m k i (kernelEntry i) st).e820 j = entryAt m (kernelEntry j) := by
  induction k generalizing i st with
  | zero => exact hbefore j (hst ▸ hj)
  | succ k ih =>
    have hnow : ∀ j < i + 1, Function.update st.e820 i (entryAt m (kernelEntry i)) j =
        entryAt m (kernelEntry j) := by
      intro j hj
      rw [Function.update_apply]
      split
      case isTrue heq => rw [heq]
      case isFalse hne => exact hbefore j (by omega)
    rw [mapLoop_succ, kernelEntry_succ] at hj ⊢
    split at hj
    case isTrue hstop =>
      rw [if_pos hstop]
      exact hnow j hj
    case isFalse hgo =>
      rw [if_neg hgo]
      exact ih _ hj rfl hnow

/-! ### Both ends together -/

/-- What `read_e820` leaves in the buffer. The count is stored before it. -/
theorem readE820_leaves {replies : List BiosReply} {entries : List E820}
    (hdeliver : Deliver replies entries) (hreported : ∀ e ∈ entries, e.Reported)
    (hne : entries ≠ []) (hlength : entries.length ≤ 31) (m : ByteMemory) :
    LoopLeaves m 0 entries (readE820 replies m) := by
  have hloop := readLoop_leaves hdeliver hreported hne (k := 0) (by omega) m
  have hcount : ∀ f i, structE820.get f (readE820 replies m) (bufEntry i) =
      structE820.get f (readLoop replies m e820Buf).1 (bufEntry i) := fun f i ↦
    ByteMemory.load_store_of_disjoint (by rw [bufEntry_eq, e820Count]; omega)
  have hentry : ∀ i, entryAt (readE820 replies m) (bufEntry i) =
      entryAt (readLoop replies m e820Buf).1 (bufEntry i) := by
    intro i
    rw [entryAt, entryAt, hcount, hcount, hcount]
  refine ⟨fun i hi ↦ absurd hi (Nat.not_lt_zero i), fun i hi ↦ ?_, fun i hi f hf ↦ ?_⟩
  · rw [hentry]
    exact hloop.stored i hi
  · rw [hcount]
    exact hloop.behind i hi f hf

/-- **When the kernel has the map that the firmware reported**: the types from the second entry on
are at most 4, and the bytes behind the last entry make the reader stop. -/
theorem memoryMap_agrees_iff {replies : List BiosReply} {entries : List E820}
    (hdeliver : Deliver replies entries) (hreported : ∀ e ∈ entries, e.Reported)
    (hpos : 1 ≤ entries.length) (hlength : entries.length ≤ 31) (m : ByteMemory) (e820 : ℕ → E820) :
    (initMemoryMap (kernelView (readE820 replies m)) e820).1.Agrees entries ↔
      (∀ (i : ℕ) (h : i < entries.length), 0 < i → entries[i].type ≤ 4) ∧
        (entryAt m (bufEntry entries.length)).Stops := by
  have hleaves := readE820_leaves hdeliver hreported (List.ne_nil_of_length_pos hpos) hlength m
  have hstored : ∀ (i : ℕ) (h : i < entries.length),
      entryAt (kernelView (readE820 replies m)) (kernelEntry i) = entries[i] := by
    intro i hi
    rw [entryAt_kernelView (by omega)]
    have h := hleaves.stored i hi
    rwa [Nat.zero_add] at h
  have hgo : ∀ (i : ℕ) (h : i < entries.length), ¬(entries[i]).Stops ↔ (entries[i]).type ≤ 4 := by
    intro i hi
    have hne := (hreported _ (List.getElem_mem hi)).length_pos
    rw [E820.Stops]
    omega
  have hbehind : (entryAt (kernelView (readE820 replies m)) (kernelEntry entries.length)).Stops ↔
      (entryAt m (bufEntry entries.length)).Stops := by
    rw [entryAt_kernelView (by omega), E820.Stops, E820.Stops, entryAt, entryAt]
    dsimp only
    rw [hleaves.behind _ (Nat.zero_add _).le .type (by decide),
      hleaves.behind _ (Nat.zero_add _).le .length (by decide)]
  have hzero : kernelEntry 0 = 0xffff800000005000 := by decide
  have hcount := @mapLoop_length_eq_iff (kernelView (readE820 replies m)) ⟨e820, 0, 0⟩ 32 0 _ hpos
    (by omega)
  rw [hbehind] at hcount
  have hiff : (mapLoop (kernelView (readE820 replies m)) 32 0 (kernelEntry 0)
      ⟨e820, 0, 0⟩).e820Length = entries.length ↔
      (∀ (i : ℕ) (h : i < entries.length), 0 < i → entries[i].type ≤ 4) ∧
        (entryAt m (bufEntry entries.length)).Stops := by
    rw [hcount]
    refine and_congr_left fun _ ↦ ⟨fun h i hi hlo ↦ ?_, fun h i hlo hi ↦ ?_⟩
    · exact (hgo i hi).1 (hstored i hi ▸ h i hlo hi)
    · rw [hstored i hi]
      exact (hgo i hi).2 (h i hi hlo)
  rw [initMemoryMap, ← hzero, ← hiff]
  refine ⟨And.left, fun hlen ↦ ⟨hlen, fun i hi ↦ ?_⟩⟩
  have hread := mapLoop_e820 (k := 32) (i := 0) (kernelView (readE820 replies m)) ⟨e820, 0, 0⟩
    (j := i) (hi.trans_eq hlen.symm) rfl
    fun j hj ↦ absurd hj (Nat.not_lt_zero j)
  exact hread.trans (hstored i hi)

/-- The replies for some entries. -/
def delivery : List E820 → List BiosReply
  | [] => []
  | e :: entries => ⟨false, smap, if entries = [] then 0 else 1, 20, e⟩ :: delivery entries

/-- The replies of a firmware that reports a list of entries. -/
theorem deliver_delivery (entries : List E820) : Deliver (delivery entries) entries := by
  induction entries with
  | nil => trivial
  | cons e entries ih =>
    refine ⟨⟨rfl, rfl, rfl, rfl⟩, ?_, ih⟩
    dsimp only
    split
    case isTrue h => exact iff_of_true rfl h
    case isFalse h => exact iff_of_false Nat.one_ne_zero h

/-- Low memory, a reserved part, and memory behind the first MB. -/
def threeEntries : List E820 := [⟨0, 0x9f000, 1⟩, ⟨0x9f000, 0x61000, 2⟩, ⟨0x100000, 0x3f00000, 1⟩]

theorem memoryMap_agrees_threeEntries :
    (initMemoryMap (kernelView (readE820 (delivery threeEntries) fun _ ↦ 0)) fun _ ↦
      ⟨0, 0, 0⟩).1.Agrees
        threeEntries ↔
      (∀ (i : ℕ) (h : i < threeEntries.length), 0 < i → threeEntries[i].type ≤ 4) ∧
        (entryAt (fun _ ↦ 0) (bufEntry threeEntries.length)).Stops := by
  refine memoryMap_agrees_iff (deliver_delivery _) (fun e he ↦ ?_) (by decide) (by decide) _ _
  simp only [threeEntries, List.mem_cons, List.not_mem_nil, or_false] at he
  rcases he with rfl | rfl | rfl <;> exact ⟨by decide, by decide, by decide, by decide⟩

/-- Low memory, with a faulty part. -/
def faultyMap : List E820 := [⟨0, 0x9f000, 1⟩, ⟨0x9f000, 0xc00, 5⟩]

/-- The reader stops before a type past 4, though the memory behind the map is clear. -/
theorem faulty_entry_lost : Deliver (delivery faultyMap) faultyMap ∧
    (∀ e ∈ faultyMap, e.Reported) ∧
    ¬(initMemoryMap (kernelView (readE820 (delivery faultyMap) fun _ ↦ 0))
      fun _ ↦ ⟨0, 0, 0⟩).1.Agrees faultyMap := by
  refine ⟨deliver_delivery _, fun e he ↦ ?_, fun h ↦ ?_⟩
  · rw [faultyMap, List.mem_pair] at he
    rcases he with rfl | rfl <;> exact ⟨by decide, by decide, by decide, by decide⟩
  · have hone : (initMemoryMap (kernelView (readE820 (delivery faultyMap) fun _ ↦ 0))
        fun _ ↦ ⟨0, 0, 0⟩).1.e820Length = 1 := by decide +kernel
    exact absurd (hone.symm.trans h.1) (by decide)

end LightNight
