import LightNightOS.Memory.MemoryMap

/-!
# The limit of the boot loader's memory map

`read_e820` is to stop after `E820_MAX_ENTRIES` entries and to leave their number at `E820_COUNT`.
It means to count them in `ecx`, but the firmware takes the size of the buffer in `ecx` and returns
the size of the entry in it, so that at the limit test `ecx` is 21 in every turn. The firmware alone
ends the loop, and what is counted is right for 21 entries, or if a failing reply happens to have
the number in `ecx` (`map_limit_iff`).

`readLoop` takes the replies as a list. Here they are any infinite sequence, of which the loop
consumes the part up to the turn it is left in (`LeavesAt`), if it is left.
-/

namespace LightNight

/-! ### The turns

A turn calls the firmware and goes on, or leaves the loop: at a carry, at a wrong signature, at the
limit, or at a continuation of zero. What is in `ecx` when the loop is left is stored as the
count. -/

namespace BiosReply

/-- What the interface promises: a reply that does not fail is signed, and has the size of an
entry. -/
structure Proper (r : BiosReply) : Prop where
  eax : r.carry = false → r.eax = smap
  ecx : r.carry = false → r.ecx = 20
  ecx_lt : r.ecx < 2 ^ 32

/-- `.read_loop` is entered once more after this reply. -/
def Continues (r : BiosReply) : Prop :=
  r.carry = false ∧ r.eax = smap ∧
    ¬(e820MaxEntries ≤ u32 (r.ecx + 1) ∧ u32 (r.ecx + 1) < 2 ^ 31) ∧ r.ebx ≠ 0

instance : DecidablePred Continues := fun _ ↦ inferInstanceAs (Decidable (_ ∧ _))

/-- `ecx` at `.done`, after this reply. -/
def doneEcx (r : BiosReply) : ℕ := if r.carry ∨ r.eax ≠ smap then r.ecx else u32 (r.ecx + 1)

/-- Memory after the turn with this reply. -/
def turnMem (r : BiosReply) (m : ByteMemory) (di : ℕ) : ByteMemory :=
  let m := m.store ((di + 20) % 2 ^ 16) 4 1
  if r.carry then m else storeEntry m di r.entry

/-- The addresses that are stored to in the turn with this reply. -/
def turnWrites (r : BiosReply) (di : ℕ) : Set ℕ :=
  Set.Ico ((di + 20) % 2 ^ 16) ((di + 20) % 2 ^ 16 + 4) ∪ if r.carry then ∅
    else Set.Ico di (di + 20)

end BiosReply

/-- The addresses that the loop stores to. -/
def loopWrites : List BiosReply → ℕ → Set ℕ
  | [], _ => ∅
  | r :: replies, di =>
    r.turnWrites di ∪ if r.Continues then loopWrites replies ((di + 20) % 2 ^ 16) else ∅

/-- The loop is left in turn `n`. -/
def LeavesAt (replies : ℕ → BiosReply) (n : ℕ) : Prop :=
  (∀ k < n, (replies k).Continues) ∧ ¬(replies n).Continues

/-- The replies up to turn `n`. -/
def repliesTo (replies : ℕ → BiosReply) (n : ℕ) : List BiosReply := (List.range (n + 1)).map replies

/-- The number of entries that the firmware stores in response. -/
def entriesStored (replies : List BiosReply) : ℕ := replies.countP fun r ↦ !r.carry

/-- What the boot loader should do with any replies: the loop ends after 32 entries at the latest,
nothing behind the buffer for these and the mark behind the last one is stored to, and the number of
the entries is left at `E820_COUNT`. -/
def RespectsLimit (replies : ℕ → BiosReply) : Prop :=
  ∃ n, LeavesAt replies n ∧ entriesStored (repliesTo replies n) ≤ e820MaxEntries ∧
    (∀ x ∈ loopWrites (repliesTo replies n) e820Buf, x < e820Buf + 20 * e820MaxEntries + 4) ∧
    ∀ m, (readE820 (repliesTo replies n) m).load e820Count 4 = entriesStored (repliesTo replies n)

/-- The firmware ends the map with its 21st entry, or fails behind no more than 31 entries with
their number in `ecx`. -/
def EndsWell (replies : ℕ → BiosReply) : Prop :=
  ∃ n, (∀ k < n, (replies k).carry = false ∧ (replies k).ebx ≠ 0) ∧
    ((replies n).carry = false ∧ (replies n).ebx = 0 ∧ n = 20 ∨
      (replies n).carry = true ∧ n ≤ 31 ∧ (replies n).ecx = n)

section MapLimit

variable {replies : ℕ → BiosReply} {l : List BiosReply} {r : BiosReply} {n k di x : ℕ}

theorem repliesTo_zero (replies : ℕ → BiosReply) : repliesTo replies 0 = [replies 0] := rfl

theorem repliesTo_succ (replies : ℕ → BiosReply) (n : ℕ) :
    repliesTo replies (n + 1) = replies 0 :: repliesTo (fun k ↦ replies (k + 1)) n := by
  rw [repliesTo, List.range_succ_eq_map, List.map_cons, List.map_map]
  rfl

/-- The first turn, and the others. -/
theorem leavesAt_succ :
    LeavesAt replies (n + 1) ↔ (replies 0).Continues ∧ LeavesAt (fun k ↦ replies (k + 1)) n := by
  constructor
  · rintro ⟨hall, hlast⟩
    exact ⟨hall 0 (Nat.succ_pos n), fun k hk ↦ hall (k + 1) (Nat.succ_lt_succ hk), hlast⟩
  · rintro ⟨hfirst, hall, hlast⟩
    refine ⟨fun k hk ↦ ?_, hlast⟩
    cases k with
    | zero => exact hfirst
    | succ k => exact hall k (Nat.lt_of_succ_lt_succ hk)

/-- **A turn that goes on.** -/
theorem readLoop_cons (hr : r.Continues) (m : ByteMemory) :
    readLoop (r :: l) m di = readLoop l (r.turnMem m di) ((di + 20) % 2 ^ 16) := by
  obtain ⟨hcarry, heax, hlimit, hebx⟩ := hr
  rw [readLoop, BiosReply.turnMem]
  simp only [hcarry, heax, if_neg hlimit, if_pos hebx]
  simp only [Bool.false_eq_true, if_false, ne_eq, not_true_eq_false]

/-- **The last turn.** -/
theorem readLoop_last (hr : ¬r.Continues) (m : ByteMemory) :
    readLoop (r :: l) m di = (r.turnMem m di, r.doneEcx) := by
  rw [readLoop, BiosReply.turnMem, BiosReply.doneEcx]
  dsimp only
  rcases hcarry : r.carry with - | -
  · by_cases heax : r.eax = smap
    · simp only [heax, Bool.false_eq_true, if_false, ne_eq, not_true_eq_false, or_self]
      by_cases hlimit : e820MaxEntries ≤ u32 (r.ecx + 1) ∧ u32 (r.ecx + 1) < 2 ^ 31
      · rw [if_pos hlimit]
      · rw [if_neg hlimit, if_neg fun hebx ↦ hr ⟨hcarry, heax, hlimit, hebx⟩]
    · simp only [heax, Bool.false_eq_true, if_false, ne_eq, not_false_eq_true, or_true, if_true]
  · simp only [true_or, if_true]

/-- An entry is stored in its 20 bytes. -/
theorem storeEntry_of_notMem {p : ℕ} (m : ByteMemory) (e : E820) (hx : x ∉ Set.Ico p (p + 20)) :
    storeEntry m p e x = m x := by
  have hfield : ∀ (f : E820Field) (m : ByteMemory) (v : ℕ), structE820.set f m p v x = m x := by
    intro f m v
    have hinside : structE820.offset f + structE820.width f ≤ 20 := structE820.inside f
    exact ByteMemory.store_of_notMem fun h ↦ hx ⟨by have := h.1; omega, by have := h.2; omega⟩
  rw [storeEntry, hfield, hfield, hfield]

/-- A turn stores where it says. -/
theorem turnMem_frame (m : ByteMemory) (hx : x ∉ r.turnWrites di) : r.turnMem m di x = m x := by
  rw [BiosReply.turnWrites, Set.mem_union, not_or] at hx
  obtain ⟨hmark, hentry⟩ := hx
  rw [BiosReply.turnMem]
  split
  case isTrue hcarry => exact ByteMemory.store_of_notMem hmark
  case isFalse hcarry =>
    rw [if_neg hcarry] at hentry
    rw [storeEntry_of_notMem _ _ hentry]
    exact ByteMemory.store_of_notMem hmark

/-- **The loop stores where it says**, if it is left behind these replies. -/
theorem readLoop_frame (hleaves : LeavesAt replies n) (m : ByteMemory)
    (hx : x ∉ loopWrites (repliesTo replies n) di) :
    (readLoop (repliesTo replies n) m di).1 x = m x := by
  induction n generalizing replies m di with
  | zero =>
    rw [repliesTo_zero, loopWrites, Set.mem_union, not_or] at hx
    rw [repliesTo_zero, readLoop_last hleaves.2]
    exact turnMem_frame m hx.1
  | succ n ih =>
    obtain ⟨hfirst, hleaves⟩ := leavesAt_succ.1 hleaves
    rw [repliesTo_succ, loopWrites, if_pos hfirst, Set.mem_union, not_or] at hx
    rw [repliesTo_succ, readLoop_cons hfirst, ih hleaves _ hx.2]
    exact turnMem_frame m hx.1

/-- What is in `ecx` when the loop is left. -/
theorem readLoop_ecx (hleaves : LeavesAt replies n) (m : ByteMemory) :
    (readLoop (repliesTo replies n) m di).2 = (replies n).doneEcx := by
  induction n generalizing replies m di with
  | zero => rw [repliesTo_zero, readLoop_last hleaves.2]
  | succ n ih =>
    obtain ⟨hfirst, hleaves⟩ := leavesAt_succ.1 hleaves
    rw [repliesTo_succ, readLoop_cons hfirst, ih hleaves]

/-- How many entries are stored: one in each turn, but for the last one if it fails. -/
theorem entriesStored_eq (hleaves : LeavesAt replies n) :
    entriesStored (repliesTo replies n) = if (replies n).carry then n else n + 1 := by
  induction n generalizing replies with
  | zero =>
    rw [repliesTo_zero, entriesStored, List.countP_singleton]
    rcases (replies 0).carry with - | - <;> rfl
  | succ n ih =>
    obtain ⟨hfirst, hleaves⟩ := leavesAt_succ.1 hleaves
    have hcount : entriesStored (repliesTo replies (n + 1)) =
        entriesStored (repliesTo (fun k ↦ replies (k + 1)) n) + 1 := by
      rw [repliesTo_succ, entriesStored, List.countP_cons_of_pos (by rw [hfirst.1]; rfl),
        entriesStored]
    rw [hcount, ih hleaves]
    split <;> rfl

/-- Each turn marks the place behind its entry. -/
theorem mark_mem_loopWrites (hleaves : LeavesAt replies n) (hk : k ≤ n)
    (hdi : di + 20 * k + 24 ≤ 2 ^ 16) :
    di + 20 * k + 20 ∈ loopWrites (repliesTo replies n) di := by
  induction k generalizing replies n di with
  | zero =>
    have hmark : di + 20 * 0 + 20 ∈ (replies 0).turnWrites di :=
      Or.inl ⟨by omega, by omega⟩
    cases n with
    | zero =>
      rw [repliesTo_zero]
      exact Or.inl hmark
    | succ n =>
      rw [repliesTo_succ]
      exact Or.inl hmark
  | succ k ih =>
    obtain ⟨n, rfl⟩ := Nat.exists_eq_succ_of_ne_zero (by omega : n ≠ 0)
    obtain ⟨hfirst, hleaves⟩ := leavesAt_succ.1 hleaves
    have hnext : (di + 20) % 2 ^ 16 = di + 20 := Nat.mod_eq_of_lt (by omega)
    have hend : di + 20 + 20 * k + 24 ≤ 2 ^ 16 := by omega
    have hrest := ih hleaves (Nat.le_of_succ_le_succ hk) hend
    rw [repliesTo_succ, loopWrites, if_pos hfirst, hnext]
    exact Or.inr (by rwa [show di + 20 * (k + 1) + 20 = di + 20 + 20 * k + 20 by omega])

theorem lt_of_mem_turnWrites (hdi : di + 24 ≤ 2 ^ 16) (hx : x ∈ r.turnWrites di) : x < di + 24 := by
  rcases hx with hmark | hentry
  · rw [Nat.mod_eq_of_lt (by omega)] at hmark
    exact hmark.2
  · split at hentry
    · exact absurd hentry (Set.notMem_empty x)
    · have hlt := hentry.2
      omega

/-- Nothing behind the last mark is stored to. -/
theorem lt_of_mem_loopWrites (hleaves : LeavesAt replies n) (hdi : di + 20 * n + 24 ≤ 2 ^ 16)
    (hx : x ∈ loopWrites (repliesTo replies n) di) : x < di + 20 * n + 24 := by
  induction n generalizing replies di with
  | zero =>
    rw [repliesTo_zero, loopWrites, if_neg hleaves.2, Set.union_empty] at hx
    exact (lt_of_mem_turnWrites (by omega) hx).trans_le (by omega)
  | succ n ih =>
    obtain ⟨hfirst, hleaves⟩ := leavesAt_succ.1 hleaves
    rw [repliesTo_succ, loopWrites, if_pos hfirst, Nat.mod_eq_of_lt (by omega)] at hx
    rcases hx with hx | hx
    · exact (lt_of_mem_turnWrites (by omega) hx).trans_le (by omega)
    · exact (ih hleaves (by omega) hx).trans_le (by omega)

/-! ### The condition

The count is right where the value that `ecx` happens to hold is the number of entries that were
stored.
-/

/-- Without a failure the limit test sees 21, whatever the turn. -/
theorem BiosReply.Proper.doneEcx (hr : r.Proper) : r.doneEcx = if r.carry then r.ecx else 21 := by
  rw [BiosReply.doneEcx]
  rcases hcarry : r.carry with - | -
  · rw [hr.eax hcarry, hr.ecx hcarry]
    rfl
  · rw [if_pos (Or.inl rfl), if_pos rfl]

/-- So only the firmware ends the loop. -/
theorem BiosReply.Proper.continues_iff (hr : r.Proper) :
    r.Continues ↔ r.carry = false ∧ r.ebx ≠ 0 := by
  refine ⟨fun h ↦ ⟨h.1, h.2.2.2⟩, fun ⟨hcarry, hebx⟩ ↦ ⟨hcarry, hr.eax hcarry, ?_, hebx⟩⟩
  rw [hr.ecx hcarry]
  decide

/-- The count is what is in `ecx`. -/
theorem load_readE820 (hleaves : LeavesAt replies n) (hproper : (replies n).Proper)
    (m : ByteMemory) :
    (readE820 (repliesTo replies n) m).load e820Count 4 = (replies n).doneEcx := by
  have hlt : (replies n).doneEcx < 256 ^ 4 := by
    rw [BiosReply.Proper.doneEcx hproper]
    have hecx := hproper.ecx_lt
    split <;> omega
  rw [readE820]
  dsimp only
  rw [readLoop_ecx hleaves]
  exact ByteMemory.load_store_self hlt

end MapLimit

/-- **When does `read_e820` respect its limit?** For any replies of a firmware that keeps to the
interface: the loop ends after at most 32 entries, stores to nothing behind its buffer and leaves
the number of entries at `E820_COUNT` if and only if the firmware ends the map with its 21st entry,
or fails behind at most 31 entries with their number in `ecx`. -/
theorem map_limit_iff {replies : ℕ → BiosReply} (hproper : ∀ k, (replies k).Proper) :
    RespectsLimit replies ↔ EndsWell replies := by
  have hleaves_iff : ∀ n, LeavesAt replies n ↔
      (∀ k < n, (replies k).carry = false ∧ (replies k).ebx ≠ 0) ∧
        ((replies n).carry = false → (replies n).ebx = 0) := by
    intro n
    rw [LeavesAt, (hproper n).continues_iff, not_and, not_not]
    exact and_congr_left' (forall₂_congr fun k _ ↦ (hproper k).continues_iff)
  have hlimit : e820Buf + 20 * e820MaxEntries + 4 = e820Buf + 644 := rfl
  have hbuf : e820Buf = 0x5000 := rfl
  constructor
  · rintro ⟨n, hleaves, -, hwrites, hcount⟩
    have hn : n ≤ 31 := by
      by_contra! hlt
      have hmark := hwrites _ (mark_mem_loopWrites hleaves (k := 32) (by omega) (by omega))
      omega
    have hcount := hcount fun _ ↦ 0
    rw [load_readE820 hleaves (hproper n), (hproper n).doneEcx, entriesStored_eq hleaves] at hcount
    obtain ⟨hbefore, hlast⟩ := (hleaves_iff n).1 hleaves
    refine ⟨n, hbefore, ?_⟩
    rcases hcarry : (replies n).carry with - | -
    · rw [hcarry] at hcount
      have htwenty : 21 = n + 1 := hcount
      exact Or.inl ⟨rfl, hlast hcarry, by omega⟩
    · rw [hcarry] at hcount
      exact Or.inr ⟨rfl, hn, hcount⟩
  · rintro ⟨n, hbefore, hend⟩
    have hn : n ≤ 31 := by
      rcases hend with ⟨-, -, rfl⟩ | ⟨-, hn, -⟩
      exacts [by decide, hn]
    have hlast : (replies n).carry = false → (replies n).ebx = 0 := by
      intro hcarry
      rcases hend with ⟨-, hebx, -⟩ | ⟨hfail, -⟩
      exacts [hebx, absurd (hcarry.symm.trans hfail) Bool.false_ne_true]
    have hleaves := (hleaves_iff n).2 ⟨hbefore, hlast⟩
    refine ⟨n, hleaves, ?_, fun x hx ↦ ?_, fun m ↦ ?_⟩
    · rw [entriesStored_eq hleaves, e820MaxEntries]
      split <;> omega
    · have hlt := lt_of_mem_loopWrites hleaves (by omega) hx
      omega
    · rw [load_readE820 hleaves (hproper n), (hproper n).doneEcx, entriesStored_eq hleaves]
      rcases hend with ⟨hcarry, -, rfl⟩ | ⟨hcarry, -, hecx⟩
      · rw [hcarry]
        rfl
      · rw [hcarry]
        exact hecx

/-- The replies of a firmware that reports pages of low memory, the last one in turn `last`. -/
def pageReplies (last k : ℕ) : BiosReply :=
  ⟨false, smap, if k = last then 0 else 1, 20, ⟨k * 0x1000, 0x1000, 1⟩⟩

/-- The replies of a firmware that gives one page after the other. -/
theorem proper_pageReplies (last k : ℕ) : (pageReplies last k).Proper :=
  ⟨fun _ ↦ rfl, fun _ ↦ rfl, (by decide : 20 < 2 ^ 32)⟩

/-- The replies are consumed up to the last one. -/
theorem leavesAt_pageReplies (last : ℕ) : LeavesAt (pageReplies last) last := by
  have hebx : ∀ k, (pageReplies last k).Continues ↔ k ≠ last := by
    intro k
    rw [(proper_pageReplies last k).continues_iff, pageReplies]
    split
    case isTrue hk => exact iff_of_false (fun h ↦ h.2 rfl) (not_not.2 hk)
    case isFalse hk => exact iff_of_true ⟨rfl, Nat.one_ne_zero⟩ hk
  exact ⟨fun k hk ↦ (hebx k).2 hk.ne, fun h ↦ (hebx last).1 h rfl⟩

/-- The general theorem on 21 entries: the limit is respected. -/
theorem map_limit_pageReplies : RespectsLimit (pageReplies 20) :=
  (map_limit_iff (proper_pageReplies 20)).2
    ⟨20, fun k hk ↦ ⟨rfl, by rw [pageReplies, if_neg hk.ne]; exact Nat.one_ne_zero⟩,
      Or.inl ⟨rfl, rfl, rfl⟩⟩

/-- **The limit is passed.** A firmware that reports 33 entries has them all stored, past the end of
the buffer, and 21 is left at `E820_COUNT`. -/
theorem map_limit_passed : (∀ k, (pageReplies 32 k).Proper) ∧ LeavesAt (pageReplies 32) 32 ∧
    entriesStored (repliesTo (pageReplies 32) 32) = 33 ∧
    e820Buf + 20 * e820MaxEntries + 20 ∈ loopWrites (repliesTo (pageReplies 32) 32) e820Buf ∧
    (∀ m, (readE820 (repliesTo (pageReplies 32) 32) m).load e820Count 4 = 21) ∧
    ¬RespectsLimit (pageReplies 32) := by
  have hleaves := leavesAt_pageReplies 32
  refine ⟨proper_pageReplies 32, hleaves, entriesStored_eq hleaves,
    mark_mem_loopWrites hleaves le_rfl (by decide),
      load_readE820 hleaves (proper_pageReplies 32 32), ?_⟩
  rintro ⟨n, hleaves', hstored, -⟩
  -- the loop is left in one turn only
  have hn : n = 32 := by
    by_contra hne
    rcases Nat.lt_or_gt_of_ne hne with hlt | hgt
    · exact hleaves'.2 (hleaves.1 n hlt)
    · exact hleaves.2 (hleaves'.1 32 hgt)
  rw [hn, entriesStored_eq hleaves] at hstored
  exact absurd hstored (by decide)

end LightNight
