import LightNightOS.Foundation.X86
import Mathlib.Data.List.Nodup
import Mathlib.Data.Set.Function

/-!
# The string instructions of x86-64

`movs`, `stos` and `cmpsb` with the prefixes `rep` and `repe`, on memory at 64-bit addresses that
wrap. They take their addresses from `rsi` and `rdi` and advance these, upwards where the direction
flag is clear; `rep` counts `rcx` down to 0, and `repe` also stops where a comparison finds a
difference.

`stored` is not a part of the machine: it records the addresses of the bytes stored, in order, and
no instruction reads it. A block of stores is described by the bytes it leaves (`Lays`): the first
`k` bytes from `rdi` on hold what they should, the rest of memory is as it was, and these bytes were
stored once each. Each instruction extends such a block (`Lays.snoc`), whatever its width.
-/

namespace X86

open LittleEndian

/-- The part of the machine that the string instructions use. -/
structure StringState where
  rax : Word
  rcx : Word
  rsi : Word
  rdi : Word
  mem : Word → UInt8
  df : Bool
  zf : Bool
  sf : Bool
  of : Bool
  /-- The addresses of the bytes stored so far (a history of the run, read by no instruction). -/
  stored : List Word

/-- The addresses of the `n` bytes from `a` on. -/
def span (a : Word) (n : ℕ) : List Word := (List.range n).map fun i ↦ a + BitVec.ofNat 64 i

namespace StringState

/-! ### Instructions -/

/-- `cld` -/
def cld (s : StringState) : StringState := { s with df := false }

/-- A pointer behind `n` bytes, in the direction of the direction flag. -/
def advance (s : StringState) (n : ℕ) (p : Word) : Word :=
  if s.df then p - BitVec.ofNat 64 n else p + BitVec.ofNat 64 n

/-- `movsb`, `movsw`, `movsl`, `movsq`, by their number of bytes. -/
def movs (n : ℕ) (s : StringState) : StringState :=
  { s with
    mem := fun x ↦ if (x - s.rdi).toNat < n then s.mem (s.rsi + (x - s.rdi)) else s.mem x
    rsi := s.advance n s.rsi
    rdi := s.advance n s.rdi
    stored := s.stored ++ span s.rdi n }

/-- `stosb`, `stosw`, `stosl`, `stosq`, by their number of bytes. -/
def stos (n : ℕ) (s : StringState) : StringState :=
  { s with
    mem := fun x ↦ if (x - s.rdi).toNat < n then byte s.rax.toNat (x - s.rdi).toNat else s.mem x
    rdi := s.advance n s.rdi
    stored := s.stored ++ span s.rdi n }

/-- `cmpsb`: the flags of the byte at `rsi` less the byte at `rdi`. -/
def cmpsb (s : StringState) : StringState :=
  let a := s.mem s.rsi
  let b := s.mem s.rdi
  { s with
    zf := a - b = 0
    sf := 128 ≤ a - b
    of := decide (128 ≤ a) ≠ decide (128 ≤ b) ∧ decide (128 ≤ a - b) ≠ decide (128 ≤ a)
    rsi := s.advance 1 s.rsi
    rdi := s.advance 1 s.rdi }

/-- `testb` of a constant and the low byte of a register. -/
def testb (imm : BitVec 8) (r : Word) (s : StringState) : StringState :=
  let b := r.setWidth 8 &&& imm
  { s with zf := b = 0, sf := b.msb, of := false }

/-- `n` turns of `rep`. -/
def repLoop (op : StringState → StringState) : ℕ → StringState → StringState
  | 0, s => s
  | n + 1, s => repLoop op n { op s with rcx := (op s).rcx - 1 }

/-- `rep`: the instruction is repeated, `rcx` times. -/
def rep (op : StringState → StringState) (s : StringState) : StringState := repLoop op s.rcx.toNat s

/-- At most `n` turns of `repe`. -/
def repeLoop (op : StringState → StringState) : ℕ → StringState → StringState
  | 0, s => s
  | n + 1, s =>
    let s := { op s with rcx := (op s).rcx - 1 }
    if s.zf then repeLoop op n s else s

/-- `repe`: the instruction is repeated, `rcx` times at most, while it finds equality. -/
def repe (op : StringState → StringState) (s : StringState) : StringState :=
  repeLoop op s.rcx.toNat s

end StringState

/-! ### Addresses

Addresses wrap at `2 ^ 64`, so a block is described by the distance from its start. A block of at
most `2 ^ 64` bytes meets no address twice. -/

section Addresses

variable {a x : Word} {i k n : ℕ}

/-- An address is where it is, counted from any other. -/
theorem ofNat_toNat_sub (a x : Word) : a + BitVec.ofNat 64 (x - a).toNat = x := by
  rw [BitVec.ofNat_toNat, BitVec.setWidth_eq]
  bv_omega

/-- The distance to an address that is `i` bytes on. -/
theorem toNat_add_sub (hi : i < 2 ^ 64) : (a + BitVec.ofNat 64 i - a).toNat = i := by
  bv_omega

/-- The place of an address in the second of two blocks. -/
theorem toNat_sub_add (hn : k + n ≤ 2 ^ 64) :
    (x - (a + BitVec.ofNat 64 k)).toNat < n ↔ k ≤ (x - a).toNat ∧ (x - a).toNat < k + n := by
  bv_omega

/-- Distances add up as long as the block does not reach around. -/
theorem toNat_sub_add_eq (hk : k ≤ (x - a).toNat) :
    k + (x - (a + BitVec.ofNat 64 k)).toNat = (x - a).toNat := by
  bv_omega

theorem span_add (a : Word) (k n : ℕ) :
    span a (k + n) = span a k ++ span (a + BitVec.ofNat 64 k) n := by
  rw [span, List.range_add, List.map_append, List.map_map, span, span]
  refine congrArg (_ ++ ·) (List.map_congr_left fun i _ ↦ ?_)
  show a + BitVec.ofNat 64 (k + i) = _
  rw [BitVec.ofNat_add, BitVec.add_assoc]

/-- The addresses of a block are those within its length. -/
theorem mem_span (hn : n ≤ 2 ^ 64) : x ∈ span a n ↔ (x - a).toNat < n := by
  rw [span, List.mem_map]
  constructor
  · rintro ⟨i, hi, rfl⟩
    have hlt := List.mem_range.1 hi
    rwa [toNat_add_sub (hlt.trans_le hn)]
  · intro hx
    exact ⟨(x - a).toNat, List.mem_range.2 hx, ofNat_toNat_sub a x⟩

/-- No address comes twice in a block that does not reach around. -/
theorem span_nodup (a : Word) (hn : n ≤ 2 ^ 64) : (span a n).Nodup := by
  refine List.Nodup.map_on (fun i hi j hj heq ↦ ?_) List.nodup_range
  have hi := (List.mem_range.1 hi).trans_le hn
  have hj := (List.mem_range.1 hj).trans_le hn
  rw [← toNat_add_sub (a := a) hi, heq, toNat_add_sub hj]

end Addresses

/-- From `s` to `t` the `n` bytes from `a` on were stored, each of them once, and are those of `f`;
no other byte changed. -/
structure StoresOnce (s t : StringState) (a : Word) (n : ℕ) (f : ℕ → UInt8) : Prop where
  written : ∀ i < n, t.mem (a + BitVec.ofNat 64 i) = f i
  frame : ∀ x ∉ span a n, t.mem x = s.mem x
  stored : t.stored = s.stored ++ span a n
  nodup : (span a n).Nodup

/-! ### Rules -/

/-- From `s₀` on, `k` bytes were laid at `rdi`, which are those of `f`. -/
structure Lays (s₀ : StringState) (f : ℕ → UInt8) (k : ℕ) (s : StringState) : Prop where
  df : s.df = false
  rdi : s.rdi = s₀.rdi + BitVec.ofNat 64 k
  mem : ∀ x, s.mem x = if (x - s₀.rdi).toNat < k then f (x - s₀.rdi).toNat else s₀.mem x
  stored : s.stored = s₀.stored ++ span s₀.rdi k

section Rules

variable {s s₀ t : StringState} {f : ℕ → UInt8} {k n : ℕ}

theorem lays_zero (s : StringState) (f : ℕ → UInt8) : Lays s f 0 s.cld where
  df := rfl
  rdi := (BitVec.add_zero _).symm
  mem := fun _ ↦ rfl
  stored := (List.append_nil _).symm

/-- **A block is extended** by an instruction that stores the next `n` bytes. -/
theorem Lays.snoc (h : Lays s₀ f k s) (hn : k + n ≤ 2 ^ 64) (hdf : t.df = s.df)
    (hrdi : t.rdi = s.advance n s.rdi) (hstored : t.stored = s.stored ++ span s.rdi n)
    (hmem : ∀ x, t.mem x = if (x - s.rdi).toNat < n then f (k + (x - s.rdi).toNat) else s.mem x) :
    Lays s₀ f (k + n) t := by
  refine ⟨hdf.trans h.df, ?_, fun x ↦ ?_, ?_⟩
  · rw [hrdi, StringState.advance, h.df, if_neg Bool.false_ne_true, h.rdi, BitVec.ofNat_add,
      BitVec.add_assoc]
  · rw [hmem, h.rdi, h.mem]
    rcases Nat.lt_or_ge (x - s₀.rdi).toNat k with hlt | hle
    · rw [if_neg fun hx ↦ absurd ((toNat_sub_add hn).1 hx).1 (Nat.not_le.2 hlt), if_pos hlt,
        if_pos (Nat.lt_add_right n hlt)]
    · rw [toNat_sub_add_eq hle, if_neg (Nat.not_lt.2 hle)]
      exact if_congr ((toNat_sub_add hn).trans (and_iff_right hle)) rfl rfl
  · rw [hstored, h.stored, h.rdi, List.append_assoc, ← span_add]

/-- **`movs` copies**: the source has the bytes, and no byte laid so far is one of them. -/
theorem Lays.movs (h : Lays s₀ f k s) (hn : k + n ≤ 2 ^ 64)
    (hrsi : s.rsi = s₀.rsi + BitVec.ofNat 64 k)
    (hf : ∀ i, k ≤ i → i < k + n → f i = s₀.mem (s₀.rsi + BitVec.ofNat 64 i))
    (happart : ∀ i, k ≤ i → i < k + n →
      ∀ j < k, s₀.rsi + BitVec.ofNat 64 i ≠ s₀.rdi + BitVec.ofNat 64 j) :
    Lays s₀ f (k + n) (s.movs n) ∧ (s.movs n).rsi = s₀.rsi + BitVec.ofNat 64 (k + n) := by
  constructor
  · refine h.snoc hn rfl rfl rfl fun x ↦ ?_
    show (if (x - s.rdi).toNat < n then s.mem (s.rsi + (x - s.rdi)) else s.mem x) = _
    split
    case isFalse => rfl
    case isTrue hx =>
      generalize hi : (x - s.rdi).toNat = i at hx
      have hsrc : s.rsi + (x - s.rdi) = s₀.rsi + BitVec.ofNat 64 (k + i) := by
        rw [hrsi, ← hi, BitVec.ofNat_add, BitVec.ofNat_toNat, BitVec.setWidth_eq, BitVec.add_assoc]
      rw [hsrc, h.mem, if_neg, hf (k + i) (Nat.le_add_right k i) (by omega)]
      intro hlt
      exact happart (k + i) (Nat.le_add_right k i) (by omega) _ hlt (ofNat_toNat_sub _ _).symm
  · show s.advance n s.rsi = _
    rw [StringState.advance, h.df, if_neg Bool.false_ne_true, hrsi, BitVec.ofNat_add,
      BitVec.add_assoc]

/-- **`stos` fills**, where the bytes of `rax` are those to be laid. -/
theorem Lays.stos (h : Lays s₀ f k s) (hn : k + n ≤ 2 ^ 64)
    (hrax : ∀ i < n, byte s.rax.toNat i = f (k + i)) : Lays s₀ f (k + n) (s.stos n) := by
  refine h.snoc hn rfl rfl rfl fun x ↦ ?_
  show (if (x - s.rdi).toNat < n then byte s.rax.toNat (x - s.rdi).toNat else s.mem x) = _
  split
  case isFalse => rfl
  case isTrue hx => exact hrax _ hx

/-- The registers and the flags that `rep` and `test` change do not matter to a block. -/
theorem Lays.congr (h : Lays s₀ f k s) (hdf : t.df = s.df) (hrdi : t.rdi = s.rdi)
    (hmem : t.mem = s.mem) (hstored : t.stored = s.stored) : Lays s₀ f k t :=
  ⟨hdf.trans h.df, hrdi.trans h.rdi, fun x ↦ by rw [hmem, h.mem], hstored.trans h.stored⟩

/-- What a block of stores did, seen from a state whose registers were not yet loaded. -/
theorem Lays.storesOnce (h : Lays s₀ f n t) (hn : n ≤ 2 ^ 64) (hmem : s₀.mem = s.mem)
    (hstored : s₀.stored = s.stored) : StoresOnce s t s₀.rdi n f where
  written := fun i hi ↦ by rw [h.mem, toNat_add_sub (hi.trans_le hn), if_pos hi]
  frame := fun x hx ↦ by rw [h.mem, if_neg fun hlt ↦ hx ((mem_span hn).2 hlt), hmem]
  stored := hstored ▸ h.stored
  nodup := span_nodup _ hn

/-- **The rule for `rep`.** -/
theorem repLoop_rule {I : ℕ → StringState → Prop} {op : StringState → StringState}
    (hop : ∀ j, k ≤ j → j < k + n → ∀ s, I j s → I (j + 1) { op s with rcx := (op s).rcx - 1 })
    (hs : I k s) : I (k + n) (s.repLoop op n) := by
  induction n generalizing k s with
  | zero => exact hs
  | succ n ih =>
    have hfirst := hop k le_rfl (by omega) s hs
    rw [StringState.repLoop, show k + (n + 1) = k + 1 + n by omega]
    exact ih (fun j hlo hhi ↦ hop j (by omega) (by omega)) hfirst

/-- `testb` of one bit. -/
theorem testb_zf {j : ℕ} (hj : j < 8) (r : Word) (s : StringState) :
    (s.testb (BitVec.twoPow 8 j) r).zf = decide (r.toNat / 2 ^ j % 2 = 0) := by
  show decide (r.setWidth 8 &&& BitVec.twoPow 8 j = 0) = _
  rw [decide_eq_decide, BitVec.and_twoPow, BitVec.getLsbD_setWidth, decide_eq_true hj,
    Bool.true_and, BitVec.getLsbD, Nat.testBit_eq_decide_div_mod_eq]
  have hbit : BitVec.twoPow 8 j ≠ 0 := by
    intro hzero
    have hval := congrArg BitVec.toNat hzero
    rw [BitVec.toNat_twoPow_of_lt hj] at hval
    exact (Nat.two_pow_pos j).ne' hval
  split
  case isTrue hone => exact iff_of_false hbit (by have := of_decide_eq_true hone; omega)
  case isFalse hone => exact iff_of_true rfl (by rw [decide_eq_true_iff] at hone; omega)

/-! ### Comparisons

`repe cmpsb` stops behind the first difference, or behind the last byte. Which of the two it was is
in the zero flag; the sign and overflow flags are those of a subtraction of signed bytes
(`SignedLess`). -/

/-- `a` is less than `b`, as signed bytes. -/
def SignedLess (a b : UInt8) : Prop :=
  if decide (128 ≤ a) = decide (128 ≤ b) then a < b else 128 ≤ a

/-- `je` after `cmpsb`: the bytes are equal. -/
theorem cmpsb_zf (s : StringState) : s.cmpsb.zf = decide (s.mem s.rsi = s.mem s.rdi) := by
  show decide (s.mem s.rsi - s.mem s.rdi = 0) = _
  generalize s.mem s.rsi = a
  generalize s.mem s.rdi = b
  have ha := a.toNat_lt
  have hb := b.toNat_lt
  rw [decide_eq_decide, ← UInt8.toNat_inj, ← UInt8.toNat_inj, UInt8.toNat_sub]
  show _ = 0 ↔ _
  omega

/-- `jl` after `cmpsb`: the byte at `rsi` is less than the one at `rdi`, as signed bytes. -/
theorem cmpsb_less (s : StringState) :
    s.cmpsb.sf ≠ s.cmpsb.of ↔ SignedLess (s.mem s.rsi) (s.mem s.rdi) := by
  show decide (128 ≤ s.mem s.rsi - s.mem s.rdi) ≠ decide (_ ∧ _) ↔ _
  generalize s.mem s.rsi = a
  generalize s.mem s.rdi = b
  have ha := a.toNat_lt
  have hb := b.toNat_lt
  have hsub : (a - b).toNat = (2 ^ 8 - b.toNat + a.toNat) % 2 ^ 8 := UInt8.toNat_sub a b
  have htop : (128 : UInt8).toNat = 128 := rfl
  rw [SignedLess]
  simp only [UInt8.le_iff_toNat_le, UInt8.lt_iff_toNat_lt, ne_eq, decide_eq_decide]
  rw [htop, hsub]
  split <;> omega

/-- The two orders of bytes agree on bytes of one half of their range, and on no others. -/
theorem signedLess_iff_lt (a b : UInt8) :
    (SignedLess a b ↔ a < b) ↔ (a < 128 ↔ b < 128) := by
  have ha := a.toNat_lt
  have hb := b.toNat_lt
  have htop : (128 : UInt8).toNat = 128 := rfl
  rw [SignedLess]
  simp only [UInt8.le_iff_toNat_le, UInt8.lt_iff_toNat_lt, decide_eq_decide]
  rw [htop]
  split <;> omega

/-- From `s`, `repe cmpsb` stopped at byte `j` of `n + 1`: no byte before it differs, it is the last
one or differs, and the flags are those of its comparison. -/
structure StopsAt (s : StringState) (n j : ℕ) (t : StringState) : Prop where
  le : j ≤ n
  equal : ∀ i < j, s.mem (s.rsi + BitVec.ofNat 64 i) = s.mem (s.rdi + BitVec.ofNat 64 i)
  last : j = n ∨ s.mem (s.rsi + BitVec.ofNat 64 j) ≠ s.mem (s.rdi + BitVec.ofNat 64 j)
  zf : t.zf = decide (s.mem (s.rsi + BitVec.ofNat 64 j) = s.mem (s.rdi + BitVec.ofNat 64 j))
  less : t.sf ≠ t.of ↔
    SignedLess (s.mem (s.rsi + BitVec.ofNat 64 j)) (s.mem (s.rdi + BitVec.ofNat 64 j))

/-- One more byte in front, which does not differ. -/
theorem StopsAt.succ {j : ℕ} {s' : StringState} (h : StopsAt s' n j t) (hmem : s'.mem = s.mem)
    (hrsi : s'.rsi = s.rsi + BitVec.ofNat 64 1) (hrdi : s'.rdi = s.rdi + BitVec.ofNat 64 1)
    (hfirst : s.mem s.rsi = s.mem s.rdi) : StopsAt s (n + 1) (j + 1) t := by
  have hnext : ∀ (p : Word) (i : ℕ),
      p + BitVec.ofNat 64 1 + BitVec.ofNat 64 i = p + BitVec.ofNat 64 (i + 1) := by
    intro p i
    rw [BitVec.add_assoc, ← BitVec.ofNat_add, Nat.add_comm]
  obtain ⟨hle, hequal, hlast, hzf, hless⟩ := h
  simp only [hmem, hrsi, hrdi, hnext] at hequal hlast hzf hless
  refine ⟨Nat.succ_le_succ hle, fun i hi ↦ ?_, hlast.imp_left (congrArg Nat.succ), hzf, hless⟩
  cases i with
  | zero => rwa [BitVec.add_zero, BitVec.add_zero]
  | succ i => exact hequal i (Nat.lt_of_succ_lt_succ hi)

/-- **`repe cmpsb` finds the first difference.** -/
theorem repeLoop_cmpsb (hdf : s.df = false) (n : ℕ) :
    ∃ j, StopsAt s n j (s.repeLoop StringState.cmpsb (n + 1)) := by
  induction n generalizing s with
  | zero =>
    have hloop : s.repeLoop StringState.cmpsb 1 = { s.cmpsb with rcx := s.cmpsb.rcx - 1 } := by
      rw [StringState.repeLoop]
      exact ite_self _
    rw [hloop]
    refine ⟨0, le_rfl, fun i hi ↦ absurd hi (Nat.not_lt_zero i), Or.inl rfl, ?_, ?_⟩
    · rw [BitVec.add_zero, BitVec.add_zero]
      exact cmpsb_zf s
    · rw [BitVec.add_zero, BitVec.add_zero]
      exact cmpsb_less s
  | succ n ih =>
    have hzf : s.cmpsb.zf = _ := cmpsb_zf s
    rw [StringState.repeLoop]
    dsimp only
    split
    case isTrue hequal =>
      -- the first bytes are equal, and the others are compared from the next pointers on
      have hfirst : s.mem s.rsi = s.mem s.rdi := of_decide_eq_true (hzf.symm.trans hequal)
      have hrsi : s.cmpsb.rsi = s.rsi + BitVec.ofNat 64 1 :=
        if_neg (by rw [hdf]; exact Bool.false_ne_true)
      have hrdi : s.cmpsb.rdi = s.rdi + BitVec.ofNat 64 1 :=
        if_neg (by rw [hdf]; exact Bool.false_ne_true)
      obtain ⟨j, hj⟩ := ih (s := { s.cmpsb with rcx := s.cmpsb.rcx - 1 }) hdf
      exact ⟨j + 1, hj.succ rfl hrsi hrdi hfirst⟩
    case isFalse hdiffer =>
      refine ⟨0, Nat.zero_le _, fun i hi ↦ absurd hi (Nat.not_lt_zero i), Or.inr ?_, ?_, ?_⟩
      · rw [BitVec.add_zero, BitVec.add_zero]
        exact fun heq ↦ hdiffer (hzf.trans (decide_eq_true heq))
      · rw [BitVec.add_zero, BitVec.add_zero]
        exact hzf
      · rw [BitVec.add_zero, BitVec.add_zero]
        exact cmpsb_less s

end Rules

end X86
