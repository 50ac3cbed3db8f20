import LightNightOS.Foundation.CharArrays
import LightNightOS.Foundation.StringOps

/-!
# The memory routines of `lib.h`

`memcpy`, `memset` and `memcmp`, as their assembler runs on the machine of the string instructions.
`int d0, d1, d2` only receive the registers; counts and addresses are 64 bits.

`memcpy` and `memset` share their shape (`chunked`): quadwords while `Num / 8` lasts, then a step of
four, two and one bytes where that bit of `Num` is set. Behind the step of `2 ^ j` bytes,
`2 ^ j * (Num / 2 ^ j)` bytes are done, which for `j = 0` is all of them (`chunked_rule`). Both thus
do what their byte-wise counterparts do (`chunks_bytewise`): every byte of the range is stored once,
and no other.

`memcmp` compares with `cmpsb`, and takes its sign from the condition `jl`, which is that of signed
bytes. It orders its parts as unsigned bytes exactly if the bytes of their first difference are both
below 0x80 or both not (`memcmp_orders_iff`). `strcmp` is written in C, and always orders its
strings so (`strcmp_orders`).
-/

namespace LightNight

open X86 LittleEndian

/-! ### The routines -/

/-- `testb $imm, %b; je 1f; op; 1:` -/
def tail (imm : BitVec 8) (op : StringState → StringState) (num : Word) (s : StringState) :
    StringState :=
  let s := s.testb imm num
  if s.zf then s else op s

/-- The body of `memcpy` and `memset`, by their string instruction of each width. -/
def chunked (op : ℕ → StringState → StringState) (num : Word) (s : StringState) : StringState :=
  let s := s.cld
  let s := s.rep (op 8)
  let s := tail 4 (op 4) num s
  let s := tail 2 (op 2) num s
  tail 1 (op 1) num s

/-- `memcpy`: what it returns, and the machine behind it. -/
def memcpy (From To Num : Word) (s : StringState) : Word × StringState :=
  (To, chunked StringState.movs Num { s with rcx := Num.sdiv 8, rdi := To, rsi := From })

/-- `memset`: what it returns, and the machine behind it. -/
def memset (Address : Word) (C : UInt8) (Count : Word) (s : StringState) : Word × StringState :=
  let tmp := C.toBitVec.setWidth 64 * 0x0101010101010101
  (Address,
    chunked StringState.stos Count { s with rax := tmp, rcx := Count.sdiv 8, rdi := Address })

/-- `memcmp`: what it returns. -/
def memcmp (FirstPart SecondPart Count : Word) (s : StringState) : BitVec 32 :=
  let eax : BitVec 32 := 0
  let s := { s with rdi := FirstPart, rsi := SecondPart, rcx := Count }
  let s := s.cld
  let s := s.repe StringState.cmpsb
  if s.zf then eax
  else
    let eax : BitVec 32 := 1
    if s.sf ≠ s.of then eax else -eax

/-! ### Chunks

`chunked` is the shape that both routines share, with the instruction as a parameter. What it takes
is that an instruction of any width carries a description on by that many bytes (`Proceeds`). -/

section Chunks

variable {I : ℕ → StringState → Prop} {op : ℕ → StringState → StringState} {num : Word}
  {s : StringState}

/-- A property of a run that counts bytes and reads neither `rcx` nor the flags of comparisons. -/
def IgnoresFlags (I : ℕ → StringState → Prop) : Prop :=
  ∀ k s, I k s → ∀ rcx zf sf of, I k { s with rcx := rcx, zf := zf, sf := sf, of := of }

/-- The steps of a routine: up to eight bytes more, while there are as many to do. -/
def Proceeds (I : ℕ → StringState → Prop) (op : ℕ → StringState → StringState) (num : Word) :
    Prop :=
  ∀ k n s, n ≤ 8 → k + n ≤ num.toNat → I k s → I (k + n) (op n s)

/-- A count of a `long` that is not negative is an eighth of it, eight at a time. -/
theorem toNat_sdiv_eight (hnum : 0 ≤ num.toInt) : (num.sdiv 8).toNat = num.toNat / 8 := by
  have hmsb : num.msb = false := by
    rw [BitVec.msb_eq_toInt]
    exact decide_eq_false (Int.not_lt.2 hnum)
  rw [BitVec.sdiv, hmsb]
  rfl

/-- **The conditional step** of `2 ^ j` bytes. -/
theorem tail_rule (hI : IgnoresFlags I) (hop : Proceeds I op num) {j : ℕ} (hj : j ≤ 3)
    (hs : I (2 ^ (j + 1) * (num.toNat / 2 ^ (j + 1))) s) :
    I (2 ^ j * (num.toNat / 2 ^ j)) (tail (BitVec.twoPow 8 j) (op (2 ^ j)) num s) := by
  have hhalf : num.toNat / 2 ^ (j + 1) = num.toNat / 2 ^ j / 2 := by
    rw [pow_succ, Nat.div_div_eq_div_mul]
  have hle : 2 ^ j * (num.toNat / 2 ^ j) ≤ num.toNat := Nat.mul_div_le _ _
  have htest := hI _ _ hs s.rcx (s.testb (BitVec.twoPow 8 j) num).zf
    (s.testb (BitVec.twoPow 8 j) num).sf false
  rw [tail, testb_zf (by omega)]
  generalize hq : num.toNat / 2 ^ j = q at *
  rw [hhalf, pow_succ, Nat.mul_assoc] at htest
  split
  case isTrue heven =>
    -- the bit is clear: the bytes done are those of the larger step
    have hdone : 2 * (q / 2) = q := by have := of_decide_eq_true heven; omega
    rwa [hdone] at htest
  case isFalse hodd =>
    have hdone : 2 ^ j * (2 * (q / 2)) + 2 ^ j = 2 ^ j * q := by
      rw [← Nat.mul_succ]
      congr 1
      rw [decide_eq_true_iff] at hodd
      omega
    rw [← hdone]
    have hwidth : 2 ^ j ≤ 8 := Nat.pow_le_pow_right (by omega) hj
    exact hop _ _ _ hwidth (hdone ▸ hle) htest

/-- **The chunks add up** to the count, whatever it leaves on division by eight. -/
theorem chunked_rule (hI : IgnoresFlags I) (hop : Proceeds I op num) (hnum : 0 ≤ num.toInt)
    (hrcx : s.rcx = num.sdiv 8) (hs : I 0 s.cld) : I num.toNat (chunked op num s) := by
  have hquads : I (8 * (num.toNat / 8)) (s.cld.rep (op 8)) := by
    have hturns : s.cld.rcx.toNat = num.toNat / 8 :=
      (congrArg BitVec.toNat hrcx).trans (toNat_sdiv_eight hnum)
    rw [StringState.rep, hturns]
    have hrun := repLoop_rule (k := 0) (n := num.toNat / 8) (I := fun j s ↦ I (8 * j) s)
      (fun j _ hj t ht ↦ by
        have hnext := hop (8 * j) 8 t le_rfl (by omega) ht
        exact hI _ _ hnext _ _ _ _) hs
    rwa [Nat.zero_add] at hrun
  have hfour := tail_rule hI hop (j := 2) (by omega) hquads
  have htwo := tail_rule hI hop (j := 1) (by omega) hfour
  have hone := tail_rule hI hop (j := 0) (by omega) htwo
  rw [pow_zero, Nat.div_one, Nat.one_mul] at hone
  exact hone

end Chunks

/-! ### Copying and filling -/

section Bytewise

variable {s s₀ : StringState} {From To Num Address Count : Word} {C : UInt8}

/-- `memset` puts its byte at each of the eight places of `rax`. -/
theorem byte_pattern (C : UInt8) {i : ℕ} (hi : i < 8) :
    byte (C.toBitVec.setWidth 64 * 0x0101010101010101 : Word).toNat i = C := by
  have hlt := C.toNat_lt
  have hval : (C.toBitVec.setWidth 64 * 0x0101010101010101 : Word).toNat =
      decode (fun _ ↦ C) 8 := by
    rw [BitVec.toNat_mul, BitVec.toNat_setWidth, UInt8.toNat_toBitVec]
    show C.toNat % 2 ^ 64 * 0x0101010101010101 % 2 ^ 64 = _
    simp only [decode]
    omega
  rw [hval, byte_decode hi]

/-- **`memcpy` copies** a range to one that is apart from it. -/
theorem memcpy_storesOnce (hNum : 0 ≤ Num.toInt)
    (happart : ∀ i < Num.toNat, ∀ j < Num.toNat,
      From + BitVec.ofNat 64 i ≠ To + BitVec.ofNat 64 j) :
    StoresOnce s (memcpy From To Num s).2 To Num.toNat fun i ↦
      s.mem (From + BitVec.ofNat 64 i) := by
  have hmax : Num.toNat ≤ 2 ^ 64 := Num.isLt.le
  set s₀ : StringState := { s with rcx := Num.sdiv 8, rdi := To, rsi := From }
  have hlays := chunked_rule (s := s₀)
    (I := fun k t ↦ Lays s₀ (fun i ↦ s.mem (From + BitVec.ofNat 64 i)) k t ∧
      t.rsi = From + BitVec.ofNat 64 k)
    (fun k t ht rcx zf sf of ↦ ⟨ht.1.congr rfl rfl rfl rfl, ht.2⟩)
    (fun k n t _ hle ht ↦ ht.1.movs (hle.trans hmax) ht.2 (fun _ _ _ ↦ rfl)
      fun i _ hi j hj ↦ happart i (by omega) j (by omega))
    hNum rfl ⟨lays_zero s₀ _, (BitVec.add_zero _).symm⟩
  exact hlays.1.storesOnce hmax rfl rfl

/-- **`memset` fills** a range. -/
theorem memset_storesOnce (hCount : 0 ≤ Count.toInt) :
    StoresOnce s (memset Address C Count s).2 Address Count.toNat fun _ ↦ C := by
  have hmax : Count.toNat ≤ 2 ^ 64 := Count.isLt.le
  set tmp : Word := C.toBitVec.setWidth 64 * 0x0101010101010101
  set s₀ : StringState := { s with rax := tmp, rcx := Count.sdiv 8, rdi := Address }
  have hlays := chunked_rule (s := s₀)
    (I := fun k t ↦ Lays s₀ (fun _ ↦ C) k t ∧ t.rax = tmp)
    (fun k t ht rcx zf sf of ↦ ⟨ht.1.congr rfl rfl rfl rfl, ht.2⟩)
    (fun k n t hn hle ht ↦ ⟨ht.1.stos (hle.trans hmax) fun i hi ↦ by
      rw [ht.2, byte_pattern C (by omega)], ht.2⟩)
    hCount rfl ⟨lays_zero s₀ _, rfl⟩
  exact hlays.1.storesOnce hmax rfl rfl

/-- **The chunked routines do what byte-wise ones do**, for every count of a `long` that is not
negative and in every state of the machine: each byte of the range is stored once, and holds what it
should. -/
theorem chunks_bytewise (s : StringState) (hNum : 0 ≤ Num.toInt) :
    (∀ From To : Word,
      (∀ i < Num.toNat, ∀ j < Num.toNat, From + BitVec.ofNat 64 i ≠ To + BitVec.ofNat 64 j) →
      StoresOnce s (memcpy From To Num s).2 To Num.toNat fun i ↦ s.mem (From + BitVec.ofNat 64 i)) ∧
    ∀ (Address : Word) (C : UInt8),
      StoresOnce s (memset Address C Num s).2 Address Num.toNat fun _ ↦ C :=
  ⟨fun _ _ ↦ memcpy_storesOnce hNum, fun _ _ ↦ memset_storesOnce hNum⟩

/-- A machine whose memory counts: each byte holds the low byte of its address. -/
def countingMemory : StringState where
  rax := 0
  rcx := 0
  rsi := 0
  rdi := 0
  mem := fun x ↦ UInt8.ofNat x.toNat
  df := true
  zf := false
  sf := false
  of := false
  stored := []

/-- Fifteen bytes, with a step of each width: copied from 16 to 32, and set to 7 from -8 on, around
the end of the addresses. -/
theorem chunks_bytewise_fifteen :
    StoresOnce countingMemory (memcpy 16 32 15 countingMemory).2 32 15
      (fun i ↦ countingMemory.mem (16 + BitVec.ofNat 64 i)) ∧
    StoresOnce countingMemory (memset (-8) 7 15 countingMemory).2 (-8) 15 (fun _ ↦ 7) :=
  have hnum : 0 ≤ (15 : Word).toInt := by decide
  have hrun := chunks_bytewise countingMemory hnum
  ⟨hrun.1 16 32 (by decide), hrun.2 (-8) 7⟩

/-- On memory that does not wrap, `memset` is `fill`: what the heap and the page lists are cleared
by. -/
theorem memset_fill {m : ByteMemory} (hmem : s.mem = fun x ↦ m x.toNat) (hCount : 0 ≤ Count.toInt)
    (hfit : Address.toNat + Count.toNat ≤ 2 ^ 64) :
    (memset Address C Count s).2.mem = fun x ↦ m.fill Address.toNat Count.toNat C x.toNat := by
  have hset : StoresOnce s (memset Address C Count s).2 Address Count.toNat fun _ ↦ C :=
    memset_storesOnce hCount
  have hin : ∀ x : Word, x ∈ span Address Count.toNat ↔
      x.toNat ∈ Set.Ico Address.toNat (Address.toNat + Count.toNat) := by
    intro x
    rw [mem_span Count.isLt.le, Set.mem_Ico]
    bv_omega
  funext x
  rcases Decidable.em (x ∈ span Address Count.toNat) with hx | hx
  · rw [ByteMemory.fill_of_mem ((hin x).1 hx)]
    have hbyte := hset.written _ ((mem_span Count.isLt.le).1 hx)
    rwa [ofNat_toNat_sub] at hbyte
  · rw [ByteMemory.fill_of_notMem fun hx' ↦ hx ((hin x).2 hx'), hset.frame x hx, hmem]

end Bytewise

/-! ### Comparing

The first difference decides. `memcmp` compares the two bytes as signed ones, so what it reports
about them is right when they are on the same side of 0x80. -/

section Compare

variable {s : StringState} {FirstPart SecondPart Count : Word} {m : Word → UInt8} {a b : Word}
  {n i j : ℕ}

/-- The first of `n` bytes that differs. -/
structure FirstDifference (m : Word → UInt8) (a b : Word) (n j : ℕ) : Prop where
  lt : j < n
  equal : ∀ i < j, m (a + BitVec.ofNat 64 i) = m (b + BitVec.ofNat 64 i)
  differs : m (a + BitVec.ofNat 64 j) ≠ m (b + BitVec.ofNat 64 j)

theorem FirstDifference.unique (hi : FirstDifference m a b n i) (hj : FirstDifference m a b n j) :
    i = j := by
  rcases Nat.lt_trichotomy i j with hlt | heq | hgt
  · exact absurd (hj.equal i hlt) hi.differs
  · exact heq
  · exact absurd (hi.equal j hgt) hj.differs

/-- `r` orders two parts of `n` bytes as their first difference does, read as unsigned bytes. -/
structure Orders (m : Word → UInt8) (a b : Word) (n : ℕ) (r : ℤ) : Prop where
  zero_iff : r = 0 ↔ ∀ i < n, m (a + BitVec.ofNat 64 i) = m (b + BitVec.ofNat 64 i)
  pos_iff : ∀ j, FirstDifference m a b n j →
    (0 < r ↔ m (b + BitVec.ofNat 64 j) < m (a + BitVec.ofNat 64 j))
  neg_iff : ∀ j, FirstDifference m a b n j →
    (r < 0 ↔ m (a + BitVec.ofNat 64 j) < m (b + BitVec.ofNat 64 j))

/-- A sign taken from the signed order of the first difference is right if the two orders agree
there. -/
theorem FirstDifference.orders_iff {r : ℤ} (hfirst : FirstDifference m a b n j)
    (hr : (SignedLess (m (b + BitVec.ofNat 64 j)) (m (a + BitVec.ofNat 64 j)) ∧ r = 1) ∨
      (¬ SignedLess (m (b + BitVec.ofNat 64 j)) (m (a + BitVec.ofNat 64 j)) ∧ r = -1)) :
    Orders m a b n r ↔
      (SignedLess (m (b + BitVec.ofNat 64 j)) (m (a + BitVec.ofNat 64 j)) ↔
        m (b + BitVec.ofNat 64 j) < m (a + BitVec.ofNat 64 j)) := by
  have hpos : 0 < r ↔ SignedLess (m (b + BitVec.ofNat 64 j)) (m (a + BitVec.ofNat 64 j)) := by
    rcases hr with ⟨hless, rfl⟩ | ⟨hless, rfl⟩
    · exact iff_of_true Int.one_pos hless
    · exact iff_of_false (by decide) hless
  have hneg : r < 0 ↔ ¬ 0 < r := by
    rcases hr with ⟨-, rfl⟩ | ⟨-, rfl⟩ <;> decide
  have hzero : r ≠ 0 := by
    rcases hr with ⟨-, rfl⟩ | ⟨-, rfl⟩ <;> decide
  constructor
  · exact fun h ↦ hpos.symm.trans (h.pos_iff j hfirst)
  · intro hagree
    refine ⟨iff_of_false hzero fun h ↦ hfirst.differs (h j hfirst.lt), fun i hi ↦ ?_, fun i hi ↦ ?_⟩
    · rw [hi.unique hfirst]
      exact hpos.trans hagree
    · rw [hi.unique hfirst, hneg, hpos, hagree]
      exact UInt8.not_lt.trans (UInt8.le_iff_lt_or_eq.trans (or_iff_left hfirst.differs))

/-- What `memcmp` returns: 0 for equal parts, and for others a sign, by the signed order of the
bytes that differ first. -/
theorem memcmp_cases (hCount : 0 < Count.toNat) :
    ((∀ i < Count.toNat,
      s.mem (FirstPart + BitVec.ofNat 64 i) = s.mem (SecondPart + BitVec.ofNat 64 i)) ∧
      (memcmp FirstPart SecondPart Count s).toInt = 0) ∨
    ∃ j, FirstDifference s.mem FirstPart SecondPart Count.toNat j ∧
      ((SignedLess (s.mem (SecondPart + BitVec.ofNat 64 j))
        (s.mem (FirstPart + BitVec.ofNat 64 j)) ∧
          (memcmp FirstPart SecondPart Count s).toInt = 1) ∨
        (¬ SignedLess (s.mem (SecondPart + BitVec.ofNat 64 j))
          (s.mem (FirstPart + BitVec.ofNat 64 j)) ∧
          (memcmp FirstPart SecondPart Count s).toInt = -1)) := by
  obtain ⟨n, hn⟩ := Nat.exists_eq_add_one.2 hCount
  set t := ({ s with rdi := FirstPart, rsi := SecondPart, rcx := Count } : StringState).cld.repe
    StringState.cmpsb with ht
  have hstops : ∃ j, StopsAt ({ s with rdi := FirstPart, rsi := SecondPart, rcx := Count } :
      StringState).cld n j t := by
    rw [ht, StringState.repe]
    show ∃ j, StopsAt _ n j (StringState.repeLoop _ Count.toNat _)
    rw [hn]
    exact repeLoop_cmpsb rfl n
  obtain ⟨j, hle, hequal, hlast, hzf, hless⟩ := hstops
  have hret : memcmp FirstPart SecondPart Count s = if t.zf then 0
      else if t.sf ≠ t.of then 1 else -1 :=
    rfl
  rcases Decidable.em
    (s.mem (SecondPart + BitVec.ofNat 64 j) = s.mem (FirstPart + BitVec.ofNat 64 j))
    with heq | hne
  · -- the byte it stopped at is the last one, and equal
    refine Or.inl ⟨fun i hi ↦ ?_, ?_⟩
    · have hj : j = n := hlast.resolve_right (not_not_intro heq)
      rcases Nat.lt_or_eq_of_le (show i ≤ j by omega) with hlt | rfl
      · exact (hequal i hlt).symm
      · exact heq.symm
    · rw [hret, if_pos (hzf.trans (decide_eq_true heq))]
      rfl
  · have hfirst : FirstDifference s.mem FirstPart SecondPart Count.toNat j :=
      ⟨by omega, fun i hi ↦ (hequal i hi).symm, fun heq ↦ hne heq.symm⟩
    have hjump : ¬ t.zf = true := fun h ↦ hne (of_decide_eq_true (hzf.symm.trans h))
    refine Or.inr ⟨j, hfirst, ?_⟩
    rw [hret, if_neg hjump]
    rcases Decidable.em (t.sf ≠ t.of) with hsign | hsign
    · rw [if_pos hsign]
      exact Or.inl ⟨hless.1 hsign, rfl⟩
    · rw [if_neg hsign]
      exact Or.inr ⟨fun h ↦ hsign (hless.2 h), rfl⟩

/-- **`memcmp` orders its parts as unsigned bytes** exactly if the two bytes that differ first,
where there are such, are both below 0x80 or both not. -/
theorem memcmp_orders_iff (hCount : 0 < Count.toInt) :
    Orders s.mem FirstPart SecondPart Count.toNat (memcmp FirstPart SecondPart Count s).toInt ↔
      ∀ j, FirstDifference s.mem FirstPart SecondPart Count.toNat j →
        (s.mem (FirstPart + BitVec.ofNat 64 j) < 128 ↔
          s.mem (SecondPart + BitVec.ofNat 64 j) < 128) := by
  have hpos : 0 < Count.toNat := by
    rw [Nat.pos_iff_ne_zero]
    intro hzero
    have hCount₀ : Count = 0 := BitVec.eq_of_toNat_eq hzero
    rw [hCount₀] at hCount
    exact absurd hCount (by decide)
  generalize hr : (memcmp FirstPart SecondPart Count s).toInt = r
  rcases memcmp_cases (s := s) hpos with ⟨hequal, hret⟩ | ⟨j, hfirst, hret⟩
  · have hnone : ∀ j, ¬ FirstDifference s.mem FirstPart SecondPart Count.toNat j :=
      fun j h ↦ h.differs (hequal j h.lt)
    have hzero : r = 0 := hr.symm.trans hret
    exact iff_of_true ⟨iff_of_true hzero hequal, fun j h ↦ absurd h (hnone j),
      fun j h ↦ absurd h (hnone j)⟩
      fun j h ↦ absurd h (hnone j)
  · rw [hr] at hret
    calc Orders s.mem FirstPart SecondPart Count.toNat r
        ↔ (SignedLess (s.mem (SecondPart + BitVec.ofNat 64 j))
          (s.mem (FirstPart + BitVec.ofNat 64 j)) ↔
            s.mem (SecondPart + BitVec.ofNat 64 j) < s.mem (FirstPart + BitVec.ofNat 64 j)) :=
          hfirst.orders_iff hret
      _ ↔ (s.mem (SecondPart + BitVec.ofNat 64 j) < 128 ↔
            s.mem (FirstPart + BitVec.ofNat 64 j) < 128) := signedLess_iff_lt _ _
      _ ↔ _ := by
          constructor
          · intro hhalf i hi
            rw [hi.unique hfirst]
            exact hhalf.symm
          · exact fun hhalf ↦ (hhalf j hfirst).symm

/-- Four bytes below 0x80 against four others. -/
theorem memcmp_orders_low :
    Orders countingMemory.mem 0x10 0x20 4 (memcmp 0x10 0x20 4 countingMemory).toInt :=
  have hlow : ∀ j < 4, (countingMemory.mem (0x10 + BitVec.ofNat 64 j) < 128 ↔
      countingMemory.mem (0x20 + BitVec.ofNat 64 j) < 128) := by decide
  have hcount : 0 < (4 : Word).toInt := by decide
  (memcmp_orders_iff hcount).2 fun j h ↦ hlow j h.lt

/-- The byte 0x80 at that address is greater than the byte 1 at address 1, but `memcmp` returns
-1. -/
theorem memcmp_high_byte : countingMemory.mem 0x80 = 0x80 ∧ countingMemory.mem 1 = 1 ∧
    0 < (1 : Word).toInt ∧ (memcmp 0x80 1 1 countingMemory).toInt = -1 ∧
    ¬Orders countingMemory.mem 0x80 1 (1 : Word).toNat (memcmp 0x80 1 1 countingMemory).toInt := by
  have hret : (memcmp 0x80 1 1 countingMemory).toInt = -1 := by decide
  refine ⟨by decide, by decide, by decide, hret, fun horders ↦ ?_⟩
  have hfirst : FirstDifference countingMemory.mem 0x80 1 1 0 :=
    ⟨by decide, fun i hi ↦ absurd hi (Nat.not_lt_zero i), by decide⟩
  have hpos := horders.pos_iff 0 hfirst
  rw [hret] at hpos
  exact absurd (hpos.2 (by decide)) (by decide)

end Compare

/-! ### `strcmp` -/

section Strings

open CharArray

variable {m n i j k : ℕ} {b b' : ℕ → UInt8} {text text' : List UInt8}

/-- The loop of `strcmp` stops at the first difference, or where both strings end. -/
theorem strcmpFrom_orders (h : HoldsString m b i text) (h' : HoldsString n b' j text')
    (hk : text'.length < k) :
    ∃ d, strcmpFrom m b n b' k i j = some d ∧ (d < 0 ↔ text < text') ∧ (0 < d ↔ text' < text) := by
  induction text' generalizing text i j k with
  | nil =>
    obtain ⟨k, rfl⟩ := Nat.exists_eq_succ_of_ne_zero (Nat.ne_of_gt hk)
    cases text with
    | nil =>
      rw [strcmpFrom, CharArray.load_natCast h.1, CharArray.load_natCast h'.1]
      simp [h.2, h'.2]
    | cons c text =>
      obtain ⟨hlt, rfl, hc, -⟩ := h
      rw [strcmpFrom, CharArray.load_natCast hlt, CharArray.load_natCast h'.1]
      have hne : (b i).toNat ≠ 0 := fun h ↦ hc (UInt8.toNat_inj.1 h)
      have hpos : 0 < (b i).toNat := Nat.pos_of_ne_zero hne
      simp [h'.2, hpos]
  | cons c' text' ih =>
    obtain ⟨k, rfl⟩ := Nat.exists_eq_succ_of_ne_zero (Nat.ne_of_gt (Nat.zero_lt_of_lt hk))
    obtain ⟨hlt', rfl, hc', htail'⟩ := h'
    cases text with
    | nil =>
      rw [strcmpFrom, CharArray.load_natCast h.1, CharArray.load_natCast hlt']
      have hne : (b' j).toNat ≠ 0 := fun h ↦ hc' (UInt8.toNat_inj.1 h)
      have hpos : 0 < (b' j).toNat := Nat.pos_of_ne_zero hne
      simp [h.2, hpos]
    | cons c text =>
      obtain ⟨hlt, rfl, hc, htail⟩ := h
      rw [strcmpFrom, CharArray.load_natCast hlt, CharArray.load_natCast hlt', Option.bind_some,
        Option.bind_some]
      simp only [List.cons_lt_cons_iff]
      rcases eq_or_ne (b i) (b' j) with heq | hne
      · rw [if_pos ⟨hc, heq⟩, ← Nat.cast_succ, ← Nat.cast_succ]
        obtain ⟨d, hd, hneg, hpos⟩ := ih htail htail' (Nat.lt_of_succ_lt_succ hk)
        exact ⟨d, hd, hneg.trans (by simp [heq]), hpos.trans (by simp [heq])⟩
      · rw [if_neg fun h ↦ hne h.2]
        refine ⟨_, rfl, ?_, ?_⟩
        · simp only [hne, false_and, or_false, UInt8.lt_iff_toNat_lt]
          omega
        · simp only [hne.symm, false_and, or_false, UInt8.lt_iff_toNat_lt]
          omega

/-- **`strcmp` orders strings** as the dictionary does, by their bytes without sign. -/
theorem strcmp_orders (h : HoldsString m b i text) (h' : HoldsString n b' 0 text') :
    ∃ d, strcmp m b i n b' = some d ∧ (d < 0 ↔ text < text') ∧ (d = 0 ↔ text = text') ∧
      (0 < d ↔ text' < text) := by
  have hlt := h'.lt
  obtain ⟨d, hd, hneg, hpos⟩ := strcmpFrom_orders h h' (show text'.length < n by omega)
  obtain ⟨d', hd', hzero⟩ := h.strcmp_eq h'
  obtain rfl := Option.some.inj (hd.symm.trans hd')
  exact ⟨d, hd, hneg, hzero, hpos⟩

/-- Two strings on whose last bytes `memcmp` is wrong, the first one inside a longer array. -/
theorem strcmp_orders_high : ∃ d,
    strcmp 5 (fun i ↦ [0x20, 0x61, 0x62, 0x80].getD i 0) 1 4 (fun i ↦ [0x61, 0x62, 0x01].getD i 0) =
      some d ∧ (d < 0 ↔ [(0x61 : UInt8), 0x62, 0x80] < [0x61, 0x62, 0x01]) ∧
      (d = 0 ↔ [(0x61 : UInt8), 0x62, 0x80] = [0x61, 0x62, 0x01]) ∧
      (0 < d ↔ [(0x61 : UInt8), 0x62, 0x01] < [0x61, 0x62, 0x80]) :=
  strcmp_orders (i := 1) (by simp [HoldsString]) (by simp [HoldsString])

end Strings

end LightNight
