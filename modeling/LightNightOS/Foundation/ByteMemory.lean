import Mathlib.Algebra.Order.Ring.Nat
import Mathlib.Data.Set.Function
import Mathlib.Data.Set.Lattice
import Mathlib.Order.CompletePartialOrder
import Mathlib.Tactic.Ring

/-!
# Byte-addressed memory

A memory is a function from addresses to bytes. Multi-byte fields are read and written in
**little-endian** order: `load m a n` is the number held in the `n` bytes from `a` on, and
`store m a n v` writes the low `n` bytes of `v` there.

The codec (`byte`, `decode`) does not mention addresses, so that a machine whose addresses wrap at
its word size can use it through its own address arithmetic; `load`, `store` and `fill` are the
instance at natural-number addresses.

Two facts carry every proof about structures laid out in memory: a field just stored reads back
(`load_store_self`), and a store outside the bytes of a field leaves it alone (`load_congr` with
`store_of_notMem`). Regions are `Set.Ico`s, and "agrees outside these bytes" is `Set.EqOn`.

* `load_store_of_disjoint`, `load_fill_of_disjoint` — a field behind a store, or behind a fill, to
  other bytes;
* `eqOn_of_load_eq` — a field determines its bytes, so that memories can be compared by what they
  hold.
-/

/-! ### The little-endian codec -/

namespace LittleEndian

/-- Byte number `i` of `v`, the lowest byte first. -/
def byte (v i : ℕ) : UInt8 :=
  UInt8.ofNat (v / 256 ^ i)

/-- The number whose `n` lowest bytes are `f 0`, …, `f (n - 1)`. -/
def decode : (ℕ → UInt8) → ℕ → ℕ
  | _, 0 => 0
  | f, n + 1 => (f 0).toNat + 256 * decode (fun i ↦ f (i + 1)) n

/-- A byte of a number is a digit of it in base 256. -/
theorem byte_toNat (v i : ℕ) : (byte v i).toNat = v / 256 ^ i % 256 := by
  simp [byte]

/-- The bytes of a number but for the lowest are those of its quotient by 256. -/
theorem byte_succ (v i : ℕ) : byte v (i + 1) = byte (v / 256) i := by
  rw [byte, byte, Nat.div_div_eq_div_mul, pow_succ, Nat.mul_comm]

/-- The number in some bytes depends on these bytes. -/
theorem decode_congr {f g : ℕ → UInt8} {n : ℕ} (h : ∀ i < n, f i = g i) :
    decode f n = decode g n := by
  induction n generalizing f g with
  | zero => rfl
  | succ n ih =>
    rw [decode, decode, h 0 (by omega), ih fun i hi ↦ h (i + 1) (by omega)]

/-- **Reading back the bytes of a number** gives the number, cut to the bytes read. -/
theorem decode_byte (v n : ℕ) : decode (byte v) n = v % 256 ^ n := by
  induction n generalizing v with
  | zero => simp [decode, Nat.mod_one]
  | succ n ih =>
    have htail : decode (fun i ↦ byte v (i + 1)) n = v / 256 % 256 ^ n := by
      rw [← ih]
      exact decode_congr fun i _ ↦ byte_succ v i
    rw [decode, htail, byte_toNat, pow_zero, Nat.div_one, pow_succ', Nat.mod_mul]

/-- **The bytes of a decoded number** are the bytes it was decoded from. -/
theorem byte_decode {f : ℕ → UInt8} {n i : ℕ} (hi : i < n) : byte (decode f n) i = f i := by
  induction n generalizing f i with
  | zero => omega
  | succ n ih =>
    have hhead := (f 0).toNat_lt
    cases i with
    | zero =>
      refine UInt8.toNat_inj.1 ?_
      rw [byte_toNat, decode]
      omega
    | succ i =>
      have htail : ((f 0).toNat + 256 * decode (fun i ↦ f (i + 1)) n) / 256 =
          decode (fun i ↦ f (i + 1)) n := by omega
      rw [byte_succ, decode, htail, ih (by omega)]

theorem decode_lt (f : ℕ → UInt8) (n : ℕ) : decode f n < 256 ^ n := by
  induction n generalizing f with
  | zero => simp [decode]
  | succ n ih =>
    have hhead := (f 0).toNat_lt
    have htail := ih fun i ↦ f (i + 1)
    rw [decode, pow_succ']
    omega

end LittleEndian

/-! ### Memory at natural-number addresses -/

/-- A memory: the byte at every address. -/
abbrev ByteMemory := ℕ → UInt8

namespace ByteMemory

open LittleEndian

/-- The number in the `n` bytes from `a` on. -/
def load (m : ByteMemory) (a n : ℕ) : ℕ :=
  decode (fun i ↦ m (a + i)) n

/-- Write the low `n` bytes of `v` from `a` on. -/
def store (m : ByteMemory) (a n v : ℕ) : ByteMemory := fun x ↦
  if a ≤ x ∧ x < a + n then byte v (x - a) else m x

/-- Set `n` bytes from `a` on to `c`. -/
def fill (m : ByteMemory) (a n : ℕ) (c : UInt8) : ByteMemory := fun x ↦
  if a ≤ x ∧ x < a + n then c else m x

variable {m m' : ByteMemory} {a b n k v x : ℕ}

/-- A field of `n` bytes holds a number below `256 ^ n`. -/
theorem load_lt (m : ByteMemory) (a n : ℕ) : m.load a n < 256 ^ n :=
  decode_lt _ n

/-- A field depends only on its own bytes. -/
theorem load_congr (h : Set.EqOn m m' (Set.Ico a (a + n))) : m.load a n = m'.load a n :=
  decode_congr fun i hi ↦ h ⟨by omega, by omega⟩

/-- A field is the same in memories that agree on a region around it. -/
theorem load_congr_of_subset {s : Set ℕ} (h : Set.EqOn m m' s) (hs : Set.Ico a (a + n) ⊆ s) :
    m.load a n = m'.load a n :=
  load_congr (h.mono hs)

/-- A store leaves the bytes outside its field alone. -/
theorem store_of_notMem (h : x ∉ Set.Ico a (a + n)) : m.store a n v x = m x :=
  if_neg h

/-- Filling a region leaves the bytes outside it alone. -/
theorem fill_of_notMem {c : UInt8} (h : x ∉ Set.Ico a (a + n)) : m.fill a n c x = m x :=
  if_neg h

theorem fill_of_mem {c : UInt8} (h : x ∈ Set.Ico a (a + n)) : m.fill a n c x = c :=
  if_pos h

/-- A store changes nothing outside the bytes it writes. -/
theorem store_eqOn {s : Set ℕ} (h : Disjoint (Set.Ico a (a + n)) s) :
    Set.EqOn (m.store a n v) m s := fun _ hx ↦
  store_of_notMem fun hmem ↦ Set.disjoint_left.1 h hmem hx

/-- **A stored field reads back**, if the value fits it. -/
theorem load_store_self (h : v < 256 ^ n) : (m.store a n v).load a n = v := by
  have hbytes : ∀ i < n, m.store a n v (a + i) = byte v i := by
    intro i hi
    rw [store, if_pos ⟨by omega, by omega⟩, Nat.add_sub_cancel_left]
  rw [load, decode_congr hbytes, decode_byte, Nat.mod_eq_of_lt h]

/-- Storing what a field already holds changes nothing. -/
theorem store_load_self (m : ByteMemory) (a n : ℕ) : m.store a n (m.load a n) = m := by
  funext x
  rw [store]
  split
  case isTrue hx =>
    have haddr : a + (x - a) = x := by omega
    rw [load, byte_decode (f := fun i ↦ m (a + i)) (by omega), haddr]
  case isFalse => rfl

/-- A field determines its bytes. -/
theorem eqOn_of_load_eq (h : m.load a n = m'.load a n) : Set.EqOn m m' (Set.Ico a (a + n)) := by
  have hbyte : ∀ (M : ByteMemory) (i : ℕ), i < n → M (a + i) = byte (M.load a n) i :=
    fun M i hi ↦ (byte_decode (f := fun i ↦ M (a + i)) hi).symm
  intro x hx
  obtain ⟨i, rfl⟩ := Nat.exists_eq_add_of_le hx.1
  have hi : i < n := Nat.lt_of_add_lt_add_left hx.2
  rw [hbyte m i hi, hbyte m' i hi, h]

/-- A store beside a field leaves the field alone. -/
theorem load_store_of_disjoint (h : a + n ≤ b ∨ b + k ≤ a) :
    (m.store a n v).load b k = m.load b k :=
  load_congr fun _ hx ↦ store_of_notMem fun hmem ↦ by
    have h₁ := hx.1; have h₂ := hx.2; have h₃ := hmem.1; have h₄ := hmem.2
    omega

/-- Filling beside a field leaves the field alone. -/
theorem load_fill_of_disjoint {c : UInt8} (h : a + n ≤ b ∨ b + k ≤ a) :
    (m.fill a n c).load b k = m.load b k :=
  load_congr fun _ hx ↦ fill_of_notMem fun hmem ↦ by
    have h₁ := hx.1; have h₂ := hx.2; have h₃ := hmem.1; have h₄ := hmem.2
    omega

end ByteMemory
