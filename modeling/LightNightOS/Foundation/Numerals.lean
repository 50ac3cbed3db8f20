import Mathlib.Data.Nat.Digits.Lemmas

/-!
# Numerals

Lists of digits with the most significant one first: their value in a base, the numeral of a number,
and the loop that writes one by taking remainders.

* `value_ofNat` — the numeral of a number has that value, and begins with 0 for 0 only
  (`head_ofNat_ne_zero`);
* `value_fixed` — a numeral of a fixed length has the value modulo a power of the base;
* `divLoop_eq_digits` — the loop over remainders gives the digits lowest first.
-/

namespace Numeral

variable {base : ℕ}

/-! ### Values -/

/-- The value of a list of digits. -/
def value (base : ℕ) (ds : List ℕ) : ℕ := ds.foldl (fun n d ↦ n * base + d) 0

theorem value_append_one (base : ℕ) (ds : List ℕ) (d : ℕ) :
    value base (ds ++ [d]) = value base ds * base + d := by
  rw [value, List.foldl_append]
  rfl

/-- The value in terms of the digits that Mathlib has, which come lowest first. -/
theorem value_reverse (base : ℕ) (ds : List ℕ) : value base ds.reverse = Nat.ofDigits base ds := by
  induction ds with
  | nil => rfl
  | cons d ds ih =>
    rw [List.reverse_cons, value_append_one, ih, Nat.ofDigits_cons, Nat.mul_comm, Nat.add_comm]

/-- Zeros in front do not matter. -/
theorem value_zeros (base k : ℕ) (ds : List ℕ) :
    value base (List.replicate k 0 ++ ds) = value base ds := by
  induction k with
  | zero => rfl
  | succ k ih =>
    rw [List.replicate_succ, List.cons_append, value, List.foldl_cons, Nat.zero_mul]
    exact ih

/-! ### The numeral of a number -/

/-- The numeral of a number, without zeros in front of it. -/
def ofNat (base n : ℕ) : List ℕ := if n = 0 then [0] else (Nat.digits base n).reverse

theorem ofNat_ne_nil (n : ℕ) : ofNat base n ≠ [] := by
  rw [ofNat]
  split
  · exact List.cons_ne_nil 0 []
  case isFalse hn =>
    exact fun h ↦ hn (Nat.digits_eq_nil_iff_eq_zero.1 (List.reverse_eq_nil_iff.1 h))

/-- **A numeral reads back.** -/
theorem value_ofNat (base n : ℕ) : value base (ofNat base n) = n := by
  rw [ofNat]
  split
  case isTrue hn =>
    rw [hn, value, List.foldl_cons, List.foldl_nil, Nat.zero_mul]
  case isFalse => rw [value_reverse, Nat.ofDigits_digits]

theorem lt_of_mem_ofNat (hbase : 1 < base) {n d : ℕ} (hd : d ∈ ofNat base n) : d < base := by
  rw [ofNat] at hd
  split at hd
  · rw [List.mem_singleton] at hd
    omega
  · exact Nat.digits_lt_base hbase (List.mem_reverse.1 hd)

/-- There is no zero in front. -/
theorem head_ofNat_ne_zero {n : ℕ} (hn : n ≠ 0) :
    ∃ d ds, ofNat base n = d :: ds ∧ d ≠ 0 := by
  have hdigits : Nat.digits base n ≠ [] := fun h ↦ hn (Nat.digits_eq_nil_iff_eq_zero.1 h)
  have hlast := Nat.getLast_digit_ne_zero base hn
  rw [ofNat, if_neg hn]
  refine ⟨(Nat.digits base n).getLast hdigits, ((Nat.digits base n).dropLast).reverse, ?_, hlast⟩
  conv_lhs => rw [← List.dropLast_append_getLast hdigits]
  rw [List.reverse_append]
  rfl

/-! ### Numerals of a fixed length -/

/-- The last `k` digits of a number. -/
def fixed (base k n : ℕ) : List ℕ := (List.range k).map fun i ↦ n / base ^ (k - 1 - i) % base

/-- The last digit is the remainder, and the digits before it are those of the quotient. -/
theorem fixed_succ (k n : ℕ) : fixed base (k + 1) n = fixed base k (n / base) ++ [n % base] := by
  have hlast : k + 1 - 1 - k = 0 := by omega
  rw [fixed, List.range_succ, List.map_append, List.map_singleton, hlast, pow_zero, Nat.div_one,
    fixed]
  refine congrArg (· ++ [n % base]) (List.map_congr_left fun i hi ↦ ?_)
  have hplace : k + 1 - 1 - i = k - 1 - i + 1 := by
    rw [List.mem_range] at hi
    omega
  rw [hplace, Nat.pow_succ', Nat.div_div_eq_div_mul]

/-- **A numeral of a fixed length reads back**, as far as it goes. -/
theorem value_fixed (base k n : ℕ) : value base (fixed base k n) = n % base ^ k := by
  induction k generalizing n with
  | zero => rw [pow_zero, Nat.mod_one]; rfl
  | succ k ih =>
    rw [fixed_succ, value_append_one, ih, Nat.pow_succ', Nat.mod_mul]
    ring

/-! ### The loop -/

/-- Take remainders until there is nothing left, in at most `k` turns; the last digit comes
first. -/
def divLoop (base : ℕ) : ℕ → ℕ → List ℕ
  | 0, _ => []
  | k + 1, n => if n = 0 then [] else n % base :: divLoop base k (n / base)

/-- **The loop writes the digits**, if it has a turn for each. -/
theorem divLoop_eq_digits (hbase : 1 < base) {k n : ℕ} (hn : n < base ^ k) :
    divLoop base k n = Nat.digits base n := by
  induction k generalizing n with
  | zero =>
    rw [pow_zero, Nat.lt_one_iff] at hn
    rw [hn, divLoop, Nat.digits_zero]
  | succ k ih =>
    rw [divLoop]
    split
    case isTrue hzero => rw [hzero, Nat.digits_zero]
    case isFalse hne =>
      have hdiv : n / base < base ^ k := by
        rw [Nat.div_lt_iff_lt_mul (by omega), ← pow_succ]
        exact hn
      rw [ih hdiv, Nat.digits_def' hbase (Nat.pos_of_ne_zero hne)]

end Numeral
