import LightNightOS.Console.FormatBuffer
import LightNightOS.Foundation.CharArrays
import Mathlib.Data.List.TakeWhile

/-!
# Decimal numbers

The two ways in which the console prints one: `print_uint64` with a buffer of its own, and `printk`.

For an unsigned number they agree (`printers_agree`). A signed one is read by `vprintk` as a
`uint32_t` and put into a `uint64_t`, where `number` looks for the sign in bit 63. So `%d` prints a
negative `int` as `2 ^ 32` more than it is; and where the width overflows an `int`, blanks can come
between a `+` and the digits (`signedDecimal_iff`).

* `printers_agree` — `print_uint64` and `printk("%lu", …)` print the same text for every number;
* `signedDecimal_iff` — which numbers, widths and flags make `%d` print the number itself.

The signed case goes through the parts of the text (`numberText_parts`): blanks, a sign, zeros,
digits, blanks. `IsDecimal` says what a reader expects of them, and `SignedDecimal` of the whole
text; only the sign can be wrong, or be cut off from the digits (`SignCutOff`).
-/

namespace LightNight

open CharArray

/-! ### `print_uint64` -/

/-- The size of `buf`. -/
def decimalBufSize : ℕ := 20

/-- The first loop of `print_uint64_color`, in at most `k` turns: `idx` and `buf` behind it. -/
def decimalLoop : ℕ → ℕ → ℤ → (ℕ → UInt8) → Option (ℤ × (ℕ → UInt8))
  | 0, _, _, _ => none
  | k + 1, num, idx, buf =>
    if 0 < num then
      (store decimalBufSize buf idx (UInt8.ofNat (0x30 + num % 10))).bind fun buf ↦
        decimalLoop k (num / 10) (idx + 1) buf
    else some (idx, buf)

/-- The second loop: the characters from `buf[i - 1]` down to `buf[0]`. -/
def printDown (buf : ℕ → UInt8) : ℕ → Option (List UInt8)
  | 0 => some []
  | i + 1 => (load decimalBufSize buf i).bind fun c ↦ (printDown buf i).map (c :: ·)

/-- `print_uint64`: the characters it prints, or `none` if it leaves `buf`. -/
def printUint64 (num : ℕ) (buf : ℕ → UInt8) : Option (List UInt8) :=
  if num = 0 then some [0x30]
  else (decimalLoop 64 num 0 buf).bind fun (idx, buf) ↦ printDown buf idx.toNat

/-- `printk`: the characters of `fmt_buf` up to the first zero. -/
def printkText (fmt : List UInt8) (va : VaList) : Option (List UInt8) :=
  (vprintk fmt va).map fun (_, out) ↦ out.str.takeWhile (· ≠ 0)

/-- The decimal representation of a number, without leading zeros. -/
structure IsDecimal (n : ℕ) (text : List UInt8) : Prop where
  digits : ∀ c ∈ text, 0x30 ≤ c ∧ c ≤ 0x39
  value : readIn 10 text = n
  zero : n = 0 → text = [0x30]
  head : n ≠ 0 → ∃ c rest, text = c :: rest ∧ c ≠ 0x30

/-- The decimal representation of a signed number in a field: blanks, a sign, zeros, digits,
blanks. -/
def SignedDecimal (v : ℤ) (text : List UInt8) : Prop :=
  ∃ blanks sign zeros digits trailing,
    text = List.replicate blanks 0x20 ++ sign ++ List.replicate zeros 0x30 ++ digits ++
      List.replicate trailing 0x20 ∧
    sign ∈ [[], [0x2D], [0x2B], [0x20]] ∧ (sign = [0x2D] ↔ v < 0) ∧ IsDecimal v.natAbs digits

/-- The conversion writes a `+`, and this and the digits take the width down to the smallest `int`:
the loop in front of the sign then leaves a width of `2 ^ 31 - 1` for the one behind it. -/
def SignCutOff (d : FieldSpec) (v : ℤ) : Prop :=
  d.flags.plus = true ∧ d.flags.left = false ∧ d.flags.zeropad = false ∧
    widthLeft [0x2B] [] (numeral 10 false v.natAbs) d.fieldWidth d.precision = -2 ^ 31

instance (d : FieldSpec) (v : ℤ) : Decidable (SignCutOff d v) := inferInstanceAs (Decidable (_ ∧ _))

/-! ### The digits -/

/-- The digits that `print_uint64` writes are those of the digit table. -/
theorem decimal_char : ∀ d < 10, UInt8.ofNat (0x30 + d) = digitChar false d := by decide

/-- A decimal digit is a character from `0` to `9`. -/
theorem decimal_char_bounds : ∀ d < 10, 0x30 ≤ digitChar false d ∧ digitChar false d ≤ 0x39 := by
  decide

theorem decimal_char_zero : ∀ d < 10, digitChar false d = 0x30 → d = 0 := by decide

/-- The numeral is the decimal representation. -/
theorem isDecimal_numeral (n : ℕ) : IsDecimal n (numeral 10 false n) := by
  refine ⟨fun c hc ↦ ?_, readIn_numeral (by decide) (by decide) false n, fun hn ↦ ?_, fun hn ↦ ?_⟩
  · obtain ⟨d, hd, rfl⟩ := List.mem_map.1 hc
    exact decimal_char_bounds d (Numeral.lt_of_mem_ofNat (by decide) hd)
  · rw [hn]
    decide
  · obtain ⟨d, ds, hds, hne⟩ := @Numeral.head_ofNat_ne_zero 10 _ hn
    refine ⟨digitChar false d, ds.map (digitChar false), by rw [numeral, hds, List.map_cons], ?_⟩
    have hlt : d < 10 := Numeral.lt_of_mem_ofNat (by decide) (hds ▸ List.mem_cons_self)
    exact fun h ↦ hne (decimal_char_zero d hlt h)

/-- **The digit loop** fills the buffer with the digits, last one first. -/
theorem decimalLoop_eq {m : ℕ} : ∀ {k num idx : ℕ} (buf : ℕ → UInt8), num < 10 ^ m → m < k →
    idx + m ≤ decimalBufSize → ∃ buf', decimalLoop k num idx buf =
        some (((idx + (Nat.digits 10 num).length : ℕ) : ℤ), buf') ∧
      (∀ j < idx, buf' j = buf j) ∧
      ∀ (j : ℕ) (h : j < (Nat.digits 10 num).length),
        buf' (idx + j) = digitChar false (Nat.digits 10 num)[j] := by
  induction m with
  | zero =>
    intro k num idx buf hnum hk _
    obtain ⟨k, rfl⟩ : ∃ k', k = k' + 1 := ⟨k - 1, by omega⟩
    obtain rfl : num = 0 := by omega
    exact ⟨buf, by simp [decimalLoop], fun _ _ ↦ rfl, fun j h ↦ absurd h (by simp)⟩
  | succ m ih =>
    intro k num idx buf hnum hk hroom
    obtain ⟨k, rfl⟩ : ∃ k', k = k' + 1 := ⟨k - 1, by omega⟩
    rw [decimalLoop]
    by_cases hpos : 0 < num
    · have hdigits := Nat.digits_def' (by decide : 1 < 10) hpos
      have hdiv : num / 10 < 10 ^ m := by
        rw [Nat.div_lt_iff_lt_mul (by decide), ← pow_succ]
        exact hnum
      obtain ⟨buf', hloop, hbefore, hstored⟩ := @ih k (num / 10) (idx + 1)
        (Function.update buf idx (UInt8.ofNat (0x30 + num % 10))) hdiv (by omega) (by omega)
      refine ⟨buf', ?_, fun j hj ↦ ?_, fun j hj ↦ ?_⟩
      · rw [if_pos hpos, store_natCast (by omega), Option.bind_some, hdigits, List.length_cons]
        have hlength : idx + ((Nat.digits 10 (num / 10)).length + 1) =
            idx + 1 + (Nat.digits 10 (num / 10)).length := by omega
        rw [hlength]
        exact hloop
      · rw [hbefore j (by omega), Function.update_of_ne (by omega)]
      · simp only [hdigits] at hj ⊢
        cases j with
        | zero =>
          rw [Nat.add_zero, hbefore idx (by omega), Function.update_self,
            decimal_char _ (Nat.mod_lt _ (by decide)), List.getElem_cons_zero]
        | succ j =>
          rw [List.length_cons] at hj
          have hadd : idx + (j + 1) = idx + 1 + j := by omega
          rw [hadd, hstored j (by omega), List.getElem_cons_succ]
    · obtain rfl : num = 0 := by omega
      exact ⟨buf, by simp, fun _ _ ↦ rfl, fun j h ↦ absurd h (by simp)⟩

/-- **The second loop** prints what the buffer holds, backwards. -/
theorem printDown_eq {buf : ℕ → UInt8} {text : List UInt8} (hroom : text.length ≤ decimalBufSize)
    (htext : ∀ (j : ℕ) (h : j < text.length), buf j = text[j]) :
    printDown buf text.length = some text.reverse := by
  have hfront : ∀ n ≤ text.length, printDown buf n = some (text.take n).reverse := by
    intro n
    induction n with
    | zero => exact fun _ ↦ rfl
    | succ n ih =>
      intro hn
      rw [printDown, load_natCast (by omega), Option.bind_some, ih (by omega), Option.map_some,
        htext n (by omega), List.take_succ_eq_append_getElem (by omega), List.reverse_append]
      rfl
  rw [hfront _ le_rfl, List.take_length]

/-- `print_uint64` prints the numeral, and stays inside its buffer. -/
theorem printUint64_eq {num : ℕ} (hnum : num < 2 ^ 64) (buf : ℕ → UInt8) :
    printUint64 num buf = some (numeral 10 false num) := by
  rw [printUint64]
  by_cases hzero : num = 0
  · rw [if_pos hzero, hzero]
    decide
  · have hbound : num < 10 ^ 20 := hnum.trans (by decide)
    have hlength : (Nat.digits 10 num).length ≤ 20 :=
      (Nat.digits_length_le_iff (by decide) num).2 hbound
    obtain ⟨buf', hloop, -, hstored⟩ := @decimalLoop_eq 20 64 num 0 buf hbound (by decide)
      (by decide)
    have hdown := @printDown_eq buf' ((Nat.digits 10 num).map (digitChar false))
      (by rw [List.length_map]; exact hlength) fun j hj ↦ by
        rw [List.length_map] at hj
        rw [List.getElem_map, ← hstored j hj, Nat.zero_add]
    rw [List.length_map] at hdown
    rw [if_neg hzero]
    have hloop : decimalLoop 64 num 0 buf = _ := hloop
    rw [hloop, Option.bind_some]
    dsimp only
    rw [Int.toNat_natCast, Nat.zero_add, hdown, numeral, Numeral.ofNat, if_neg hzero,
      List.map_reverse]

/-! ### Signed numbers -/

/-- The parts of a number, with a hole behind a sign if the loops wrap. -/
theorem numberText_parts (num : ℕ) (size precision : ℤ) (type : Flags) :
    ∃ blanks hole zeros trailing, numberText num 10 size precision type =
      List.replicate blanks 0x20 ++ signText num type ++ List.replicate hole 0x20 ++
        List.replicate zeros 0x30 ++ numeral 10 type.small (magnitude num type) ++
          List.replicate trailing 0x20 ∧
      (0 < hole ↔ type.left = false ∧ type.zeropad = false ∧
        widthLeft (signText num type) [] (numeral 10 type.small (magnitude num type))
          size precision = -2 ^ 31) := by
  have hfront : prefixText 10 type = [] := by
    rw [prefixText]
    split <;> rfl
  rw [numberText, hfront, layOut]
  generalize (precision - _).toNat = zeros
  have hbase : (10 : ℤ).toNat = 10 := rfl
  rw [hbase, fills]
  generalize widthLeft _ _ _ _ _ = rest
  cases type.left with
  | true => exact ⟨0, 0, zeros, rest.toNat, by simp, by simp⟩
  | false =>
    cases type.zeropad with
    | true =>
      exact ⟨0, 0, rest.toNat + zeros,
        refill rest, by simp [← List.replicate_append_replicate], by simp⟩
    | false =>
      refine ⟨rest.toNat, refill rest, zeros, refill (rest - 1), by simp, ?_⟩
      rw [refill]
      split
      case isTrue hrest => exact iff_of_true (by decide) ⟨rfl, rfl, hrest⟩
      case isFalse hrest => exact iff_of_false (by decide) fun h ↦ hrest h.2.2

/-- Without a `*` the width and the precision take no argument. -/
theorem spec_args {d : Directive} (hwidth : d.width ≠ [0x2A])
    (hprecision : d.precision ≠ some [0x2A]) (va : VaList) (k : ℕ) : (d.spec va k).2 = k := by
  have hvalue {field : List UInt8} (h : field ≠ [0x2A]) : (fieldValue va field k).2 = k := by
    rw [fieldValue, if_neg h]
    split <;> rfl
  simp only [Directive.spec]
  cases hp : d.precision with
  | none => exact hvalue hwidth
  | some field =>
    have hfield : field ≠ [0x2A] := fun h ↦ hprecision (hp.trans (congrArg some h))
    dsimp only
    rw [hvalue hwidth]
    exact hvalue hfield

/-- The qualifier of a directive is passed on as it is. -/
theorem spec_qualifier (d : Directive) (va : VaList) (k : ℕ) :
    (d.spec va k).1.qualifier = d.qualifier := by
  simp only [Directive.spec]
  split <;> rfl

theorem spec_small (d : Directive) (va : VaList) (k : ℕ) : (d.spec va k).1.flags.small = false := by
  have hflags : (d.flags.foldl setFlag {}).small = false := by
    refine List.foldlRecOn (motive := fun flags : Flags ↦ flags.small = false)
      d.flags setFlag rfl ?_
    intro flags h c _
    simp only [setFlag]
    split_ifs <;> exact h
  simp only [Directive.spec]
  split <;> split_ifs <;> exact hflags

/-- An `int` that is not negative is the same number read unsigned. -/
theorem natAbs_bmod {n m : ℕ} (h : 0 ≤ Int.bmod n m) : (Int.bmod n m).natAbs = n % m := by
  rw [Int.bmod_def] at h ⊢
  split_ifs at h ⊢ with hlt
  · rw [← Int.natCast_emod, Int.natAbs_natCast]
  · obtain rfl | hm := Nat.eq_zero_or_pos m
    · simp
    · have := Int.emod_lt_of_pos n (Int.natCast_pos.2 hm)
      omega

/-- `%d` and `%i` -/
theorem convert_signed {c : UInt8} (hc : c = 0x64 ∨ c = 0x69) (va : VaList) (d : FieldSpec)
    (out : Output) : convert va c d out =
      (number (unsignedArg (va.word out.args) d.qualifier) 10 d.fieldWidth d.precision
        { d.flags with sign := true }).map { out with args := out.args + 1 }.put := by
  obtain rfl | rfl := hc <;> rfl

/-- A number without a hole, or with one that the blanks in front can take in. -/
theorem signedDecimal_parts {n blanks hole zeros trailing : ℕ} {sign : List UInt8}
    (hsign : sign ∈ [[], [0x2B], [0x20]]) (hhole : 0 < hole → sign ≠ [0x2B]) :
    SignedDecimal n (List.replicate blanks 0x20 ++ sign ++ List.replicate hole 0x20 ++
      List.replicate zeros 0x30 ++ numeral 10 false n ++ List.replicate trailing 0x20) := by
  have hnonneg : ¬(n : ℤ) < 0 := by omega
  have hplain : sign ≠ [0x2D] := by
    rintro rfl
    exact absurd hsign (by decide)
  rcases Nat.eq_zero_or_pos hole with rfl | hpos
  · refine ⟨blanks, sign, zeros, _, trailing, by simp, ?_, iff_of_false hplain hnonneg,
      isDecimal_numeral n⟩
    exact List.mem_cons.2 ((List.mem_cons.1 hsign).imp_right (List.mem_cons_of_mem _))
  · have hblank : ∃ k, sign = List.replicate k 0x20 := by
      simp only [List.mem_cons, List.not_mem_nil, or_false, hhole hpos, false_or] at hsign
      rcases hsign with rfl | rfl
      exacts [⟨0, rfl⟩, ⟨1, rfl⟩]
    obtain ⟨k, rfl⟩ := hblank
    refine ⟨blanks + k + hole, [], zeros, _, trailing, ?_, List.mem_cons_self,
      iff_of_false (List.cons_ne_nil _ _).symm hnonneg, isDecimal_numeral n⟩
    rw [List.replicate_add, List.replicate_add, List.append_nil]

/-- A `+` with a hole behind it is no sign. -/
theorem not_signedDecimal_hole {v : ℤ} {blanks hole : ℕ} {text : List UInt8} (hhole : 0 < hole) :
    ¬SignedDecimal v (List.replicate blanks 0x20 ++ [0x2B] ++
      List.replicate hole 0x20 ++ text) := by
  rintro ⟨blanks', sign, zeros, digits, trailing, hparts, hsign, -, hdecimal⟩
  obtain ⟨hole, rfl⟩ : ∃ n, hole = n + 1 := ⟨hole - 1, by omega⟩
  -- what comes behind the sign starts with a digit
  obtain ⟨c, rest, hrest, hdigit⟩ : ∃ c rest,
      List.replicate zeros 0x30 ++ (digits ++ List.replicate trailing 0x20) =
        c :: rest ∧ 0x30 ≤ c := by
    cases zeros with
    | succ zeros => exact ⟨0x30, _, rfl, by decide⟩
    | zero =>
      have hne : digits ≠ [] := by
        rcases em (v.natAbs = 0) with hzero | hne
        · rw [hdecimal.zero hzero]
          exact List.cons_ne_nil _ _
        · obtain ⟨c, rest, rfl, -⟩ := hdecimal.head hne
          exact List.cons_ne_nil _ _
      obtain ⟨c, rest, rfl⟩ := List.exists_cons_of_ne_nil hne
      exact ⟨c, _, rfl, (hdecimal.digits c List.mem_cons_self).1⟩
  have hplus : (0x30 : UInt8) ≤ 0x2B → False := by decide
  have hblank : (0x30 : UInt8) ≤ 0x20 → False := by decide
  have hdrop : ∀ k (l : List UInt8),
      (List.replicate k 0x20 ++ l).dropWhile (· = 0x20) = l.dropWhile (· = 0x20) :=
    fun k l ↦ List.dropWhile_append_of_pos fun c hc ↦ decide_eq_true (List.eq_of_mem_replicate hc)
  have hstop : (c :: rest).dropWhile (· = 0x20) = c :: rest := by
    rw [List.dropWhile_cons_of_neg]
    rw [decide_eq_true_iff]
    rintro rfl
    exact hblank hdigit
  have hparts := congrArg (List.dropWhile (· = 0x20)) hparts
  simp only [List.append_assoc, hdrop, hrest] at hparts
  have hleft : ([0x2B] ++ (List.replicate (hole + 1) 0x20 ++ text)).dropWhile (· = 0x20) =
      0x2B :: 0x20 :: (List.replicate hole 0x20 ++ text) := rfl
  rw [hleft] at hparts
  simp only [List.mem_cons, List.not_mem_nil, or_false] at hsign
  rcases hsign with rfl | rfl | rfl | rfl
  · rw [List.nil_append, hstop] at hparts
    obtain ⟨rfl, -⟩ := List.cons.inj hparts
    exact hplus hdigit
  · have hminus : ([0x2D] ++ c :: rest).dropWhile (· = 0x20) = 0x2D :: c :: rest := rfl
    rw [hminus] at hparts
    exact absurd (List.cons.inj hparts).1 (by decide)
  · have hsecond : ([0x2B] ++ c :: rest).dropWhile (· = 0x20) = 0x2B :: c :: rest := rfl
    rw [hsecond] at hparts
    obtain ⟨rfl, -⟩ := List.cons.inj (List.cons.inj hparts).2
    exact hblank hdigit
  · have hspace : ([0x20] ++ c :: rest).dropWhile (· = 0x20) = (c :: rest).dropWhile (· = 0x20) :=
      rfl
    rw [hspace, hstop] at hparts
    obtain ⟨rfl, -⟩ := List.cons.inj hparts
    exact hplus hdigit

/-- A signed number in whose representation there is no `-` is not negative. -/
theorem SignedDecimal.nonneg {v : ℤ} {text : List UInt8} (h : SignedDecimal v text)
    (hminus : 0x2D ∉ text) : 0 ≤ v := by
  obtain ⟨blanks, sign, zeros, digits, trailing, rfl, -, hneg, -⟩ := h
  by_contra hlt
  refine hminus ?_
  rw [hneg.2 (by omega)]
  simp

/-- A text with a blank, a `+` or nothing in front has no `-` in it. -/
theorem minus_notMem {n blanks hole zeros trailing : ℕ} {sign : List UInt8}
    (hsign : sign ∈ [[], [0x2B], [0x20]]) :
    0x2D ∉ List.replicate blanks 0x20 ++ sign ++ List.replicate hole 0x20 ++
      List.replicate zeros 0x30 ++ numeral 10 false n ++ List.replicate trailing 0x20 := by
  intro hmem
  simp only [List.mem_append, List.mem_replicate] at hmem
  have hblank : (0x2D : UInt8) ≠ 0x20 := by decide
  have hzero : (0x2D : UInt8) ≠ 0x30 := by decide
  obtain ((((⟨-, h⟩ | h) | ⟨-, h⟩) | ⟨-, h⟩) | h) | ⟨-, h⟩ := hmem
  · exact hblank h
  · simp only [List.mem_cons, List.not_mem_nil, or_false] at hsign
    obtain hs | hs | hs := hsign <;> rw [hs] at h <;> exact absurd h (by decide)
  · exact hblank h
  · exact hzero h
  · exact absurd ((isDecimal_numeral n).digits 0x2D h).1 (by decide)
  · exact hblank h

/-- What `%d` and `%i` print: the argument is cut to 32 bits and passed on as it is. -/
theorem vprintk_int {fmt : List UInt8} {d : Directive} {va : VaList}
    (hfmt : ∀ c ∈ fmt, c ≠ 0) (hpieces : pieces fmt = [.directive d])
    (hconversion : d.conversion = some 0x64 ∨ d.conversion = some 0x69)
    (hwidth : d.width ≠ [0x2A]) (hprecision : d.precision ≠ some [0x2A])
    (hqualifier : d.qualifier ≠ some 0x6C) :
    vprintk fmt va = some (fmt.length, ⟨numberText (u32 (va.word 0)) 10 (d.spec va 0).1.fieldWidth
      (d.spec va 0).1.precision { (d.spec va 0).1.flags with sign := true }, 1, []⟩) := by
  obtain ⟨c, hc, hcd⟩ : ∃ c, d.conversion = some c ∧ (c = 0x64 ∨ c = 0x69) := by
    obtain h | h := hconversion
    · exact ⟨_, h, .inl rfl⟩
    · exact ⟨_, h, .inr rfl⟩
  have hsmall : u32 (va.word 0) < 2 ^ 64 := (u32_lt _).trans (by decide)
  have hemit : Piece.emit va ⟨[], 0, []⟩ (.directive d) =
      convert va c (d.spec va 0).1 ⟨[], (d.spec va 0).2, []⟩ := by
    rw [Piece.emit, hc]
  have hword : unsignedArg (va.word 0) d.qualifier = u32 (va.word 0) := if_neg hqualifier
  rw [vprintk_eq hfmt, hpieces, format, hemit, spec_args hwidth hprecision, convert_signed hcd,
    spec_qualifier, hword, number_eq hsmall (by decide) (by decide)]
  rfl

/-- **Where `%d` and `%i` print a signed number**: a negative `int` is not one of them, nor one
whose `+` is cut off from its digits. -/
theorem signedDecimal_iff {fmt : List UInt8} {d : Directive} {va : VaList} {v : ℤ}
    (hfmt : ∀ c ∈ fmt, c ≠ 0) (hpieces : pieces fmt = [.directive d])
    (hconversion : d.conversion = some 0x64 ∨ d.conversion = some 0x69)
    (hwidth : d.width ≠ [0x2A]) (hprecision : d.precision ≠ some [0x2A])
    (hqualifier : d.qualifier ≠ some 0x6C) (hva : va.int 0 = v) :
    (∃ out, vprintk fmt va = some (fmt.length, out) ∧ SignedDecimal v out.str) ↔
      0 ≤ v ∧ ¬SignCutOff (d.spec va 0).1 v := by
  -- the argument is read as 32 bits, and is below the bit that `number` looks at
  have hnum : u32 (va.word 0) < 2 ^ 32 := u32_lt _
  have hprint : vprintk fmt va = some _ :=
    vprintk_int hfmt hpieces hconversion hwidth hprecision hqualifier
  have habs : 0 ≤ v → u32 (va.word 0) = v.natAbs := fun hv ↦ by
    have hint : Int.bmod (va.word 0) (2 ^ 32) = v := hva
    rw [← hint] at hv ⊢
    exact (natAbs_bmod hv).symm
  have htype := spec_small d va 0
  rw [SignCutOff]
  generalize (d.spec va 0).1 = spec at hprint htype
  generalize u32 (va.word 0) = n at *
  obtain ⟨blanks, hole, zeros, trailing, htext, hhole⟩ :=
    numberText_parts n spec.fieldWidth spec.precision
    { spec.flags with sign := true }
  have hpos : ¬Negative n { spec.flags with sign := true } := fun h ↦ by
    have hle := h.2
    omega
  have hsigntext : signText n { spec.flags with sign := true } =
      if spec.flags.plus then [0x2B] else if spec.flags.space then [0x20] else [] := if_neg hpos
  have hdecimal : numeral 10 spec.flags.small n = numeral 10 false n := by rw [htype]
  rw [magnitude, if_neg hpos, hdecimal, hsigntext] at htext hhole
  have hsign : (if spec.flags.plus then [0x2B] else if spec.flags.space then [0x20] else []) ∈
      [[], [(0x2B : UInt8)], [0x20]] := by
    split_ifs <;> decide
  constructor
  · rintro ⟨out, hout, hout'⟩
    rw [hprint, Option.some.injEq, Prod.mk.injEq] at hout
    rw [← hout.2] at hout'
    dsimp only at hout'
    have hv : 0 ≤ v := hout'.nonneg (htext ▸ minus_notMem hsign)
    refine ⟨hv, ?_⟩
    rintro ⟨hplus, hleft, hzeropad, hrest⟩
    rw [if_pos hplus] at htext hhole
    rw [← habs hv] at hrest
    rw [htext, List.append_assoc, List.append_assoc] at hout'
    exact not_signedDecimal_hole (hhole.2 ⟨hleft, hzeropad, hrest⟩) hout'
  · rintro ⟨hv, hcut⟩
    refine ⟨_, hprint, ?_⟩
    dsimp only
    rw [htext, ← Int.natAbs_of_nonneg hv, ← habs hv]
    refine signedDecimal_parts hsign fun hpos heq ↦ hcut ?_
    obtain ⟨hleft, hzeropad, hrest⟩ := hhole.1 hpos
    have hplus : spec.flags.plus = true := by
      by_contra hnot
      rw [if_neg hnot] at heq
      split_ifs at heq
      exact absurd heq (by decide)
    rw [if_pos hplus] at hrest
    exact ⟨hplus, hleft, hzeropad, habs hv ▸ hrest⟩

/-- `"%+6d"` -/
def plusDirective : Directive := ⟨[0x2B], [0x36], none, none, some 0x64⟩

/-- `printk("%+6d", 7)` -/
theorem signedDecimal_seven :
    (∃ out, vprintk [0x25, 0x2B, 0x36, 0x64] ⟨fun _ ↦ 7, fun _ ↦ []⟩ = some (4, out) ∧
      SignedDecimal 7 out.str) ↔
      (0 : ℤ) ≤ 7 ∧ ¬SignCutOff (plusDirective.spec ⟨fun _ ↦ 7, fun _ ↦ []⟩ 0).1 7 :=
  signedDecimal_iff (by decide +kernel) rfl (Or.inl rfl) (by decide) (by decide) (by decide) rfl

/-- `printk("%d", -1)` -/
theorem negative_printed_unsigned :
    (∃ out, vprintk [0x25, 0x64] ⟨fun _ ↦ 2 ^ 32 - 1, fun _ ↦ []⟩ = some (2, out) ∧
      out.str = [0x34, 0x32, 0x39, 0x34, 0x39, 0x36, 0x37, 0x32, 0x39, 0x35]) ∧
    ¬∃ out, vprintk [0x25, 0x64] ⟨fun _ ↦ 2 ^ 32 - 1, fun _ ↦ []⟩ = some (2, out) ∧
      SignedDecimal (-1) out.str := by
  have hprint : (vprintk [0x25, 0x64] ⟨fun _ ↦ 2 ^ 32 - 1, fun _ ↦ []⟩).map
      (fun r ↦ (r.1, r.2.str)) =
        some (2, [0x34, 0x32, 0x39, 0x34, 0x39, 0x36, 0x37, 0x32, 0x39, 0x35]) := by decide +kernel
  obtain ⟨⟨i, out⟩, heq, hpair⟩ := Option.map_eq_some_iff.1 hprint
  obtain ⟨rfl, hstr⟩ := Prod.mk.inj hpair
  refine ⟨⟨out, heq, hstr⟩, ?_⟩
  rintro ⟨out', heq', hdecimal⟩
  rw [heq, Option.some.injEq, Prod.mk.injEq] at heq'
  rw [← heq'.2] at hdecimal
  have hstr : out.str = [0x34, 0x32, 0x39, 0x34, 0x39, 0x36, 0x37, 0x32, 0x39, 0x35] := hstr
  rw [hstr] at hdecimal
  exact absurd (hdecimal.nonneg (by decide)) (by decide)

/-! ### `printk("%lu", n)` -/

/-- `%lu` -/
def luDirective : Directive := ⟨[], [], none, some 0x6C, some 0x75⟩

/-- Without flags, width and precision a number is its digits. -/
theorem numberText_plain {num : ℕ} (hnum : num < 2 ^ 64) :
    numberText num 10 (-1) (-1) {} = numeral 10 false num := by
  have hlength : (numeral 10 false num).length ≤ 20 := by
    rw [numeral, List.length_map, Numeral.ofNat]
    split
    · decide
    · rw [List.length_reverse]
      exact (Nat.digits_length_le_iff (by decide) num).2 (hnum.trans (by decide))
  have hwidth : widthLeft [] [] (numeral 10 false num) (-1) (-1) =
      -1 - max (-1) ((numeral 10 false num).length : ℤ) := by
    rw [widthLeft, List.length_nil, Nat.cast_zero, zero_add, zero_add]
    exact cInt_of_int (by omega) (by omega)
  have hloops : -2 ^ 31 + (fillLoops {} : ℤ) ≤
      widthLeft [] [] (numeral 10 false num) (-1) (-1) := by
    rw [hwidth]
    show -2 ^ 31 + 3 ≤ _
    omega
  have hfill : (widthLeft [] [] (numeral 10 false num) (-1) (-1)).toNat = 0 := by
    rw [hwidth]
    omega
  have hzero : (-1 - ((numeral 10 false num).length : ℤ)).toNat = 0 := by omega
  have hfills : fills {} (widthLeft [] [] (numeral 10 false num) (-1) (-1)) = ([], [], []) := by
    rw [fills_eq hloops, hfill]
    rfl
  show layOut {} [] [] (numeral 10 false num) (-1) (-1) = numeral 10 false num
  rw [layOut, hfills, hzero]
  simp

/-- `%lu` prints the decimal numeral of its argument. -/
theorem printkText_lu {n : ℕ} (hn : n < 2 ^ 64) {va : VaList} (hva : va.word 0 = n) :
    printkText [0x25, 0x6C, 0x75] va = some (numeral 10 false n) := by
  have hpieces : pieces [0x25, 0x6C, 0x75] = [.directive luDirective] := by rfl
  have hword : unsignedArg (va.word 0) (some 0x6C) = n := by
    rw [unsignedArg, if_pos rfl, hva, u64_of_lt hn]
  have hconvert : convert va 0x75 ⟨{}, -1, -1, some 0x6C⟩ ⟨[], 0, []⟩ =
      (number (unsignedArg (va.word 0) (some 0x6C)) 10 (-1) (-1) {}).map
        (Output.put ⟨[], 1, []⟩) := rfl
  have hemit : Piece.emit va ⟨[], 0, []⟩ (.directive luDirective) =
      some ⟨numeral 10 false n, 1, []⟩ := by
    have hspec : Piece.emit va ⟨[], 0, []⟩ (.directive luDirective) =
        convert va 0x75 ⟨{}, -1, -1, some 0x6C⟩ ⟨[], 0, []⟩ := rfl
    rw [hspec, hconvert, hword, number_eq hn (by decide) (by decide), numberText_plain hn]
    rfl
  rw [printkText, vprintk_eq (by decide +kernel), hpieces, format, hemit, Option.bind_some, format,
    Option.map_some, Option.map_some]
  refine congrArg some (List.takeWhile_eq_self_iff.2 fun c hc ↦ ?_)
  have hbounds := (isDecimal_numeral n).digits c hc
  have hne : c ≠ 0 := fun h ↦ by
    rw [h] at hbounds
    exact absurd hbounds.1 (by decide)
  simpa using hne

/-- **The two number printers agree** on every unsigned number: both print its decimal
representation, and `print_uint64` stays inside its buffer. -/
theorem printers_agree {n : ℕ} (hn : n < 2 ^ 64) (buf : ℕ → UInt8) {va : VaList}
    (hva : va.word 0 = n) : ∃ text, printUint64 n buf = some text ∧
      printkText [0x25, 0x6C, 0x75] va = some text ∧ IsDecimal n text :=
  ⟨_, printUint64_eq hn buf, printkText_lu hn hva, isDecimal_numeral n⟩

/-- The largest number, which fills the buffer. -/
theorem printers_agree_largest : ∃ text, printUint64 (2 ^ 64 - 1) (fun _ ↦ 0) = some text ∧
    printkText [0x25, 0x6C, 0x75] ⟨fun _ ↦ 2 ^ 64 - 1, fun _ ↦ []⟩ = some text ∧
      IsDecimal (2 ^ 64 - 1) text :=
  printers_agree (by decide) _ rfl

end LightNight
