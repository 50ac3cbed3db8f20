import LightNightOS.Foundation.Numerals
import LightNightOS.Memory.Layout

/-!
# `number`

The function of `console.c` that renders an integer for `vprintk`. `size` is the width that is left:
it goes down with everything that is going to be written, and the loops `while (size-- > 0)` fill
what remains of it, the first of them that runs leaving nothing for the others.

`int` arithmetic wraps at 32 bits (`cInt`). C leaves that undefined, and a width this far below zero
shows it: each loop still takes one away from `size` when it has nothing to fill, and what is below
the smallest `int` is a width of `2 ^ 31 - 1` for the loop behind it.

* `number_eq` — the text in closed form, wrapped or not;
* `number_renders` — what the text is, part by part, where nothing overflows.
-/

namespace LightNight

/-! ### The function -/

/-- The value of an `int`. -/
def cInt (n : ℤ) : ℤ := Int.bmod n (2 ^ 32)

/-- The flags `ZEROPAD`, `SIGN`, `PLUS`, `SPACE`, `LEFT`, `SPECIAL` and `SMALL`. -/
structure Flags where
  zeropad : Bool := false
  sign : Bool := false
  plus : Bool := false
  space : Bool := false
  left : Bool := false
  special : Bool := false
  small : Bool := false
  deriving DecidableEq, Repr

/-- `digits` -/
def digitTable (small : Bool) : List UInt8 :=
  (if small then "0123456789abcdefghijklmnopqrstuvwxyz"
    else "0123456789ABCDEFGHIJKLMNOPQRSTUVWXYZ").toList.map fun c ↦ UInt8.ofNat c.toNat

/-- `digits[d]` -/
def digitChar (small : Bool) (d : ℕ) : UInt8 := (digitTable small).getD d 0

/-- `while (n-- > 0) *str++ = c`: the characters, and `n` behind the loop. -/
def fillLoop (n : ℤ) (c : UInt8) : List UInt8 × ℤ := (List.replicate n.toNat c, cInt (min n 0 - 1))

/-- The sign that is written, and what `num` and `size` are behind it. -/
def takeSign (num : ℕ) (size : ℤ) (type : Flags) : List UInt8 × ℕ × ℤ :=
  if type.sign ∧ 2 ^ 63 ≤ num then ([0x2D], u64 (2 ^ 64 - num), cInt (size - 1))
  else if type.plus then ([0x2B], num, cInt (size - 1))
  else if type.space then ([0x20], num, cInt (size - 1))
  else ([], num, size)

/-- `size` behind the prefix. -/
def takePrefix (base size : ℤ) (type : Flags) : ℤ :=
  if type.special then
    if base = 16 then cInt (size - 2) else if base = 8 then cInt (size - 1) else size
  else size

/-- The prefix that is written. -/
def prefixText (base : ℤ) (type : Flags) : List UInt8 :=
  if type.special then
    if base = 8 then [0x30]
    else if base = 16 then [0x30, if type.small then 0x78 else 0x58] else []
  else []

/-- The second half of `number`: what is written once the digits are in `tmp`. -/
def writeParts (type : Flags) (sign special tmp : List UInt8) (size precision : ℤ) : List UInt8 :=
  let c : UInt8 := if type.zeropad then 0x30 else 0x20
  let i : ℤ := tmp.length
  let precision := if precision < i then i else precision
  let size := cInt (size - precision)
  let (blanks, size) := if ¬(type.zeropad ∨ type.left) then fillLoop size 0x20 else ([], size)
  let (padding, size) := if ¬type.left then fillLoop size c else ([], size)
  let zeros := List.replicate (precision - i).toNat 0x30
  let (trailing, _) := fillLoop size 0x20
  blanks ++ sign ++ special ++ padding ++ zeros ++ tmp.reverse ++ trailing

/-- `number`: the characters that are written at `str`, or `NULL`. `tmp` has room for 64 digits. -/
def number (num : ℕ) (base size precision : ℤ) (type : Flags) : Option (List UInt8) :=
  let type := if type.left then { type with zeropad := false } else type
  if base < 2 ∨ 36 < base then none
  else
    let (sign, num, size) := takeSign num size type
    let size := takePrefix base size type
    let tmp := if num = 0 then [digitChar false 0]
      else (Numeral.divLoop base.toNat 64 num).map (digitChar type.small)
    some (writeParts type sign (prefixText base type) tmp size precision)

/-! ### What the text should be

`Renders` is written down from what a printed number is supposed to look like, part by part, without
reference to how `number` computes it. -/

/-- The number is taken as a negative one. -/
def Negative (num : ℕ) (type : Flags) : Prop := type.sign = true ∧ 2 ^ 63 ≤ num

instance (num : ℕ) (type : Flags) : Decidable (Negative num type) :=
  inferInstanceAs (Decidable (_ ∧ _))

/-- The absolute value of the number, which is a signed one under `SIGN`. -/
def magnitude (num : ℕ) (type : Flags) : ℕ := if Negative num type then 2 ^ 64 - num else num

/-- The sign, if there is one. -/
def signText (num : ℕ) (type : Flags) : List UInt8 :=
  if Negative num type then [0x2D] else if type.plus then [0x2B]
    else if type.space then [0x20] else []

/-- The digit a character stands for. -/
def digitValue (c : UInt8) : ℕ :=
  if c.toNat < 0x41 then c.toNat - 0x30 else if c.toNat < 0x61 then c.toNat - 0x37
    else c.toNat - 0x57

/-- Characters read in a base. -/
def readIn (base : ℕ) (text : List UInt8) : ℕ := Numeral.value base (text.map digitValue)

/-- The characters of a numeral. -/
def numeral (base : ℕ) (small : Bool) (n : ℕ) : List UInt8 :=
  (Numeral.ofNat base n).map (digitChar small)

/-- How many of the loops `while (size-- > 0)` run. -/
def fillLoops (type : Flags) : ℕ := if type.left then 1 else if type.zeropad then 2 else 3

/-- The width and the precision are `int`s, and no step on `size` leaves them. -/
structure NoOverflow (num : ℕ) (base size precision : ℤ) (type : Flags) : Prop where
  size_lt : size < 2 ^ 31
  precision_lt : precision < 2 ^ 31
  size_steps : -2 ^ 31 ≤ size - ((signText num type).length + (prefixText base type).length +
    max precision (numeral base.toNat type.small (magnitude num type)).length) - fillLoops type

/-- **The text of a number**: blanks, a sign, a prefix, zeros, digits, blanks. `padding` is how many
zeros fill the width and `zeros` how many the precision asks for. -/
structure Renders (num : ℕ) (base size precision : ℤ) (type : Flags) (text : List UInt8)
    (blanks padding zeros trailing : ℕ) (digits : List UInt8) : Prop where
  parts : text = List.replicate blanks 0x20 ++ signText num type ++ prefixText base type ++
    List.replicate (padding + zeros) 0x30 ++ digits ++ List.replicate trailing 0x20
  blanks_right : 0 < blanks → type.left = false ∧ type.zeropad = false
  padding_zeropad : 0 < padding → type.left = false ∧ type.zeropad = true
  trailing_left : 0 < trailing → type.left = true
  digits_base : ∀ c ∈ digits, ∃ d : ℕ, (d : ℤ) < base ∧ c = digitChar type.small d
  value : readIn base.toNat digits = magnitude num type
  value_zeros : readIn base.toNat (List.replicate (padding + zeros) 0x30 ++ digits) =
    magnitude num type
  digits_pos : 1 ≤ digits.length
  precision_le : precision ≤ (zeros + digits.length : ℕ)
  length_eq : (text.length : ℤ) = max size ((signText num type).length +
    (prefixText base type).length + zeros + digits.length : ℕ)

/-! ### The text in closed form

The loops in closed form. What is left of the width is a number that each part is subtracted from,
and a loop that fills has only to know whether one before it has filled. -/

variable {num : ℕ} {base size precision : ℤ} {type : Flags}

/-- What a loop fills behind one that had `n` to fill: nothing, unless that took the smallest `int`
down. -/
def refill (n : ℤ) : ℕ := if n = -2 ^ 31 then 2 ^ 31 - 1 else 0

/-- The width that is left for the loops. -/
def widthLeft (sign special digits : List UInt8) (size precision : ℤ) : ℤ :=
  cInt (size - (sign.length + special.length + max precision digits.length))

/-- What the first two loops write, in front of the sign and behind the prefix, and the last one
behind the digits, for the width that is left. -/
def fills (type : Flags) (rest : ℤ) : List UInt8 × List UInt8 × List UInt8 :=
  if type.left then ([], [], List.replicate rest.toNat 0x20)
  else if type.zeropad then ([], List.replicate rest.toNat 0x30, List.replicate (refill rest) 0x20)
  else (List.replicate rest.toNat 0x20, List.replicate (refill rest) 0x20,
    List.replicate (refill (rest - 1)) 0x20)

/-- The parts in order, with the rest of the width where the flags want it. -/
def layOut (type : Flags) (sign special digits : List UInt8) (size precision : ℤ) : List UInt8 :=
  let (blanks, padding, trailing) := fills type (widthLeft sign special digits size precision)
  blanks ++ sign ++ special ++ padding ++ List.replicate (precision - digits.length).toNat 0x30 ++
    digits ++ trailing

/-- The text of a number. -/
def numberText (num : ℕ) (base size precision : ℤ) (type : Flags) : List UInt8 :=
  layOut type (signText num type) (prefixText base type)
    (numeral base.toNat type.small (magnitude num type)) size precision

/-- The digit loop writes the numeral, last digit first. -/
theorem digitLoop_eq {b n : ℕ} (hb : 2 ≤ b) (hn : n < 2 ^ 64) (small : Bool) :
    (if n = 0 then [digitChar false 0] else (Numeral.divLoop b 64 n).map (digitChar small)) =
      (numeral b small n).reverse := by
  rw [numeral, Numeral.ofNat]
  split
  case isTrue =>
    have hzero : digitChar false 0 = digitChar small 0 := by cases small <;> decide
    rw [hzero]
    rfl
  case isFalse =>
    have hroom : n < b ^ 64 := hn.trans_le (Nat.pow_le_pow_left hb 64)
    rw [Numeral.divLoop_eq_digits (by omega) hroom, List.map_reverse, List.reverse_reverse]

/-- A numeral has at least one digit, that of 0 included. -/
theorem length_numeral_pos (b : ℕ) (small : Bool) (n : ℕ) : 1 ≤ (numeral b small n).length := by
  rw [numeral, List.length_map]
  exact List.length_pos_of_ne_nil (Numeral.ofNat_ne_nil n)

/-- The wrap as a shifted remainder, which linear arithmetic can use. -/
theorem cInt_eq (n : ℤ) : cInt n = (n + 2 ^ 31) % 2 ^ 32 - 2 ^ 31 := by
  rw [cInt, Int.bmod_def]
  split <;> omega

theorem cInt_bounds (n : ℤ) : -2 ^ 31 ≤ cInt n ∧ cInt n < 2 ^ 31 := by
  rw [cInt_eq]
  omega

theorem cInt_of_int {n : ℤ} (hlo : -2 ^ 31 ≤ n) (hhi : n < 2 ^ 31) : cInt n = n := by
  rw [cInt_eq]
  omega

/-- Only the last step needs to wrap. -/
theorem cInt_cInt_sub (n m : ℤ) : cInt (cInt n - m) = cInt (n - m) := by
  rw [cInt_eq, cInt_eq, cInt_eq]
  omega

/-- The sign is taken off the width, up to what wraps. -/
theorem takeSign_eq (size : ℤ) (type : Flags) (hnum : num < 2 ^ 64) :
    ∃ size', takeSign num size type =
    (signText num type, magnitude num type, size') ∧
    ∀ n, cInt (size' - n) = cInt (size - (signText num type).length - n) := by
  rw [takeSign, signText, magnitude]
  by_cases hneg : Negative num type
  · have hcond : type.sign = true ∧ 2 ^ 63 ≤ num := hneg
    have habs : u64 (2 ^ 64 - num) = 2 ^ 64 - num := u64_of_lt (by omega)
    rw [if_pos hcond, if_pos hneg, if_pos hneg, habs]
    exact ⟨_, rfl, cInt_cInt_sub _⟩
  · have hcond : ¬(type.sign = true ∧ 2 ^ 63 ≤ num) := hneg
    rw [if_neg hcond, if_neg hneg, if_neg hneg]
    split
    · exact ⟨_, rfl, cInt_cInt_sub _⟩
    split
    · exact ⟨_, rfl, cInt_cInt_sub _⟩
    · exact ⟨_, rfl, fun n ↦ congrArg (fun m ↦ cInt (m - n)) (sub_zero size).symm⟩

/-- The prefix is taken off the width, up to what wraps. -/
theorem takePrefix_eq (base size : ℤ) (type : Flags) (n : ℤ) :
    cInt (takePrefix base size type - n) = cInt (size - (prefixText base type).length - n) := by
  rw [takePrefix, prefixText]
  split
  case isTrue =>
    by_cases h8 : base = 8
    · rw [if_neg (by omega), if_pos h8, if_pos h8]
      exact cInt_cInt_sub _ n
    · by_cases h16 : base = 16
      · rw [if_pos h16, if_neg h8, if_pos h16]
        exact cInt_cInt_sub _ n
      · rw [if_neg h16, if_neg h8, if_neg h8, if_neg h16, List.length_nil, Nat.cast_zero, sub_zero]
  case isFalse => rw [List.length_nil, Nat.cast_zero, sub_zero]

/-- What is left of an `int` behind a loop. -/
theorem fillLoop_snd {n : ℤ} (hn : -2 ^ 31 ≤ n) (c : UInt8) :
    (fillLoop n c).2 = if n = -2 ^ 31 then 2 ^ 31 - 1 else min n 0 - 1 := by
  rw [fillLoop]
  dsimp only
  rw [cInt_eq]
  split <;> omega

/-- What the next loop fills. -/
theorem fillLoop_twice {n : ℤ} (hn : -2 ^ 31 ≤ n) (c d : UInt8) :
    (fillLoop (fillLoop n c).2 d).1 = List.replicate (refill n) d := by
  rw [fillLoop_snd hn, fillLoop, refill]
  dsimp only
  refine congrArg (List.replicate · d) ?_
  split <;> omega

/-- What the one behind that fills. -/
theorem fillLoop_thrice {n : ℤ} (hn : -2 ^ 31 ≤ n) (c d e : UInt8) :
    (fillLoop (fillLoop (fillLoop n c).2 d).2 e).1 = List.replicate (refill (n - 1)) e := by
  have hnext : -2 ^ 31 ≤ (fillLoop n c).2 := by
    rw [fillLoop_snd hn]
    split <;> omega
  rw [fillLoop_twice hnext, fillLoop_snd hn, refill, refill]
  refine congrArg (List.replicate · e) ?_
  split <;> split <;> split <;> omega

theorem magnitude_lt (type : Flags) (hnum : num < 2 ^ 64) : magnitude num type < 2 ^ 64 := by
  rw [magnitude]
  split
  case isTrue hneg =>
    have hle := hneg.2
    omega
  case isFalse => exact hnum

/-- Without an overflow the first loop fills what is left of the width. -/
theorem fills_eq {rest : ℤ} (h : -2 ^ 31 + fillLoops type ≤ rest) : fills type rest =
    (if type.left ∨ type.zeropad then [] else List.replicate rest.toNat 0x20,
      if ¬type.left ∧ type.zeropad then List.replicate rest.toNat 0x30 else [],
      if type.left then List.replicate rest.toNat 0x20 else []) := by
  rw [fillLoops] at h
  rw [fills]
  cases hl : type.left with
  | true => rfl
  | false =>
    rw [hl, if_neg Bool.false_ne_true] at h
    cases hz : type.zeropad with
    | true =>
      rw [hz, if_pos rfl] at h
      have hlast : refill rest = 0 := if_neg (by omega)
      rw [hlast]
      rfl
    | false =>
      rw [hz, if_neg Bool.false_ne_true] at h
      have hsecond : refill rest = 0 := if_neg (by omega)
      have hlast : refill (rest - 1) = 0 := if_neg (by omega)
      rw [hsecond, hlast]
      rfl

/-- The loops lay the parts out. `LEFT` cancels `ZEROPAD` before. -/
theorem writeParts_eq (sign special digits : List UInt8) (hleft : type.left → type.zeropad = false)
    {size' : ℤ} (hsize : ∀ n, cInt (size' - n) = cInt (size - sign.length - special.length - n)) :
    writeParts type sign special digits.reverse size' precision =
      layOut type sign special digits size precision := by
  have hmax : (if precision < (digits.length : ℤ) then (digits.length : ℤ) else precision) =
      max precision digits.length := by
    split <;> omega
  have hrest : cInt (size' - max precision digits.length) =
      widthLeft sign special digits size precision := by
    rw [hsize, widthLeft]
    exact congrArg cInt (by omega)
  have hzeros : (max precision (digits.length : ℤ) - digits.length).toNat =
      (precision - digits.length).toNat := by omega
  have hlo : -2 ^ 31 ≤ widthLeft sign special digits size precision := (cInt_bounds _).1
  simp only [writeParts, layOut, fills, List.length_reverse, List.reverse_reverse, hmax, hrest,
    hzeros]
  generalize widthLeft sign special digits size precision = rest at hlo
  cases hl : type.left with
  | true => simp [fillLoop, hleft hl]
  | false =>
    cases hz : type.zeropad with
    | true =>
      simp only [Bool.false_eq_true, or_false, not_true_eq_false, if_false, not_false_eq_true,
        if_true, fillLoop_twice hlo]
      simp [fillLoop]
    | false =>
      simp only [Bool.false_eq_true, or_false, if_false, not_false_eq_true, if_true,
        fillLoop_twice hlo, fillLoop_thrice hlo]
      simp [fillLoop]

/-- **`number` in closed form.** -/
theorem number_eq (hnum : num < 2 ^ 64) (hlo : 2 ≤ base) (hhi : base ≤ 36) :
    number num base size precision type = some (numberText num base size precision type) := by
  have hbase : ¬(base < 2 ∨ 36 < base) := by omega
  have hdigits := digitLoop_eq (b := base.toNat) (by omega) (magnitude_lt type hnum)
    type.small
  -- the flag that `LEFT` cancels is looked at by the loops only
  obtain ⟨type', htype', hleft, hsign, hmagnitude, hfront, hsmall, hlayOut⟩ :
      ∃ type' : Flags, type' = (if type.left then { type with zeropad := false } else type) ∧
        (type'.left → type'.zeropad = false) ∧ signText num type' = signText num type ∧
        magnitude num type' = magnitude num type ∧ prefixText base type' = prefixText base type ∧
        type'.small = type.small ∧ layOut type' = layOut type := by
    refine ⟨_, rfl, ?_⟩
    cases hl : type.left with
    | true =>
      refine ⟨fun _ ↦ rfl, rfl, rfl, rfl, rfl, ?_⟩
      funext sign special digits size precision
      have hfills : ∀ rest,
          fills { type with zeropad := false, left := true } rest = fills type rest := by
        intro rest
        rw [fills, fills, if_pos rfl, if_pos hl]
      simp only [layOut, if_true, hfills]
    | false => exact ⟨fun h ↦ absurd (hl.symm.trans h) Bool.false_ne_true, rfl, rfl, rfl, rfl, rfl⟩
  obtain ⟨size', htake, hsize⟩ := takeSign_eq size type' hnum
  have hwidth : ∀ n, cInt (takePrefix base size' type' - n) =
      cInt (size - (signText num type').length - (prefixText base type').length - n) := by
    intro n
    rw [takePrefix_eq, sub_sub, hsize]
    exact congrArg cInt (sub_sub _ _ _).symm
  simp only [number, ← htype', if_neg hbase, htake, hsmall, hmagnitude, hdigits]
  rw [writeParts_eq _ _ _ hleft hwidth, hlayOut, hsign, hfront, numberText]

/-! ### Every part

Reading the text back: digits have their values, zeros in front change nothing, and the value is
that of the argument in its base. -/

/-- A digit is read as the value for which it was written, in either case. -/
theorem digitValue_digitChar (small : Bool) : ∀ d < 36, digitValue (digitChar small d) = d := by
  cases small <;> decide

/-- The characters of digits read as the digits do. -/
theorem map_digitValue {b : ℕ} (hb : b ≤ 36) (small : Bool) {ds : List ℕ} (hds : ∀ d ∈ ds, d < b) :
    (ds.map (digitChar small)).map digitValue = ds := by
  rw [List.map_map]
  conv_rhs => rw [← List.map_id ds]
  exact List.map_congr_left fun d hd ↦ digitValue_digitChar small d ((hds d hd).trans_le hb)

theorem readIn_numeral {b : ℕ} (hlo : 2 ≤ b) (hhi : b ≤ 36) (small : Bool) (n : ℕ) :
    readIn b (numeral b small n) = n := by
  rw [readIn, numeral, map_digitValue hhi small fun d hd ↦ Numeral.lt_of_mem_ofNat (by omega) hd,
    Numeral.value_ofNat]

/-- Zeros in front of a numeral. -/
theorem readIn_zeros (b k : ℕ) (text : List UInt8) :
    readIn b (List.replicate k 0x30 ++ text) = readIn b text := by
  have hzero : digitValue 0x30 = 0 := by decide
  rw [readIn, List.map_append, List.map_replicate, hzero, Numeral.value_zeros, readIn]

/-- **What `number` writes**, for every number, base, width, precision and set of flags that no
`int` overflows for. -/
theorem number_renders (hnum : num < 2 ^ 64) (hlo : 2 ≤ base) (hhi : base ≤ 36)
    (hint : NoOverflow num base size precision type) :
    ∃ text blanks padding zeros trailing digits,
      number num base size precision type = some text ∧
      Renders num base size precision type text blanks padding zeros trailing digits := by
  have hb : 2 ≤ base.toNat ∧ base.toNat ≤ 36 := by omega
  let digits := numeral base.toNat type.small (magnitude num type)
  let zeros := (precision - digits.length).toNat
  let rest := (size - ((signText num type).length + (prefixText base type).length + zeros +
    digits.length : ℕ)).toNat
  have hvalue : readIn base.toNat digits = magnitude num type := readIn_numeral hb.1 hb.2 _ _
  have hpos : 1 ≤ digits.length := length_numeral_pos _ _ _
  have hdigits : ∀ c ∈ digits, ∃ d : ℕ, (d : ℤ) < base ∧ c = digitChar type.small d := by
    intro c hc
    obtain ⟨d, hd, rfl⟩ := List.mem_map.1 hc
    have hlt := Numeral.lt_of_mem_ofNat (by omega) hd
    exact ⟨d, by omega, rfl⟩
  have hsteps : -2 ^ 31 ≤ size - ((signText num type).length + (prefixText base type).length +
      max precision digits.length) - fillLoops type := hint.size_steps
  have hwidth : widthLeft (signText num type) (prefixText base type) digits size precision = size -
      ((signText num type).length + (prefixText base type).length +
        max precision digits.length) := by
    have hless := hint.size_lt
    exact cInt_of_int (by omega) (by omega)
  have hrest : (widthLeft (signText num type) (prefixText base type) digits size precision).toNat =
      rest := by
    simp only [rest, zeros]
    omega
  have htext : numberText num base size precision type =
      (if type.left ∨ type.zeropad then [] else List.replicate rest 0x20) ++ signText num type ++
      prefixText base type ++
        (if ¬type.left ∧ type.zeropad then List.replicate rest 0x30 else []) ++
      List.replicate zeros 0x30 ++ digits ++
        (if type.left then List.replicate rest 0x20 else []) := by
    have hloops := hwidth ▸ (by omega : -2 ^ 31 + (fillLoops type : ℤ) ≤ size -
      ((signText num type).length + (prefixText base type).length + max precision digits.length))
    have hfills := fills_eq hloops
    rw [hrest] at hfills
    show layOut _ _ _ digits _ _ = _
    rw [layOut, hfills]
  have hzeros : precision ≤ (zeros + digits.length : ℕ) := by simp only [zeros]; omega
  have hfill : ((signText num type).length + (prefixText base type).length + zeros +
      digits.length + rest : ℕ) = max size ((signText num type).length +
        (prefixText base type).length + zeros + digits.length : ℕ) := by
    simp only [rest]
    omega
  clear_value rest zeros digits
  refine ⟨_, if type.left ∨ type.zeropad then 0 else rest,
    if ¬type.left ∧ type.zeropad then rest else 0,
    zeros, if type.left then rest else 0, digits, number_eq hnum hlo hhi, ?_⟩
  rw [htext]
  constructor
  case value => exact hvalue
  case value_zeros => rw [readIn_zeros, hvalue]
  case digits_pos => exact hpos
  case precision_le => exact hzeros
  case digits_base => exact hdigits
  case blanks_right => intro h; split at h <;> simp_all
  case padding_zeropad => intro h; split at h <;> simp_all
  case trailing_left => intro h; split at h <;> simp_all
  case parts =>
    rw [← List.replicate_append_replicate]
    cases type.left <;> cases type.zeropad <;> simp
  case length_eq =>
    rw [← hfill, Nat.cast_inj]
    cases type.left <;> cases type.zeropad <;> simp <;> omega

theorem number_renders_hex : ∃ text blanks padding zeros trailing digits,
    number 0xb8000 16 8 (-1) { special := true, small := true } = some text ∧
      Renders 0xb8000 16 8 (-1) { special := true, small := true }
        text blanks padding zeros trailing
        digits :=
  number_renders (by decide) (by decide) (by decide) ⟨by decide, by decide, by decide +kernel⟩

example : number 0xb8000 16 8 (-1) { special := true, small := true } =
    some [0x20, 0x30, 0x78, 0x62, 0x38, 0x30, 0x30, 0x30] := by decide +kernel

end LightNight
