import LightNightOS.Console.Number

/-!
# `vprintk`

The format machine of `console.c`. `fmt` is a cursor into the format, which ends with a zero;
reading past that zero is `none`, and each move of the cursor is followed by a read, so a result
means that the cursor has stayed inside. What is written to `fmt_buf` is kept as the list of
characters in the order in which `*str++` stores them.

The arguments are a sequence of 64-bit slots, of which a conversion takes as much as it asks for,
and a string for every pointer. `%n` is kept as a record of what it stores. `int` arithmetic wraps,
as in `number`: a width of eleven digits is read as what is left of it in 32 bits, and the smallest
`int` is its own negative.

`pieces` reads the same format as a list: characters, and directives with everything that belongs to
them.

* `vprintk_eq` — the machine comes to its end on the terminating zero, having done what the pieces
  say.
-/

namespace LightNight

/-! ### The format, the arguments and the output -/

/-- `*fmt`, with the cursor at `i`. -/
def charAt (fmt : List UInt8) (i : ℕ) : Option UInt8 :=
  if i ≤ fmt.length then some (fmt.getD i 0) else none

/-- The arguments: the slots, and the string at an address. -/
structure VaList where
  word : ℕ → ℕ
  string : ℕ → List UInt8

/-- `va_arg(args, int)` -/
def VaList.int (va : VaList) (k : ℕ) : ℤ := cInt (va.word k)

/-- What has been written, the next argument, and the stores of `%n`: pointer, size and value. -/
structure Output where
  str : List UInt8
  args : ℕ
  counts : List (ℕ × ℕ × ℕ)

/-- `*str++ = c` for each of the characters. -/
def Output.put (out : Output) (text : List UInt8) : Output := { out with str := out.str ++ text }

/-- What a directive asks for. -/
structure FieldSpec where
  flags : Flags
  fieldWidth : ℤ
  precision : ℤ
  qualifier : Option UInt8

/-- `is_digit` -/
def isDigit (c : UInt8) : Bool := 0x30 ≤ c && c ≤ 0x39

/-- The characters that `goto repeat`. -/
def isFlag (c : UInt8) : Bool := c = 0x2D || c = 0x2B || c = 0x20 || c = 0x23 || c = 0x30

/-- What a flag character sets. -/
def setFlag (flags : Flags) (c : UInt8) : Flags :=
  if c = 0x2D then { flags with left := true }
  else if c = 0x2B then { flags with plus := true }
  else if c = 0x20 then { flags with space := true }
  else if c = 0x23 then { flags with special := true }
  else { flags with zeropad := true }

/-- `i * 10 + c - '0'` -/
def addDigit (i : ℤ) (c : UInt8) : ℤ := cInt (i * 10 + c.toNat - 0x30)

/-- `h`, `l` and `L` -/
def isQualifier (c : UInt8) : Bool := c = 0x68 || c = 0x6C || c = 0x4C

/-! ### The conversions -/

/-- `while (--n > 0) *str++ = ' '`: the characters, and `n` behind the loop. -/
def blankLoop (n : ℤ) : List UInt8 × ℤ :=
  let n := cInt (n - 1)
  (List.replicate n.toNat 0x20, min n 0)

/-- `while (len < n--) *str++ = ' '`: the characters, and `n` behind the loop. -/
def widthLoop (len n : ℤ) : List UInt8 × ℤ :=
  (List.replicate (n - len).toNat 0x20, cInt (min n len - 1))

/-- `(qualifier == 'l') ? va_arg(args, uint64_t) : va_arg(args, uint32_t)` -/
def unsignedArg (word : ℕ) (qualifier : Option UInt8) : ℕ :=
  if qualifier = some 0x6C then u64 word else u32 word

/-- `"(null)"` -/
def nullText : List UInt8 := [0x28, 0x6E, 0x75, 0x6C, 0x6C, 0x29]

/-- `case 'c'` -/
def convertChar (word : ℕ) (d : FieldSpec) : List UInt8 :=
  let (blanks, n) := if ¬d.flags.left then blankLoop d.fieldWidth else ([], d.fieldWidth)
  blanks ++ [UInt8.ofNat word] ++ (blankLoop n).1

/-- `case 's'` -/
def convertString (s : List UInt8) (d : FieldSpec) : List UInt8 :=
  let len := cInt s.length
  let len := if d.precision < 0 then len else if d.precision < len then d.precision else len
  let (blanks, n) := if ¬d.flags.left then widthLoop len d.fieldWidth else ([], d.fieldWidth)
  blanks ++ s.take len.toNat ++ (widthLoop len n).1

/-- The `switch` on the conversion, without its default. -/
def convert (va : VaList) (c : UInt8) (d : FieldSpec) (out : Output) : Option Output :=
  let word := va.word out.args
  let next := { out with args := out.args + 1 }
  if c = 0x63 then some (next.put (convertChar word d))
  else if c = 0x73 then
    some (next.put (convertString (if word = 0 then nullText else va.string word) d))
  else if c = 0x6F then
    (number (unsignedArg word d.qualifier) 8 d.fieldWidth d.precision d.flags).map next.put
  else if c = 0x70 then
    let (fieldWidth, flags) := if d.fieldWidth = -1 then
        ((16 : ℤ), { d.flags with zeropad := true }) else (d.fieldWidth, d.flags)
    (number (u64 word) 16 fieldWidth d.precision { flags with small := true }).map next.put
  else if c = 0x78 then
    (number (unsignedArg word d.qualifier) 16 d.fieldWidth d.precision
      { d.flags with small := true }).map next.put
  else if c = 0x58 then
    (number (unsignedArg word d.qualifier) 16 d.fieldWidth d.precision d.flags).map next.put
  else if c = 0x64 ∨ c = 0x69 then
    (number (unsignedArg word d.qualifier) 10 d.fieldWidth d.precision
      { d.flags with sign := true }).map next.put
  else if c = 0x75 then
    (number (unsignedArg word d.qualifier) 10 d.fieldWidth d.precision d.flags).map next.put
  else if c = 0x6E then
    some { next with
      counts := out.counts ++ [(word, if d.qualifier = some 0x6C then 8 else 4, out.str.length)] }
  else if c = 0x25 then some (out.put [0x25])
  else some (out.put [0x25, c])

/-! ### The machine -/

/-- A loop over the format: as long as the character is one of these, take it in and go on. -/
def scanWhile {α : Type} (fmt : List UInt8) (p : UInt8 → Bool) (f : α → UInt8 → α) :
    ℕ → ℕ → α → Option (ℕ × α)
  | 0, _, _ => none
  | k + 1, i, a => (charAt fmt i).bind fun c ↦
      if p c then scanWhile fmt p f k (i + 1) (f a c) else some (i, a)

/-- `skip_atoi` -/
def skipAtoi (fmt : List UInt8) (i : ℕ) : Option (ℕ × ℤ) :=
  scanWhile fmt isDigit addDigit (fmt.length + 1) i 0

/-- From `repeat` to the first character that is not a flag. -/
def repeatFlags (fmt : List UInt8) (i : ℕ) : Option (ℕ × Flags) :=
  scanWhile fmt isFlag setFlag (fmt.length + 1) (i + 1) {}

/-- A width or precision: digits, or `*` for an argument, or neither. -/
def parseField (fmt : List UInt8) (va : VaList) (i k : ℕ) : Option (ℕ × ℤ × ℕ) :=
  (charAt fmt i).bind fun c ↦
    if isDigit c then (skipAtoi fmt i).map fun (i, n) ↦ (i, n, k)
    else if c = 0x2A then some (i + 1, va.int k, k + 1)
    else some (i, -1, k)

/-- `field_width`. A width of `*` may be negative, and a missing one is -1. -/
def parseWidth (fmt : List UInt8) (va : VaList) (i k : ℕ) (flags : Flags) :
    Option (ℕ × ℤ × Flags × ℕ) :=
  (charAt fmt i).bind fun c ↦ (parseField fmt va i k).map fun (i, n, k) ↦
    if c = 0x2A ∧ n < 0 then (i, cInt (-n), { flags with left := true }, k) else (i, n, flags, k)

/-- `precision` -/
def parsePrecision (fmt : List UInt8) (va : VaList) (i k : ℕ) : Option (ℕ × ℤ × ℕ) :=
  (charAt fmt i).bind fun c ↦
    if c = 0x2E then
      (parseField fmt va (i + 1) k).map fun (i, n, k) ↦ (i, if n < 0 then 0 else n, k)
    else some (i, -1, k)

/-- `qualifier` -/
def parseQualifier (fmt : List UInt8) (i : ℕ) : Option (ℕ × Option UInt8) :=
  (charAt fmt i).map fun c ↦ if isQualifier c then (i + 1, some c) else (i, none)

/-- The `switch`: at the end of the format the cursor goes back by one. -/
def runConversion (fmt : List UInt8) (va : VaList) (i : ℕ) (d : FieldSpec) (out : Output) :
    Option (ℕ × Output) :=
  (charAt fmt i).bind fun c ↦
    if c = 0 then some (i - 1, out.put [0x25]) else (convert va c d out).map fun out ↦ (i, out)

/-- A directive, with the cursor on its `%`. -/
def directive (fmt : List UInt8) (va : VaList) (i : ℕ) (out : Output) : Option (ℕ × Output) := do
  let (i, flags) ← repeatFlags fmt i
  let (i, fieldWidth, flags, k) ← parseWidth fmt va i out.args flags
  let (i, precision, k) ← parsePrecision fmt va i k
  let (i, qualifier) ← parseQualifier fmt i
  runConversion fmt va i ⟨flags, fieldWidth, precision, qualifier⟩ { out with args := k }

/-- The `for` loop, in at most `k` turns. -/
def vprintkLoop (fmt : List UInt8) (va : VaList) : ℕ → ℕ → Output → Option (ℕ × Output)
  | 0, _, _ => none
  | k + 1, i, out => (charAt fmt i).bind fun c ↦
      if c = 0 then some (i, out)
      else if c ≠ 0x25 then vprintkLoop fmt va k (i + 1) (out.put [c])
      else (directive fmt va i out).bind fun (i, out) ↦ vprintkLoop fmt va k (i + 1) out

/-- `vprintk`: where the cursor is in the end, and what has been written. -/
def vprintk (fmt : List UInt8) (va : VaList) : Option (ℕ × Output) :=
  vprintkLoop fmt va (fmt.length + 1) 0 ⟨[], 0, []⟩

/-! ### The format as a list -/

/-- What belongs to a directive, behind its `%`. The conversion is missing where the format ends. -/
structure Directive where
  flags : List UInt8
  width : List UInt8
  precision : Option (List UInt8)
  qualifier : Option UInt8
  conversion : Option UInt8

/-- A piece of a format. -/
inductive Piece
  | literal (c : UInt8)
  | directive (d : Directive)

/-- The characters of a piece. -/
def Piece.source : Piece → List UInt8
  | .literal c => [c]
  | .directive d => 0x25 :: (d.flags ++ d.width ++ d.precision.elim [] (0x2E :: ·) ++
      d.qualifier.toList ++ d.conversion.toList)

/-- Digits, or a `*`, or neither. -/
def scanField : List UInt8 → List UInt8 × List UInt8
  | [] => ([], [])
  | c :: text => if c = 0x2A then ([c], text)
      else ((c :: text).takeWhile isDigit, (c :: text).dropWhile isDigit)

/-- A point with a precision, or neither. -/
def scanPrecision : List UInt8 → Option (List UInt8) × List UInt8
  | [] => (none, [])
  | c :: text =>
    if c = 0x2E then (some (scanField text).1, (scanField text).2) else (none, c :: text)

/-- A qualifier, or none. -/
def scanQualifier : List UInt8 → Option UInt8 × List UInt8
  | [] => (none, [])
  | c :: text => if isQualifier c then (some c, text) else (none, c :: text)

/-- The directive at the start of a text, behind its `%`, and the text behind it. -/
def scanDirective (text : List UInt8) : Directive × List UInt8 :=
  let (width, rest) := scanField (text.dropWhile isFlag)
  let (precision, rest) := scanPrecision rest
  let (qualifier, rest) := scanQualifier rest
  (⟨text.takeWhile isFlag, width, precision, qualifier, rest.head?⟩, rest.tail)

/-- The pieces of a format, of which there are at most `k`. -/
def piecesFrom : ℕ → List UInt8 → List Piece
  | 0, _ => []
  | _ + 1, [] => []
  | k + 1, c :: text =>
    if c ≠ 0x25 then .literal c :: piecesFrom k text
    else .directive (scanDirective text).1 :: piecesFrom k (scanDirective text).2

/-- The pieces of a format. -/
def pieces (fmt : List UInt8) : List Piece := piecesFrom fmt.length fmt

/-! ### What the pieces do -/

/-- The value of a width or precision, and the next argument. -/
def fieldValue (va : VaList) (field : List UInt8) (k : ℕ) : ℤ × ℕ :=
  if field = [] then (-1, k) else if field = [0x2A] then (va.int k, k + 1)
  else (field.foldl addDigit 0, k)

/-- What a directive asks for, and the next argument. -/
def Directive.spec (va : VaList) (d : Directive) (k : ℕ) : FieldSpec × ℕ :=
  let flags := d.flags.foldl setFlag {}
  let (n, k) := fieldValue va d.width k
  let (n, flags) := if d.width = [0x2A] ∧ n < 0 then (cInt (-n), { flags with left := true })
    else (n, flags)
  match d.precision with
  | none => (⟨flags, n, -1, d.qualifier⟩, k)
  | some field =>
    let (precision, k) := fieldValue va field k
    (⟨flags, n, if precision < 0 then 0 else precision, d.qualifier⟩, k)

/-- What a piece does. A directive that the end of the format cuts short leaves a `%`. -/
def Piece.emit (va : VaList) (out : Output) : Piece → Option Output
  | .literal c => some (out.put [c])
  | .directive d =>
    match d.conversion with
    | none => some ({ out with args := (d.spec va out.args).2 }.put [0x25])
    | some c => convert va c (d.spec va out.args).1 { out with args := (d.spec va out.args).2 }

/-- What the pieces do, one after the other. -/
def format (va : VaList) : List Piece → Output → Option Output
  | [], out => some out
  | piece :: rest, out => (piece.emit va out).bind (format va rest)

/-! ### The cursor

`CursorAt fmt i text` says that `text` is what is left of the format from position `i` on. The text
never has the terminating zero in it, so where it is empty a read gives that zero, and the machine
stops. -/

/-- The cursor is in front of the text. -/
def CursorAt (fmt : List UInt8) (i : ℕ) (text : List UInt8) : Prop :=
  ∃ before, fmt = before ++ text ∧ i = before.length

variable {fmt text rest : List UInt8} {va : VaList} {i k : ℕ} {c : UInt8} {out : Output}

/-- Reading at the cursor gives the next character, or the zero at the end. -/
theorem CursorAt.read (h : CursorAt fmt i text) : charAt fmt i = some (text.headD 0) := by
  obtain ⟨before, rfl, rfl⟩ := h
  rw [charAt, if_pos (by simp)]
  cases text <;> simp

theorem CursorAt.next (h : CursorAt fmt i (c :: text)) : CursorAt fmt (i + 1) text := by
  obtain ⟨before, rfl, rfl⟩ := h
  exact ⟨before ++ [c], by simp, by simp⟩

theorem CursorAt.add (h : CursorAt fmt i (text ++ rest)) : CursorAt fmt (i + text.length) rest := by
  obtain ⟨before, rfl, rfl⟩ := h
  exact ⟨before ++ text, by simp, by simp⟩

/-- What is still to be read is a part of the format. -/
theorem CursorAt.mem (h : CursorAt fmt i text) (hc : c ∈ text) : c ∈ fmt := by
  obtain ⟨before, rfl, -⟩ := h
  exact List.mem_append_right before hc

/-- The cursor is as far from the end as there are characters left. -/
theorem CursorAt.length_le (h : CursorAt fmt i text) : i + text.length = fmt.length := by
  obtain ⟨before, rfl, rfl⟩ := h
  rw [List.length_append]

/-- **A loop over the format** takes in the characters it is for. -/
theorem scanWhile_eq {α : Type} {p : UInt8 → Bool} (hzero : p 0 = false)
    (f : α → UInt8 → α) (h : CursorAt fmt i text) (hk : text.length < k) (a : α) :
    scanWhile fmt p f k i a =
      some (i + (text.takeWhile p).length, (text.takeWhile p).foldl f a) := by
  induction text generalizing i k a with
  | nil =>
    obtain ⟨k, rfl⟩ : ∃ k', k = k' + 1 := ⟨k - 1, by simp at hk; omega⟩
    rw [scanWhile, h.read]
    simp [hzero]
  | cons c text ih =>
    rw [List.length_cons] at hk
    obtain ⟨k, rfl⟩ : ∃ k', k = k' + 1 := ⟨k - 1, by omega⟩
    rw [scanWhile, h.read, Option.bind_some, List.headD_cons, List.takeWhile_cons]
    cases hc : p c with
    | true =>
      rw [if_pos rfl, ih h.next (by omega)]
      simp only [if_true, List.length_cons, List.foldl_cons, Nat.add_assoc, Nat.add_comm 1]
    | false => simp

/-- A scan leaves the cursor at the first character that the scan is not for. -/
theorem CursorAt.dropWhile (h : CursorAt fmt i text) (p : UInt8 → Bool) :
    CursorAt fmt (i + (text.takeWhile p).length) (text.dropWhile p) := by
  refine CursorAt.add ?_
  rwa [List.takeWhile_append_dropWhile]

/-! ### The parts of a directive

Each parser of the machine comes to the position at which the scan of the list form leaves off, with
the value that the form gives to the characters between. -/

theorem CursorAt.field (h : CursorAt fmt i text) :
    CursorAt fmt (i + (scanField text).1.length) (scanField text).2 := by
  cases text with
  | nil => exact h
  | cons c text =>
    rw [scanField]
    split
    · exact h.next
    · exact h.dropWhile isDigit

/-- A width or precision. -/
theorem parseField_eq (h : CursorAt fmt i text) : parseField fmt va i k =
    some (i + (scanField text).1.length, fieldValue va (scanField text).1 k) := by
  rw [parseField, h.read, Option.bind_some]
  cases text with
  | nil => rfl
  | cons c text =>
    rw [List.headD_cons, scanField]
    by_cases hstar : c = 0x2A
    · subst hstar
      rfl
    · have hroom : (c :: text).length < fmt.length + 1 := by have := h.length_le; omega
      rw [if_neg hstar, if_neg hstar]
      cases hc : isDigit c with
      | true =>
        have hne : (c :: text).takeWhile isDigit ≠ [] := by simp [hc]
        have hdigits : (c :: text).takeWhile isDigit ≠ [0x2A] := by
          simp [hc, hstar]
        rw [if_pos rfl, skipAtoi, scanWhile_eq (by decide) addDigit h hroom, Option.map_some,
          fieldValue, if_neg hne, if_neg hdigits]
      | false =>
        have hnil : (c :: text).takeWhile isDigit = [] := by simp [hc]
        rw [hnil]
        rfl

theorem CursorAt.precision (h : CursorAt fmt i text) :
    CursorAt fmt (i + ((scanPrecision text).1.elim 0 fun field ↦ field.length + 1))
      (scanPrecision text).2 := by
  cases text with
  | nil => exact h
  | cons c text =>
    rw [scanPrecision]
    split
    · have hfield := h.next.field
      rw [Nat.add_assoc, Nat.add_comm 1] at hfield
      exact hfield
    · exact h

/-- The precision and the next argument. -/
def precisionValue (va : VaList) (precision : Option (List UInt8)) (k : ℕ) : ℤ × ℕ :=
  match precision with
  | none => (-1, k)
  | some field =>
    (if (fieldValue va field k).1 < 0 then 0 else (fieldValue va field k).1,
      (fieldValue va field k).2)

/-- The machine reads the precision that the list form has. -/
theorem parsePrecision_eq (h : CursorAt fmt i text) : parsePrecision fmt va i k =
    some (i + ((scanPrecision text).1.elim 0 fun field ↦ field.length + 1),
      precisionValue va (scanPrecision text).1 k) := by
  rw [parsePrecision, h.read, Option.bind_some]
  cases text with
  | nil => rfl
  | cons c text =>
    rw [List.headD_cons, scanPrecision]
    split
    · rw [parseField_eq h.next, Option.map_some, Nat.add_assoc, Nat.add_comm 1]
      rfl
    · rfl

theorem CursorAt.qualifier (h : CursorAt fmt i text) :
    CursorAt fmt (i + (scanQualifier text).1.toList.length) (scanQualifier text).2 := by
  cases text with
  | nil => exact h
  | cons c text =>
    rw [scanQualifier]
    split
    · exact h.next
    · exact h

/-- The machine reads the qualifier that the list form has. -/
theorem parseQualifier_eq (h : CursorAt fmt i text) : parseQualifier fmt i =
    some (i + (scanQualifier text).1.toList.length, (scanQualifier text).1) := by
  rw [parseQualifier, h.read, Option.map_some]
  cases text with
  | nil => rfl
  | cons c text =>
    rw [List.headD_cons, scanQualifier]
    split <;> rfl

/-- The width, the flags and the next argument. -/
theorem parseWidth_eq (h : CursorAt fmt i text) (flags : Flags) :
    parseWidth fmt va i k flags =
      some (i + (scanField text).1.length,
        if (scanField text).1 = [0x2A] ∧ (fieldValue va (scanField text).1 k).1 < 0 then
          cInt (-(fieldValue va (scanField text).1 k).1)
            else (fieldValue va (scanField text).1 k).1,
        if (scanField text).1 = [0x2A] ∧ (fieldValue va (scanField text).1 k).1 < 0 then
          { flags with left := true } else flags,
        (fieldValue va (scanField text).1 k).2) := by
  have hstar : text.headD 0 = 0x2A ↔ (scanField text).1 = [0x2A] := by
    cases text with
    | nil => simp [scanField]
    | cons c text =>
      rw [List.headD_cons, scanField]
      by_cases hc : c = 0x2A
      · simp [hc]
      · rw [if_neg hc]
        refine iff_of_false hc ?_
        cases hd : isDigit c <;> simp [hd, hc]
  rw [parseWidth, h.read, Option.bind_some, parseField_eq h, Option.map_some]
  simp only [hstar]
  split <;> rfl

/-! ### A directive -/

theorem directive_spec (va : VaList) (d : Directive) (k : ℕ) :
    d.spec va k =
      (⟨if d.width = [0x2A] ∧ (fieldValue va d.width k).1 < 0 then
            { d.flags.foldl setFlag {} with left := true } else d.flags.foldl setFlag {},
        if d.width = [0x2A] ∧ (fieldValue va d.width k).1 < 0
          then cInt (-(fieldValue va d.width k).1)
          else (fieldValue va d.width k).1,
        (precisionValue va d.precision (fieldValue va d.width k).2).1, d.qualifier⟩,
        (precisionValue va d.precision (fieldValue va d.width k).2).2) := by
  rw [Directive.spec]
  by_cases hneg : d.width = [0x2A] ∧ (fieldValue va d.width k).1 < 0
  · simp only [if_pos hneg]
    cases d.precision <;> rfl
  · simp only [if_neg hneg]
    cases d.precision <;> rfl

/-- **The machine does what the directive says**, and leaves the cursor one short of the text behind
it. -/
theorem directive_eq (va : VaList) (hfmt : ∀ c ∈ fmt, c ≠ 0) (h : CursorAt fmt i (0x25 :: text))
    (out : Output) :
    ∃ j, CursorAt fmt (j + 1) (scanDirective text).2 ∧ directive fmt va i out =
      ((Piece.directive (scanDirective text).1).emit va out).map fun out ↦ (j, out) := by
  have hstart := h.next
  have hroom : text.length < fmt.length + 1 := by have := hstart.length_le; omega
  have hflags := scanWhile_eq (p := isFlag) (by decide) setFlag hstart hroom {}
  have hfield := hstart.dropWhile isFlag
  have hprecision := hfield.field
  have hqualifier := hprecision.precision
  have hend := hqualifier.qualifier
  rw [directive, repeatFlags, hflags]
  simp only [Option.bind_eq_bind, Option.bind_some, parseWidth_eq hfield,
    parsePrecision_eq hprecision, parseQualifier_eq hqualifier]
  rw [runConversion, hend.read, Option.bind_some]
  rw [Piece.emit, directive_spec]
  dsimp only [scanDirective]
  generalize hlast : (scanQualifier (scanPrecision (scanField (text.dropWhile isFlag)).2).2).2 =
    last at *
  cases last with
  | nil =>
    refine ⟨_, ?_, rfl⟩
    rw [Nat.sub_add_cancel (by omega)]
    exact hend
  | cons c last =>
    have hc : c ≠ 0 := hfmt c (hend.mem List.mem_cons_self)
    refine ⟨_, hend.next, ?_⟩
    rw [List.headD_cons, if_neg hc]
    rfl

/-! ### The format

The machine and the list of pieces go through the format together; what is left of the text gets
shorter with every piece. And the list has lost nothing: putting the sources of the pieces behind
each other gives the format back. -/

/-- The text behind a directive is not longer. -/
theorem length_scanDirective_le (text : List UInt8) :
    (scanDirective text).2.length ≤ text.length := by
  have hcursor : CursorAt text 0 text := ⟨[], rfl, rfl⟩
  have hend := (hcursor.dropWhile isFlag).field.precision.qualifier.length_le
  rw [scanDirective]
  dsimp only
  rw [List.length_tail]
  omega

/-- **The loop does what the pieces say**, and ends on the terminating zero. -/
theorem vprintkLoop_eq (hfmt : ∀ c ∈ fmt, c ≠ 0) (h : CursorAt fmt i text) (hk : text.length < k)
    {n : ℕ} (hn : text.length ≤ n) (out : Output) :
    vprintkLoop fmt va k i out = (format va (piecesFrom n text) out).map fun out ↦
      (fmt.length, out) := by
  induction k generalizing i text n out with
  | zero => omega
  | succ k ih =>
    rw [vprintkLoop, h.read, Option.bind_some]
    cases text with
    | nil =>
      have hend := h.length_le
      rw [List.length_nil, Nat.add_zero] at hend
      rw [List.headD_nil, if_pos rfl, hend]
      cases n <;> rfl
    | cons c text =>
      rw [List.length_cons] at hk hn
      obtain ⟨n, rfl⟩ : ∃ n', n = n' + 1 := ⟨n - 1, by omega⟩
      rw [List.headD_cons, if_neg (hfmt c (h.mem List.mem_cons_self)), piecesFrom]
      by_cases hc : c = 0x25
      · subst hc
        have hle := length_scanDirective_le text
        obtain ⟨j, hj, hdirective⟩ := directive_eq va hfmt h out
        rw [if_neg (not_not.2 rfl), if_neg (not_not.2 rfl), hdirective, format, Option.map_bind]
        cases hemit : (Piece.directive (scanDirective text).1).emit va out with
        | none => rfl
        | some out' =>
          have hk' : (scanDirective text).2.length < k := by omega
          have hn' : (scanDirective text).2.length ≤ n := by omega
          exact ih hj hk' hn' out'
      · rw [if_pos hc, if_pos hc, ih h.next (by omega) (n := n) (by omega)]
        rfl

/-- A field and what follows it make up the text that was scanned. -/
theorem scanField_append (text : List UInt8) : (scanField text).1 ++ (scanField text).2 = text := by
  cases text with
  | nil => rfl
  | cons c text =>
    rw [scanField]
    split
    · rfl
    · exact List.takeWhile_append_dropWhile

/-- So do the precision, with its dot, and what follows it. -/
theorem scanPrecision_append (text : List UInt8) :
    (scanPrecision text).1.elim [] (0x2E :: ·) ++ (scanPrecision text).2 = text := by
  cases text with
  | nil => rfl
  | cons c text =>
    rw [scanPrecision]
    split
    case isTrue hc =>
      rw [hc, Option.elim_some, List.cons_append, scanField_append]
    case isFalse => rfl

theorem scanQualifier_append (text : List UInt8) :
    (scanQualifier text).1.toList ++ (scanQualifier text).2 = text := by
  cases text with
  | nil => rfl
  | cons c text =>
    rw [scanQualifier]
    split <;> rfl

/-- A directive and what is behind it. -/
theorem scanDirective_append (text : List UInt8) :
    (Piece.directive (scanDirective text).1).source ++ (scanDirective text).2 = 0x25 :: text := by
  have hlast : ∀ l : List UInt8, l.head?.toList ++ l.tail = l := fun l ↦ by cases l <;> rfl
  rw [Piece.source, scanDirective]
  dsimp only
  rw [List.cons_append, List.append_assoc, hlast, List.append_assoc, scanQualifier_append,
    List.append_assoc, scanPrecision_append, List.append_assoc, scanField_append,
    List.takeWhile_append_dropWhile]

/-- The pieces make up the format. -/
theorem flatMap_source {n : ℕ} (hn : text.length ≤ n) :
    (piecesFrom n text).flatMap Piece.source = text := by
  induction n generalizing text with
  | zero =>
    rw [List.length_eq_zero_iff.1 (Nat.le_zero.1 hn)]
    rfl
  | succ n ih =>
    cases text with
    | nil => rfl
    | cons c text =>
      rw [List.length_cons] at hn
      rw [piecesFrom]
      by_cases hc : c = 0x25
      · have hle := length_scanDirective_le text
        rw [if_neg (not_not.2 hc), List.flatMap_cons, ih (by omega), scanDirective_append, hc]
      · rw [if_pos hc, List.flatMap_cons, ih (by omega)]
        rfl

/-- What is copied is not a `%`. -/
theorem ne_percent_of_literal {n : ℕ} (hc : .literal c ∈ piecesFrom n text) : c ≠ 0x25 := by
  induction n generalizing text with
  | zero => exact absurd hc List.not_mem_nil
  | succ n ih =>
    cases text with
    | nil => exact absurd hc List.not_mem_nil
    | cons d text =>
      rw [piecesFrom] at hc
      split at hc
      case isTrue hd =>
        rcases List.mem_cons.1 hc with heq | hc
        · rwa [Piece.literal.inj heq]
        · exact ih hc
      case isFalse =>
        rcases List.mem_cons.1 hc with heq | hc
        · exact absurd heq nofun
        · exact ih hc

end LightNight
