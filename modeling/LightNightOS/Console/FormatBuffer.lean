import LightNightOS.Console.Format

/-!
# What `vprintk` writes, and where

Every conversion appends a text to `fmt_buf`, whose length follows from the directive and its
argument. So the length of the whole text is a sum over the pieces of the format. Nothing compares
it with the 1024 bytes of the buffer: the stores stay inside exactly for the formats and arguments
with a short enough text (`storesInBuffer_iff`).
-/

namespace LightNight

/-! ### Lengths

The length of what each conversion writes, from the flags, the width and the precision, with the
wrapping arithmetic of `number` where it is used. -/

/-- How much the loops fill, for the width that is left. -/
def fillLength (type : Flags) (rest : ℤ) : ℕ :=
  if type.left then rest.toNat
  else if type.zeropad then rest.toNat + refill rest
  else rest.toNat + refill rest + refill (rest - 1)

/-- The length of a number: sign, prefix, digits with the zeros of the precision, and what fills the
width. -/
def numberLength (num : ℕ) (base size precision : ℤ) (type : Flags) : ℕ :=
  let digits := numeral base.toNat type.small (magnitude num type)
  (signText num type).length + (prefixText base type).length + max precision.toNat digits.length +
    fillLength type (widthLeft (signText num type) (prefixText base type) digits size precision)

/-- The length of a character in a field. -/
def charLength (left : Bool) (fieldWidth : ℤ) : ℕ :=
  1 + (cInt (fieldWidth - 1)).toNat + if left then 0 else refill (cInt (fieldWidth - 1))

/-- How much of a string is printed: all of it, or what the precision wants. -/
def printedLength (s : List UInt8) (precision : ℤ) : ℤ :=
  if precision < 0 then cInt s.length else min (cInt s.length) precision

/-- The length of a string in a field, of which `len` characters are printed. -/
def stringLength (left : Bool) (fieldWidth len : ℤ) : ℕ :=
  len.toNat + (fieldWidth - len).toNat + if left then 0
    else (cInt (min fieldWidth len - 1) - len).toNat

/-- The length of a conversion, from what the directive asks for and the argument. -/
def conversionLength (va : VaList) (c : UInt8) (d : FieldSpec) (word : ℕ) : ℕ :=
  if c = 0x63 then charLength d.flags.left d.fieldWidth
  else if c = 0x73 then
    stringLength d.flags.left d.fieldWidth
      (printedLength (if word = 0 then nullText else va.string word) d.precision)
  else if c = 0x6F then
    numberLength (unsignedArg word d.qualifier) 8 d.fieldWidth d.precision d.flags
  else if c = 0x70 then
    if d.fieldWidth = -1 then
      numberLength (u64 word) 16 16 d.precision { d.flags with zeropad := true, small := true }
    else numberLength (u64 word) 16 d.fieldWidth d.precision { d.flags with small := true }
  else if c = 0x78 then
    numberLength (unsignedArg word d.qualifier) 16 d.fieldWidth d.precision
      { d.flags with small := true }
  else if c = 0x58 then
    numberLength (unsignedArg word d.qualifier) 16 d.fieldWidth d.precision d.flags
  else if c = 0x64 ∨ c = 0x69 then
    numberLength (unsignedArg word d.qualifier) 10 d.fieldWidth d.precision
      { d.flags with sign := true }
  else if c = 0x75 then
    numberLength (unsignedArg word d.qualifier) 10 d.fieldWidth d.precision d.flags
  else if c = 0x6E then 0
  else if c = 0x25 then 1
  else 2

/-- The characters of a conversion that takes an argument. -/
def takesArg (c : UInt8) : Bool :=
  c = 0x63 || c = 0x73 || c = 0x6F || c = 0x70 || c = 0x78 || c = 0x58 || c = 0x64 || c = 0x69 ||
    c = 0x75 || c = 0x6E

/-- The length of a piece whose first argument is `k`, and the next argument. -/
def Piece.measure (va : VaList) (k : ℕ) : Piece → ℕ × ℕ
  | .literal _ => (1, k)
  | .directive d =>
    match d.conversion with
    | none => (1, (d.spec va k).2)
    | some c => (conversionLength va c (d.spec va k).1 (va.word (d.spec va k).2),
        (d.spec va k).2 + if takesArg c then 1 else 0)

/-- The length of the text for some pieces, the first argument of which is `k`. -/
def textLength (va : VaList) : ℕ → List Piece → ℕ
  | _, [] => 0
  | k, piece :: rest => (piece.measure va k).1 + textLength va (piece.measure va k).2 rest

/-- The size of `fmt_buf`. -/
def fmtBufSize : ℕ := 1024

/-- The characters and the final zero are stored inside `fmt_buf`. -/
def StoresInBuffer (fmt : List UInt8) (va : VaList) : Prop :=
  ∃ i out, vprintk fmt va = some (i, out) ∧ ∀ k ∈ List.range (out.str.length + 1), k < fmtBufSize

/-! ### Conversions

Each length is the length of the text, conversion by conversion. -/

variable {fmt : List UInt8} {va : VaList} {c : UInt8} {d : FieldSpec} {out : Output}

/-- The text of a number has the length that its size, precision and digits give it. -/
theorem length_numberText (num : ℕ) (base size precision : ℤ) (type : Flags) :
    (numberText num base size precision type).length =
      numberLength num base size precision type := by
  rw [numberText, numberLength, layOut, fills, fillLength]
  cases type.left <;> cases type.zeropad <;> simp <;> omega

/-- `%c` writes its field, and at least the character. -/
theorem length_convertChar (word : ℕ) (d : FieldSpec) :
    (convertChar word d).length = charLength d.flags.left d.fieldWidth := by
  have hbehind : ∀ n : ℤ, (cInt (min (cInt n) 0 - 1)).toNat = refill (cInt n) := by
    intro n
    have hn := (cInt_bounds n).1
    rw [refill, cInt_eq (min (cInt n) 0 - 1)]
    split <;> omega
  rw [convertChar, charLength]
  cases d.flags.left with
  | true => simp [blankLoop, Nat.add_comm]
  | false =>
    simp [blankLoop, hbehind]
    omega

/-- No more is printed of a string than it has. -/
theorem printedLength_le (s : List UInt8) (precision : ℤ) :
    (printedLength s precision).toNat ≤ s.length := by
  have hle : cInt s.length ≤ s.length := by
    rw [cInt_eq]
    omega
  rw [printedLength]
  split <;> omega

/-- `%s` writes its field, and at least what is printed of the string. -/
theorem length_convertString (s : List UInt8) (d : FieldSpec) :
    (convertString s d).length =
      stringLength d.flags.left d.fieldWidth (printedLength s d.precision) := by
  have hlen : (if d.precision < 0 then cInt s.length
      else if d.precision < cInt s.length then d.precision else cInt s.length) =
      printedLength s d.precision := by
    rw [printedLength]
    split
    · rfl
    · split <;> omega
  have hle := printedLength_le s d.precision
  simp only [convertString, hlen]
  rw [stringLength]
  generalize printedLength s d.precision = len at hle
  cases d.flags.left with
  | true =>
    simp [widthLoop]
    omega
  | false =>
    simp [widthLoop]
    omega

/-- An argument that is printed without a sign has 64 bits. -/
theorem unsignedArg_lt (word : ℕ) (qualifier : Option UInt8) :
    unsignedArg word qualifier < 2 ^ 64 := by
  rw [unsignedArg]
  split
  · exact u64_lt word
  · exact (u32_lt word).trans (by decide)

/-- A number as the text of a conversion. -/
theorem number_map {num : ℕ} {base : ℤ} (size precision : ℤ) (type : Flags) (hnum : num < 2 ^ 64)
    (hlo : 2 ≤ base) (hhi : base ≤ 36) (out : Output) :
    ∃ text, (number num base size precision type).map out.put = some (out.put text) ∧
      text.length = numberLength num base size precision type :=
  ⟨_, by rw [number_eq hnum hlo hhi, Option.map_some], length_numberText _ _ _ _ _⟩

/-- **A conversion** appends its text and goes on to the next argument. -/
theorem convert_spec (va : VaList) (c : UInt8) (d : FieldSpec) (out : Output) :
    ∃ text counts, convert va c d out =
        some ⟨out.str ++ text, out.args + (if takesArg c then 1 else 0), counts⟩ ∧
      text.length = conversionLength va c d (va.word out.args) := by
  have hnumber : ∀ {num : ℕ} (base size : ℤ) (type : Flags), num < 2 ^ 64 → 2 ≤ base →
      base ≤ 36 → ∃ text counts,
        (number num base size d.precision type).map { out with args := out.args + 1 }.put =
          some ⟨out.str ++ text, out.args + 1, counts⟩ ∧
        text.length = numberLength num base size d.precision type := by
    intro num base size type hnum hlo hhi
    obtain ⟨text, htext, hlength⟩ :=
      number_map size d.precision type hnum hlo hhi { out with args := out.args + 1 }
    exact ⟨text, _, htext, hlength⟩
  have hword := unsignedArg_lt (va.word out.args) d.qualifier
  by_cases h : c = 0x63
  · subst h
    exact ⟨_, _, rfl, length_convertChar _ _⟩
  by_cases h : c = 0x73
  · subst h
    exact ⟨_, _, rfl, length_convertString _ _⟩
  by_cases h : c = 0x6F
  · subst h
    exact hnumber 8 d.fieldWidth d.flags hword (by decide) (by decide)
  by_cases h : c = 0x70
  · subst h
    -- a pointer without a width gets 16 digits, with zeros
    by_cases hwidth : d.fieldWidth = -1
    · have h := hnumber 16 16 { d.flags with zeropad := true, small := true }
        (u64_lt (va.word out.args)) (by decide) (by decide)
      simpa [convert, conversionLength, takesArg, hwidth] using h
    · have h := hnumber 16 d.fieldWidth { d.flags with small := true } (u64_lt (va.word out.args))
        (by decide) (by decide)
      simpa [convert, conversionLength, takesArg, hwidth] using h
  by_cases h : c = 0x78
  · subst h
    exact hnumber 16 d.fieldWidth { d.flags with small := true } hword (by decide) (by decide)
  by_cases h : c = 0x58
  · subst h
    exact hnumber 16 d.fieldWidth d.flags hword (by decide) (by decide)
  by_cases h : c = 0x64
  · subst h
    exact hnumber 10 d.fieldWidth { d.flags with sign := true } hword (by decide) (by decide)
  by_cases h : c = 0x69
  · subst h
    exact hnumber 10 d.fieldWidth { d.flags with sign := true } hword (by decide) (by decide)
  by_cases h : c = 0x75
  · subst h
    exact hnumber 10 d.fieldWidth d.flags hword (by decide) (by decide)
  by_cases h : c = 0x6E
  · subst h
    exact ⟨[], _, by rw [List.append_nil]; rfl, rfl⟩
  by_cases h : c = 0x25
  · subst h
    exact ⟨_, _, rfl, rfl⟩
  refine ⟨[0x25, c], out.counts, ?_, ?_⟩
  · simp [convert, takesArg, Output.put, *]
  · simp [conversionLength, *]

/-! ### Pieces

A piece appends a text of the length that `measure` gives, and takes as many arguments; the text of
a literal is the character itself (`Copies`). -/

/-- What the text of a piece is, as far as it is known: a character is copied. -/
def Copies (piece : Piece) (text : List UInt8) : Prop := ∀ c, piece = .literal c → text = [c]

/-- **A piece** appends its text. -/
theorem emit_spec (va : VaList) (out : Output) (piece : Piece) :
    ∃ text counts, piece.emit va out =
      some ⟨out.str ++ text, (piece.measure va out.args).2, counts⟩ ∧
      text.length = (piece.measure va out.args).1 ∧ Copies piece text := by
  cases piece with
  | literal c =>
    refine ⟨[c], out.counts, rfl, rfl, fun c' h ↦ ?_⟩
    rw [Piece.literal.inj h]
  | directive d =>
    obtain ⟨flags, width, precision, qualifier, conversion⟩ := d
    cases conversion with
    | none => exact ⟨[0x25], out.counts, rfl, rfl, fun _ h ↦ absurd h nofun⟩
    | some c =>
      obtain ⟨text, counts, hconvert, hlength⟩ := convert_spec va c
        (Directive.spec va ⟨flags, width, precision, qualifier, some c⟩ out.args).1
        { out with
          args := (Directive.spec va ⟨flags, width, precision, qualifier, some c⟩ out.args).2 }
      exact ⟨text, counts, hconvert, hlength, fun _ h ↦ absurd h nofun⟩

/-- **The pieces** append their texts, one after the other. -/
theorem format_spec (va : VaList) (l : List Piece) (out : Output) :
    ∃ texts n counts, format va l out = some ⟨out.str ++ texts.flatten, n, counts⟩ ∧
      List.Forall₂ Copies l texts ∧ texts.flatten.length = textLength va out.args l := by
  induction l generalizing out with
  | nil =>
    exact ⟨[], out.args, out.counts, by rw [List.flatten_nil, List.append_nil]; rfl, .nil, rfl⟩
  | cons piece l ih =>
    obtain ⟨text, counts, hemit, hlength, hcopies⟩ := emit_spec va out piece
    obtain ⟨texts, n, counts', hformat, hall, hrest⟩ :=
      ih ⟨out.str ++ text, (piece.measure va out.args).2, counts⟩
    refine ⟨text :: texts, n, counts', ?_, .cons hcopies hall, ?_⟩
    · rw [format, hemit, Option.bind_some, hformat, List.flatten_cons, List.append_assoc]
    · rw [List.flatten_cons, List.length_append, hlength, hrest, textLength]

/-! ### The machine

The stores go to consecutive positions of `fmt_buf`, the terminating zero behind the text. They are
inside exactly when the text has at most 1023 characters. -/

/-- On a format without zeros the machine does what the pieces say, and comes to its end on the zero
behind them. -/
theorem vprintk_eq (hfmt : ∀ c ∈ fmt, c ≠ 0) (va : VaList) :
    vprintk fmt va = (format va (pieces fmt) ⟨[], 0, []⟩).map fun out ↦ (fmt.length, out) :=
  vprintkLoop_eq hfmt ⟨[], rfl, rfl⟩ (Nat.lt_succ_self _) le_rfl _

/-- **Malformed formats are safe.** For every format, complete or not, and all arguments, `vprintk`
comes to an end, with the cursor on the terminating zero and never past it; the format is cut into
characters and directives, and what is written is a text for each of them, a character being its own
text.

The text is a list here: what the stores behind the end of `fmt_buf` do to other memory is not
described, and `storesInBuffer_iff` says when there are none. -/
theorem vprintk_safe (hfmt : ∀ c ∈ fmt, c ≠ 0) (va : VaList) :
    ∃ out texts, vprintk fmt va = some (fmt.length, out) ∧ out.str = texts.flatten ∧
      (pieces fmt).flatMap Piece.source = fmt ∧ (∀ c, .literal c ∈ pieces fmt → c ≠ 0x25) ∧
      List.Forall₂ Copies (pieces fmt) texts := by
  obtain ⟨texts, n, counts, hformat, hall, -⟩ := format_spec va (pieces fmt) ⟨[], 0, []⟩
  refine ⟨⟨texts.flatten, n, counts⟩, texts, ?_, rfl, flatMap_source le_rfl,
    fun _ ↦ ne_percent_of_literal, hall⟩
  rw [vprintk_eq hfmt, hformat, Option.map_some, List.nil_append]

/-- `"%-5"`, which ends inside a directive. -/
theorem vprintk_safe_cut : ∃ out texts,
    vprintk [0x41, 0x25, 0x2D, 0x35] ⟨fun _ ↦ 0, fun _ ↦ []⟩ = some (4, out) ∧
      out.str = texts.flatten ∧
      (pieces [0x41, 0x25, 0x2D, 0x35]).flatMap Piece.source = [0x41, 0x25, 0x2D, 0x35] ∧
      (∀ c, .literal c ∈ pieces [0x41, 0x25, 0x2D, 0x35] → c ≠ 0x25) ∧
      List.Forall₂ Copies (pieces [0x41, 0x25, 0x2D, 0x35]) texts :=
  vprintk_safe (by decide +kernel) _

/-- **Where `fmt_buf` is not overrun**: the formats and arguments whose text has at most 1023
characters. The width `4294967299` is 3 for the code, and fits. -/
theorem storesInBuffer_iff (hfmt : ∀ c ∈ fmt, c ≠ 0) (va : VaList) :
    StoresInBuffer fmt va ↔ textLength va 0 (pieces fmt) ≤ 1023 := by
  obtain ⟨texts, n, counts, hformat, -, hlength⟩ := format_spec va (pieces fmt) ⟨[], 0, []⟩
  have hprint : vprintk fmt va = some (fmt.length, ⟨[] ++ texts.flatten, n, counts⟩) := by
    rw [vprintk_eq hfmt, hformat, Option.map_some]
  have hsize : fmtBufSize = 1024 := rfl
  have hlength : texts.flatten.length = textLength va 0 (pieces fmt) := hlength
  rw [StoresInBuffer, hprint, ← hlength]
  constructor
  · rintro ⟨i, out, heq, hstores⟩
    obtain ⟨-, rfl⟩ := Prod.mk.inj (Option.some.inj heq)
    have hlast := hstores _ (List.mem_range.2 (Nat.lt_succ_self _))
    rw [hsize] at hlast
    exact Nat.le_of_lt_succ hlast
  · intro hle
    refine ⟨_, _, rfl, fun k hk ↦ ?_⟩
    have hlt : k < texts.flatten.length + 1 := List.mem_range.1 hk
    omega

theorem storesInBuffer_decimal :
    StoresInBuffer [0x25, 0x35, 0x64] ⟨fun _ ↦ 0, fun _ ↦ []⟩ ↔
      textLength ⟨fun _ ↦ 0, fun _ ↦ []⟩ 0 (pieces [0x25, 0x35, 0x64]) ≤ 1023 :=
  storesInBuffer_iff (by decide +kernel) _

/-- `printk("%4294967299d|", 5)` -/
example :
    textLength ⟨fun _ ↦ 5, fun _ ↦ []⟩ 0 (pieces [0x25, 0x34, 0x32, 0x39, 0x34, 0x39, 0x36, 0x37,
      0x32, 0x39, 0x39, 0x64, 0x7C]) = 4 := by decide +kernel

/-- `printk("%1024d", 0)` -/
theorem wide_field_overruns :
    ¬StoresInBuffer [0x25, 0x31, 0x30, 0x32, 0x34, 0x64] ⟨fun _ ↦ 0, fun _ ↦ []⟩ := by
  rintro ⟨i, out, hprint, hstores⟩
  have hlength : (vprintk [0x25, 0x31, 0x30, 0x32, 0x34, 0x64] ⟨fun _ ↦ 0, fun _ ↦ []⟩).map
      (fun r ↦ r.2.str.length) = some 1024 := by decide +kernel
  rw [hprint, Option.map_some, Option.some.injEq] at hlength
  have hlength : out.str.length = 1024 := hlength
  have hlast := hstores 1024 (List.mem_range.2 (by omega))
  exact absurd hlast (by decide)

end LightNight
