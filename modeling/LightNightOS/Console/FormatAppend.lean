import LightNightOS.Console.FormatBuffer

/-!
# Formats in a row

Printing two formats in a row is not the same as printing their concatenation: a directive that the
end of the first format cuts short goes on in the second one. `vprintk_append_iff` says that this is
the only case. Where no directive is cut short, `vprintk` is a homomorphism, from formats in a row
to outputs in a row: the second format takes the arguments that the first one has left, and its `%n`
count from where the first one ended.

A text is printed as it is by the format in which each `%` is written twice (`vprintk_escape`).

* `convert_after`, `emit_after`, `format_after` — a conversion, a piece and a list of pieces behind
  other output;
* `scanDirective_append_right`, `pieces_append` — the pieces of a concatenation;
* `vprintk_append_iff` — the concatenation with any second format is printed like the two in a row,
  exactly if the first one is complete.
-/

namespace LightNight

variable {fmt fmt' text text' : List UInt8} {va : VaList} {base out : Output} {c : UInt8}

/-! ### Outputs in a row

`base.after out` is `out` written behind `base`: the texts one behind the other, the arguments
counted on, and each `%n` stored with the length of `base` added. -/

/-- The arguments from number `k` on. -/
def VaList.drop (va : VaList) (k : ℕ) : VaList where
  word i := va.word (k + i)
  string := va.string

/-- One output behind another. -/
def Output.after (base out : Output) : Output where
  str := base.str ++ out.str
  args := base.args + out.args
  counts :=
    base.counts ++ out.counts.map fun count ↦ (count.1, count.2.1, base.str.length + count.2.2)

/-- Writing behind some output comes to the same as putting what is written behind it. -/
theorem Output.after_put (base out : Output) (text : List UInt8) :
    (base.after out).put text = base.after (out.put text) := by
  rw [Output.put, Output.put, Output.after, Output.after]
  dsimp only
  rw [List.append_assoc]

theorem Output.after_nil (base : Output) : base.after ⟨[], 0, []⟩ = base := by
  rw [Output.after]
  dsimp only
  rw [List.append_nil, List.map_nil, List.append_nil, Nat.add_zero]

/-- A number behind another output. -/
theorem map_put_after (base out : Output) (text : Option (List UInt8)) :
    text.map (base.after out).put = (text.map out.put).map base.after := by
  cases text with
  | none => rfl
  | some text => exact congrArg some (base.after_put out text)

/-- **A conversion** behind another output. -/
theorem convert_after (va : VaList) (c : UInt8) (d : FieldSpec) (base out : Output) :
    convert va c d (base.after out) = (convert (va.drop base.args) c d out).map base.after := by
  have hnumber : ∀ text : Option (List UInt8),
      text.map (base.after { out with args := out.args + 1 }).put =
        (text.map { out with args := out.args + 1 }.put).map base.after := map_put_after base _
  have hput : ∀ text, some ((base.after { out with args := out.args + 1 }).put text) =
      (some ({ out with args := out.args + 1 }.put text)).map base.after :=
        fun text ↦ hnumber (some text)
  rcases eq_or_ne c 0x63 with rfl | hc
  · exact hput _
  rcases eq_or_ne c 0x73 with rfl | hs
  · exact hput _
  rcases eq_or_ne c 0x6F with rfl | ho
  · exact hnumber (number (unsignedArg (va.word (base.args + out.args)) d.qualifier) 8 d.fieldWidth
      d.precision d.flags)
  rcases eq_or_ne c 0x70 with rfl | hp
  · rcases eq_or_ne d.fieldWidth (-1) with hwidth | hwidth
    · simp only [convert, if_pos hwidth]
      exact hnumber (number (u64 (va.word (base.args + out.args))) 16 16 d.precision _)
    · simp only [convert, if_neg hwidth]
      exact hnumber (number (u64 (va.word (base.args + out.args))) 16 d.fieldWidth d.precision _)
  rcases eq_or_ne c 0x78 with rfl | hx
  · exact hnumber (number (unsignedArg (va.word (base.args + out.args)) d.qualifier) 16 d.fieldWidth
      d.precision { d.flags with small := true })
  rcases eq_or_ne c 0x58 with rfl | hX
  · exact hnumber (number (unsignedArg (va.word (base.args + out.args)) d.qualifier) 16 d.fieldWidth
      d.precision d.flags)
  rcases eq_or_ne c 0x64 with rfl | hd
  · exact hnumber (number (unsignedArg (va.word (base.args + out.args)) d.qualifier) 10 d.fieldWidth
      d.precision { d.flags with sign := true })
  rcases eq_or_ne c 0x69 with rfl | hi
  · exact hnumber (number (unsignedArg (va.word (base.args + out.args)) d.qualifier) 10 d.fieldWidth
      d.precision { d.flags with sign := true })
  rcases eq_or_ne c 0x75 with rfl | hu
  · exact hnumber (number (unsignedArg (va.word (base.args + out.args)) d.qualifier) 10 d.fieldWidth
      d.precision d.flags)
  rcases eq_or_ne c 0x6E with rfl | hn
  · -- what `%n` stores is counted from the start of the first output
    refine congrArg some ?_
    show Output.mk _ _ _ = Output.mk _ _ _
    dsimp only [Output.after]
    rw [List.map_append, List.map_singleton, List.length_append, List.append_assoc]
    rfl
  rcases eq_or_ne c 0x25 with rfl | hpercent
  · exact congrArg some (base.after_put out _)
  have hdefault : ∀ (va : VaList) (out : Output),
      convert va c d out = some (out.put [0x25, c]) := by
    intro va out
    simp only [convert, hc, hs, ho, hp, hx, hX, hd, hi, hu, hn, hpercent, or_self, if_false]
  rw [hdefault, hdefault]
  exact congrArg some (base.after_put out _)

/-- A `*` behind `n` arguments reads the first of the remaining ones. -/
theorem fieldValue_drop (va : VaList) (field : List UInt8) (n k : ℕ) : fieldValue va field (n + k) =
    ((fieldValue (va.drop n) field k).1, n + (fieldValue (va.drop n) field k).2) := by
  have hint : (va.drop n).int k = va.int (n + k) := rfl
  rw [fieldValue, fieldValue, hint]
  split
  · rfl
  split
  · rw [Nat.add_assoc]
  · rfl

theorem precisionValue_drop (va : VaList) (precision : Option (List UInt8)) (n k : ℕ) :
    precisionValue va precision (n + k) = ((precisionValue (va.drop n) precision k).1,
      n + (precisionValue (va.drop n) precision k).2) := by
  cases precision with
  | none => rfl
  | some field =>
    rw [precisionValue, precisionValue, fieldValue_drop]

/-- **A directive** takes its arguments from those that are left. -/
theorem spec_drop (va : VaList) (d : Directive) (n k : ℕ) :
    d.spec va (n + k) = ((d.spec (va.drop n) k).1, n + (d.spec (va.drop n) k).2) := by
  rw [directive_spec, directive_spec, fieldValue_drop]
  dsimp only
  rw [precisionValue_drop]

/-- What a piece writes does not depend on what was written before it, but for the arguments it has
left. -/
theorem emit_after (va : VaList) (piece : Piece) (base out : Output) :
    piece.emit va (base.after out) = (piece.emit (va.drop base.args) out).map base.after := by
  cases piece with
  | literal c => exact congrArg some (base.after_put out [c])
  | directive d =>
    have hargs : { base.after out with args := (d.spec va (base.after out).args).2 } =
        base.after { out with args := (d.spec (va.drop base.args) out.args).2 } := by
      show Output.mk _ (d.spec va (base.args + out.args)).2 _ = _
      rw [spec_drop]
      rfl
    have hspec : (d.spec va (base.after out).args).1 = (d.spec (va.drop base.args) out.args).1 := by
      show (d.spec va (base.args + out.args)).1 = _
      rw [spec_drop]
    rw [Piece.emit, Piece.emit, hargs, hspec]
    cases d.conversion with
    | none => exact congrArg some (base.after_put _ _)
    | some c => exact convert_after va c _ base _

/-- **Pieces behind another output.** -/
theorem format_after (va : VaList) (l : List Piece) (base out : Output) :
    format va l (base.after out) = (format (va.drop base.args) l out).map base.after := by
  induction l generalizing out with
  | nil => rfl
  | cons piece l ih =>
    rw [format, format, emit_after, Option.map_bind]
    cases piece.emit (va.drop base.args) out with
    | none => rfl
    | some out => exact ih out

/-- The pieces of two formats are done one after the other. -/
theorem format_append (va : VaList) (l l' : List Piece) (out : Output) :
    format va (l ++ l') out = (format va l out).bind (format va l') := by
  induction l generalizing out with
  | nil => rfl
  | cons piece l ih =>
    rw [List.cons_append, format, format, Option.bind_assoc]
    exact Option.bind_congr fun out _ ↦ ih out

/-! ### Formats in a row

A format is `Complete` where its last directive has its conversion. A directive that is cut short is
read on in the text behind it; none of the scans takes in text that is `Inert`, so that such a text
can at most supply the conversion. -/

/-- No directive is cut short. -/
def Complete (fmt : List UInt8) : Prop := ∀ d, .directive d ∈ pieces fmt → d.conversion ≠ none

/-- No scan takes in the first character. -/
def Inert (text : List UInt8) : Prop :=
  ∀ c ∈ text.head?, isFlag c = false ∧ isDigit c = false ∧ c ≠ 0x2A ∧ c ≠ 0x2E ∧
    isQualifier c = false

theorem Inert.percent : Inert [0x25] := by
  intro c hc
  obtain rfl := Option.some.inj hc
  decide

/-- A loop over the text in front stops where it did. -/
theorem span_append {p : UInt8 → Bool} (text : List UInt8)
    (h : text.dropWhile p ≠ [] ∨ ∀ c ∈ text'.head?, p c = false) :
    (text ++ text').takeWhile p = text.takeWhile p ∧
      (text ++ text').dropWhile p = text.dropWhile p ++ text' := by
  induction text with
  | nil =>
    have hstop := h.resolve_left (not_not.2 rfl)
    cases text' with
    | nil => exact ⟨rfl, rfl⟩
    | cons c text' =>
      rw [List.nil_append, List.takeWhile_cons, List.dropWhile_cons, hstop c rfl]
      exact ⟨rfl, rfl⟩
  | cons c text ih =>
    rw [List.cons_append, List.takeWhile_cons, List.takeWhile_cons, List.dropWhile_cons,
      List.dropWhile_cons]
    rw [List.dropWhile_cons] at h
    split at h
    case isTrue hc =>
      obtain ⟨htake, hdrop⟩ := ih h
      rw [if_pos hc, if_pos hc, if_pos hc, if_pos hc, htake, hdrop]
      exact ⟨rfl, rfl⟩
    case isFalse hc =>
      rw [if_neg hc, if_neg hc, if_neg hc, if_neg hc]
      exact ⟨rfl, rfl⟩

/-- What follows a field that has ended does not belong to it. -/
theorem scanField_append_right (h : (scanField text).2 ≠ [] ∨ Inert text') :
    scanField (text ++ text') = ((scanField text).1, (scanField text).2 ++ text') := by
  cases text with
  | nil =>
    have hinert := h.resolve_left (not_not.2 rfl)
    cases text' with
    | nil => rfl
    | cons c text' =>
      obtain ⟨-, hdigit, hstar, -⟩ := hinert c rfl
      show scanField (c :: text') = ([], c :: text')
      rw [scanField, if_neg hstar, List.takeWhile_cons, List.dropWhile_cons, hdigit]
      rfl
  | cons c text =>
    rw [List.cons_append, scanField, scanField]
    rw [scanField] at h
    split at h
    case isTrue hc =>
      rw [if_pos hc, if_pos hc]
    case isFalse hc =>
      obtain ⟨htake, hdrop⟩ := span_append (p := isDigit) (c :: text)
        (h.imp_right fun hinert c hc ↦ (hinert c hc).2.1)
      rw [List.cons_append] at htake hdrop
      rw [if_neg hc, if_neg hc, htake, hdrop]

/-- What follows a precision that has ended does not belong to it. -/
theorem scanPrecision_append_right (h : (scanPrecision text).2 ≠ [] ∨ Inert text') :
    scanPrecision (text ++ text') = ((scanPrecision text).1, (scanPrecision text).2 ++ text') := by
  cases text with
  | nil =>
    have hinert := h.resolve_left (not_not.2 rfl)
    cases text' with
    | nil => rfl
    | cons c text' =>
      show scanPrecision (c :: text') = (none, c :: text')
      rw [scanPrecision, if_neg (hinert c rfl).2.2.2.1]
  | cons c text =>
    rw [List.cons_append, scanPrecision, scanPrecision]
    rw [scanPrecision] at h
    split at h
    case isTrue hc =>
      rw [if_pos hc, if_pos hc, scanField_append_right h]
    case isFalse hc =>
      rw [if_neg hc, if_neg hc]
      rfl

/-- What follows a qualifier, or the place where one could be, does not change it. -/
theorem scanQualifier_append_right (h : (scanQualifier text).2 ≠ [] ∨ Inert text') :
    scanQualifier (text ++ text') = ((scanQualifier text).1, (scanQualifier text).2 ++ text') := by
  cases text with
  | nil =>
    have hinert := h.resolve_left (not_not.2 rfl)
    cases text' with
    | nil => rfl
    | cons c text' =>
      show scanQualifier (c :: text') = (none, c :: text')
      rw [scanQualifier, (hinert c rfl).2.2.2.2]
      rfl
  | cons c text =>
    rw [List.cons_append, scanQualifier, scanQualifier]
    split <;> rfl

/-- The text behind the parts of a directive, from the conversion on. -/
def conversionOn (text : List UInt8) : List UInt8 :=
  (scanQualifier (scanPrecision (scanField (text.dropWhile isFlag)).2).2).2

/-- **A directive in front of a text.** Its parts are the same, if it has a conversion, or else if
the text does not go on with one of them. -/
theorem scanDirective_append_right (h : conversionOn text ≠ [] ∨ Inert text') :
    scanDirective (text ++ text') =
      ({ (scanDirective text).1 with conversion := (conversionOn text ++ text').head? },
        (conversionOn text ++ text').tail) := by
  have hqualifier := h
  have hprecision : (scanPrecision (scanField (text.dropWhile isFlag)).2).2 ≠ [] ∨ Inert text' := by
    refine h.imp_left fun hne heq ↦ hne ?_
    rw [conversionOn, heq]
    rfl
  have hfield : (scanField (text.dropWhile isFlag)).2 ≠ [] ∨ Inert text' := by
    refine hprecision.imp_left fun hne heq ↦ hne ?_
    rw [heq]
    rfl
  have hflags : text.dropWhile isFlag ≠ [] ∨ ∀ c ∈ text'.head?, isFlag c = false := by
    refine hfield.imp (fun hne heq ↦ hne ?_) fun hinert c hc ↦ (hinert c hc).1
    rw [heq]
    rfl
  obtain ⟨htake, hdrop⟩ := span_append _ hflags
  rw [scanDirective, htake, hdrop]
  dsimp only
  rw [scanField_append_right hfield]
  dsimp only
  rw [scanPrecision_append_right hprecision]
  dsimp only
  rw [scanQualifier_append_right hqualifier]
  rfl

/-- The number of turns does not matter. -/
theorem piecesFrom_eq {n m : ℕ} (hn : text.length ≤ n) (hm : text.length ≤ m) :
    piecesFrom n text = piecesFrom m text := by
  induction n generalizing text m with
  | zero =>
    obtain rfl := List.length_eq_zero_iff.1 (Nat.le_zero.1 hn)
    cases m <;> rfl
  | succ n ih =>
    cases text with
    | nil => cases m <;> rfl
    | cons c text =>
      rw [List.length_cons] at hn hm
      obtain ⟨m, rfl⟩ : ∃ m', m = m' + 1 := ⟨m - 1, by omega⟩
      have hle := length_scanDirective_le text
      rw [piecesFrom, piecesFrom, ih (by omega) (show text.length ≤ m by omega),
        ih (by omega) (show (scanDirective text).2.length ≤ m by omega)]

theorem pieces_literal (hc : c ≠ 0x25) (text : List UInt8) :
    pieces (c :: text) = .literal c :: pieces text := by
  rw [pieces, List.length_cons, piecesFrom, if_pos hc, pieces]

/-- A `%` begins a directive, and the pieces go on behind it. -/
theorem pieces_directive (text : List UInt8) :
    pieces (0x25 :: text) = .directive (scanDirective text).1 :: pieces (scanDirective text).2 := by
  rw [pieces, List.length_cons, piecesFrom, if_neg (not_not.2 rfl), pieces,
    piecesFrom_eq (length_scanDirective_le text) le_rfl]

/-- The pieces of a format, one at a time. -/
theorem pieces_induction {motive : List UInt8 → Prop} (nil : motive [])
    (literal : ∀ c text, c ≠ 0x25 → motive text → motive (c :: text))
    (directive : ∀ text, motive (scanDirective text).2 → motive (0x25 :: text)) (fmt : List UInt8) :
    motive fmt := by
  induction hlength : fmt.length using Nat.strongRecOn generalizing fmt with
  | _ n ih =>
    cases fmt with
    | nil => exact nil
    | cons c text =>
      rw [List.length_cons] at hlength
      rcases eq_or_ne c 0x25 with rfl | hc
      · have hle := length_scanDirective_le text
        exact directive text (ih _ (by omega) _ rfl)
      · exact literal c text hc (ih _ (by omega) _ rfl)

/-- The conversion of a directive is the first character that belongs to none of its other parts. -/
theorem scanDirective_conversion (text : List UInt8) :
    (scanDirective text).1.conversion = (conversionOn text).head? := rfl

/-- **The pieces of two formats in a row**, if the first one is complete. -/
theorem pieces_append (h : Complete fmt) (fmt' : List UInt8) :
    pieces (fmt ++ fmt') = pieces fmt ++ pieces fmt' := by
  induction fmt using pieces_induction with
  | nil => rfl
  | literal c text hc ih =>
    rw [Complete, pieces_literal hc] at h
    rw [List.cons_append, pieces_literal hc, pieces_literal hc, List.cons_append,
      ih fun d hd ↦ h d (List.mem_cons_of_mem _ hd)]
  | directive text ih =>
    rw [Complete, pieces_directive] at h
    have hcomplete := h _ List.mem_cons_self
    rw [scanDirective_conversion] at hcomplete
    have hne : conversionOn text ≠ [] := fun heq ↦ hcomplete (by rw [heq]; rfl)
    have hdirective := scanDirective_append_right (Or.inl hne : conversionOn text ≠ [] ∨ Inert fmt')
    have hparts : scanDirective (text ++ fmt') =
        ((scanDirective text).1, (scanDirective text).2 ++ fmt') := by
      rw [hdirective, List.tail_append_of_ne_nil hne, List.head?_append_of_ne_nil _ hne]
      rfl
    rw [List.cons_append, pieces_directive, pieces_directive, hparts, List.cons_append,
      ih fun d hd ↦ h d (List.mem_cons_of_mem _ hd)]

/-- A format that is not complete ends in a directive without a conversion, and a `%` completes
it. -/
theorem pieces_percent (h : ¬Complete fmt) :
    ∃ l d, d.conversion = none ∧ pieces fmt = l ++ [.directive d] ∧
    pieces (fmt ++ [0x25]) = l ++ [.directive { d with conversion := some 0x25 }] := by
  induction fmt using pieces_induction with
  | nil => exact absurd (fun _ hd ↦ absurd hd List.not_mem_nil) h
  | literal c text hc ih =>
    have hrest : ¬Complete text := by
      refine fun hcomplete ↦ h fun d hd ↦ ?_
      rw [pieces_literal hc] at hd
      rcases List.mem_cons.1 hd with heq | hd
      · cases heq
      · exact hcomplete d hd
    obtain ⟨l, d, hd, hpieces, hpercent⟩ := ih hrest
    refine ⟨.literal c :: l, d, hd, ?_, ?_⟩
    · rw [pieces_literal hc, hpieces, List.cons_append]
    · rw [List.cons_append, pieces_literal hc, hpercent, List.cons_append]
  | directive text ih =>
    have hdirective :=
      scanDirective_append_right (Or.inr Inert.percent : conversionOn text ≠ [] ∨ Inert [0x25])
    rcases hend : conversionOn text with _ | ⟨c, rest⟩
    · -- the directive is the last piece
      have hnone : (scanDirective text).1.conversion = none := by
        rw [scanDirective_conversion, hend]
        rfl
      have hrest : (scanDirective text).2 = [] := by
        show (conversionOn text).tail = []
        rw [hend]
        rfl
      refine ⟨[], (scanDirective text).1, hnone, ?_, ?_⟩
      · rw [pieces_directive, hrest]
        rfl
      · rw [List.cons_append, pieces_directive, hdirective, hend]
        rfl
    · have hne : conversionOn text ≠ [] := by
        rw [hend]
        exact List.cons_ne_nil c rest
      have hparts : scanDirective (text ++ [0x25]) =
          ((scanDirective text).1, (scanDirective text).2 ++ [0x25]) := by
        rw [hdirective, List.tail_append_of_ne_nil hne, List.head?_append_of_ne_nil _ hne]
        rfl
      have hrest : ¬Complete (scanDirective text).2 := by
        refine fun hcomplete ↦ h fun d hd ↦ ?_
        rw [pieces_directive] at hd
        rcases List.mem_cons.1 hd with heq | hd
        · rw [Piece.directive.inj heq, scanDirective_conversion, hend]
          exact Option.some_ne_none c
        · exact hcomplete d hd
      obtain ⟨l, d, hd, hpieces, hpercent⟩ := ih hrest
      refine ⟨.directive (scanDirective text).1 :: l, d, hd, ?_, ?_⟩
      · rw [pieces_directive, hpieces, List.cons_append]
      · rw [List.cons_append, pieces_directive, hparts, hpercent, List.cons_append]

/-- What a directive leaves that is cut short, or that has a `%` for its conversion. -/
theorem emit_percent (va : VaList) (d : Directive) (hd : d.conversion = none) (out : Output) :
    (Piece.directive d).emit va out =
      some ({ out with args := (d.spec va out.args).2 }.put [0x25]) ∧
    (Piece.directive { d with conversion := some 0x25 }).emit va out =
      some ({ out with args := (d.spec va out.args).2 }.put [0x25]) := by
  refine ⟨?_, rfl⟩
  rw [Piece.emit, hd]

/-- **When are two formats printed like their concatenation?** If and only if no directive of the
first one is cut short. Then the characters, the arguments that are taken, and what `%n` stores are
those of the two formats in a row, with the second one on the arguments that the first one has
left. -/
theorem vprintk_append_iff (hfmt : ∀ c ∈ fmt, c ≠ 0) :
    (∀ fmt' va, (∀ c ∈ fmt', c ≠ 0) → vprintk (fmt ++ fmt') va =
      (vprintk fmt va).bind fun r ↦
        (vprintk fmt' (va.drop r.2.args)).map fun r' ↦ (r.1 + r'.1, r.2.after r'.2)) ↔
          Complete fmt := by
  have hboth : ∀ {fmt'}, (∀ c ∈ fmt', c ≠ 0) → ∀ c ∈ fmt ++ fmt', c ≠ 0 := fun hfmt' ↦
    List.forall_mem_append.2 ⟨hfmt, hfmt'⟩
  constructor
  · intro happend
    by_contra hcut
    obtain ⟨l, d, hd, hpieces, hpercent⟩ := pieces_percent hcut
    have hone : ∀ c ∈ [(0x25 : UInt8)], c ≠ 0 := List.forall_mem_singleton.2 (by decide)
    have heq := happend [0x25] ⟨fun _ ↦ 0, fun _ ↦ []⟩ hone
    obtain ⟨texts, n, counts, hformat, -, -⟩ := format_spec ⟨fun _ ↦ 0, fun _ ↦ []⟩ l ⟨[], 0, []⟩
    obtain ⟨hemit, hemit'⟩ :=
      emit_percent ⟨fun _ ↦ 0, fun _ ↦ []⟩ d hd ⟨[] ++ texts.flatten, n, counts⟩
    rw [vprintk_eq (hboth hone), vprintk_eq hfmt, hpieces, hpercent, format_append, format_append,
      hformat, Option.bind_some, Option.bind_some, format, format, hemit, hemit', Option.bind_some,
      format, Option.map_some, Option.map_some, Option.bind_some] at heq
    dsimp only at heq
    have hlast : ∀ va : VaList, vprintk [0x25] va = some (1, ⟨[0x25], 0, []⟩) := fun _ ↦ rfl
    -- the second `%` is printed again
    rw [hlast, Option.map_some] at heq
    have hstr := congrArg (fun r ↦ r.2.str.length) (Option.some.inj heq)
    have hlonger : (texts.flatten ++ [0x25]).length ≠
        ((texts.flatten ++ [0x25]) ++ [0x25]).length := by simp
    exact hlonger hstr
  · intro hcomplete fmt' va hfmt'
    obtain ⟨texts, n, counts, hformat, -, -⟩ := format_spec va (pieces fmt) ⟨[], 0, []⟩
    have hafter := format_after va (pieces fmt') ⟨[] ++ texts.flatten, n, counts⟩ ⟨[], 0, []⟩
    rw [Output.after_nil] at hafter
    rw [vprintk_eq (hboth hfmt'), vprintk_eq hfmt, pieces_append hcomplete, format_append, hformat,
      Option.map_some, Option.bind_some, Option.bind_some, hafter]
    dsimp only
    rw [vprintk_eq hfmt', Option.map_map, Option.map_map, List.length_append]
    rfl

/-- `"%d"` is complete. -/
theorem vprintk_append_decimal :
    (∀ fmt' va, (∀ c ∈ fmt', c ≠ 0) → vprintk ([0x25, 0x64] ++ fmt') va =
      (vprintk [0x25, 0x64] va).bind fun r ↦
        (vprintk fmt' (va.drop r.2.args)).map fun r' ↦ (r.1 + r'.1, r.2.after r'.2)) ↔
          Complete [0x25, 0x64] :=
  vprintk_append_iff (by decide +kernel)

/-! ### Texts as formats

The `%` of an escaped text come in pairs, and a pair is a directive that writes one `%`. -/

/-- A text as a format: each `%` is written twice. -/
def escape (text : List UInt8) : List UInt8 := text.flatMap fun c ↦ if c = 0x25 then [c, c] else [c]

theorem escape_percent (text : List UInt8) : escape (0x25 :: text) = 0x25 :: 0x25 :: escape text :=
  rfl

theorem escape_cons (hc : c ≠ 0x25) (text : List UInt8) :
    escape (c :: text) = c :: escape text := by
  rw [escape, List.flatMap_cons, if_neg hc]
  rfl

/-- The escaped text writes the text, and takes no argument. -/
theorem format_escape (va : VaList) (text : List UInt8) (out : Output) :
    format va (pieces (escape text)) out = some (out.put text) := by
  induction text generalizing out with
  | nil =>
    show some out = some (out.put [])
    rw [Output.put, List.append_nil]
  | cons c text ih =>
    have hput : (out.put [c]).put text = out.put (c :: text) := by
      rw [Output.put, Output.put, Output.put]
      dsimp only
      rw [List.append_assoc, List.singleton_append]
    rcases eq_or_ne c 0x25 with rfl | hc
    · -- the second `%` is the conversion of the first one
      have hscan : (scanDirective (0x25 :: escape text)).2 = escape text := rfl
      have hemit : (Piece.directive (scanDirective (0x25 :: escape text)).1).emit va out =
          some (out.put [0x25]) := rfl
      rw [escape_percent, pieces_directive, format, hemit, hscan, Option.bind_some, ih, hput]
    · have hemit : (Piece.literal c).emit va out = some (out.put [c]) := rfl
      rw [escape_cons hc, pieces_literal hc, format, hemit, Option.bind_some, ih, hput]

/-- **Every text can be printed**: the format that it is written as prints it, takes no argument,
and stores no count. -/
theorem vprintk_escape (htext : ∀ c ∈ text, c ≠ 0) (va : VaList) :
    vprintk (escape text) va = some ((escape text).length, ⟨text, 0, []⟩) := by
  have hescape : ∀ c ∈ escape text, c ≠ 0 := by
    intro c hc
    obtain ⟨b, hb, hcopy⟩ := List.mem_flatMap.1 hc
    have heq : c = b := by
      split at hcopy
      · exact (List.mem_cons.1 hcopy).elim id List.mem_singleton.1
      · exact List.mem_singleton.1 hcopy
    rw [heq]
    exact htext b hb
  rw [vprintk_eq hescape, format_escape]
  rfl

/-- `"100%"` is printed by `"100%%"`. -/
theorem vprintk_escape_hundred :
    vprintk (escape [0x31, 0x30, 0x30, 0x25]) ⟨fun _ ↦ 0, fun _ ↦ []⟩ =
      some ((escape [0x31, 0x30, 0x30, 0x25]).length, ⟨[0x31, 0x30, 0x30, 0x25], 0, []⟩) :=
  vprintk_escape (by decide +kernel) _

end LightNight
