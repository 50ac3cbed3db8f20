import LightNightOS.Foundation.Words
import LightNightOS.Shell.Bounds

/-!
# `parse_arguments` and the words of a line

The scan ends each word by a zero when it comes to the blank behind it. It stops as soon as `argv`
is full, which is right behind the first character of word 15: that word is never ended, and
`argv[14]` is the rest of the line. `splitsLine_iff` is the exact condition under which every word
is right.

A line is an array of any size here; that of the shell is `cmd_buffer`.

* `parseFromIn_scanned` — the loop, from any position;
* `parseArgumentsIn_spec` — the whole scan: the strings in `argv` and their number;
* `last_word_not_ended` — a line of sixteen words.
-/

namespace LightNight

open CharArray

/-- `' '` and `'\t'` -/
def isBlank (c : UInt8) : Bool := c = 0x20 || c = 0x09

/-- `parse_arguments` splits a line that holds `text`: `argc` and the end of `argv`, and each
word. -/
def SplitsLine (size : ℕ) (line : ℕ → UInt8) (argv : ℕ → Option ℤ) (text : List UInt8) : Prop :=
  ∃ p, parseArgumentsIn size line argv = some p ∧
    p.argc = (min 15 (words isBlank text).length : ℕ) ∧ p.argv p.argc.toNat = none ∧
    ∀ (i : ℕ) (h : i < (words isBlank text).length), (i : ℤ) < p.argc →
      ∃ q : ℕ, p.argv i = some (q : ℤ) ∧ HoldsString size p.line q (words isBlank text)[i]

/-! ### The scan

`Scanned` is the loop of `parse_arguments` in progress: the words that are ended, the one that may
be open, and what is still to be read. One lemma for each kind of character carries it on. -/

variable {size k i a : ℕ} {p p' : Parse} {rest text : List UInt8}

theorem isBlank_iff {c : UInt8} : isBlank c = true ↔ c = 0x20 ∨ c = 0x09 := by
  rw [isBlank, Bool.or_eq_true, decide_eq_true_iff, decide_eq_true_iff]

/-- What the scan of `rest`, from position `i` and with `a` words found, has done in the end. A word
that is begun is ended, unless it is the last that `argv` has room for. -/
structure Scanned (size i a : ℕ) (rest : List UInt8) (p p' : Parse) : Prop where
  argc : p'.argc = (min 15 (a + (wordsFrom isBlank p.inArg rest).length) : ℕ)
  line : ∀ j < i, p'.line j = p.line j
  argv : ∀ j < a, p'.argv j = p.argv j
  full : a = 15 → p' = p
  ended : a < 15 → p.inArg = true → HoldsString size p'.line i (firstRun isBlank rest)
  word : ∀ (k : ℕ) (h : k < (wordsFrom isBlank p.inArg rest).length), a + k < 15 →
    ∃ q : ℕ, p'.argv (a + k) = some (q : ℤ) ∧ ∃ text, HoldsString size p'.line q text ∧
      (text = (wordsFrom isBlank p.inArg rest)[k] ↔
        a + k < 14 ∨ k + 1 = (wordsFrom isBlank p.inArg rest).length ∧ EndsInWord isBlank rest)

/-- A scan that stops at once. -/
theorem Scanned.stop (hline : HoldsString size p.line i rest) (hargc : p.argc = a) (ha : a ≤ 15)
    (hstop : rest = [] ∨ a = 15) : Scanned size i a rest p p := by
  refine ⟨?_, fun _ _ ↦ rfl, fun _ _ ↦ rfl, fun _ ↦ rfl, fun hlt _ ↦ ?_, fun k hk hlt ↦ ?_⟩
  · obtain rfl | rfl := hstop
    · rw [hargc, wordsFrom, List.length_nil, Nat.add_zero, Nat.min_eq_right ha]
    · rw [hargc, Nat.min_eq_left (Nat.le_add_right _ _)]
  · obtain rfl := hstop.resolve_right hlt.ne
    exact hline
  · obtain rfl := hstop.resolve_right (by omega)
    exact absurd hk (Nat.not_lt_zero k)

/-- A character at which no word begins. -/
theorem Scanned.skip {c : UInt8} {q : Parse} (h : Scanned size (i + 1) a rest q p') (ha : a < 15)
    (hargv : q.argv = p.argv) (hline : ∀ j < i, q.line j = p.line j)
    (hwords : wordsFrom isBlank p.inArg (c :: rest) = wordsFrom isBlank q.inArg rest)
    (hended : p.inArg = true → HoldsString size p'.line i (firstRun isBlank (c :: rest))) :
    Scanned size i a (c :: rest) p p' where
  argc := hwords ▸ h.argc
  line j hj := (h.line j (by omega)).trans (hline j hj)
  argv j hj := hargv ▸ h.argv j hj
  full heq := absurd heq ha.ne
  ended _ := hended
  word k hk hlt := by
    simp only [hwords] at hk ⊢
    have hne : rest ≠ [] := by
      rintro rfl
      exact absurd hk (Nat.not_lt_zero k)
    rw [endsInWord_cons hne]
    exact h.word k hk hlt

/-- A character at which a word begins. -/
theorem Scanned.begin {c : UInt8}
    (h : Scanned size (i + 1) (a + 1) rest
      { p with
        argv := Function.update p.argv a (some (i : ℤ)), argc := (a + 1 : ℕ), inArg := true } p')
    (hline : HoldsString size p.line i (c :: rest)) (ha : a < 15) (hin : p.inArg = false)
    (hc : isBlank c = false) : Scanned size i a (c :: rest) p p' := by
  have hwords : wordsFrom isBlank p.inArg (c :: rest) =
      (c :: firstRun isBlank rest) :: wordsFrom isBlank true rest := by
    rw [hin, wordsFrom_false hc]
  have hfirst : p'.line i = c := (h.line i (Nat.lt_succ_self i)).trans hline.2.1
  have hpointer : p'.argv a = some (i : ℤ) :=
    (h.argv a (Nat.lt_succ_self a)).trans (Function.update_self _ _ _)
  refine ⟨?_, fun j hj ↦ h.line j (by omega), fun j hj ↦ ?_, fun heq ↦ absurd heq ha.ne,
    fun _ htrue ↦ absurd (hin.symm.trans htrue) Bool.false_ne_true, fun k hk hlt ↦ ?_⟩
  · rw [h.argc, hwords, List.length_cons, Nat.add_assoc, Nat.add_comm 1]
  · exact (h.argv j (by omega)).trans (Function.update_of_ne hj.ne _ _)
  · simp only [hwords] at hk ⊢
    cases k with
    | zero =>
      refine ⟨i, hpointer, ?_⟩
      by_cases hlast : a = 14
      · -- `argv` is full: the string goes to the end of the line
        have hfull := h.full (by omega)
        have hrest : HoldsString size p'.line i (c :: rest) := by
          rw [hfull]
          exact hline
        refine ⟨c :: rest, hrest, ?_⟩
        have hcons : (c :: rest = c :: firstRun isBlank rest) ↔
            firstRun isBlank (c :: rest) = c :: rest := by
          rw [firstRun_cons hc, eq_comm]
        rw [List.getElem_cons_zero, hcons, firstRun_eq_self_iff, wordsFrom_true hc,
          List.length_cons, or_iff_right (by omega), Nat.add_right_cancel_iff, eq_comm (a := 0),
          List.length_eq_zero_iff]
      · refine ⟨c :: firstRun isBlank rest, ?_, iff_of_true rfl (.inl (by omega))⟩
        exact ⟨hline.1, hfirst, hline.2.2.1, h.ended (by omega) rfl⟩
    | succ k =>
      have hk : k < (wordsFrom isBlank true rest).length := Nat.lt_of_succ_lt_succ hk
      have hne : rest ≠ [] := by
        rintro rfl
        exact absurd hk (Nat.not_lt_zero k)
      have hadd : a + 1 + k = a + (k + 1) := by omega
      have := h.word k hk (by omega)
      rw [hadd] at this
      rw [endsInWord_cons hne, List.getElem_cons_succ, List.length_cons, Nat.add_right_cancel_iff]
      exact this

/-- **The scan**, by induction on what is left of the line. -/
theorem parseFromIn_scanned (hline : HoldsString size p.line i rest) (hargc : p.argc = a)
    (ha : a ≤ 15) (hk : rest.length < k) :
    ∃ p', parseFromIn size k i p = some p' ∧ Scanned size i a rest p p' := by
  induction rest generalizing i a k p with
  | nil =>
    obtain ⟨k, rfl⟩ : ∃ k', k = k' + 1 := ⟨k - 1, by omega⟩
    refine ⟨p, ?_, .stop hline hargc ha (.inl rfl)⟩
    rw [parseFromIn, load_natCast hline.1, Option.bind_some, if_neg fun h ↦ h.1 hline.2]
  | cons c rest ih =>
    obtain ⟨k, rfl⟩ : ∃ k', k = k' + 1 := ⟨k - 1, by omega⟩
    rw [List.length_cons] at hk
    obtain ⟨hi, hc, hzero, htail⟩ := hline
    rw [parseFromIn, load_natCast hi, Option.bind_some, hc]
    by_cases hfull : a = 15
    · have hstop : ¬(c ≠ 0 ∧ p.argc < maxArgs - 1) := by
        rw [hargc]
        simp only [maxArgs]
        omega
      rw [if_neg hstop]
      exact ⟨p, rfl, .stop ⟨hi, hc, hzero, htail⟩ hargc ha (.inr hfull)⟩
    have hgo : c ≠ 0 ∧ p.argc < maxArgs - 1 := ⟨hzero, by rw [hargc]; simp only [maxArgs]; omega⟩
    have hlt : a < 15 := by omega
    have hroom : rest.length < k := by omega
    have hnext : ((i : ℤ) + 1) = (i + 1 : ℕ) := rfl
    rw [if_pos hgo, hnext]
    cases hblank : isBlank c with
    | true =>
      rw [if_pos (isBlank_iff.1 hblank)]
      cases hin : p.inArg with
      | true =>
        rw [if_pos rfl, store_natCast hi, Option.bind_some]
        obtain ⟨p', hscan, hp'⟩ := ih (i := i + 1) (a := a)
          (p := { p with line := Function.update p.line i 0, inArg := false })
          (htail.congr rfl fun j _ ↦ Function.update_of_ne (by omega) _ _) hargc ha hroom
        refine ⟨p', hscan, hp'.skip hlt rfl (fun j hj ↦ Function.update_of_ne hj.ne _ _) ?_ fun _ ↦
          ?_⟩
        · rw [wordsFrom_sep hblank]
        · rw [firstRun_sep hblank]
          exact ⟨hi, (hp'.line i (Nat.lt_succ_self i)).trans (Function.update_self _ _ _)⟩
      | false =>
        rw [if_neg Bool.false_ne_true]
        obtain ⟨p', hscan, hp'⟩ := ih (i := i + 1) (a := a) (p := p) htail hargc ha hroom
        refine ⟨p', hscan, hp'.skip hlt rfl (fun _ _ ↦ rfl) ?_ fun htrue ↦ ?_⟩
        · rw [wordsFrom_sep hblank, hin]
        · exact absurd (hin.symm.trans htrue) Bool.false_ne_true
    | false =>
      rw [if_neg fun h ↦ Bool.false_ne_true (hblank.symm.trans (isBlank_iff.2 h))]
      cases hin : p.inArg with
      | true =>
        rw [if_pos rfl]
        obtain ⟨p', hscan, hp'⟩ := ih (i := i + 1) (a := a) (p := p) htail hargc ha hroom
        refine ⟨p', hscan, hp'.skip hlt rfl (fun _ _ ↦ rfl) ?_ fun _ ↦ ?_⟩
        · rw [hin, wordsFrom_true hblank]
        · rw [firstRun_cons hblank]
          exact ⟨hi, (hp'.line i (Nat.lt_succ_self i)).trans hc, hzero, hp'.ended hlt hin⟩
      | false =>
        have hset : setArg p.argv p.argc (some (i : ℤ)) =
            some (Function.update p.argv a (some (i : ℤ))) := by
          rw [setArg, hargc, if_pos ⟨Int.natCast_nonneg a, by simp only [maxArgs]; omega⟩,
            Int.toNat_natCast]
        have hcount : p.argc + 1 = (a + 1 : ℕ) := by
          rw [hargc]
          rfl
        rw [if_neg Bool.false_ne_true, hset, Option.bind_some, hcount]
        obtain ⟨p', hscan, hp'⟩ := ih (i := i + 1) (a := a + 1)
          (p := { p with
            argv := Function.update p.argv a (some (i : ℤ)), argc := (a + 1 : ℕ), inArg := true })
          htail rfl (by omega) hroom
        exact ⟨p', hscan, hp'.begin ⟨hi, hc, hzero, htail⟩ hlt hin hblank⟩

/-- What `parse_arguments` does. The string in `argv[14]` may be more than the word. -/
theorem parseArgumentsIn_spec {line : ℕ → UInt8} (hline : HoldsString size line 0 text)
    (argv : ℕ → Option ℤ) : ∃ p, parseArgumentsIn size line argv = some p ∧
      p.argc = (min 15 (words isBlank text).length : ℕ) ∧ p.argv p.argc.toNat = none ∧
      ∀ (i : ℕ) (h : i < (words isBlank text).length), i < 15 →
        ∃ q : ℕ, p.argv i = some (q : ℤ) ∧ ∃ string, HoldsString size p.line q string ∧
          (string = (words isBlank text)[i] ↔
            i < 14 ∨ i + 1 = (words isBlank text).length ∧ EndsInWord isBlank text) := by
  have hlt := hline.lt
  obtain ⟨p, hscan, hp⟩ := parseFromIn_scanned (k := size) (p := ⟨line, argv, 0, false⟩) hline
    (a := 0) rfl (by decide) (by omega)
  rw [Nat.cast_zero] at hscan
  have hargc : p.argc = (min 15 (words isBlank text).length : ℕ) := by
    rw [hp.argc, Nat.zero_add, words_eq]
  have hset : setArg p.argv p.argc none =
      some (Function.update p.argv (min 15 (words isBlank text).length) none) := by
    rw [setArg, hargc, if_pos ⟨Int.natCast_nonneg _, by simp only [maxArgs]; omega⟩,
      Int.toNat_natCast]
  refine ⟨{ p with argv := Function.update p.argv (min 15 (words isBlank text).length) none },
    ?_, hargc, ?_, fun i hi hi15 ↦ ?_⟩
  · simp only [parseArgumentsIn, hscan, hset, Option.bind_eq_bind, Option.bind_some]
    rfl
  · dsimp only
    rw [hargc, Int.toNat_natCast, Function.update_self]
  · have hword := hp.word i (by rwa [words_eq] at hi) (by omega)
    simp only [words_eq] at hi ⊢
    simp only [Nat.zero_add] at hword
    rwa [Function.update_of_ne (by omega)]

/-! ### Every word -/

/-- **Where every word is right**: lines of at most 14 words, and lines of 15 that do not end with a
blank. -/
theorem splitsLine_iff {line : ℕ → UInt8} (hline : HoldsString size line 0 text)
    (argv : ℕ → Option ℤ) : SplitsLine size line argv text ↔
      (words isBlank text).length ≤ 14 ∨
        (words isBlank text).length = 15 ∧ EndsInWord isBlank text := by
  obtain ⟨p, hparse, hargc, hnull, hstrings⟩ := parseArgumentsIn_spec hline argv
  rw [SplitsLine, hparse]
  constructor
  · rintro ⟨p', heq, -, -, hwords⟩
    obtain rfl := Option.some.inj heq
    by_cases hfew : (words isBlank text).length ≤ 14
    · exact .inl hfew
    · have h14 : 14 < (words isBlank text).length := by omega
      obtain ⟨q, hq, string, hstring, hiff⟩ := hstrings 14 h14 (by decide)
      obtain ⟨q', hq', hword⟩ := hwords 14 h14 (by rw [hargc]; omega)
      rw [hq, Option.some.injEq, Nat.cast_inj] at hq'
      rw [← hq'] at hword
      obtain hlt | ⟨hlength, hend⟩ := hiff.1 (hstring.unique hword)
      · exact absurd hlt (lt_irrefl _)
      · exact .inr ⟨hlength.symm, hend⟩
  · intro hcond
    refine ⟨p, rfl, hargc, hnull, fun i hi hlt ↦ ?_⟩
    rw [hargc] at hlt
    obtain ⟨q, hq, string, hstring, hiff⟩ := hstrings i hi (by omega)
    refine ⟨q, hq, hiff.2 ?_ ▸ hstring⟩
    obtain hfew | ⟨hlength, hend⟩ := hcond
    · exact .inl (by omega)
    · by_cases h : i < 14
      · exact .inl h
      · exact .inr ⟨by omega, hend⟩

/-- A line in an array of zeros. -/
def lineOf (text : List UInt8) : ℕ → UInt8 := fun i ↦ text.getD i 0

/-- The array that is made from a text holds it as a string. -/
theorem holdsString_lineOf (hlt : text.length < size) (hchars : ∀ c ∈ text, c ≠ 0) :
    HoldsString size (lineOf text) 0 text := by
  refine HoldsString.of_getElem (by omega) ?_ fun j hj ↦ ?_
  · rw [Nat.zero_add]
    exact List.getD_eq_default _ _ le_rfl
  · rw [Nat.zero_add, lineOf, List.getD_eq_getElem _ _ hj]
    exact ⟨rfl, hchars _ (List.getElem_mem hj)⟩

/-- `"echo a"` -/
theorem splitsLine_echo :
    SplitsLine maxCmdLen (lineOf [0x65, 0x63, 0x68, 0x6F, 0x20, 0x61]) (fun _ ↦ none)
        [0x65, 0x63, 0x68, 0x6F, 0x20, 0x61] ↔
      (words isBlank [0x65, 0x63, 0x68, 0x6F, 0x20, 0x61]).length ≤ 14 ∨
        (words isBlank [0x65, 0x63, 0x68, 0x6F, 0x20, 0x61]).length = 15 ∧
          EndsInWord isBlank [0x65, 0x63, 0x68, 0x6F, 0x20, 0x61] :=
  splitsLine_iff (holdsString_lineOf (by decide +kernel) (by decide +kernel)) _

/-- `"a b c d e f g h i j k l m n o p"` -/
def sixteenWords : List UInt8 :=
  [0x61, 0x20, 0x62, 0x20, 0x63, 0x20, 0x64, 0x20, 0x65, 0x20, 0x66, 0x20, 0x67, 0x20, 0x68, 0x20,
    0x69, 0x20, 0x6A, 0x20, 0x6B, 0x20, 0x6C, 0x20, 0x6D, 0x20, 0x6E, 0x20, 0x6F, 0x20, 0x70]

/-- Word 15 of 16 is `"o p"`. -/
theorem last_word_not_ended :
    ((parseArgumentsIn maxCmdLen (lineOf sixteenWords) (fun _ ↦ none)).bind fun p ↦
      (p.argv 14).bind (stringAt maxCmdLen p.line)) = some [0x6F, 0x20, 0x70] ∧
    ¬SplitsLine maxCmdLen (lineOf sixteenWords) (fun _ ↦ none) sixteenWords := by
  have hlast : ((parseArgumentsIn maxCmdLen (lineOf sixteenWords) (fun _ ↦ none)).bind fun p ↦
      (p.argv 14).bind (stringAt maxCmdLen p.line)) = some [0x6F, 0x20, 0x70] := by decide +kernel
  have hcount : (words isBlank sixteenWords).length = 16 := by decide +kernel
  refine ⟨hlast, ?_⟩
  rintro ⟨p, hparse, hargc, -, hwords⟩
  obtain ⟨q, hq, hword⟩ := hwords 14 (by omega) (by rw [hargc, hcount]; decide)
  rw [hparse, Option.bind_some, hq, Option.bind_some, hword.stringAt_eq, Option.some.injEq] at hlast
  have hright : (words isBlank sixteenWords)[14]? = some [0x6F] := by decide +kernel
  rw [List.getElem?_eq_getElem (by omega), hlast] at hright
  exact absurd hright (by decide)

end LightNight
