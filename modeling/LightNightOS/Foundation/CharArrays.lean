import LightNightOS.Foundation.Loops
import Mathlib.Tactic.Ring

/-!
# Arrays of characters, and the strings in them

An array of `n` characters is a function on its indices. `load` and `store` take an index of any
value and fail outside the array, so a computation that succeeds has stayed in bounds. The loops of
the C string functions are translated over these two; each takes a number of iterations after which
it must have left the array.

`HoldsString n b i text` says that the zero-terminated string `text` is in the array from `i` on.
Where an array has a zero byte there is such a string (`exists_holdsString`), and on strings every
function succeeds, with the result that its name promises.
-/

namespace CharArray

/-! ### Access

An index is an integer, so that `load` and `store` can be given what the code computes; a negative
one is outside like one that is too large. -/

/-- `b[i]` -/
def load (n : ℕ) (b : ℕ → UInt8) (i : ℤ) : Option UInt8 :=
  if 0 ≤ i ∧ i < n then some (b i.toNat) else none

/-- `b[i] = c` -/
def store (n : ℕ) (b : ℕ → UInt8) (i : ℤ) (c : UInt8) : Option (ℕ → UInt8) :=
  if 0 ≤ i ∧ i < n then some (Function.update b i.toNat c) else none

variable {m n i k : ℕ} {b src dest : ℕ → UInt8} {text : List UInt8}

theorem load_natCast (h : i < n) : load n b i = some (b i) :=
  if_pos ⟨Int.natCast_nonneg i, Int.ofNat_lt.2 h⟩

theorem store_natCast {c : UInt8} (h : i < n) :
    store n b i c = some (Function.update b i c) :=
  if_pos ⟨Int.natCast_nonneg i, Int.ofNat_lt.2 h⟩

/-! ### Moving characters by one -/

/-- `for (int i = hi; i > lo; i--) b[i] = b[i - 1];` -/
def shiftRight (n : ℕ) (b : ℕ → UInt8) (lo hi : ℤ) : Option (ℕ → UInt8) :=
  forLoopM (hi - lo).toNat (fun k b ↦ (load n b (hi - k - 1)).bind (store n b (hi - k))) b

/-- `for (int i = lo; i < hi; i++) b[i] = b[i + 1];` -/
def shiftLeft (n : ℕ) (b : ℕ → UInt8) (lo hi : ℤ) : Option (ℕ → UInt8) :=
  forLoopM (hi - lo).toNat (fun k b ↦ (load n b (lo + k + 1)).bind (store n b (lo + k))) b

/-- The loop that makes room moves what is between its bounds one to the right. -/
theorem shiftRight_eq {lo hi : ℕ} (hlo : lo ≤ hi) (hhi : hi < n) : shiftRight n b lo hi =
    some fun j ↦ if lo < j ∧ j ≤ hi then b (j - 1) else b j := by
  have hcount : ((hi : ℤ) - lo).toNat = hi - lo := by omega
  obtain ⟨b', hloop, hb'⟩ := forLoopM_invariant (n := hi - lo) (s := b)
    (f := fun k b ↦ (load n b ((hi : ℤ) - k - 1)).bind (store n b ((hi : ℤ) - k)))
    (I := fun k b' ↦ ∀ j, b' j = if hi - k < j ∧ j ≤ hi then b (j - 1) else b j)
    (fun j ↦ (if_neg (by omega)).symm) fun k hk b' hb' ↦ by
      have hread : ((hi : ℤ) - k - 1) = (hi - k - 1 : ℕ) := by omega
      have hwrite : ((hi : ℤ) - k) = (hi - k : ℕ) := by omega
      refine ⟨Function.update b' (hi - k) (b (hi - k - 1)), ?_, fun j ↦ ?_⟩
      · rw [hread, load_natCast (by omega), Option.bind_some, hwrite, store_natCast (by omega),
          hb' (hi - k - 1), if_neg (by omega)]
      · by_cases hj : j = hi - k
        · rw [hj, Function.update_self, if_pos ⟨by omega, by omega⟩]
        · rw [Function.update_of_ne hj, hb' j]
          exact if_congr (by omega) rfl rfl
  rw [shiftRight, hcount, hloop]
  refine congrArg some (funext fun j ↦ (hb' j).trans (if_congr ?_ rfl rfl))
  omega

/-- The loop that closes a gap moves what is between its bounds one to the left. -/
theorem shiftLeft_eq {lo hi : ℕ} (hhi : hi < n) : shiftLeft n b lo hi =
    some fun j ↦ if lo ≤ j ∧ j < hi then b (j + 1) else b j := by
  have hcount : ((hi : ℤ) - lo).toNat = hi - lo := by omega
  obtain ⟨b', hloop, hb'⟩ := forLoopM_invariant (n := hi - lo) (s := b)
    (f := fun k b ↦ (load n b ((lo : ℤ) + k + 1)).bind (store n b ((lo : ℤ) + k)))
    (I := fun k b' ↦ ∀ j, b' j = if lo ≤ j ∧ j < lo + k then b (j + 1) else b j)
    (fun j ↦ (if_neg (by omega)).symm) fun k hk b' hb' ↦ by
      have hread : ((lo : ℤ) + k + 1) = (lo + k + 1 : ℕ) := by omega
      have hwrite : ((lo : ℤ) + k) = (lo + k : ℕ) := by omega
      refine ⟨Function.update b' (lo + k) (b (lo + k + 1)), ?_, fun j ↦ ?_⟩
      · rw [hread, load_natCast (by omega), Option.bind_some, hwrite, store_natCast (by omega),
          hb' (lo + k + 1), if_neg (by omega)]
      · by_cases hj : j = lo + k
        · rw [hj, Function.update_self, if_pos ⟨by omega, by omega⟩]
        · rw [Function.update_of_ne hj, hb' j]
          exact if_congr (by omega) rfl rfl
  rw [shiftLeft, hcount, hloop]
  refine congrArg some (funext fun j ↦ (hb' j).trans (if_congr ?_ rfl rfl))
  omega

/-! ### The string functions

Each loop has a number of turns after which it fails, where the code would run on. On a string the
loops end before. -/

/-- The loop of `strlen`. -/
def strlenFrom (n : ℕ) (b : ℕ → UInt8) : ℕ → ℤ → Option ℤ
  | 0, _ => none
  | k + 1, i => (load n b i).bind fun c ↦ if c = 0 then some i else strlenFrom n b k (i + 1)

/-- `strlen(b)` -/
def strlen (n : ℕ) (b : ℕ → UInt8) : Option ℤ := strlenFrom n b n 0

/-- Reading the string at `b + i`. -/
def readFrom (n : ℕ) (b : ℕ → UInt8) : ℕ → ℤ → Option (List UInt8)
  | 0, _ => none
  | k + 1, i => (load n b i).bind fun c ↦
      if c = 0 then some [] else (readFrom n b k (i + 1)).map (c :: ·)

/-- The string at `b + i`, as `%s` prints it. -/
def stringAt (n : ℕ) (b : ℕ → UInt8) (i : ℤ) : Option (List UInt8) := readFrom n b n i

/-- The loop of `strcmp`. -/
def strcmpFrom (m : ℕ) (b : ℕ → UInt8) (n : ℕ) (b' : ℕ → UInt8) : ℕ → ℤ → ℤ → Option ℤ
  | 0, _, _ => none
  | k + 1, i, j => (load m b i).bind fun c ↦ (load n b' j).bind fun c' ↦
      if c ≠ 0 ∧ c = c' then strcmpFrom m b n b' k (i + 1) (j + 1)
      else some ((c.toNat : ℤ) - c'.toNat)

/-- `strcmp(b + i, b')` -/
def strcmp (m : ℕ) (b : ℕ → UInt8) (i : ℤ) (n : ℕ) (b' : ℕ → UInt8) : Option ℤ :=
  strcmpFrom m b n b' n i 0

/-- The loop of `str_copy`. -/
def strCopyFrom (m n : ℕ) (src : ℕ → UInt8) : ℕ → ℤ → (ℕ → UInt8) → Option (ℕ → UInt8)
  | 0, _, _ => none
  | k + 1, i, dest => (load n src i).bind fun c ↦ (store m dest i c).bind fun dest ↦
      if c = 0 then some dest else strCopyFrom m n src k (i + 1) dest

/-- `str_copy(dest, src)` -/
def strCopy (m : ℕ) (dest : ℕ → UInt8) (n : ℕ) (src : ℕ → UInt8) : Option (ℕ → UInt8) :=
  strCopyFrom m n src n 0 dest

/-! ### Strings -/

/-- The string `text` is in the array from `i` on, with its zero. -/
def HoldsString (n : ℕ) (b : ℕ → UInt8) : ℕ → List UInt8 → Prop
  | i, [] => i < n ∧ b i = 0
  | i, c :: text => i < n ∧ b i = c ∧ c ≠ 0 ∧ HoldsString n b (i + 1) text

/-- The array has a zero byte from `i` on. -/
def Terminated (n : ℕ) (b : ℕ → UInt8) (i : ℕ) : Prop := ∃ j, i ≤ j ∧ j < n ∧ b j = 0

/-- Where there is a zero byte there is a string. -/
theorem exists_holdsString (h : Terminated n b i) : ∃ text, HoldsString n b i text := by
  obtain ⟨j, hij, hj, hzero⟩ := h
  obtain ⟨d, rfl⟩ := Nat.exists_eq_add_of_le hij
  induction d generalizing i with
  | zero => exact ⟨[], hj, hzero⟩
  | succ d ih =>
    by_cases hi : b i = 0
    · exact ⟨[], by omega, hi⟩
    · have hshift : i + (d + 1) = i + 1 + d := by omega
      rw [hshift] at hj hzero
      obtain ⟨text, htext⟩ := ih (Nat.le_add_right _ _) hj hzero
      exact ⟨b i :: text, by omega, rfl, hi, htext⟩

namespace HoldsString

theorem lt (h : HoldsString n b i text) : i + text.length < n := by
  induction text generalizing i with
  | nil => exact h.1
  | cons c text ih =>
    have := ih h.2.2.2
    rw [List.length_cons]
    omega

theorem zero (h : HoldsString n b i text) : b (i + text.length) = 0 := by
  induction text generalizing i with
  | nil => exact h.2
  | cons c text ih =>
    have := ih h.2.2.2
    rwa [List.length_cons, ← Nat.add_assoc, Nat.add_right_comm]

theorem terminated (h : HoldsString n b i text) : Terminated n b i :=
  ⟨i + text.length, Nat.le_add_right _ _, h.lt, h.zero⟩

/-- The characters of a string. -/
theorem getElem (h : HoldsString n b i text) {j : ℕ} (hj : j < text.length) :
    b (i + j) = text[j] ∧ text[j] ≠ 0 := by
  induction text generalizing i j with
  | nil => exact absurd hj (Nat.not_lt_zero j)
  | cons c text ih =>
    cases j with
    | zero => exact ⟨h.2.1, h.2.2.1⟩
    | succ j =>
      have := ih h.2.2.2 (Nat.lt_of_succ_lt_succ hj)
      rwa [← Nat.add_assoc, Nat.add_right_comm]

/-- The characters from `i` on, up to a zero, are a string. -/
theorem of_getElem (hlt : i + text.length < n) (hzero : b (i + text.length) = 0)
    (hchars : ∀ j (hj : j < text.length), b (i + j) = text[j] ∧ text[j] ≠ 0) :
    HoldsString n b i text := by
  induction text generalizing i with
  | nil => exact ⟨hlt, hzero⟩
  | cons c text ih =>
    rw [List.length_cons] at hlt hzero
    have hhead := hchars 0 (Nat.succ_pos _)
    refine ⟨by omega, hhead.1, hhead.2, ih (by omega) ?_ fun j hj ↦ ?_⟩
    · rwa [Nat.add_right_comm]
    · have := hchars (j + 1) (Nat.succ_lt_succ hj)
      rwa [← Nat.add_assoc, Nat.add_right_comm] at this

/-- A string depends on its own bytes only. -/
theorem congr {b' : ℕ → UInt8} (h : HoldsString n b i text) (hm : m = n)
    (hb : ∀ j ≤ text.length, b' (i + j) = b (i + j)) : HoldsString m b' i text := by
  subst hm
  refine of_getElem h.lt ((hb _ le_rfl).trans h.zero) fun j hj ↦ ?_
  rw [hb j hj.le]
  exact h.getElem hj

/-- The loop of `strlen` ends on the zero of a string. -/
theorem strlenFrom_eq (h : HoldsString n b i text) (hk : text.length < k) :
    strlenFrom n b k i = some ((i + text.length : ℕ) : ℤ) := by
  induction text generalizing i k with
  | nil =>
    obtain ⟨k, rfl⟩ := Nat.exists_eq_succ_of_ne_zero (Nat.ne_of_gt hk)
    rw [strlenFrom, load_natCast h.1, Option.bind_some, if_pos h.2]
    rfl
  | cons c text ih =>
    obtain ⟨k, rfl⟩ := Nat.exists_eq_succ_of_ne_zero (Nat.ne_of_gt (Nat.zero_lt_of_lt hk))
    obtain ⟨hlt, rfl, hc, htail⟩ := h
    rw [strlenFrom, load_natCast hlt, Option.bind_some, if_neg hc, ← Nat.cast_succ,
      ih htail (Nat.lt_of_succ_lt_succ hk), List.length_cons]
    congr 2
    omega

/-- **`strlen`** -/
theorem strlen_eq (h : HoldsString n b 0 text) : strlen n b = some (text.length : ℤ) := by
  have hlt := h.lt
  have hlen := h.strlenFrom_eq (k := n) (by omega)
  rwa [Nat.zero_add] at hlen

/-- The loop that reads a string gives its characters. -/
theorem readFrom_eq (h : HoldsString n b i text) (hk : text.length < k) :
    readFrom n b k i = some text := by
  induction text generalizing i k with
  | nil =>
    obtain ⟨k, rfl⟩ := Nat.exists_eq_succ_of_ne_zero (Nat.ne_of_gt hk)
    rw [readFrom, load_natCast h.1, Option.bind_some, if_pos h.2]
  | cons c text ih =>
    obtain ⟨k, rfl⟩ := Nat.exists_eq_succ_of_ne_zero (Nat.ne_of_gt (Nat.zero_lt_of_lt hk))
    obtain ⟨hlt, rfl, hc, htail⟩ := h
    rw [readFrom, load_natCast hlt, Option.bind_some, if_neg hc, ← Nat.cast_succ,
      ih htail (Nat.lt_of_succ_lt_succ hk), Option.map_some]

/-- **`%s`** -/
theorem stringAt_eq (h : HoldsString n b i text) : stringAt n b i = some text := by
  have hlt := h.lt
  exact h.readFrom_eq (by omega)

/-- There is one string at a place. -/
theorem unique {text' : List UInt8} (h : HoldsString n b i text) (h' : HoldsString n b i text') :
    text = text' :=
  Option.some.inj (h.stringAt_eq.symm.trans h'.stringAt_eq)

/-- The loop of `strcmp` gives 0 exactly for equal strings. -/
theorem strcmpFrom_eq {b' : ℕ → UInt8} {j : ℕ} {text' : List UInt8} (h : HoldsString m b i text)
    (h' : HoldsString n b' j text') (hk : text'.length < k) :
    ∃ d, strcmpFrom m b n b' k i j = some d ∧ (d = 0 ↔ text = text') := by
  induction text' generalizing text i j k with
  | nil =>
    obtain ⟨k, rfl⟩ := Nat.exists_eq_succ_of_ne_zero (Nat.ne_of_gt hk)
    cases text with
    | nil =>
      rw [strcmpFrom, load_natCast h.1, load_natCast h'.1]
      simp [h.2, h'.2]
    | cons c text =>
      obtain ⟨hlt, rfl, hc, -⟩ := h
      rw [strcmpFrom, load_natCast hlt, load_natCast h'.1]
      have hne : (b i).toNat ≠ 0 := fun h ↦ hc (UInt8.toNat_inj.1 h)
      simp [h'.2, hne]
  | cons c' text' ih =>
    obtain ⟨k, rfl⟩ := Nat.exists_eq_succ_of_ne_zero (Nat.ne_of_gt (Nat.zero_lt_of_lt hk))
    obtain ⟨hlt', rfl, hc', htail'⟩ := h'
    cases text with
    | nil =>
      rw [strcmpFrom, load_natCast h.1, load_natCast hlt']
      have hne : (b' j).toNat ≠ 0 := fun h ↦ hc' (UInt8.toNat_inj.1 h)
      simp [h.2, hne]
    | cons c text =>
      obtain ⟨hlt, rfl, hc, htail⟩ := h
      rw [strcmpFrom, load_natCast hlt, load_natCast hlt', Option.bind_some, Option.bind_some]
      by_cases heq : b i = b' j
      · rw [if_pos ⟨hc, heq⟩, ← Nat.cast_succ, ← Nat.cast_succ]
        obtain ⟨d, hd, hiff⟩ := ih htail htail' (Nat.lt_of_succ_lt_succ hk)
        exact ⟨d, hd, hiff.trans (by simp [heq])⟩
      · rw [if_neg fun h ↦ heq h.2]
        refine ⟨_, rfl, ?_⟩
        have hne : (b i).toNat ≠ (b' j).toNat := fun h ↦ heq (UInt8.toNat_inj.1 h)
        simp only [List.cons.injEq, heq, false_and, iff_false]
        omega

/-- **`strcmp`** is 0 for equal strings. -/
theorem strcmp_eq {b' : ℕ → UInt8} {text' : List UInt8} (h : HoldsString m b i text)
    (h' : HoldsString n b' 0 text') :
    ∃ d, strcmp m b i n b' = some d ∧ (d = 0 ↔ text = text') := by
  have hlt := h'.lt
  exact h.strcmpFrom_eq h' (by omega)

/-- The loop of `str_copy` copies a string and its zero, and nothing else. -/
theorem strCopyFrom_eq (h : HoldsString n src i text) (hm : i + text.length < m)
    (hk : text.length < k) : strCopyFrom m n src k i dest =
      some fun j ↦ if i ≤ j ∧ j ≤ i + text.length then src j else dest j := by
  induction text generalizing i k dest with
  | nil =>
    obtain ⟨k, rfl⟩ := Nat.exists_eq_succ_of_ne_zero (Nat.ne_of_gt hk)
    rw [strCopyFrom, load_natCast h.1, Option.bind_some, store_natCast (by simpa using hm),
      Option.bind_some, if_pos h.2]
    refine congrArg some (funext fun j ↦ ?_)
    by_cases hj : j = i
    · rw [hj, Function.update_self, if_pos ⟨le_rfl, Nat.le_add_right _ _⟩]
    · rw [Function.update_of_ne hj, if_neg]
      rw [List.length_nil]
      omega
  | cons c text ih =>
    obtain ⟨k, rfl⟩ := Nat.exists_eq_succ_of_ne_zero (Nat.ne_of_gt (Nat.zero_lt_of_lt hk))
    obtain ⟨hlt, rfl, hc, htail⟩ := h
    rw [List.length_cons] at hm hk ⊢
    rw [strCopyFrom, load_natCast hlt, Option.bind_some, store_natCast (by omega),
      Option.bind_some, if_neg hc, ← Nat.cast_succ,
      ih htail (by omega) (Nat.lt_of_succ_lt_succ hk)]
    refine congrArg some (funext fun j ↦ ?_)
    by_cases hj : j = i
    · rw [hj, if_neg (by omega), Function.update_self, if_pos ⟨le_rfl, Nat.le_add_right _ _⟩]
    · rw [Function.update_of_ne hj]
      exact if_congr (by omega) rfl rfl

/-- **`str_copy`** copies the string and its zero, and nothing else. -/
theorem strCopy_eq (h : HoldsString n src 0 text) (dest : ℕ → UInt8) (hm : text.length < m) :
    strCopy m dest n src =
    some fun j ↦ if j ≤ text.length then src j else dest j := by
  have hlt := h.lt
  rw [strCopy, ← Nat.cast_zero, h.strCopyFrom_eq (by omega) (by omega)]
  refine congrArg some (funext fun j ↦ if_congr ?_ rfl rfl)
  omega

/-- The copy holds the string. -/
theorem copy (h : HoldsString n src 0 text) (dest : ℕ → UInt8) (hm : text.length < m) :
    HoldsString m (fun j ↦ if j ≤ text.length then src j else dest j) 0 text := by
  refine of_getElem (by omega) ?_ fun j hj ↦ ?_
  · rw [if_pos (by omega)]
    exact h.zero
  · rw [if_pos (by omega)]
    exact h.getElem hj

end HoldsString

/-- A string can be copied to an array that is no smaller, and is then there. -/
theorem exists_strCopy (dest : ℕ → UInt8) (h : Terminated n src 0) (hm : n ≤ m) :
    ∃ dest', strCopy m dest n src = some dest' ∧ Terminated m dest' 0 := by
  obtain ⟨text, htext⟩ := exists_holdsString h
  have hlt := htext.lt
  exact ⟨_, htext.strCopy_eq dest (by omega), (htext.copy dest (by omega)).terminated⟩

/-! ### Where the characters come from

What characters an array can hold is a matter of where they come from: a store, a copy or a move
brings in no character that was not there or was not given. -/

/-- Every character of the array, inside or not, has the property. -/
def Every (P : UInt8 → Prop) (b : ℕ → UInt8) : Prop := ∀ i, P (b i)

namespace Every

variable {P : UInt8 → Prop} {c : UInt8} {dest' : ℕ → UInt8} {j : ℤ}

theorem update (h : Every P b) (hc : P c) (i : ℕ) : Every P (Function.update b i c) := by
  intro j
  by_cases hj : j = i
  · rw [hj, Function.update_self]
    exact hc
  · rw [Function.update_of_ne hj]
    exact h j

theorem store (h : Every P b) (hc : P c) (heq : store n b j c = some dest') : Every P dest' := by
  rw [CharArray.store] at heq
  split at heq
  · exact Option.some.inj heq ▸ h.update hc _
  · exact nomatch heq

theorem load (h : Every P b) (heq : load n b j = some c) : P c := by
  rw [CharArray.load] at heq
  split at heq
  · exact Option.some.inj heq ▸ h _
  · exact nomatch heq

theorem strCopyFrom (h : Every P dest) (hsrc : Every P src)
    (heq : strCopyFrom m n src k j dest = some dest') : Every P dest' := by
  induction k generalizing j dest with
  | zero => exact nomatch heq
  | succ k ih =>
    rw [CharArray.strCopyFrom] at heq
    obtain ⟨c, hload, heq⟩ := Option.bind_eq_some_iff.1 heq
    obtain ⟨u, hstore, heq⟩ := Option.bind_eq_some_iff.1 heq
    have hu := h.store (hsrc.load hload) hstore
    split at heq
    · exact Option.some.inj heq ▸ hu
    · exact ih hu heq

/-- What `str_copy` writes is in its source. -/
theorem strCopy (h : Every P dest) (hsrc : Every P src) (heq : strCopy m dest n src = some dest') :
    Every P dest' :=
  h.strCopyFrom hsrc heq

end Every

end CharArray
