import LightNightOS.Foundation.BoundedLog
import Mathlib.Data.Nat.ModEq

/-!
# Ring buffers that keep the last entries of a log

A ring of `n` slots with a position for the next entry and a count of the entries kept, which stops
at `n`. `RingHolds` relates it to the list of everything that was ever put into it: entry `i` is in
slot `i` modulo `n`, as long as it is one of the last `n`. What a slot holds is related to the entry
by a parameter, so that only part of the slot need matter. `RingHolds.kept` reads the ring from the
oldest entry kept.
-/

variable {α β : Type*} {R : β → α → Prop} {n pos count : ℕ} {slots slots' : ℕ → β} {log : List α}

/-- The ring holds the last entries of the log. -/
structure RingHolds (R : β → α → Prop) (n : ℕ) (slots : ℕ → β) (pos count : ℕ) (log : List α) :
    Prop where
  pos_eq : pos = log.length % n
  count_eq : count = min n log.length
  slot : ∀ (i : ℕ) (h : i < log.length), log.length ≤ i + n → R (slots (i % n)) log[i]

namespace RingHolds

theorem nil (R : β → α → Prop) (n : ℕ) (slots : ℕ → β) : RingHolds R n slots 0 0 [] :=
  ⟨by rw [List.length_nil, Nat.zero_mod], by simp, fun i h ↦ absurd h (Nat.not_lt_zero i)⟩

/-- The relation of a slot to its entry may be replaced by a weaker one. -/
theorem congr (h : RingHolds R n slots pos count log)
    (hslots : ∀ r a, R (slots r) a → R (slots' r) a) :
    RingHolds R n slots' pos count log :=
  ⟨h.pos_eq, h.count_eq, fun i hi hkept ↦ hslots _ _ (h.slot i hi hkept)⟩

/-- **One more entry**, which takes the place of the oldest if the ring is full. -/
theorem push (h : RingHolds R n slots pos count log) {x : α} (hself : R (slots' pos) x)
    (hother : ∀ r ≠ pos, ∀ a, R (slots r) a → R (slots' r) a) :
    RingHolds R n slots' ((pos + 1) % n) (if count < n then count + 1 else count) (log ++ [x]) where
  pos_eq := by rw [h.pos_eq, Nat.mod_add_mod, List.length_append, List.length_singleton]
  count_eq := by
    rw [h.count_eq, List.length_append, List.length_singleton]
    split <;> omega
  slot i hi hkept := by
    rw [List.length_append, List.length_singleton] at hi hkept
    by_cases heq : i = log.length
    · subst heq
      rw [List.getElem_concat_length rfl, ← h.pos_eq]
      exact hself
    · rw [List.getElem_append_left (by omega)]
      refine hother _ (fun hsame ↦ ?_) _ (h.slot i (by omega) (by omega))
      -- two entries of the last `n` are not in one slot
      rw [h.pos_eq] at hsame
      have hdvd : n ∣ log.length - i := (Nat.modEq_iff_dvd' (by omega)).1 hsame
      exact absurd (Nat.le_of_dvd (by omega) hdvd) (by omega)

/-- The slot of entry `i` of those kept. -/
theorem slot_index (h : RingHolds R n slots pos count log) (i : ℕ) :
    (pos + n - count + i) % n = (log.length - count + i) % n := by
  have hcount := h.count_eq
  obtain rfl | hn := Nat.eq_zero_or_pos n
  · have hpos := h.pos_eq
    rw [Nat.mod_zero] at hpos
    rw [hpos]
    simp
  · have hlt : log.length % n < n := Nat.mod_lt _ hn
    have hdiv := Nat.div_add_mod log.length n
    rw [h.pos_eq]
    by_cases hfull : n ≤ log.length
    · have hc : count = n := by omega
      have hsum : log.length % n + n - count = log.length % n := by omega
      have hshift : log.length + i = log.length - count + i + n := by omega
      rw [hsum, Nat.mod_add_mod, hshift, Nat.add_mod_right]
    · have hmod : log.length % n = log.length := Nat.mod_eq_of_lt (by omega)
      have hsum : log.length % n + n - count + i = log.length - count + i + n := by omega
      rw [hsum, Nat.add_mod_right]

/-- **Reading the ring** from the oldest entry kept. -/
theorem kept (h : RingHolds R n slots pos count log) {i : ℕ} (hi : i < count) :
    ∃ a, (log.rtake count)[i]? = some a ∧ R (slots ((pos + n - count + i) % n)) a := by
  have hcount := h.count_eq
  have hin : log.length - count + i < log.length := by omega
  refine ⟨log[log.length - count + i], ?_, ?_⟩
  · rw [List.rtake, List.getElem?_drop, List.getElem?_eq_getElem hin]
  · rw [h.slot_index]
    exact h.slot _ hin (by omega)

end RingHolds
