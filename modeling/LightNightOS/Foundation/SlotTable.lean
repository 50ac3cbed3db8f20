import Mathlib.Data.List.FinRange
import Mathlib.Data.List.Perm.Basic
import Mathlib.Logic.Function.Basic

/-!
# Tables of slots

A fixed array of slots, each of them empty or holding an entry, is a way of keeping a list of
entries whose order does not matter. `SlotTable.contents` is that list. Filling an empty slot adds
its entry, clearing a slot removes it, both up to a permutation (`contents_update`), and the table
is full when the list is as long as there are slots (`length_contents_eq_iff`).

Slots whose entries are pairs may be kept so that they hold a map, each key in one slot (`Keeps`):
setting and forgetting a key are then assignments of one slot (`Keeps.insert`, `Keeps.erase`).
-/

namespace SlotTable

variable {n : ℕ} {α : Type*} {slots : Fin n → Option α} {i : Fin n} {a : α}

/-- The entries held, in the order of the slots. -/
def contents (slots : Fin n → Option α) : List α := (List.finRange n).filterMap slots

/-- An entry is in the table when a slot holds it. -/
theorem mem_contents : a ∈ contents slots ↔ ∃ i, slots i = some a := by
  simp [contents]

/-- The entries of the slots other than `i`. -/
def others (slots : Fin n → Option α) (i : Fin n) : List α :=
  ((List.finRange n).erase i).filterMap slots

theorem contents_perm (slots : Fin n → Option α) (i : Fin n) :
    (contents slots).Perm ((slots i).toList ++ others slots i) := by
  have h := (List.perm_cons_erase (List.mem_finRange i)).filterMap slots
  rw [List.filterMap_cons] at h
  rw [contents, others]
  cases hi : slots i <;> simpa [hi] using h

theorem others_update (slots : Fin n → Option α) (i : Fin n) (v : Option α) :
    others (Function.update slots i v) i = others slots i := by
  have hne : ∀ j ∈ (List.finRange n).erase i, Function.update slots i v j = slots j := fun j hj ↦
    Function.update_of_ne ((List.nodup_finRange n).mem_erase_iff.1 hj).1 v slots
  exact List.filterMap_congr hne

/-- **Assigning a slot** replaces its entry. -/
theorem contents_update (slots : Fin n → Option α) (i : Fin n) (v : Option α) :
    (contents (Function.update slots i v)).Perm (v.toList ++ others slots i) := by
  have h := contents_perm (Function.update slots i v) i
  rwa [Function.update_self, others_update] at h

/-- **The table is full** exactly if it holds as many entries as it has slots. -/
theorem length_contents_eq_iff : (contents slots).length = n ↔ ∀ i, (slots i).isSome := by
  have h := List.filterMap_length_eq_length (f := slots) (l := List.finRange n)
  rw [List.length_finRange] at h
  exact h.trans ⟨fun hall i ↦ hall i (List.mem_finRange i), fun hall i _ ↦ hall i⟩

theorem length_contents_le (slots : Fin n → Option α) : (contents slots).length ≤ n := by
  have h := List.length_filterMap_le slots (List.finRange n)
  rwa [List.length_finRange] at h

/-! ### The first slot that passes a test

A table is searched from slot 0 on, so what a search finds is the least slot that passes. -/

/-- The search finds the slot of the lowest number that passes. -/
theorem find_eq_some_iff {p : Fin n → Bool} :
    (List.finRange n).find? p = some i ↔ p i ∧ ∀ j, p j → i ≤ j := by
  rw [List.find?_eq_some_iff_getElem]
  refine and_congr_right fun hi ↦ ⟨?_, fun hfirst ↦ ?_⟩
  · rintro ⟨l, hl, heq, hbelow⟩ j hj
    rw [List.getElem_finRange] at heq
    by_contra! hlt
    have hnot := hbelow j (by rw [← heq] at hlt; exact hlt)
    rw [List.getElem_finRange] at hnot
    exact absurd hj (by simpa using hnot)
  · refine ⟨i, by simp, by simp, fun j hj ↦ ?_⟩
    rw [List.getElem_finRange]
    by_contra! hp
    exact absurd (hfirst _ (by simpa using hp)) (Nat.not_le.2 hj)

/-! ### Entries with a key -/

section Key

variable {κ : Type*} {key : α → κ} {l l' : List α}

/-- Removing the entries with the key of `a` from a list with distinct keys removes `a`. -/
theorem filter_key_perm [DecidableEq κ] (h : l.Perm (a :: l')) (hkeys : (l.map key).Nodup) :
    (l.filter fun b ↦ key b ≠ key a).Perm l' := by
  have hnodup := (h.map key).nodup_iff.1 hkeys
  rw [List.map_cons, List.nodup_cons] at hnodup
  refine (h.filter _).trans ?_
  rw [List.filter_cons_of_neg (by simp), List.filter_eq_self.2]
  intro b hb
  have hne : key b ≠ key a := fun heq ↦ hnodup.1 (heq ▸ List.mem_map_of_mem hb)
  simpa using hne

end Key

/-! ### Slots that keep a map -/

section Keeps

variable {κ β : Type*} {slots : Fin n → Option (κ × β)} {m : κ → Option β} {k : κ} {v : β}

/-- The slots hold the pairs of the map `m`, and each key is in one slot. -/
structure Keeps (slots : Fin n → Option (κ × β)) (m : κ → Option β) : Prop where
  mem : ∀ k v, m k = some v ↔ ∃ i, slots i = some (k, v)
  unique : ∀ i j k v w, slots i = some (k, v) → slots j = some (k, w) → i = j

theorem keeps_empty : Keeps (fun _ : Fin n ↦ (none : Option (κ × β))) fun _ ↦ none where
  mem := fun _ _ ↦ ⟨fun h ↦ absurd h nofun, fun ⟨_, h⟩ ↦ absurd h nofun⟩
  unique := fun _ _ _ _ _ h ↦ absurd h nofun

theorem Keeps.eq_some (h : Keeps slots m) (hi : slots i = some (k, v)) : m k = some v :=
  (h.mem k v).2 ⟨i, hi⟩

theorem Keeps.eq_none (h : Keeps slots m) (hk : ∀ i v, slots i ≠ some (k, v)) : m k = none := by
  rcases hm : m k with - | v
  · rfl
  · obtain ⟨i, hi⟩ := (h.mem k v).1 hm
    exact absurd hi (hk i v)

variable [DecidableEq κ]

/-- **Setting a key**: the slot was empty or had this key, and no other slot has it. -/
theorem Keeps.insert (h : Keeps slots m) (hi : slots i = none ∨ ∃ w, slots i = some (k, w))
    (hother : ∀ j w, j ≠ i → slots j ≠ some (k, w)) :
    Keeps (Function.update slots i (some (k, v))) (Function.update m k (some v)) := by
  have hold : ∀ l w, l ≠ k → slots i ≠ some (l, w) := by
    intro l w hl heq
    rcases hi with hnone | ⟨u, hu⟩
    · exact absurd (heq.symm.trans hnone) nofun
    · exact hl (congrArg Prod.fst (Option.some.inj (heq.symm.trans hu)))
  constructor
  · intro l w
    by_cases hl : l = k
    · -- the key itself is in slot `i` and nowhere else
      rw [hl, Function.update_self]
      constructor
      · intro hw
        rw [← Option.some.inj hw]
        exact ⟨i, Function.update_self ..⟩
      · rintro ⟨j, hj⟩
        by_cases hji : j = i
        · rw [hji, Function.update_self] at hj
          rw [(Prod.mk.inj (Option.some.inj hj)).2]
        · rw [Function.update_of_ne hji] at hj
          exact absurd hj (hother j w hji)
    · rw [Function.update_of_ne hl, h.mem]
      refine exists_congr fun j ↦ ?_
      by_cases hji : j = i
      · rw [hji, Function.update_self]
        refine iff_of_false (hold l w hl) fun heq ↦ hl ?_
        exact (congrArg Prod.fst (Option.some.inj heq)).symm
      · rw [Function.update_of_ne hji]
  · intro j j' l w w' hj hj'
    by_cases hji : j = i
    · by_cases hji' : j' = i
      · rw [hji, hji']
      · rw [hji, Function.update_self] at hj
        rw [Function.update_of_ne hji', ← (Prod.mk.inj (Option.some.inj hj)).1] at hj'
        exact absurd hj' (hother j' w' hji')
    · rw [Function.update_of_ne hji] at hj
      by_cases hji' : j' = i
      · rw [hji', Function.update_self] at hj'
        rw [← (Prod.mk.inj (Option.some.inj hj')).1] at hj
        exact absurd hj (hother j w hji)
      · rw [Function.update_of_ne hji'] at hj'
        exact h.unique j j' l w w' hj hj'

/-- **Forgetting a key**: its slot is emptied. -/
theorem Keeps.erase (h : Keeps slots m) (hi : slots i = some (k, v)) :
    Keeps (Function.update slots i none) (Function.update m k none) := by
  constructor
  · intro l w
    by_cases hl : l = k
    · rw [hl, Function.update_self]
      refine iff_of_false nofun ?_
      rintro ⟨j, hj⟩
      by_cases hji : j = i
      · rw [hji, Function.update_self] at hj
        exact absurd hj nofun
      · rw [Function.update_of_ne hji] at hj
        exact hji (h.unique j i k w v hj hi)
    · rw [Function.update_of_ne hl, h.mem]
      refine exists_congr fun j ↦ ?_
      by_cases hji : j = i
      · rw [hji, Function.update_self, hi]
        exact iff_of_false (fun heq ↦ hl (Prod.mk.inj (Option.some.inj heq)).1.symm) nofun
      · rw [Function.update_of_ne hji]
  · intro j j' l w w' hj hj'
    by_cases hji : j = i
    · rw [hji, Function.update_self] at hj
      exact absurd hj nofun
    · by_cases hji' : j' = i
      · rw [hji', Function.update_self] at hj'
        exact absurd hj' nofun
      · rw [Function.update_of_ne hji] at hj
        rw [Function.update_of_ne hji'] at hj'
        exact h.unique j j' l w w' hj hj'

end Keeps

end SlotTable
