import LightNightOS.Foundation.ByteMemory

/-!
# Records in byte-addressed memory

A record type is laid out by an offset and a width for each field, no two of which overlap. The
fields of a record are then read and written through its address. Writing a field leaves the other
fields alone, and every record that does not overlap.

* `get_set_self`, `get_set_of_ne`, `get_set_of_apart` — a field after it was written, after another
  field of the record was, and after a field of another record was;
* `get_congr`, `set_eqOn` — a field is read from its own record, and a write changes no byte outside
  it;
* `element_apart`, `bytes_element_disjoint` — the records of an array.
-/

/-- Where the fields of a record are. -/
structure RecordLayout (φ : Type*) where
  offset : φ → ℕ
  width : φ → ℕ
  size : ℕ
  inside : ∀ f, offset f + width f ≤ size
  apart : ∀ f g, f ≠ g → offset f + width f ≤ offset g ∨ offset g + width g ≤ offset f

namespace RecordLayout

variable {φ : Type*} (L : RecordLayout φ) {f g : φ} {m m' : ByteMemory} {a b v : ℕ}

/-- The field of the record at an address. -/
def get (f : φ) (m : ByteMemory) (a : ℕ) : ℕ := m.load (a + L.offset f) (L.width f)

/-- Write the field of the record at an address. -/
def set (f : φ) (m : ByteMemory) (a v : ℕ) : ByteMemory := m.store (a + L.offset f) (L.width f) v

/-- The bytes of the record at an address. -/
def bytes (a : ℕ) : Set ℕ := Set.Ico a (a + L.size)

/-- A field reads back, if the value fits it. -/
theorem get_set_self (hv : v < 256 ^ L.width f) : L.get f (L.set f m a v) a = v :=
  ByteMemory.load_store_self hv

/-- Writing back what a field holds changes nothing. -/
theorem set_get_self : L.set f m a (L.get f m a) = m := ByteMemory.store_load_self m _ _

/-- The other fields of the record stay. -/
theorem get_set_of_ne (hne : g ≠ f) : L.get f (L.set g m a v) a = L.get f m a :=
  ByteMemory.load_store_of_disjoint (by have := L.apart g f hne; omega)

/-- The records beside it stay. -/
theorem get_set_of_apart (hab : a + L.size ≤ b ∨ b + L.size ≤ a) :
    L.get f (L.set g m a v) b = L.get f m b := by
  have hf := L.inside f
  have hg := L.inside g
  exact ByteMemory.load_store_of_disjoint (by omega)

/-- A record depends on its own bytes. -/
theorem get_congr (hm : Set.EqOn m m' (L.bytes a)) : L.get f m a = L.get f m' a := by
  have hf := L.inside f
  exact ByteMemory.load_congr_of_subset hm fun x hx ↦
    ⟨by have := hx.1; omega, by have := hx.2; omega⟩

/-- Only bytes of the record are written. -/
theorem set_eqOn : Set.EqOn (L.set f m a v) m (L.bytes a)ᶜ := fun x hx ↦ by
  have hf := L.inside f
  refine ByteMemory.store_of_notMem fun hmem ↦ hx ?_
  have hlo := hmem.1
  have hhi := hmem.2
  exact ⟨by omega, by omega⟩

/-- Filling memory beside the record leaves it alone. -/
theorem get_fill {n : ℕ} {c : UInt8} (hab : a + n ≤ b ∨ b + L.size ≤ a) :
    L.get f (m.fill a n c) b = L.get f m b := by
  have hf := L.inside f
  exact ByteMemory.load_fill_of_disjoint (by omega)

/-! ### Assigning several fields -/

/-- Write fields of the record at an address, one after the other. -/
def assign (m : ByteMemory) (a : ℕ) (fields : List (φ × ℕ)) : ByteMemory :=
  fields.foldl (fun m field ↦ L.set field.1 m a field.2) m

@[simp] theorem assign_nil : L.assign m a [] = m := rfl

@[simp] theorem assign_cons (fields : List (φ × ℕ)) :
    L.assign m a ((f, v) :: fields) = L.assign (L.set f m a v) a fields :=
  rfl

/-- Assigning fields writes the bytes of the record only. -/
theorem assign_eqOn (fields : List (φ × ℕ)) : Set.EqOn (L.assign m a fields) m (L.bytes a)ᶜ := by
  induction fields generalizing m with
  | nil => exact fun _ _ ↦ rfl
  | cons field fields ih => exact ih.trans L.set_eqOn

/-! ### Arrays of records -/

/-- Element `i` of the array at `a`. -/
def element (a i : ℕ) : ℕ := a + i * L.size

/-- The records of an array lie in front of its end. -/
theorem element_lt {i n : ℕ} (hi : i < n) : L.element a i + L.size ≤ L.element a n := by
  have hle := Nat.mul_le_mul_right L.size (Nat.succ_le_of_lt hi)
  rw [Nat.succ_mul] at hle
  rw [element, element]
  omega

/-- An element is inside the array. -/
theorem bytes_element_subset {i n : ℕ} (hi : i < n) :
    L.bytes (L.element a i) ⊆ Set.Ico a (a + n * L.size) := by
  rintro x ⟨hlo, hhi⟩
  have hlt : L.element a i + L.size ≤ L.element a n := L.element_lt hi
  rw [element] at hlo
  rw [element, element] at hlt
  rw [element] at hhi
  exact ⟨by omega, by omega⟩

theorem element_apart {i j : ℕ} (hne : i ≠ j) :
    L.element a i + L.size ≤ L.element a j ∨ L.element a j + L.size ≤ L.element a i :=
  (Nat.lt_or_gt_of_ne hne).imp L.element_lt L.element_lt

/-- Two elements have no byte in common. -/
theorem bytes_element_disjoint {i j : ℕ} (hne : i ≠ j) :
    Disjoint (L.bytes (L.element a i)) (L.bytes (L.element a j)) := by
  refine Set.disjoint_left.2 ?_
  rintro x ⟨hlo, hhi⟩ ⟨hlo', hhi'⟩
  have hapart := L.element_apart (a := a) hne
  omega

/-- Records of an array are at different addresses, where a record has a size. -/
theorem element_inj (hsize : 0 < L.size) {i j : ℕ} : L.element a i = L.element a j ↔ i = j := by
  rw [element, element, Nat.add_left_cancel_iff, Nat.mul_left_inj hsize.ne']

end RecordLayout
