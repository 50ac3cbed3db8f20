import Mathlib.Data.Nat.Bits
import Mathlib.Tactic.Common

/-!
# The interval timer 8254

The timer has three channels, each with a counter of sixteen bits that a program loads byte by byte.
A control word says which channel is programmed, which bytes of its counts come, in which mode it
runs and whether it counts in decimal; the channel then waits for its first byte. A loaded zero
stands for the largest count.

So a number is loaded as it is only if it is neither zero nor larger than that (`load_period_iff`).
The commands that read a counter back change no count, and what they read is not described.

* `writeCount_writeCount` — two bytes, the low one first, are a count;
* `period_bytes` — the period from the two lowest bytes of a number, whatever the number is.
-/

namespace I8254

/-- The bytes of a count that a program writes. -/
inductive Access
  | low
  | high
  | both
  deriving DecidableEq, Repr

/-- The state of a channel. -/
structure Channel where
  access : Access
  mode : BitVec 3
  decimal : Bool
  /-- The low byte of a count whose high byte has not come. -/
  pending : Option (BitVec 8)
  /-- What the counter was loaded with since the control word. -/
  count : Option ℕ
  deriving DecidableEq, Repr

/-- The channels. -/
abbrev Pit := Fin 3 → Channel

/-! ### Ports -/

/-- The access that a control word asks for, if it is not a latch command. -/
def accessOf (v : BitVec 8) : Option Access :=
  if v.getLsbD 4 then if v.getLsbD 5 then some .both else some .low
  else if v.getLsbD 5 then some .high
  else none

/-- A control word. Number 3 stands for no channel, but for reading back. -/
def Pit.writeControl (s : Pit) (v : BitVec 8) : Pit :=
  match accessOf v with
  | none => s
  | some access => fun n ↦
    if n.val = (v >>> 6).toNat then ⟨access, (v >>> 1).setWidth 3, v.getLsbD 0, none, none⟩ else s n

namespace Channel

variable (c : Channel)

/-- A byte on the port of the channel. -/
def writeCount (v : BitVec 8) : Channel :=
  match c.access, c.pending with
  | .low, _ => { c with count := some v.toNat }
  | .high, _ => { c with count := some (v.toNat * 256) }
  | .both, none => { c with pending := some v }
  | .both, some low => { c with
      pending := none
      count := some (v.toNat * 256 + low.toNat) }

/-- The cycles of the clock in a period, if the channel is loaded and counts in binary. -/
def period : Option ℕ :=
  if c.decimal then none else c.count.map fun n ↦ if n = 0 then 65536 else n

/-! ### Rules -/

variable {c}

/-- Two bytes are a count. -/
theorem writeCount_writeCount (haccess : c.access = .both) (hpending : c.pending = none)
    (low high : BitVec 8) :
    (c.writeCount low).writeCount high =
      { c with count := some (high.toNat * 256 + low.toNat) } := by
  have hlow : c.writeCount low = { c with pending := some low } := by
    rw [writeCount, haccess, hpending]
  rw [hlow, writeCount, haccess]
  cases c
  cases hpending
  rfl

/-- The two bytes of a number have the number modulo `2 ^ 16`. -/
theorem period_bytes (haccess : c.access = .both) (hpending : c.pending = none)
    (hbinary : c.decimal = false) (n : ℕ) :
    ((c.writeCount (BitVec.ofNat 8 (n &&& 0xFF))).writeCount
      (BitVec.ofNat 8 (n >>> 8 &&& 0xFF))).period =
      some (if n % 65536 = 0 then 65536 else n % 65536) := by
  have hlow : (BitVec.ofNat 8 (n &&& 0xFF)).toNat = n % 256 := by
    rw [BitVec.toNat_ofNat, show 0xFF = 2 ^ 8 - 1 from rfl, Nat.and_two_pow_sub_one_eq_mod,
      Nat.mod_mod]
  have hhigh : (BitVec.ofNat 8 (n >>> 8 &&& 0xFF)).toNat = n / 256 % 256 := by
    rw [BitVec.toNat_ofNat, show 0xFF = 2 ^ 8 - 1 from rfl, Nat.and_two_pow_sub_one_eq_mod,
      Nat.mod_mod, Nat.shiftRight_eq_div_pow]
  have hcount : n / 256 % 256 * 256 + n % 256 = n % 65536 := by omega
  rw [writeCount_writeCount haccess hpending, period, hlow, hhigh, hcount, hbinary]
  rfl

/-- **Which numbers can be loaded?** -/
theorem load_period_iff (haccess : c.access = .both) (hpending : c.pending = none)
    (hbinary : c.decimal = false) (n : ℕ) :
    ((c.writeCount (BitVec.ofNat 8 (n &&& 0xFF))).writeCount
      (BitVec.ofNat 8 (n >>> 8 &&& 0xFF))).period = some n ↔
      1 ≤ n ∧ n ≤ 65536 := by
  rw [period_bytes haccess hpending hbinary, Option.some_inj]
  split <;> omega

end Channel

end I8254
