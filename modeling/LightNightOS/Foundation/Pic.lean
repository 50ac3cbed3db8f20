import Mathlib.Data.List.Find
import Mathlib.Data.Nat.Bits
import Mathlib.Tactic.Common

/-!
# The interrupt controller 8259A

A controller has eight request lines. A rising edge on a line is latched in `irr`; a line whose bit
in `imr` is set is masked; and the lines whose interrupts the processor has taken and not ended are
in `isr`. The processor is offered the line of the lowest number that is requested and not masked,
unless that line or a lower one is in service (`line`). It asks for the vector some time later
(`acknowledge`): a request that was taken back meanwhile is answered with the vector of line 7, and
then no line is in service.

A program writes bytes to two ports. A byte with bit 4 to the command port starts an initialisation,
whose other words then come over the data port; otherwise a byte to the data port is the mask, and
one to the command port may end the interrupt in service. Rotating priorities, the polling mode and
the automatic end are not described.
-/

namespace I8259

/-- What a byte on the data port is taken for. -/
inductive Expects
  | mask
  | icw2
  | icw3
  | icw4
  deriving DecidableEq, Repr

/-- The state of a controller. -/
structure Pic where
  irr : BitVec 8
  isr : BitVec 8
  imr : BitVec 8
  /-- The vector of line 0. -/
  base : ℕ
  expects : Expects
  /-- The controller is the only one. -/
  single : Bool
  /-- The initialisation has a fourth word. -/
  fourth : Bool
  deriving DecidableEq, Repr

namespace Pic

variable (p : Pic)

/-! ### Ports -/

/-- A byte on the command port: ICW1, or the end of an interrupt, of a given line or of that in
service. -/
def writeCommand (v : BitVec 8) : Pic :=
  if v.getLsbD 4 then
    { p with
      irr := 0
      isr := 0
      imr := 0
      expects := .icw2
      single := v.getLsbD 1
      fourth := v.getLsbD 0 }
  else if v.getLsbD 3 then p
  else if v.getLsbD 5 then
    if v.getLsbD 6 then { p with isr := p.isr &&& ~~~BitVec.twoPow 8 (v &&& 7).toNat }
    else { p with isr := p.isr &&& (p.isr - 1) }
  else p

/-- What is expected behind ICW2 and ICW3, if the controller is the only one. -/
def afterIcw3 : Expects := if p.fourth then .icw4 else .mask

/-- A byte on the data port: ICW2 to ICW4, or the mask. -/
def writeData (v : BitVec 8) : Pic :=
  match p.expects with
  | .mask => { p with imr := v }
  | .icw2 => { p with
      base := (v &&& 0xF8).toNat
      expects := if p.single then p.afterIcw3 else .icw3 }
  | .icw3 => { p with expects := p.afterIcw3 }
  | .icw4 => { p with expects := .mask }

/-! ### Lines -/

/-- A rising edge on a line. -/
def request (n : ℕ) : Pic := { p with irr := p.irr ||| BitVec.twoPow 8 n }

/-- A request is taken back. -/
def withdraw (n : ℕ) : Pic := { p with irr := p.irr &&& ~~~BitVec.twoPow 8 n }

/-- The line is requested and not masked, and no line of the same or a higher priority is in
service. -/
def Ready (n : ℕ) : Prop :=
  p.irr.getLsbD n = true ∧ p.imr.getLsbD n = false ∧ ∀ m ≤ n, p.isr.getLsbD m = false

instance (n : ℕ) : Decidable (p.Ready n) := inferInstanceAs (Decidable (_ ∧ _))

/-- The line that the processor is interrupted for. -/
def line : Option ℕ := (List.range 8).find? fun n ↦ p.Ready n

/-- The processor takes the interrupt of a line. -/
def serve (n : ℕ) : Pic :=
  { p with
    irr := p.irr &&& ~~~BitVec.twoPow 8 n
    isr := p.isr ||| BitVec.twoPow 8 n }

/-- The processor asks for the vector of the interrupt: the answer, and the controller from then
on. -/
def acknowledge : ℕ × Pic :=
  match p.line with
  | some n => (p.base + n, p.serve n)
  | none => (p.base + 7, p)

/-! ### Rules

What one line does to the request bits leaves the bits of the other lines alone. The rules speak of
single bits, so that the priorities can be decided line by line. -/

section Rules

variable {p} {n m : ℕ}

/-- The line that is offered is the ready line of the lowest number. -/
theorem line_eq_some_iff : p.line = some n ↔ n < 8 ∧ p.Ready n ∧ ∀ m < n, ¬p.Ready m := by
  rw [line, List.find?_eq_some_iff_getElem]
  constructor
  · rintro ⟨hready, i, hi, hget, hfirst⟩
    rw [List.length_range] at hi
    rw [List.getElem_range] at hget
    subst hget
    refine ⟨hi, of_decide_eq_true hready, fun m hm ↦ ?_⟩
    have hnot := hfirst m hm
    rw [List.getElem_range, Bool.not_eq_true', decide_eq_false_iff_not] at hnot
    exact hnot
  · rintro ⟨hlt, hready, hfirst⟩
    refine ⟨decide_eq_true hready, n, by rwa [List.length_range], List.getElem_range _,
      fun m hm ↦ ?_⟩
    rw [List.getElem_range, Bool.not_eq_true', decide_eq_false_iff_not]
    exact hfirst m hm

theorem line_eq_none_iff : p.line = none ↔ ∀ n < 8, ¬p.Ready n := by
  rw [line, List.find?_eq_none]
  refine forall_congr' fun n ↦ ?_
  rw [List.mem_range, decide_eq_true_iff]

theorem getLsbD_request (hn : n < 8) (m : ℕ) :
    (p.request n).irr.getLsbD m = (decide (m = n) || p.irr.getLsbD m) := by
  rw [request, BitVec.getLsbD_or, BitVec.getLsbD_twoPow, decide_eq_true hn, Bool.true_and,
    Bool.or_comm]
  exact congrArg (· || _) (decide_eq_decide.2 eq_comm)

theorem getLsbD_withdraw (hn : n < 8) (m : ℕ) :
    (p.withdraw n).irr.getLsbD m = (!decide (m = n) && p.irr.getLsbD m) := by
  rw [withdraw, BitVec.getLsbD_and, BitVec.getLsbD_not, BitVec.getLsbD_twoPow, decide_eq_true hn,
    Bool.true_and, Bool.and_comm]
  rcases Nat.lt_or_ge m 8 with hlt | hge
  · rw [decide_eq_true hlt, Bool.true_and, decide_eq_decide.2 (eq_comm (a := n))]
  · rw [BitVec.getLsbD_of_ge _ _ hge, Bool.and_false, Bool.and_false]

/-- A line whose interrupt is taken is no longer requested. -/
theorem getLsbD_serve (hn : n < 8) (m : ℕ) :
    (p.serve n).irr.getLsbD m = (!decide (m = n) && p.irr.getLsbD m) :=
  getLsbD_withdraw hn m

/-- A command that ends the interrupt in service. -/
theorem writeCommand_end (p : Pic) :
    p.writeCommand 0x20 = { p with isr := p.isr &&& (p.isr - 1) } := by
  have hinit : (0x20 : BitVec 8).getLsbD 4 = false := by decide
  have hthird : (0x20 : BitVec 8).getLsbD 3 = false := by decide
  have hend : (0x20 : BitVec 8).getLsbD 5 = true := by decide
  have hgiven : (0x20 : BitVec 8).getLsbD 6 = false := by decide
  rw [writeCommand, hinit, hthird, hend, hgiven, if_neg Bool.false_ne_true,
    if_neg Bool.false_ne_true, if_pos rfl, if_neg Bool.false_ne_true]

end Rules

end Pic

end I8259
