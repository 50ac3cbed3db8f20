import LightNightOS.Foundation.Loops
import LightNightOS.Memory.Layout
import Mathlib.Data.List.Induction

/-!
# The interrupt descriptor tables

`interrupts.c` and `interrupt.c` each have a table of 256 gates, and each loads IDTR with its own.
`idt_init` of `interrupts.c` sets the exceptions in the first table; `interrupt_init` sets the timer
and the keyboard in the second, and `idt_register_handler` sets any vector there.

What a table holds is a function of the calls alone: the gate of the last call that set the vector
in that table (`run_idt`). So the gates that were set are active exactly when, for each vector, the
last call that set it anywhere and the last that set it in the loaded table agree (`installed_iff`).
In the order of `kernel_init` they do not: the exceptions are in the table that is no longer loaded.

* `exec_idt`, `exec_idtr` — one call, to the tables and to IDTR;
* `run_idt`, `run_idtr` — any sequence of calls;
* `installed_iff`, `setInLoaded_of_interrupt` — when all gates that were set are active, which is so
  if the table of `interrupts.c` is never loaded;
* `exceptions_not_installed` — the order of `kernel_init`.
-/

namespace LightNight

/-! ### Gates -/

/-- `struct idt_entry` of `interrupts.c`; `idt_entry_t` of `interrupt.c` is laid out the same. -/
@[ext] structure IdtEntry where
  offsetLow : ℕ
  selector : ℕ
  ist : ℕ
  typeAttr : ℕ
  offsetMid : ℕ
  offsetHigh : ℕ
  zero : ℕ
  deriving DecidableEq, Repr

namespace IdtEntry

/-- An entry of zeros. -/
def empty : IdtEntry := ⟨0, 0, 0, 0, 0, 0, 0⟩

/-- What `idt_set_gate` writes in an entry, in both files. -/
def gate (handler typeAttr : ℕ) : IdtEntry where
  offsetLow := handler % 2 ^ 16
  selector := 0x18
  ist := 0
  typeAttr := typeAttr
  offsetMid := handler / 2 ^ 16 % 2 ^ 16
  offsetHigh := handler / 2 ^ 32 % 2 ^ 32
  zero := 0

/-- The present bit. -/
def Present (e : IdtEntry) : Prop := e.typeAttr.testBit 7 = true

instance (e : IdtEntry) : Decidable e.Present := inferInstanceAs (Decidable (_ = true))

/-- The address the processor puts together. -/
def handler (e : IdtEntry) : ℕ := e.offsetLow + 2 ^ 16 * e.offsetMid + 2 ^ 32 * e.offsetHigh

/-- **The three parts of an offset** are the handler. -/
theorem handler_gate (handler typeAttr : ℕ) : (gate handler typeAttr).handler = u64 handler := by
  change handler % 2 ^ 16 + 2 ^ 16 * (handler / 2 ^ 16 % 2 ^ 16) +
    2 ^ 32 * (handler / 2 ^ 32 % 2 ^ 32) = handler % 2 ^ 64
  omega

theorem present_gate (handler : ℕ) : (gate handler 0x8E).Present := by
  change (0x8E : ℕ).testBit 7 = true
  decide

theorem not_present_empty : ¬empty.Present := by decide

end IdtEntry

/-! ### The tables -/

/-- The file whose static `idt` it is. -/
inductive IdtTable
  | interrupts
  | interrupt
  deriving DecidableEq, Repr

/-- The two tables, and what IDTR was loaded with last: a limit, and the table at the base. -/
structure Idt where
  idt : IdtTable → ℕ → IdtEntry
  idtr : Option (ℕ × IdtTable)

/-- The addresses of the handlers in the other files. -/
structure Handlers where
  isr : ℕ → ℕ
  timerHandler : ℕ
  keyboardHandler : ℕ

namespace Idt

variable (sym : Handlers) (s : Idt)

/-- The static tables, before anything was loaded. -/
def boot : Idt := ⟨fun _ _ ↦ .empty, none⟩

/-- `idt[vector] = e`, in one of the tables. -/
def setEntry (t : IdtTable) (vector : ℕ) (e : IdtEntry) : Idt :=
  { s with idt := Function.update s.idt t (Function.update (s.idt t) vector e) }

/-- `idt_set_gate`, with the flags `0x8E` of a present interrupt gate of ring 0. -/
def idtSetGate (t : IdtTable) (vector handler : ℕ) : Idt := s.setEntry t vector (.gate handler 0x8E)

/-- `lidt`; the limit is `sizeof(idt) - 1`. -/
def lidt (t : IdtTable) : Idt := { s with idtr := some (256 * 16 - 1, t) }

/-- `idt_init` of `interrupts.c`: every entry is cleared, then the exceptions are set. -/
def idtInit : Idt :=
  let s := forLoop 256 (fun i s ↦ s.setEntry .interrupts i .empty) s
  let s := forLoop 32 (fun i s ↦ s.idtSetGate .interrupts i (sym.isr i)) s
  s.lidt .interrupts

/-- `interrupt_init`; `pic_init` only writes to ports. -/
def interruptInit : Idt :=
  let s := s.idtSetGate .interrupt 32 sym.timerHandler
  let s := s.idtSetGate .interrupt 33 sym.keyboardHandler
  s.lidt .interrupt

/-- `idt_register_handler` -/
def idtRegisterHandler (vector : ℤ) (handler : ℕ) : Idt :=
  if 0 ≤ vector ∧ vector < 256 then s.idtSetGate .interrupt vector.toNat handler else s

end Idt

/-- The public calls. -/
inductive IdtCall
  | idtInit
  | interruptInit
  | registerHandler (vector : ℤ) (handler : ℕ)

/-- What a call does. -/
def Idt.exec (sym : Handlers) (s : Idt) : IdtCall → Idt
  | .idtInit => s.idtInit sym
  | .interruptInit => s.interruptInit sym
  | .registerHandler vector handler => s.idtRegisterHandler vector handler

/-- The state after some calls. -/
def Idt.run (sym : Handlers) (calls : List IdtCall) : Idt := calls.foldl (Idt.exec sym) Idt.boot

/-! ### What the calls set

Every call is read as a list of the gates it sets, and at most one table that it loads. So what a
history of calls leaves is said by the last setting of each vector, in each table and over both. -/

/-- The handler a call sets for a vector in a table. -/
def IdtCall.sets (sym : Handlers) (t : IdtTable) (v : ℕ) : IdtCall → Option ℕ
  | .idtInit => if t = .interrupts ∧ v < 32 then some (sym.isr v) else none
  | .interruptInit =>
    if t = .interrupt ∧ v = 33 then some sym.keyboardHandler
    else if t = .interrupt ∧ v = 32 then some sym.timerHandler else none
  | .registerHandler vector handler =>
    if t = .interrupt ∧ vector = v ∧ v < 256 then some handler else none

/-- The handler set last for a vector in a table. -/
def lastIn (sym : Handlers) (calls : List IdtCall) (t : IdtTable) (v : ℕ) : Option ℕ :=
  calls.foldl (fun last call ↦ (call.sets sym t v).or last) none

/-- The handler set last for a vector, in any table. -/
def lastSet (sym : Handlers) (calls : List IdtCall) (v : ℕ) : Option ℕ :=
  calls.foldl (fun last call ↦
    ((call.sets sym .interrupts v).or (call.sets sym .interrupt v)).or last) none

/-- The table a call loads. -/
def IdtCall.loads : IdtCall → Option IdtTable
  | .idtInit => some .interrupts
  | .interruptInit => some .interrupt
  | .registerHandler _ _ => none

/-- The table loaded last. -/
def loaded (calls : List IdtCall) : Option IdtTable :=
  calls.foldl (fun last call ↦ call.loads.or last) none

namespace Idt

variable {sym : Handlers} {s : Idt}

/-- Setting an entry changes one entry of one table. -/
theorem setEntry_idt (t t' : IdtTable) (vector v : ℕ) (e : IdtEntry) :
    (s.setEntry t vector e).idt t' v = if t' = t ∧ v = vector then e else s.idt t' v := by
  change Function.update s.idt t (Function.update (s.idt t) vector e) t' v = _
  by_cases ht : t' = t
  · subst ht
    rw [Function.update_self, Function.update_apply]
    exact if_congr (by simp) rfl rfl
  · rw [Function.update_of_ne ht, if_neg fun h ↦ ht h.1]

/-- A loop that sets the entries from 0 on. -/
theorem setEntries_idt (t t' : IdtTable) (f : ℕ → IdtEntry) (n v : ℕ) :
    (forLoop n (fun i s ↦ s.setEntry t i (f i)) s).idt t' v =
      if t' = t ∧ v < n then f v else s.idt t' v := by
  induction n with
  | zero => exact (if_neg fun h ↦ Nat.not_lt_zero v h.2).symm
  | succ n ih =>
    rw [forLoop, setEntry_idt, ih]
    by_cases hv : v = n
    · by_cases ht : t' = t
      · rw [hv, if_pos ⟨ht, rfl⟩, if_pos ⟨ht, Nat.lt_succ_self n⟩]
      · rw [if_neg fun h ↦ ht h.1, if_neg fun h ↦ ht h.1, if_neg fun h ↦ ht h.1]
    · rw [if_neg fun h ↦ hv h.2]
      exact if_congr (and_congr_right fun _ ↦ by omega) rfl rfl

/-- **One call**: it sets the entries it says, and leaves the others; a cleared entry was never
set. -/
theorem exec_idt (call : IdtCall) (t : IdtTable) (v : ℕ)
    (hclear : t = .interrupts → 32 ≤ v → s.idt t v = .empty) : (s.exec sym call).idt t v =
      ((call.sets sym t v).map fun h ↦ .gate h 0x8E).getD (s.idt t v) := by
  cases call with
  | idtInit =>
    change (forLoop 32 (fun i s ↦ s.setEntry .interrupts i (.gate (sym.isr i) 0x8E))
      (forLoop 256 (fun i s ↦ s.setEntry .interrupts i .empty) s)).idt t v = _
    rw [setEntries_idt _ _ fun i ↦ .gate (sym.isr i) 0x8E, setEntries_idt _ _ fun _ ↦ .empty,
      IdtCall.sets]
    by_cases ht : t = .interrupts
    · by_cases hv : v < 32
      · rw [if_pos ⟨ht, hv⟩, if_pos ⟨ht, hv⟩]
        rfl
      · have hnot : ¬(t = .interrupts ∧ v < 32) := fun h ↦ hv h.2
        rw [if_neg hnot, if_neg hnot, hclear ht (by omega), ite_self]
        rfl
    · rw [if_neg fun h ↦ ht h.1, if_neg fun h ↦ ht h.1, if_neg fun h ↦ ht h.1]
      rfl
  | interruptInit =>
    change ((s.setEntry .interrupt 32 (.gate sym.timerHandler 0x8E)).setEntry .interrupt 33
      (.gate sym.keyboardHandler 0x8E)).idt t v = _
    rw [setEntry_idt, setEntry_idt, IdtCall.sets]
    split
    · rfl
    · split <;> rfl
  | registerHandler vector handler =>
    change (s.idtRegisterHandler vector handler).idt t v = _
    rw [idtRegisterHandler, IdtCall.sets]
    split
    case isTrue hvector =>
      rw [idtSetGate, setEntry_idt]
      by_cases h : t = .interrupt ∧ v = vector.toNat
      · rw [if_pos h, if_pos ⟨h.1, by omega, by omega⟩]
        rfl
      · rw [if_neg h, if_neg fun h' ↦ h ⟨h'.1, by omega⟩]
        rfl
    case isFalse hvector =>
      rw [if_neg fun h ↦ hvector (by omega)]
      rfl

/-- A cleared entry of `interrupts.c` stays cleared. -/
theorem exec_cleared (call : IdtCall) {v : ℕ} (hv : 32 ≤ v)
    (h : s.idt .interrupts v = .empty) : (s.exec sym call).idt .interrupts v = .empty := by
  rw [exec_idt call _ _ fun _ _ ↦ h, h]
  cases call with
  | idtInit => rw [IdtCall.sets, if_neg fun h ↦ Nat.not_lt.2 hv h.2]; rfl
  | interruptInit => rfl
  | registerHandler _ _ => rfl

/-- A call that loads a table sets IDTR to it; the others leave IDTR alone. -/
theorem exec_idtr (call : IdtCall) : (s.exec sym call).idtr =
    (call.loads.map fun t ↦ (256 * 16 - 1, t)).or s.idtr := by
  cases call with
  | idtInit => rfl
  | interruptInit => rfl
  | registerHandler vector handler =>
    change (s.idtRegisterHandler vector handler).idtr = s.idtr
    rw [idtRegisterHandler]
    split <;> rfl

theorem run_append (calls : List IdtCall) (call : IdtCall) :
    run sym (calls ++ [call]) = (run sym calls).exec sym call :=
  List.foldl_append

/-- Above the exceptions the table of `interrupts.c` stays empty. -/
theorem run_cleared (calls : List IdtCall) {v : ℕ} (hv : 32 ≤ v) :
    (run sym calls).idt .interrupts v = .empty := by
  induction calls using List.reverseRecOn with
  | nil => rfl
  | append_singleton calls call ih =>
    rw [run_append]
    exact exec_cleared call hv ih

/-- **What an entry holds**: the gate of the last call that set it in its table. -/
theorem run_idt (calls : List IdtCall) (t : IdtTable) (v : ℕ) : (run sym calls).idt t v =
    ((lastIn sym calls t v).map fun h ↦ .gate h 0x8E).getD .empty := by
  induction calls using List.reverseRecOn with
  | nil => rfl
  | append_singleton calls call ih =>
    have hlast : lastIn sym (calls ++ [call]) t v =
        (call.sets sym t v).or (lastIn sym calls t v) :=
      List.foldl_append
    rw [run_append, exec_idt call t v fun ht hv ↦ ht ▸ run_cleared calls hv, ih, hlast]
    cases call.sets sym t v <;> rfl

/-- **What IDTR points at**: the table loaded last. -/
theorem run_idtr (calls : List IdtCall) :
    (run sym calls).idtr = (loaded calls).map fun t ↦ (256 * 16 - 1, t) := by
  induction calls using List.reverseRecOn with
  | nil => rfl
  | append_singleton calls call ih =>
    have hlast : loaded (calls ++ [call]) = call.loads.or (loaded calls) := List.foldl_append
    rw [run_append, exec_idtr, ih, hlast]
    cases call.loads <;> rfl

end Idt

/-! ### Installed gates -/

/-- The gate the processor takes for a vector: the entry in the table that IDTR points at, within
the limit, if it is present. -/
def Idt.active (s : Idt) (v : ℕ) : Option IdtEntry :=
  s.idtr.bind fun (limit, t) ↦
    if v * 16 + 15 ≤ limit ∧ (s.idt t v).Present then some (s.idt t v) else none

/-- Every vector that was set has a present gate with the handler set last. -/
def Installed (sym : Handlers) (calls : List IdtCall) : Prop :=
  ∀ v h, lastSet sym calls v = some h →
    ∃ e, (Idt.run sym calls).active v = some e ∧ e.handler = u64 h

/-- For every vector, the last call that set it and the last call that set it in the loaded table
set the same handler. -/
def SetInLoaded (sym : Handlers) (calls : List IdtCall) : Prop :=
  ∀ v h, lastSet sym calls v = some h → ∃ t h', loaded calls = some t ∧
    lastIn sym calls t v = some h' ∧ u64 h' = u64 h

/-- A call sets no vector past the end of the tables. -/
theorem IdtCall.sets_lt {sym : Handlers} {t : IdtTable} {v h : ℕ} {call : IdtCall}
    (hsets : call.sets sym t v = some h) : v < 256 := by
  cases call with
  | idtInit =>
    rw [IdtCall.sets] at hsets
    split at hsets
    case isTrue hv => omega
    case isFalse => cases hsets
  | interruptInit =>
    rw [IdtCall.sets] at hsets
    split at hsets
    · omega
    split at hsets
    · omega
    · cases hsets
  | registerHandler vector handler =>
    rw [IdtCall.sets] at hsets
    split at hsets
    case isTrue hv => exact hv.2.2
    case isFalse => cases hsets

theorem lastIn_lt {sym : Handlers} {calls : List IdtCall} {t : IdtTable} {v h : ℕ}
    (hlast : lastIn sym calls t v = some h) : v < 256 := by
  induction calls using List.reverseRecOn with
  | nil => cases hlast
  | append_singleton calls call ih =>
    have heq : lastIn sym (calls ++ [call]) t v =
        (call.sets sym t v).or (lastIn sym calls t v) :=
      List.foldl_append
    rw [heq] at hlast
    rcases Option.or_eq_some_iff.1 hlast with hsets | ⟨-, hbefore⟩
    exacts [IdtCall.sets_lt hsets, ih hbefore]

/-- **The gates that are active** after some calls. -/
theorem run_active (sym : Handlers) (calls : List IdtCall) (v : ℕ) :
    (Idt.run sym calls).active v = (loaded calls).bind fun t ↦
      (lastIn sym calls t v).map fun h ↦ .gate h 0x8E := by
  rw [Idt.active, Idt.run_idtr]
  cases loaded calls with
  | none => rfl
  | some t =>
    rw [Option.map_some, Option.bind_some, Option.bind_some]
    dsimp only
    rw [Idt.run_idt]
    cases hlast : lastIn sym calls t v with
    | none => exact if_neg fun h ↦ IdtEntry.not_present_empty h.2
    | some h =>
      have hlt := lastIn_lt hlast
      exact if_pos ⟨by omega, IdtEntry.present_gate h⟩

/-- **When installed gates stay installed.** After a sequence of calls the table IDTR points at has,
for every vector that was set, a present gate with the handler set last, if and only if that handler
is also the one set last in that table. -/
theorem installed_iff (sym : Handlers) (calls : List IdtCall) :
    Installed sym calls ↔ SetInLoaded sym calls := by
  refine forall₂_congr fun v h ↦ imp_congr_right fun _ ↦ ?_
  rw [run_active]
  constructor
  · rintro ⟨e, he, hhandler⟩
    obtain ⟨t, ht, hmap⟩ := Option.bind_eq_some_iff.1 he
    obtain ⟨h', hlast, rfl⟩ := Option.map_eq_some_iff.1 hmap
    exact ⟨t, h', ht, hlast, (IdtEntry.handler_gate h' 0x8E).symm.trans hhandler⟩
  · rintro ⟨t, h', ht, hlast, heq⟩
    refine ⟨.gate h' 0x8E, ?_, (IdtEntry.handler_gate h' 0x8E).trans heq⟩
    rw [ht, Option.bind_some, hlast, Option.map_some]

/-- Without `idt_init` of `interrupts.c` every gate stays installed. -/
theorem setInLoaded_of_interrupt (sym : Handlers) {calls : List IdtCall}
    (hcalls : ∀ call ∈ calls, call.loads ≠ some .interrupts) (hloaded : loaded calls ≠ none) :
    SetInLoaded sym calls := by
  have hsame : (∀ v, lastSet sym calls v = lastIn sym calls .interrupt v) ∧
      loaded calls ≠ some .interrupts := by
    clear hloaded
    induction calls using List.reverseRecOn with
    | nil => exact ⟨fun _ ↦ rfl, nofun⟩
    | append_singleton calls call ih =>
      obtain ⟨hlast, hload⟩ := ih fun c hc ↦ hcalls c (List.mem_append_left _ hc)
      have hcall := hcalls call (List.mem_append_right _ (List.mem_singleton_self call))
      have heq : loaded (calls ++ [call]) = call.loads.or (loaded calls) := List.foldl_append
      refine ⟨fun v ↦ ?_, ?_⟩
      · have hset : lastSet sym (calls ++ [call]) v = ((call.sets sym .interrupts v).or
            (call.sets sym .interrupt v)).or (lastSet sym calls v) := List.foldl_append
        have hin : lastIn sym (calls ++ [call]) .interrupt v =
            (call.sets sym .interrupt v).or (lastIn sym calls .interrupt v) := List.foldl_append
        rw [hset, hin, hlast v]
        cases call with
        | idtInit => exact absurd rfl hcall
        | interruptInit => rfl
        | registerHandler _ _ => rfl
      · rw [heq]
        cases call with
        | idtInit => exact absurd rfl hcall
        | interruptInit => exact nofun
        | registerHandler _ _ => exact hload
  intro v h hset
  cases hload : loaded calls with
  | none => exact absurd hload hloaded
  | some t =>
    cases t with
    | interrupts => exact absurd hload hsame.2
    | interrupt => exact ⟨.interrupt, h, rfl, hsame.1 v ▸ hset, rfl⟩

/-- Handlers at some addresses. -/
def sampleHandlers : Handlers := ⟨fun n ↦ 0x100000 + 16 * n, 0x108000, 0x109000⟩

/-- **The order of `kernel_init`** leaves no exception installed: after `idt_init` and
`interrupt_init` the vectors 0 to 31 were set, and none of them has a present gate in the table
IDTR points at. -/
theorem exceptions_not_installed : ¬Installed sampleHandlers [.idtInit, .interruptInit] ∧
    ∀ v < 32, lastSet sampleHandlers [.idtInit, .interruptInit] v = some (0x100000 + 16 * v) ∧
      (Idt.run sampleHandlers [.idtInit, .interruptInit]).active v = none := by
  have hnone : ∀ v < 32, lastSet sampleHandlers [.idtInit, .interruptInit] v =
      some (0x100000 + 16 * v) ∧
      (Idt.run sampleHandlers [.idtInit, .interruptInit]).active v = none := by
    intro v hv
    rw [run_active]
    revert v
    decide
  refine ⟨fun hinstalled ↦ ?_, hnone⟩
  obtain ⟨e, he, -⟩ := hinstalled 0 _ (hnone 0 (by decide)).1
  rw [(hnone 0 (by decide)).2] at he
  cases he

end LightNight
