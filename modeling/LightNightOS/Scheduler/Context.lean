import LightNightOS.Foundation.Runs
import LightNightOS.Foundation.X86

/-!
# `context_switch_asm`

The register-save routine `context_switch_asm(old, new)`, instruction by instruction. `old` arrives
in `rdi` and may be `NULL`, `new` arrives in `rsi`, and on entry `rsp` points at the return address.

A call always ends (`switchContext_eq`), with the callee-saved registers and `rsp` loaded from
`*new` and execution continuing at `new->rip`; with `old` not `NULL` it leaves the registers of the
caller in `*old`.

A `Resumption` is a suspension of a process by one call and its resumption by a later one, with
anything in between that leaves the saved context alone. The process continues with every register
as it was *on entry*, `rsp` included: a `ret` would have popped the return address, the `jmp` that
ends the routine does not. So the stack pointer comes back eight bytes too low, every time
(`Resumption.not_asIfReturned`).
-/

namespace LightNight

open X86 Transition

/-! ### The routine -/

/-- The registers kept in `process_context_t`, with the offsets of their fields. -/
def contextRegs : List (ℕ × Reg) :=
  [(0, .rbx), (8, .rbp), (16, .r12), (24, .r13), (32, .r14), (40, .r15), (48, .rsp)]

/-- Offset of `rip` in `process_context_t`. -/
def contextRip : ℕ := 56

/-- `sizeof(process_context_t)` -/
def sizeofContext : ℕ := 64

/-- The label `.load_new`. -/
def loadNew : ℕ := 11

/-- `context_switch_asm` -/
def contextSwitchAsm : List Instr :=
  [.test .rdi .rdi,
    .jz loadNew,
    .mov (.store .rdi 0 .rbx),
    .mov (.store .rdi 8 .rbp),
    .mov (.store .rdi 16 .r12),
    .mov (.store .rdi 24 .r13),
    .mov (.store .rdi 32 .r14),
    .mov (.store .rdi 40 .r15),
    .mov (.store .rdi 48 .rsp),
    .mov (.load .rax .rsp 0),
    .mov (.store .rdi 56 .rax),
    -- `.load_new`
    .mov (.load .rbx .rsi 0),
    .mov (.load .rbp .rsi 8),
    .mov (.load .r12 .rsi 16),
    .mov (.load .r13 .rsi 24),
    .mov (.load .r14 .rsi 32),
    .mov (.load .r15 .rsi 40),
    .mov (.load .rsp .rsi 48),
    .mov (.load .rax .rsi 56),
    .jmp .rax]

/-- A call of `context_switch_asm`: the machine when it is left, and where execution continues. The
routine has no loop, so its length bounds the number of its steps. -/
def switchContext (m : Machine) : Option (Machine × Word) :=
  run contextSwitchAsm contextSwitchAsm.length 0 m

/-- The block that saves the registers in `*old`. -/
def saveBlock : List Move :=
  stores .rdi contextRegs ++ [.load .rax .rsp 0, .store .rdi contextRip .rax]

/-- The block that loads the registers from `*new`. -/
def loadBlock : List Move :=
  loads .rsi (contextRegs ++ [(contextRip, .rax)])

/-- The machine at `.load_new`. -/
def atLoadNew (m : Machine) : Machine :=
  let m := { m with zf := m.regs .rdi &&& m.regs .rdi == 0 }
  if m.regs .rdi = 0 then m else m.moves saveBlock

/-- The machine when `context_switch_asm` is left. -/
def afterSwitch (m : Machine) : Machine := (atLoadNew m).moves loadBlock

/-- The part of the routine that loads `*new`, from its label to the jump. -/
theorem run_loadNew (m : Machine) (fuel : ℕ) :
    run contextSwitchAsm (fuel + 1 + loadBlock.length) loadNew m =
      some (m.moves loadBlock, (m.moves loadBlock).regs .rax) := by
  rw [run_moves (show contextSwitchAsm.drop loadNew = loadBlock.map .mov ++ [.jmp .rax] from rfl)]
  exact run_jmp rfl

/-- **A call always ends**, and execution continues at the address in `rax`. -/
theorem switchContext_eq (m : Machine) :
    switchContext m = some (afterSwitch m, (afterSwitch m).regs .rax) := by
  have hzf : (m.regs .rdi &&& m.regs .rdi == 0) = decide (m.regs .rdi = 0) := by
    rw [BitVec.and_self]
    rfl
  have hentry : switchContext m = run contextSwitchAsm 18
      (if decide (m.regs .rdi = 0) then loadNew else 2)
      { m with zf := m.regs .rdi &&& m.regs .rdi == 0 } := by
    rw [← hzf]
    exact (run_test rfl).trans (run_jz rfl)
  rw [hentry, afterSwitch, atLoadNew]
  by_cases h : m.regs .rdi = 0
  · rw [decide_eq_true h, if_pos rfl, if_pos h]
    exact run_loadNew _ 9
  · rw [decide_eq_false h, if_neg Bool.false_ne_true, if_neg h]
    have hsave : contextSwitchAsm.drop 2 = saveBlock.map .mov ++ contextSwitchAsm.drop loadNew :=
      rfl
    exact (@run_moves _ _ _ _ 9 _ hsave).trans (run_loadNew _ 0)

/-! ### What a call saves and loads

The fields of `ProcessContext` are quadwords at multiples of eight, so the block of stores and the
block of loads are instances of the rules for one base register; what is stored at an offset of
`*old` is what the same offset of `*new` gives back. -/

/-- The memory after `saveBlock`: the last field to be stored is the word `rsp` points at. -/
theorem moves_saveBlock (m : Machine) : (m.moves saveBlock).regs .rsi = m.regs .rsi ∧
    (m.moves saveBlock).mem =
      store64 (m.moves (stores .rdi contextRegs)).mem (m.operand .rdi contextRip)
        (load64 (m.moves (stores .rdi contextRegs)).mem (m.regs .rsp)) := by
  have htail : ∀ m : Machine,
      (m.moves [.load .rax .rsp 0, .store .rdi contextRip .rax]).regs .rsi = m.regs .rsi ∧
      (m.moves [.load .rax .rsp 0, .store .rdi contextRip .rax]).mem =
        store64 m.mem (m.operand .rdi contextRip) (load64 m.mem (m.regs .rsp)) := by
    intro m
    have hrsp : m.operand .rsp 0 = m.regs .rsp := by simp [Machine.operand]
    rw [← hrsp]
    exact ⟨rfl, rfl⟩
  have hregs : (m.moves (stores .rdi contextRegs)).regs = m.regs := regs_stores
  obtain ⟨hrsi, hmem⟩ := htail (m.moves (stores .rdi contextRegs))
  rw [Machine.operand, hregs] at hmem
  rw [hregs] at hrsi
  rw [saveBlock, Machine.moves_append]
  exact ⟨hrsi, hmem⟩

section Call

variable {m m' : Machine} {target : Word}

/-- **The registers are loaded from `*new`**, as it is when the routine is left. -/
theorem switchContext_loads (h : switchContext m = some (m', target)) :
    (∀ f ∈ contextRegs, m'.regs f.2 = load64 m'.mem (m.operand .rsi f.1)) ∧
      target = load64 m'.mem (m.operand .rsi contextRip) := by
  obtain ⟨rfl, rfl⟩ := Prod.mk.inj (Option.some.inj ((switchContext_eq m).symm.trans h))
  have hrsi : (atLoadNew m).regs .rsi = m.regs .rsi := by
    rw [atLoadNew]
    dsimp only
    split
    case isTrue => rfl
    case isFalse => exact (moves_saveBlock _).1
  have hfield : ∀ f ∈ contextRegs ++ [(contextRip, .rax)],
      (afterSwitch m).regs f.2 = load64 (afterSwitch m).mem (m.operand .rsi f.1) := by
    intro f hf
    rw [Machine.operand, ← hrsi, afterSwitch, loadBlock, mem_loads]
    exact regs_loads (by decide) (by decide) hf
  exact ⟨fun f hf ↦ hfield f (List.mem_append_left _ hf), hfield (contextRip, .rax) (by decide)⟩

/-- The memory a call with `old` not `NULL` leaves. -/
theorem switchContext_mem (h : switchContext m = some (m', target)) (hold : m.regs .rdi ≠ 0) :
    m'.mem = store64 (m.moves (stores .rdi contextRegs)).mem (m.operand .rdi contextRip)
      (load64 (m.moves (stores .rdi contextRegs)).mem (m.regs .rsp)) := by
  obtain ⟨rfl, -⟩ := Prod.mk.inj (Option.some.inj ((switchContext_eq m).symm.trans h))
  rw [afterSwitch, atLoadNew, if_neg hold, loadBlock, mem_loads]
  exact (moves_saveBlock _).2

/-- **The registers of the caller are saved in `*old`**, `rsp` as it is on entry. -/
theorem switchContext_saves (h : switchContext m = some (m', target)) (hold : m.regs .rdi ≠ 0) :
    ∀ f ∈ contextRegs, load64 m'.mem (m.operand .rdi f.1) = m.regs f.2 := by
  intro f hf
  have hapart : ∀ f ∈ contextRegs, f.1 + 8 ≤ contextRip := by decide
  have hdisp : IsDisp f.1 := lt_of_le_of_lt (Nat.le_of_add_right_le (hapart f hf)) (by decide)
  have hdisjoint : Disjoint (bytes64 (m.operand .rdi contextRip)) (bytes64 (m.operand .rdi f.1)) :=
    disjoint_bytes64 (by decide) hdisp (Or.inr (hapart f hf))
  rw [switchContext_mem h hold, load64_store64_of_disjoint hdisjoint]
  exact load64_stores (by decide) hf

/-- The return address is saved in `old->rip`, unless the stack slot it is read from lies in `*old`
itself. -/
theorem switchContext_saves_rip (h : switchContext m = some (m', target))
    (hold : m.regs .rdi ≠ 0)
    (hslot : ∀ f ∈ contextRegs, Disjoint (bytes64 (m.operand .rdi f.1)) (bytes64 (m.regs .rsp))) :
    load64 m'.mem (m.operand .rdi contextRip) = load64 m.mem (m.regs .rsp) := by
  rw [switchContext_mem h hold, load64_store64_self, load64_stores_of_disjoint hslot]

end Call

/-! ### Suspension and resumption

Between the two calls anything may run: other processes, other context switches, interrupts. All
that is asked is that it leaves the bytes of the saved context alone, and that the later call loads
from there.
-/

/-- The bytes of the context at `old`. -/
def contextBytes (old : Word) : Set Word := {x | (x - old).toNat < sizeofContext}

/-- A field of the context lies in the bytes of the context. -/
theorem bytes64_subset_contextBytes {old : Word} {d : ℕ} (h : d + 8 ≤ sizeofContext) :
    bytes64 (old + BitVec.ofNat 64 d) ⊆ contextBytes old := by
  intro x hx
  rw [sizeofContext] at h
  rw [bytes64, Set.mem_ofPred_eq] at hx
  rw [contextBytes, sizeofContext, Set.mem_ofPred_eq]
  bv_omega

/-- What runs while a process is suspended. -/
inductive LaterEvent
  | switch
  | compute
  deriving DecidableEq, Repr

/-- A step that leaves the context at `old` alone: another context switch, or any other code. -/
inductive LaterStep (old : Word) : Machine → LaterEvent → Machine → Prop
  | switch {m m' : Machine} {target : Word} : switchContext m = some (m', target) →
      Set.EqOn m'.mem m.mem (contextBytes old) → LaterStep old m .switch m'
  | compute {m m' : Machine} :
      Set.EqOn m'.mem m.mem (contextBytes old) → LaterStep old m .compute m'

/-- Nothing that happens later writes to the saved context. -/
theorem LaterStep.eqOn {old : Word} {m m' : Machine} {e : LaterEvent} (h : LaterStep old m e m') :
    Set.EqOn m'.mem m.mem (contextBytes old) := by
  cases h with
  | switch _ h => exact h
  | compute h => exact h

/-- A process is suspended by a call of `context_switch_asm` and resumed by a later one, and its
saved context is left alone in between. -/
structure Resumption where
  /-- The machine in which `context_switch_asm(old, new)` is called. -/
  call : Machine
  old_ne_null : call.regs .rdi ≠ 0
  /-- The machine after that call, and where it continues. -/
  suspended : Machine
  other : Word
  suspends : switchContext call = some (suspended, other)
  /-- What runs in between. -/
  events : List LaterEvent
  /-- The machine in which the call that loads `old` again is made. -/
  reload : Machine
  later : Run (LaterStep (call.regs .rdi)) suspended events reload
  loads_old : reload.regs .rsi = call.regs .rdi
  /-- The machine after that call, and where the process continues. -/
  resumed : Machine
  address : Word
  resumes : switchContext reload = some (resumed, address)
  left_alone : Set.EqOn resumed.mem reload.mem (contextBytes (call.regs .rdi))

/-- The process continues as if the call that suspended it had simply returned: at the return
address, with the callee-saved registers as they were, and with the return address popped. -/
structure AsIfReturned (r : Resumption) : Prop where
  address : r.address = load64 r.call.mem (r.call.regs .rsp)
  calleeSaved : ∀ x ∈ [Reg.rbx, .rbp, .r12, .r13, .r14, .r15], r.resumed.regs x = r.call.regs x
  rsp : r.resumed.regs .rsp = r.call.regs .rsp + 8

namespace Resumption

variable (r : Resumption)

/-- The saved context is still there when it is loaded. -/
theorem eqOn_context :
    Set.EqOn r.resumed.mem r.suspended.mem (contextBytes (r.call.regs .rdi)) :=
  r.left_alone.trans (r.later.invariant
    (I := fun m ↦ Set.EqOn m.mem r.suspended.mem (contextBytes (r.call.regs .rdi)))
    (fun hI hstep ↦ hstep.eqOn.trans hI) fun _ _ ↦ rfl)

/-- What is loaded at the resumption is what was stored at the suspension. -/
theorem load64_context {d : ℕ} (h : d + 8 ≤ sizeofContext) :
    load64 r.resumed.mem (r.reload.operand .rsi d) =
      load64 r.suspended.mem (r.call.operand .rdi d) := by
  rw [Machine.operand, r.loads_old]
  exact load64_congr (r.eqOn_context.mono (bytes64_subset_contextBytes h))

/-- **Every register kept in the context comes back as it was on entry**, `rsp` included. -/
theorem regs_eq : ∀ f ∈ contextRegs, r.resumed.regs f.2 = r.call.regs f.2 := by
  intro f hf
  have hfit : ∀ f ∈ contextRegs, f.1 + 8 ≤ sizeofContext := by decide
  rw [(switchContext_loads r.resumes).1 f hf, r.load64_context (hfit f hf)]
  exact switchContext_saves r.suspends r.old_ne_null f hf

/-- The process continues at the return address, if that was not read out of its context. -/
theorem address_eq (hslot : ∀ f ∈ contextRegs,
    Disjoint (bytes64 (r.call.operand .rdi f.1)) (bytes64 (r.call.regs .rsp))) :
    r.address = load64 r.call.mem (r.call.regs .rsp) := by
  rw [(switchContext_loads r.resumes).2, r.load64_context (by decide)]
  exact switchContext_saves_rip r.suspends r.old_ne_null hslot

/-- **A resumed process never continues as if the call had returned.** Its callee-saved registers
are restored, but its stack pointer is the one on entry, still at the return address. -/
theorem not_asIfReturned : r.resumed.regs .rsp = r.call.regs .rsp ∧
    (∀ x ∈ [Reg.rbx, .rbp, .r12, .r13, .r14, .r15], r.resumed.regs x = r.call.regs x) ∧
    ¬AsIfReturned r := by
  have hrsp : r.resumed.regs .rsp = r.call.regs .rsp := r.regs_eq (48, .rsp) (by decide)
  have hkept : ∀ x ∈ [Reg.rbx, .rbp, .r12, .r13, .r14, .r15], ∃ f ∈ contextRegs, f.2 = x := by
    decide
  refine ⟨hrsp, fun x hx ↦ ?_, fun h ↦ ?_⟩
  · obtain ⟨f, hf, rfl⟩ := hkept x hx
    exact r.regs_eq f hf
  · have hne : r.call.regs .rsp ≠ r.call.regs .rsp + 8 := by bv_omega
    exact hne (hrsp.symm.trans h.rsp)

end Resumption

/-- A call with `old` at `0x1000`, `new` at `0x2000`, and the return address `0x401000` on the stack
at `0x8000`. -/
def sampleCall : Machine where
  regs := fun
    | .rdi => 0x1000
    | .rsi => 0x2000
    | .rsp => 0x8000
    | _ => 0
  zf := false
  mem := store64 (fun _ ↦ 0) 0x8000 0x401000

/-- The call is answered by `context_switch_asm(NULL, 0x1000)` from some other process. -/
def sampleResumption : Resumption where
  call := sampleCall
  old_ne_null := by decide
  suspended := afterSwitch sampleCall
  other := (afterSwitch sampleCall).regs .rax
  suspends := switchContext_eq sampleCall
  events := [.compute]
  reload := { afterSwitch sampleCall with regs := fun
    | .rsi => 0x1000
    | _ => 0 }
  later := Run.single (.compute fun _ _ ↦ rfl)
  loads_old := rfl
  resumed := _
  address := _
  resumes := switchContext_eq _
  left_alone := fun _ _ ↦ congrFun mem_loads _

/-- The process that was to continue at `0x401000` with `rsp = 0x8008` continues there with
`rsp = 0x8000`. -/
theorem resumed_on_return_address : sampleResumption.call.regs .rsp = 0x8000 ∧
    sampleResumption.address = 0x401000 ∧ sampleResumption.resumed.regs .rsp = 0x8000 ∧
    ¬AsIfReturned sampleResumption := by
  have hrsp : sampleResumption.resumed.regs .rsp = 0x8000 :=
    sampleResumption.regs_eq (48, .rsp) (by decide)
  refine ⟨rfl, by decide +kernel, hrsp, fun h ↦ ?_⟩
  exact absurd (hrsp.symm.trans h.rsp) (by decide)

end LightNight
