import LightNightOS.Foundation.Runs
import LightNightOS.Memory.Layout
import Mathlib.Data.List.FinRange
import Mathlib.Data.Set.Basic
import Mathlib.Logic.Function.Basic

/-!
# The process table of `scheduler.c`

`process_create`, `process_yield`, `scheduler_start` and `process_exit`, on the static variables of
`scheduler.c`. `g_current` is `none` where the code has `-1`. The stacks come from an allocator that
is a parameter here (`HeapOps`), so that the same definitions run over the kernel's heap and over
anything else that keeps the contract of `malloc` and `free`; a call is `none` where the allocator
does not return.

A context switch is the end of each operation: what it does to the registers is the subject of
`Context`, and the table sees of it only that `process_yield` saves a context in the old slot. The
messages the code prints change no variable and are left out.

`process_exit` is written in the stages the code goes through, since the interesting states lie
between them: it frees the stack, clears the slot, and picks the next process, creating an idle
process when there is none.

* `ProcessTable.processYield` — the operation that involves the table alone;
* `System.processCreate`, `System.schedulerStart`, `System.processExit` — those that involve the
  allocator;
* `SchedStep` — one call of any of them, which is what runs are made of.
-/

namespace LightNight

open Transition

/-! ### Data -/

/-- `MAX_PROCESSES` -/
abbrev maxProcesses : ℕ := 8

instance : NeZero maxProcesses := ⟨by decide⟩

/-- `STACK_SIZE` -/
def stackSize : ℕ := 4096 * 4

/-- The index of a slot of `g_procs`. -/
abbrev Slot := Fin maxProcesses

/-- `process_context_t` -/
structure ProcessContext where
  rbx : ℕ
  rbp : ℕ
  r12 : ℕ
  r13 : ℕ
  r14 : ℕ
  r15 : ℕ
  rsp : ℕ
  rip : ℕ
  deriving DecidableEq, Repr

/-- `proc_state_t` -/
inductive ProcState
  | unused
  | ready
  | running
  | blocked
  deriving DecidableEq, Repr

/-- `process_t` -/
structure Process where
  pid : ℕ
  state : ProcState
  context : ProcessContext
  stack : ℕ
  stackSize : ℕ
  deriving DecidableEq, Repr

/-- The slot is not `PROC_UNUSED`. -/
def Process.Live (p : Process) : Prop := p.state ≠ .unused

instance (p : Process) : Decidable p.Live := inferInstanceAs (Decidable (_ ≠ _))

/-- The static variables of `scheduler.c`. -/
structure ProcessTable where
  procs : Slot → Process
  current : Option Slot
  nextPid : ℕ
  started : Bool

/-- Addresses the linker assigns. -/
structure Symbols where
  processWrapper : ℕ
  idleProcess : ℕ

/-- `malloc` and `free` over a heap `σ`; `none` where the call does not return. -/
structure HeapOps (σ : Type*) where
  malloc : σ → ℕ → Option (ℕ × σ)
  free : σ → ℕ → Option σ

/-- The process table and the heap. `created` counts the processes created so far, a history of the
run that is read by no code. -/
structure System (σ : Type*) where
  table : ProcessTable
  heap : σ
  created : ℕ

/-! ### Operations on the table -/

namespace ProcessTable

variable (t : ProcessTable)

/-- `g_procs[i] = p` -/
def setProc (i : Slot) (p : Process) : ProcessTable :=
  { t with procs := Function.update t.procs i p }

/-- `g_procs[i].state = state` -/
def setState (i : Slot) (state : ProcState) : ProcessTable :=
  t.setProc i { t.procs i with state := state }

/-- The first slot, in the order of `order`, that satisfies `p`. -/
def firstSlot (order : List Slot) (p : Process → Bool) : Option Slot :=
  order.find? fun i ↦ p (t.procs i)

/-- `alloc_slot` -/
def allocSlot : Option Slot :=
  t.firstSlot (List.finRange maxProcesses) fun p ↦ p.state = .unused

/-- The slots in the order `process_yield` looks at them: `(g_current + 1 + i) % MAX_PROCESSES`. -/
def roundRobin (c : Slot) : List Slot :=
  (List.finRange maxProcesses).map fun i ↦ c + 1 + i

/-- Make `next` the running process. -/
def run (next : Slot) : ProcessTable :=
  { t with current := some next }.setState next .running

/-- `process_yield`. `cpu` is what `context_switch_asm` finds in the registers. -/
def processYield (cpu : ProcessContext) : ProcessTable :=
  if !t.started then t
  else match t.current with
    | none => t
    | some c =>
      let t := if (t.procs c).state = .running then t.setState c .ready else t
      match t.firstSlot (roundRobin c) fun p ↦ p.state = .ready with
      | none => t.setState c .running
      | some next =>
        if next = c then t.setState c .running
        else
          let t := t.run next
          t.setProc c { t.procs c with context := cpu }

end ProcessTable

/-! ### Operations on the table and the heap -/

namespace System

variable {σ : Type*} (ops : HeapOps σ) (sym : Symbols) (s : System σ)

/-- The process that `process_create` puts in a slot. -/
def newProcess (pid stack entry arg : ℕ) : Process where
  pid := pid
  state := .ready
  context :=
    { rbx := entry, rbp := 0, r12 := arg, r13 := 0, r14 := 0, r15 := 0
      rsp := u64 (stack + LightNight.stackSize) &&& lowMask 4
      rip := sym.processWrapper }
  stack := stack
  stackSize := LightNight.stackSize

/-- `process_create`: the slot returned, `none` for `-1`. -/
def processCreate (entry arg : ℕ) : Option (Option Slot × System σ) :=
  match s.table.allocSlot with
  | none => some (none, s)
  | some idx =>
    match ops.malloc s.heap stackSize with
    | none => none
    | some (stack, heap) =>
      if stack = 0 then some (none, { s with heap := heap })
      else
        let proc := newProcess sym s.table.nextPid stack entry arg
        some (some idx,
          { table := { s.table.setProc idx proc with nextPid := u64 (s.table.nextPid + 1) }
            heap := heap
            created := s.created + 1 })

/-- The second half of `scheduler_start`: the first ready process runs, if there is one. -/
def startFirst : System σ :=
  match s.table.firstSlot (List.finRange maxProcesses) fun p ↦ p.state = .ready with
  | none => s
  | some first => { s with table := { s.table.run first with started := true } }

/-- `scheduler_start` -/
def schedulerStart : Option (System σ) :=
  if s.table.started then some s
  else
    let readyCount := (List.finRange maxProcesses).countP fun i ↦ (s.table.procs i).state = .ready
    if readyCount = 0 then
      (s.processCreate ops sym sym.idleProcess 0).map fun r ↦ r.2.startFirst
    else some s.startFirst

/-- `if (proc->stack) free(proc->stack)` -/
def exitFree (c : Slot) : Option (System σ) :=
  if (s.table.procs c).stack ≠ 0 then
    (ops.free s.heap (s.table.procs c).stack).map fun heap ↦ { s with heap := heap }
  else some s

/-- The slot of the exiting process is cleared; its context is not. -/
def exitClear (c : Slot) : System σ :=
  let proc := { s.table.procs c with state := .unused, pid := 0, stack := 0, stackSize := 0 }
  { s with table := s.table.setProc c proc }

/-- The process that runs next: the first other one that is ready or running, or a new idle
process. -/
def exitPick (c : Slot) : Option (Option Slot × System σ) :=
  let other := (List.finRange maxProcesses).find? fun i ↦
    ((s.table.procs i).state = .ready ∨ (s.table.procs i).state = .running) ∧ i ≠ c
  match other with
  | some next => some (some next, s)
  | none => s.processCreate ops sym sym.idleProcess 0

/-- The table when `process_exit` switches to the next process, or gives up. -/
def exitSwitch : Option Slot → System σ
  | none => { s with table := { s.table with started := false, current := none } }
  | some next => { s with table := s.table.run next }

/-- `process_exit` -/
def processExit : Option (System σ) :=
  match s.table.current with
  | none => some s
  | some c => do
    let s ← s.exitFree ops c
    let (next, s) ← (s.exitClear c).exitPick ops sym c
    some (s.exitSwitch next)

end System

/-! ### Runs -/

/-- The calls of the scheduler. -/
inductive SchedCall
  | create (entry arg : ℕ)
  | start
  | yield (cpu : ProcessContext)
  | exit
  deriving DecidableEq, Repr

/-- One call. -/
inductive SchedStep {σ : Type*} (ops : HeapOps σ) (sym : Symbols) :
    System σ → SchedCall → System σ → Prop
  | create {s s' : System σ} {entry arg : ℕ} {slot : Option Slot} :
      s.processCreate ops sym entry arg = some (slot, s') →
      SchedStep ops sym s (.create entry arg) s'
  | start {s s' : System σ} : s.schedulerStart ops sym = some s' → SchedStep ops sym s .start s'
  | yield {s : System σ} {cpu : ProcessContext} :
      SchedStep ops sym s (.yield cpu) { s with table := s.table.processYield cpu }
  | exit {s s' : System σ} : s.processExit ops sym = some s' → SchedStep ops sym s .exit s'

/-- A call as a function; `none` where it does not return. -/
def System.call {σ : Type*} (ops : HeapOps σ) (sym : Symbols) (s : System σ) :
    SchedCall → Option (System σ)
  | .create entry arg => (s.processCreate ops sym entry arg).map Prod.snd
  | .start => s.schedulerStart ops sym
  | .yield cpu => some { s with table := s.table.processYield cpu }
  | .exit => s.processExit ops sym

theorem SchedStep.of_call {σ : Type*} {ops : HeapOps σ} {sym : Symbols} {s s' : System σ}
    {a : SchedCall} (h : s.call ops sym a = some s') : SchedStep ops sym s a s' := by
  cases a with
  | create entry arg =>
    obtain ⟨⟨slot, _⟩, hcreate, rfl⟩ := Option.map_eq_some_iff.1 h
    exact .create hcreate
  | start => exact .start h
  | yield cpu => exact Option.some.inj h ▸ .yield
  | exit => exact .exit h

/-- A process with every field zero, as static memory is at boot. -/
def Process.zeroed : Process := ⟨0, .unused, ⟨0, 0, 0, 0, 0, 0, 0, 0⟩, 0, 0⟩

/-- The initial values of the static variables, over any heap. -/
def System.boot {σ : Type*} (heap : σ) : System σ where
  table := ⟨fun _ ↦ .zeroed, none, 1, false⟩
  heap := heap
  created := 0

end LightNight
