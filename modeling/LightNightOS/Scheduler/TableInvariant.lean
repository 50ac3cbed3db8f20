import LightNightOS.Scheduler.Table

/-!
# The invariant of the process table

What every call of the scheduler preserves, whatever the allocator answers. It has two parts:

* `RunningOk` — the scheduler is stopped and nothing runs, or it is started and `g_current` names
  the only running slot;
* `Slots` — a live slot owns a stack of its own and carries the number under which it was created;
  an unused slot has neither.

Only `process_create` and the clearing of a slot in `process_exit` touch the second part, and both
replace one slot (`Slots.create`, `Slots.clear`). The first part is broken inside `process_exit`,
between the clearing of the running slot and the choice of the next one: there nothing runs
(`NoneRunning`), and that is what a new process preserves.

Of the allocator only its contract is used (`MallocSafe`, `FreeSafe`): what `malloc` returns is new,
and blocks stay allocated until they are freed.

* `processYield_cases`, `processCreate_cases`, `schedulerStart_cases`, `processExit_cases` — what
  each call does, said once;
* `SchedInvariant.processYield` and the like — that each call keeps the invariant;
* `step`, `table_sound` — any call, and every run;
* `pid_not_below_nextPid` — after `2 ^ 64 - 1` creates the number of the next process has wrapped.
-/

namespace LightNight

open Transition

/-! ### What is asked of an allocator -/

section Contract

variable {σ : Type*} (ops : HeapOps σ) (live : σ → Set ℕ)

/-- `malloc(n)` returns `NULL` or a block that was not allocated, and frees none. -/
def MallocSafe (n : ℕ) (a : σ) : Prop :=
  ∀ {p : ℕ} {a' : σ}, ops.malloc a n = some (p, a') →
    live a ⊆ live a' ∧ (p ≠ 0 → p ∉ live a ∧ p ∈ live a')

/-- `free(p)` frees no other block. -/
def FreeSafe (a : σ) (p : ℕ) : Prop :=
  ∀ {a' : σ}, ops.free a p = some a' → live a \ {p} ⊆ live a'

/-- The contract of `malloc(n)` and `free` on the heaps that are valid, with `live` the blocks
allocated; allocated blocks are freed only where `mayFree` allows it. -/
structure Contract (n : ℕ) (valid : σ → Prop) (mayFree : σ → ℕ → Prop) : Prop where
  malloc_valid {a a' : σ} {p : ℕ} : valid a → ops.malloc a n = some (p, a') → valid a'
  malloc_safe {a : σ} : valid a → MallocSafe ops live n a
  free_valid {a a' : σ} {p : ℕ} :
    valid a → p ∈ live a → mayFree a p → ops.free a p = some a' → valid a'
  free_safe {a : σ} {p : ℕ} : valid a → p ∈ live a → mayFree a p → FreeSafe ops live a p

end Contract

/-- An allocator: the heaps on which it works, the blocks allocated in a heap, and the contract. It
may return `NULL` at any call. -/
structure Allocator (σ : Type*) extends HeapOps σ where
  Valid : σ → Prop
  live : σ → Set ℕ
  contract (n : ℕ) : Contract toHeapOps live n Valid fun _ _ ↦ True

/-! ### The invariant -/

/-- The part about pids and stacks. `created` processes have been created; each live slot carries
the serial number of its creation, reduced to 64 bits, as its pid. -/
structure Slots (live : Set ℕ) (created : ℕ) (t : ProcessTable) : Prop where
  unused : ∀ i, ¬(t.procs i).Live → (t.procs i).pid = 0 ∧ (t.procs i).stack = 0
  stack : ∀ i, (t.procs i).Live → (t.procs i).stack ≠ 0 ∧ (t.procs i).stack ∈ live
  apart : ∀ i j, (t.procs i).Live → (t.procs j).Live →
    (t.procs i).stack = (t.procs j).stack → i = j
  serial : ∃ serial : Slot → ℕ,
    (∀ i, (t.procs i).Live →
      0 < serial i ∧ serial i ≤ created ∧ (t.procs i).pid = u64 (serial i)) ∧
    ∀ i j, (t.procs i).Live → (t.procs j).Live → serial i = serial j → i = j
  nextPid : t.nextPid = u64 (created + 1)

/-- No slot is running. -/
def NoneRunning (t : ProcessTable) : Prop := ∀ i, (t.procs i).state ≠ .running

/-- The scheduler is stopped and nothing runs, or it is started and the current slot is the running
one. -/
def RunningOk (t : ProcessTable) : Prop :=
  (t.started = false ∧ t.current = none ∧ NoneRunning t) ∨
    (t.started = true ∧ ∃ c, t.current = some c ∧ ∀ i, (t.procs i).state = .running ↔ i = c)

/-- The invariant of the scheduler. -/
structure SchedInvariant {σ : Type*} (live : σ → Set ℕ) (s : System σ) : Prop where
  running : RunningOk s.table
  slots : Slots (live s.heap) s.created s.table

/-! ### Replacing one slot -/

namespace ProcessTable

variable {t : ProcessTable} {i j : Slot} {p : Process} {state : ProcState}

/-- The slot that is set holds the process it is set to. -/
theorem setProc_self : (t.setProc i p).procs i = p :=
  Function.update_self _ _ _

theorem setProc_of_ne (h : j ≠ i) : (t.setProc i p).procs j = t.procs j :=
  Function.update_of_ne h _ _

theorem setState_self : ((t.setState i state).procs i).state = state := by
  rw [setState, setProc_self]

theorem setState_of_ne (h : j ≠ i) : (t.setState i state).procs j = t.procs j :=
  setProc_of_ne h

/-- The slot that a search finds passes the test of the search. -/
theorem firstSlot_some {order : List Slot} {q : Process → Bool}
    (h : t.firstSlot order q = some i) : q (t.procs i) = true :=
  List.find?_some (p := fun i ↦ q (t.procs i)) h

end ProcessTable

section Slots

variable {live live' : Set ℕ} {created : ℕ} {t t' : ProcessTable} {c : Slot}

/-- Slots look only at which slots are live, at their pids and their stacks. -/
theorem Slots.congr (h : Slots live created t) (hlive : live ⊆ live')
    (hsame : ∀ i, ((t'.procs i).Live ↔ (t.procs i).Live) ∧
      (t'.procs i).pid = (t.procs i).pid ∧ (t'.procs i).stack = (t.procs i).stack)
    (hpid : t'.nextPid = t.nextPid) : Slots live' created t' := by
  obtain ⟨serial, hserial, hinj⟩ := h.serial
  refine ⟨fun i hi ↦ ?_, fun i hi ↦ ?_, fun i j hi hj heq ↦ ?_, ⟨serial, fun i hi ↦ ?_,
    fun i j hi hj ↦ hinj i j ((hsame i).1.1 hi) ((hsame j).1.1 hj)⟩, hpid.trans h.nextPid⟩
  · rw [(hsame i).2.1, (hsame i).2.2]
    exact h.unused i ((hsame i).1.not.1 hi)
  · rw [(hsame i).2.2]
    obtain ⟨hne, hmem⟩ := h.stack i ((hsame i).1.1 hi)
    exact ⟨hne, hlive hmem⟩
  · rw [(hsame i).2.2, (hsame j).2.2] at heq
    exact h.apart i j ((hsame i).1.1 hi) ((hsame j).1.1 hj) heq
  · rw [(hsame i).2.1]
    exact hserial i ((hsame i).1.1 hi)

/-- A change of state or context that keeps the slot live. -/
theorem Slots.setProc (h : Slots live created t) {p : Process} (hc : (t.procs c).Live)
    (hp : p.Live) (hpid : p.pid = (t.procs c).pid) (hstack : p.stack = (t.procs c).stack) :
    Slots live created (t.setProc c p) := by
  refine h.congr (fun _ hx ↦ hx) (fun i ↦ ?_) rfl
  by_cases hi : i = c
  · rw [hi, ProcessTable.setProc_self]
    exact ⟨iff_of_true hp hc, hpid, hstack⟩
  · rw [ProcessTable.setProc_of_ne hi]
    exact ⟨Iff.rfl, rfl, rfl⟩

/-- **A new process** in an unused slot, with a stack that nobody owns. -/
theorem Slots.create (h : Slots live created t) {p : Process} (hp : p.Live)
    (hpid : p.pid = t.nextPid) (hstack : p.stack ≠ 0) (hfresh : p.stack ∉ live)
    (hmem : p.stack ∈ live') (hlive : live ⊆ live') :
    Slots live' (created + 1) { t.setProc c p with nextPid := u64 (t.nextPid + 1) } := by
  obtain ⟨serial, hserial, hinj⟩ := h.serial
  have hold : ∀ {i}, i ≠ c → (Function.update t.procs c p) i = t.procs i :=
    fun hi ↦ Function.update_of_ne hi _ _
  have hnew : (Function.update t.procs c p) c = p := Function.update_self _ _ _
  constructor
  case unused =>
    intro i hi
    dsimp only [ProcessTable.setProc] at hi ⊢
    by_cases hic : i = c
    · rw [hic, hnew] at hi
      exact absurd hp hi
    · rw [hold hic] at hi ⊢
      exact h.unused i hi
  case stack =>
    intro i hi
    dsimp only [ProcessTable.setProc] at hi ⊢
    by_cases hic : i = c
    · rw [hic, hnew]
      exact ⟨hstack, hmem⟩
    · rw [hold hic] at hi ⊢
      exact ⟨(h.stack i hi).1, hlive (h.stack i hi).2⟩
  case apart =>
    intro i j hi hj heq
    dsimp only [ProcessTable.setProc] at hi hj heq
    by_cases hic : i = c <;> by_cases hjc : j = c
    · rw [hic, hjc]
    · rw [hold hjc] at hj heq
      rw [hic, hnew] at heq
      exact absurd (heq ▸ (h.stack j hj).2) hfresh
    · rw [hold hic] at hi heq
      rw [hjc, hnew] at heq
      exact absurd (heq ▸ (h.stack i hi).2) hfresh
    · rw [hold hic] at hi heq
      rw [hold hjc] at hj heq
      exact h.apart i j hi hj heq
  case serial =>
    refine ⟨Function.update serial c (created + 1), fun i hi ↦ ?_, fun i j hi hj heq ↦ ?_⟩
    · dsimp only [ProcessTable.setProc] at hi ⊢
      by_cases hic : i = c
      · rw [hic, hnew, Function.update_self, hpid, h.nextPid]
        exact ⟨Nat.succ_pos _, le_rfl, rfl⟩
      · rw [hold hic] at hi ⊢
        rw [Function.update_of_ne hic]
        obtain ⟨hpos, hle, hval⟩ := hserial i hi
        exact ⟨hpos, by omega, hval⟩
    · dsimp only [ProcessTable.setProc] at hi hj
      by_cases hic : i = c <;> by_cases hjc : j = c
      · rw [hic, hjc]
      · rw [hold hjc] at hj
        rw [hic, Function.update_self, Function.update_of_ne hjc] at heq
        have hle := (hserial j hj).2.1
        omega
      · rw [hold hic] at hi
        rw [hjc, Function.update_self, Function.update_of_ne hic] at heq
        have hle := (hserial i hi).2.1
        omega
      · rw [hold hic] at hi
        rw [hold hjc] at hj
        rw [Function.update_of_ne hic, Function.update_of_ne hjc] at heq
        exact hinj i j hi hj heq
  case nextPid =>
    have hval := h.nextPid
    simp only [u64] at hval ⊢
    omega

/-- **A slot is cleared**; the stacks of the others stay allocated. -/
theorem Slots.clear (h : Slots live created t) {p : Process} (hp : ¬p.Live) (hpid : p.pid = 0)
    (hstack : p.stack = 0) (hlive : ∀ i, i ≠ c → (t.procs i).Live → (t.procs i).stack ∈ live') :
    Slots live' created (t.setProc c p) := by
  obtain ⟨serial, hserial, hinj⟩ := h.serial
  have hne : ∀ {i}, ((t.setProc c p).procs i).Live → i ≠ c := by
    rintro i hi rfl
    rw [ProcessTable.setProc_self] at hi
    exact hp hi
  have hold : ∀ {i}, ((t.setProc c p).procs i).Live →
      (t.setProc c p).procs i = t.procs i ∧ (t.procs i).Live := by
    intro i hi
    have hsame := ProcessTable.setProc_of_ne (t := t) (p := p) (hne hi)
    exact ⟨hsame, hsame ▸ hi⟩
  refine ⟨fun i hi ↦ ?_, fun i hi ↦ ?_, fun i j hi hj heq ↦ ?_, ⟨serial, fun i hi ↦ ?_,
    fun i j hi hj ↦ hinj i j (hold hi).2 (hold hj).2⟩, h.nextPid⟩
  · by_cases hic : i = c
    · rw [hic, ProcessTable.setProc_self]
      exact ⟨hpid, hstack⟩
    · rw [ProcessTable.setProc_of_ne hic] at hi ⊢
      exact h.unused i hi
  · rw [(hold hi).1]
    exact ⟨(h.stack i (hold hi).2).1, hlive i (hne hi) (hold hi).2⟩
  · rw [(hold hi).1, (hold hj).1] at heq
    exact h.apart i j (hold hi).2 (hold hj).2 heq
  · rw [(hold hi).1]
    exact hserial i (hold hi).2

end Slots

/-! ### The running slot

A call that ends a process has no running slot for a while. What holds then is `NoneRunning`, and
running a slot leads from it back to the invariant. -/

section Running

variable {t : ProcessTable} {c next : Slot}

/-- Setting a slot to a process that is not running leaves none running. -/
theorem NoneRunning.setProc (h : NoneRunning t) {p : Process} (hp : p.state ≠ .running) :
    NoneRunning (t.setProc c p) := by
  intro i
  by_cases hi : i = c
  · rwa [hi, ProcessTable.setProc_self]
  · rw [ProcessTable.setProc_of_ne hi]
    exact h i

/-- A slot that is not running may be replaced by another one that is not. -/
theorem RunningOk.setProc (h : RunningOk t) {p : Process} (hc : (t.procs c).state ≠ .running)
    (hp : p.state ≠ .running) : RunningOk (t.setProc c p) := by
  rcases h with ⟨hstarted, hcurrent, hnone⟩ | ⟨hstarted, d, hcurrent, hd⟩
  · exact Or.inl ⟨hstarted, hcurrent, hnone.setProc hp⟩
  · refine Or.inr ⟨hstarted, d, hcurrent, fun i ↦ ?_⟩
    by_cases hi : i = c
    · subst hi
      rw [ProcessTable.setProc_self]
      exact iff_of_false hp fun hid ↦ hc ((hd i).2 hid)
    · rw [ProcessTable.setProc_of_ne hi]
      exact hd i

/-- Where nothing runs, `run` makes one slot the running one. -/
theorem NoneRunning.run (h : NoneRunning t) (i : Slot) :
    ((t.run next).procs i).state = .running ↔ i = next := by
  by_cases hi : i = next
  · rw [hi]
    exact iff_of_true ProcessTable.setState_self rfl
  · rw [ProcessTable.run, ProcessTable.setState_of_ne hi]
    exact iff_of_false (h i) hi

/-- Where none is running, the slot that is run is the only one. -/
theorem NoneRunning.runningOk (h : NoneRunning t) (hstarted : t.started = true) :
    RunningOk (t.run next) :=
  Or.inr ⟨hstarted, next, rfl, h.run⟩

/-- Taking the running slot off the processor. -/
theorem noneRunning_setProc (hc : ∀ i, (t.procs i).state = .running ↔ i = c) {p : Process}
    (hp : p.state ≠ .running) : NoneRunning (t.setProc c p) := by
  intro i
  by_cases hi : i = c
  · rwa [hi, ProcessTable.setProc_self]
  · rw [ProcessTable.setProc_of_ne hi]
    exact fun hrun ↦ hi ((hc i).1 hrun)

end Running

/-! ### `process_yield` -/

section Yield

variable {t : ProcessTable} {c : Slot}

theorem ProcessTable.live_of_state {state : ProcState} (hstate : state ≠ .unused) {i : Slot}
    (h : (t.procs i).state = state) : (t.procs i).Live := by
  rw [Process.Live, h]
  exact hstate

/-- The current slot is live. -/
theorem RunningOk.live_of_current (h : RunningOk t) (hc : t.current = some c) :
    (t.procs c).Live := by
  rcases h with ⟨-, hnone, -⟩ | ⟨-, d, hd, hrunning⟩
  · rw [hnone] at hc
    cases hc
  · obtain rfl := Option.some.inj (hd.symm.trans hc)
    exact ProcessTable.live_of_state (by decide) ((hrunning d).2 rfl)

/-- **`process_yield` either goes on with the running process or switches** to a ready slot, saving
the context of the old one. -/
theorem processYield_cases (h : t.current = some c) (hstarted : t.started = true)
    (hc : ∀ i, (t.procs i).state = .running ↔ i = c) (cpu : ProcessContext) :
    t.processYield cpu = (t.setState c .ready).setState c .running ∨
      ∃ next, next ≠ c ∧ (t.procs next).state = .ready ∧
        t.processYield cpu = ((t.setState c .ready).run next).setProc c
          { ((t.setState c .ready).run next).procs c with context := cpu } := by
  rw [ProcessTable.processYield, hstarted, h]
  simp only [Bool.not_true, Bool.false_eq_true, if_false, if_pos ((hc c).2 rfl)]
  split
  case h_1 => exact Or.inl rfl
  case h_2 next hnext =>
    split
    case isTrue => exact Or.inl rfl
    case isFalse hne =>
      refine Or.inr ⟨next, hne, ?_, rfl⟩
      have hready := ProcessTable.firstSlot_some hnext
      rw [ProcessTable.setState_of_ne hne] at hready
      exact of_decide_eq_true hready

/-- A yield before the scheduler was started does nothing. -/
theorem ProcessTable.processYield_of_not_running (h : t.started = false ∧ t.current = none)
    (cpu : ProcessContext) : t.processYield cpu = t := by
  rw [processYield, h.1]
  rfl

/-- `process_yield` leaves one slot running. -/
theorem RunningOk.processYield (h : RunningOk t) (cpu : ProcessContext) :
    RunningOk (t.processYield cpu) := by
  rcases h with ⟨hstarted, hcurrent, hnone⟩ | ⟨hstarted, c, hcurrent, hc⟩
  · rw [ProcessTable.processYield_of_not_running ⟨hstarted, hcurrent⟩]
    exact Or.inl ⟨hstarted, hcurrent, hnone⟩
  have hnone : NoneRunning (t.setState c .ready) := noneRunning_setProc hc fun h ↦ nomatch h
  rcases processYield_cases hcurrent hstarted hc cpu with heq | ⟨next, hne, -, heq⟩ <;> rw [heq]
  · exact Or.inr ⟨hstarted, c, hcurrent, hnone.run⟩
  · have hnot : (((t.setState c .ready).run next).procs c).state ≠ .running := by
      rw [ProcessTable.run, ProcessTable.setState_of_ne hne.symm]
      exact hnone c
    exact (hnone.runningOk hstarted).setProc hnot hnot

end Yield

/-- A slot that is live stays live, with its pid and its stack, when its state is set to a live
one. -/
theorem Slots.setState {live : Set ℕ} {created : ℕ} {t : ProcessTable} (h : Slots live created t)
    {c : Slot} (hc : (t.procs c).Live) {state : ProcState} (hstate : state ≠ .unused) :
    Slots live created (t.setState c state) :=
  h.setProc hc hstate rfl rfl

/-- Running a slot changes the states of slots, and no stack or pid. -/
theorem Slots.run {live : Set ℕ} {created : ℕ} {t : ProcessTable} (h : Slots live created t)
    {next : Slot} (hnext : (t.procs next).Live) : Slots live created (t.run next) :=
  Slots.setState (t := { t with current := some next })
    (h.congr (fun _ hx ↦ hx) (fun _ ↦ ⟨Iff.rfl, rfl, rfl⟩) rfl) hnext (by decide)

section Calls

variable {σ : Type*} {ops : HeapOps σ} {sym : Symbols} {live : σ → Set ℕ} {s s' : System σ}

/-- A yield saves a context and changes two states, and no stack or pid. -/
theorem Slots.processYield {heap : Set ℕ} {created : ℕ} {t : ProcessTable}
    (h : Slots heap created t) (hrunning : RunningOk t) (cpu : ProcessContext) :
    Slots heap created (t.processYield cpu) := by
  rcases hrunning with ⟨hstarted, hcurrent, -⟩ | ⟨hstarted, c, hcurrent, hc⟩
  · rwa [ProcessTable.processYield_of_not_running ⟨hstarted, hcurrent⟩]
  have hlive := ProcessTable.live_of_state (by decide) ((hc c).2 rfl)
  have hslots := h.setState hlive (show ProcState.ready ≠ .unused by decide)
  have hready : ((t.setState c .ready).procs c).Live :=
    ProcessTable.live_of_state (by decide) ProcessTable.setState_self
  rcases processYield_cases hcurrent hstarted hc cpu with heq | ⟨next, hne, hnext, heq⟩ <;> rw [heq]
  · exact hslots.setState hready (by decide)
  · have hnextLive : ((t.setState c .ready).procs next).Live := by
      rw [ProcessTable.setState_of_ne hne]
      exact ProcessTable.live_of_state (by decide) hnext
    have hold : (((t.setState c .ready).run next).procs c).Live := by
      rw [ProcessTable.run, ProcessTable.setState_of_ne hne.symm]
      exact hready
    exact (hslots.run hnextLive).setProc hold hold rfl rfl

theorem SchedInvariant.processYield (h : SchedInvariant live s) (cpu : ProcessContext) :
    SchedInvariant live { s with table := s.table.processYield cpu } :=
  ⟨h.running.processYield cpu, h.slots.processYield h.running cpu⟩

end Calls

/-! ### `process_create` -/

section Calls

variable {σ : Type*} {ops : HeapOps σ} {sym : Symbols} {live : σ → Set ℕ} {s s' : System σ}
  {entry arg : ℕ} {slot : Option Slot}

/-- **`process_create` fails and leaves the table alone, or fills an unused slot** with a new
process. -/
theorem processCreate_cases (h : s.processCreate ops sym entry arg = some (slot, s')) :
    (slot = none ∧ s'.table = s.table ∧ s'.created = s.created ∧
      (s'.heap = s.heap ∨ ops.malloc s.heap stackSize = some (0, s'.heap))) ∨
    ∃ idx stack heap, slot = some idx ∧ ¬(s.table.procs idx).Live ∧ stack ≠ 0 ∧
      ops.malloc s.heap stackSize = some (stack, heap) ∧
      s' = ⟨{ s.table.setProc idx (System.newProcess sym s.table.nextPid stack entry arg) with
        nextPid := u64 (s.table.nextPid + 1) }, heap, s.created + 1⟩ := by
  rw [System.processCreate] at h
  split at h
  case h_1 =>
    obtain ⟨rfl, rfl⟩ := Prod.mk.inj (Option.some.inj h)
    exact Or.inl ⟨rfl, rfl, rfl, Or.inl rfl⟩
  case h_2 idx hidx =>
    split at h
    case h_1 => cases h
    case h_2 stack heap hmalloc =>
      split at h
      case isTrue hzero =>
        obtain ⟨rfl, rfl⟩ := Prod.mk.inj (Option.some.inj h)
        exact Or.inl ⟨rfl, rfl, rfl, Or.inr (hzero ▸ hmalloc)⟩
      case isFalse hne =>
        obtain ⟨rfl, rfl⟩ := Prod.mk.inj (Option.some.inj h)
        have hunused := of_decide_eq_true (ProcessTable.firstSlot_some hidx)
        exact Or.inr ⟨idx, stack, heap, rfl, fun hlive ↦ hlive hunused, hne, hmalloc, rfl⟩

/-- A create keeps the slots: the new one has a stack and a number that no other slot has. -/
theorem Slots.processCreate (h : Slots (live s.heap) s.created s.table)
    (hmalloc : MallocSafe ops live stackSize s.heap)
    (hcreate : s.processCreate ops sym entry arg = some (slot, s')) :
    Slots (live s'.heap) s'.created s'.table := by
  rcases processCreate_cases hcreate with ⟨-, htable, hcreated, hheap⟩ |
    ⟨idx, stack, heap, -, -, hne, hcall, rfl⟩
  · have hlive : live s.heap ⊆ live s'.heap := by
      rcases hheap with hheap | hcall
      · rw [hheap]
      · exact (hmalloc hcall).1
    rw [htable, hcreated]
    exact h.congr hlive (fun _ ↦ ⟨Iff.rfl, rfl, rfl⟩) rfl
  · obtain ⟨hlive, hnew⟩ := hmalloc hcall
    exact h.create (p := System.newProcess sym s.table.nextPid stack entry arg)
      (fun h ↦ nomatch h) rfl hne (hnew hne).1 (hnew hne).2 hlive

/-- A new process does not get a stack that is allocated already. -/
theorem processCreate_avoids (hmalloc : MallocSafe ops live stackSize s.heap)
    (hcreate : s.processCreate ops sym entry arg = some (slot, s')) {q : ℕ}
    (hq : q ∈ live s.heap) (havoid : ∀ i, (s.table.procs i).Live → (s.table.procs i).stack ≠ q) :
    q ∈ live s'.heap ∧ ∀ i, (s'.table.procs i).Live → (s'.table.procs i).stack ≠ q := by
  rcases processCreate_cases hcreate with ⟨-, htable, -, hheap⟩ |
    ⟨idx, stack, heap, -, -, hne, hcall, rfl⟩
  · rw [htable]
    refine ⟨?_, havoid⟩
    rcases hheap with hheap | hcall
    · rwa [hheap]
    · exact (hmalloc hcall).1 hq
  · obtain ⟨hlive, hnew⟩ := hmalloc hcall
    refine ⟨hlive hq, fun i hi ↦ ?_⟩
    dsimp only at hi ⊢
    by_cases hidx : i = idx
    · rw [hidx, ProcessTable.setProc_self]
      rintro rfl
      exact (hnew hne).1 hq
    · rw [ProcessTable.setProc_of_ne hidx] at hi ⊢
      exact havoid i hi

/-- `process_create` runs nothing. -/
theorem processCreate_running (hcreate : s.processCreate ops sym entry arg = some (slot, s')) :
    (RunningOk s.table → RunningOk s'.table) ∧ (NoneRunning s.table → NoneRunning s'.table) ∧
      s'.table.current = s.table.current ∧ s'.table.started = s.table.started ∧
      ∀ idx, slot = some idx → (s'.table.procs idx).state = .ready := by
  rcases processCreate_cases hcreate with ⟨hslot, htable, -, -⟩ |
    ⟨idx, stack, heap, hslot, hunused, -, -, rfl⟩
  · rw [htable]
    exact ⟨id, id, rfl, rfl, fun idx h ↦ by rw [hslot] at h; cases h⟩
  · have hnot : (s.table.procs idx).state ≠ .running := fun h ↦
      hunused (ProcessTable.live_of_state (by decide) h)
    refine ⟨fun h ↦ h.setProc hnot (fun h ↦ nomatch h), fun h ↦ h.setProc (fun h ↦ nomatch h),
      rfl, rfl, ?_⟩
    rintro idx' h
    obtain rfl := Option.some.inj (hslot.symm.trans h)
    exact congrArg Process.state ProcessTable.setProc_self

/-- **A create keeps the invariant**, whether it succeeds or not. -/
theorem SchedInvariant.processCreate (h : SchedInvariant live s)
    (hmalloc : MallocSafe ops live stackSize s.heap)
    (hcreate : s.processCreate ops sym entry arg = some (slot, s')) : SchedInvariant live s' :=
  ⟨(processCreate_running hcreate).1 h.running, h.slots.processCreate hmalloc hcreate⟩

/-! ### `scheduler_start` -/

/-- **`scheduler_start` does nothing, fails, or runs a ready slot**; before that it creates an idle
process if no slot is ready. -/
theorem schedulerStart_cases (h : s.schedulerStart ops sym = some s') :
    (s.table.started = true ∧ s' = s) ∨
    s.table.started = false ∧ ∃ s₁,
      (s₁ = s ∨ ∃ slot, s.processCreate ops sym sym.idleProcess 0 = some (slot, s₁)) ∧
      (s' = s₁ ∨ ∃ first, (s₁.table.procs first).state = .ready ∧
        s' = { s₁ with table := { s₁.table.run first with started := true } }) := by
  have hfirst : ∀ s₁ : System σ, s₁.startFirst = s₁ ∨
      ∃ first, (s₁.table.procs first).state = .ready ∧
        s₁.startFirst = { s₁ with table := { s₁.table.run first with started := true } } := by
    intro s₁
    rw [System.startFirst]
    split
    case h_1 => exact Or.inl rfl
    case h_2 first hfirst =>
      exact Or.inr ⟨first, of_decide_eq_true (ProcessTable.firstSlot_some hfirst), rfl⟩
  rw [System.schedulerStart] at h
  split at h
  case isTrue hstarted => exact Or.inl ⟨hstarted, (Option.some.inj h).symm⟩
  case isFalse hstarted =>
    dsimp only at h
    split at h
    case isTrue =>
      obtain ⟨⟨slot, s₁⟩, hcreate, rfl⟩ := Option.map_eq_some_iff.1 h
      exact Or.inr ⟨Bool.eq_false_iff.2 hstarted, s₁, Or.inr ⟨slot, hcreate⟩, hfirst s₁⟩
    case isFalse =>
      rw [← Option.some.inj h]
      exact Or.inr ⟨Bool.eq_false_iff.2 hstarted, s, Or.inl rfl, hfirst s⟩

/-- `scheduler_start` runs one slot, or leaves the scheduler stopped. -/
theorem RunningOk.schedulerStart (h : RunningOk s.table)
    (hstart : s.schedulerStart ops sym = some s') : RunningOk s'.table := by
  rcases schedulerStart_cases hstart with ⟨-, rfl⟩ | ⟨hstopped, s₁, hs₁, hs'⟩
  · exact h
  have h₁ : RunningOk s₁.table ∧ s₁.table.started = false := by
    rcases hs₁ with rfl | ⟨slot, hcreate⟩
    · exact ⟨h, hstopped⟩
    · exact ⟨(processCreate_running hcreate).1 h,
        (processCreate_running hcreate).2.2.2.1.trans hstopped⟩
  obtain ⟨h₁, hstopped₁⟩ := h₁
  rcases hs' with rfl | ⟨first, -, rfl⟩
  · exact h₁
  · have hnone : NoneRunning s₁.table := by
      rcases h₁ with ⟨-, -, hnone⟩ | ⟨hstarted, -⟩
      · exact hnone
      · rw [hstopped₁] at hstarted
        cases hstarted
    exact Or.inr ⟨rfl, first, rfl, hnone.run⟩

/-- **So does the start**, which may create an idle process before it runs a slot. -/
theorem SchedInvariant.schedulerStart (h : SchedInvariant live s)
    (hmalloc : MallocSafe ops live stackSize s.heap) (hstart : s.schedulerStart ops sym = some s') :
    SchedInvariant live s' := by
  refine ⟨h.running.schedulerStart hstart, ?_⟩
  rcases schedulerStart_cases hstart with ⟨-, rfl⟩ | ⟨-, s₁, hs₁, hs'⟩
  · exact h.slots
  have hslots : Slots (live s₁.heap) s₁.created s₁.table := by
    rcases hs₁ with rfl | ⟨slot, hcreate⟩
    · exact h.slots
    · exact h.slots.processCreate hmalloc hcreate
  rcases hs' with rfl | ⟨first, hready, rfl⟩
  · exact hslots
  · exact (hslots.run (ProcessTable.live_of_state (by decide) hready)).congr (fun _ hx ↦ hx)
      (fun _ ↦ ⟨Iff.rfl, rfl, rfl⟩) rfl

/-! ### `process_exit` -/

/-- **`process_exit` in its stages**: the stack is freed, the slot cleared, the next process
picked. -/
theorem processExit_cases (h : s.processExit ops sym = some s') :
    (s.table.current = none ∧ s' = s) ∨
    ∃ c s₁ next s₂, s.table.current = some c ∧ s.exitFree ops c = some s₁ ∧
      (s₁.exitClear c).exitPick ops sym c = some (next, s₂) ∧ s' = s₂.exitSwitch next := by
  rw [System.processExit] at h
  split at h
  case h_1 hcurrent => exact Or.inl ⟨hcurrent, (Option.some.inj h).symm⟩
  case h_2 c hcurrent =>
    obtain ⟨s₁, hs₁, h⟩ := Option.bind_eq_some_iff.1 h
    obtain ⟨⟨next, s₂⟩, hpick, h⟩ := Option.bind_eq_some_iff.1 h
    exact Or.inr ⟨c, s₁, next, s₂, hcurrent, hs₁, hpick, (Option.some.inj h).symm⟩

/-- The first stage frees the stack, or nothing if there is none. -/
theorem exitFree_cases {c : Slot} (h : s.exitFree ops c = some s') :
    s'.table = s.table ∧ s'.created = s.created ∧
      ((s.table.procs c).stack = 0 ∧ s'.heap = s.heap ∨
        ops.free s.heap (s.table.procs c).stack = some s'.heap) := by
  rw [System.exitFree] at h
  split at h
  case isTrue =>
    obtain ⟨heap, hfree, rfl⟩ := Option.map_eq_some_iff.1 h
    exact ⟨rfl, rfl, Or.inr hfree⟩
  case isFalse hzero =>
    rw [← Option.some.inj h]
    exact ⟨rfl, rfl, Or.inl ⟨not_not.1 hzero, rfl⟩⟩

/-- The third stage finds a slot that is ready, or creates an idle process. -/
theorem exitPick_cases {c : Slot} {next : Option Slot}
    (h : s.exitPick ops sym c = some (next, s')) :
    (∃ n, next = some n ∧ (s.table.procs n).Live ∧ n ≠ c ∧ s' = s) ∨
      s.processCreate ops sym sym.idleProcess 0 = some (next, s') := by
  rw [System.exitPick] at h
  split at h
  case h_1 n hn =>
    obtain ⟨rfl, rfl⟩ := Prod.mk.inj (Option.some.inj h)
    obtain ⟨hstate, hne⟩ := by simpa using List.find?_some hn
    refine Or.inl ⟨n, rfl, ?_, hne, rfl⟩
    rcases hstate with hstate | hstate
    exacts [ProcessTable.live_of_state (by decide) hstate,
      ProcessTable.live_of_state (by decide) hstate]
  case h_2 => exact Or.inr h

/-- The slot of the current process is cleared: nothing runs. -/
theorem RunningOk.exitClear (h : RunningOk s.table) {c : Slot} (hcurrent : s.table.current = some c)
    {s₁ : System σ} (hs₁ : s.exitFree ops c = some s₁) :
    NoneRunning (s₁.exitClear c).table ∧ s₁.table.started = true := by
  obtain ⟨htable, -, -⟩ := exitFree_cases hs₁
  rcases h with ⟨-, hnone, -⟩ | ⟨hstarted, d, hd, hrunning⟩
  · rw [hnone] at hcurrent
    cases hcurrent
  obtain rfl := Option.some.inj (hd.symm.trans hcurrent)
  rw [System.exitClear]
  dsimp only
  rw [htable]
  exact ⟨noneRunning_setProc hrunning fun h ↦ (nomatch h), hstarted⟩

/-- The process that is picked next is not running yet, and no other one is. -/
theorem exitPick_running {c : Slot} {next : Option Slot}
    (hnone : NoneRunning s.table) (hpick : s.exitPick ops sym c = some (next, s')) :
    NoneRunning s'.table ∧ s'.table.started = s.table.started ∧
      ∀ n, next = some n → (s'.table.procs n).Live := by
  rcases exitPick_cases hpick with ⟨n, rfl, hlive, -, rfl⟩ | hcreate
  · exact ⟨hnone, rfl, fun m hm ↦ Option.some.inj hm ▸ hlive⟩
  · obtain ⟨-, hrunning, -, hstarted, hready⟩ := processCreate_running hcreate
    exact ⟨hrunning hnone, hstarted, fun n hn ↦
      ProcessTable.live_of_state (by decide) (hready n hn)⟩

/-- `process_exit` runs another slot, or stops the scheduler. -/
theorem RunningOk.processExit (h : RunningOk s.table) (hexit : s.processExit ops sym = some s') :
    RunningOk s'.table := by
  rcases processExit_cases hexit with ⟨-, rfl⟩ | ⟨c, s₁, next, s₂, hcurrent, hs₁, hpick, rfl⟩
  · exact h
  obtain ⟨hnone, hstarted⟩ := h.exitClear hcurrent hs₁
  obtain ⟨hnone, hstarted', -⟩ := exitPick_running hnone hpick
  cases next with
  | none => exact Or.inl ⟨rfl, rfl, hnone⟩
  | some n => exact hnone.runningOk (hstarted'.trans hstarted)

/-- The stack of the current process is freed, and its slot cleared. -/
theorem SchedInvariant.exitClear (h : SchedInvariant live s) {c : Slot}
    (hcurrent : s.table.current = some c) {s₁ : System σ} (hs₁ : s.exitFree ops c = some s₁)
    (hfree : FreeSafe ops live s.heap (s.table.procs c).stack) :
    Slots (live s₁.heap) s₁.created (s₁.exitClear c).table := by
  obtain ⟨htable, hcreated, hheap⟩ := exitFree_cases hs₁
  have hlive : (s.table.procs c).Live := h.running.live_of_current hcurrent
  rw [System.exitClear, hcreated]
  dsimp only
  rw [htable]
  refine h.slots.clear (fun h ↦ h rfl) rfl rfl fun i hi hlive_i ↦ ?_
  obtain ⟨hne, hmem⟩ := h.slots.stack i hlive_i
  rcases hheap with ⟨hzero, -⟩ | hcall
  · exact absurd hzero (h.slots.stack c hlive).1
  · exact hfree hcall ⟨hmem, fun heq ↦ hi (h.slots.apart i c hlive_i hlive heq)⟩

/-- **An exit keeps the invariant**, over all its stages. -/
theorem SchedInvariant.processExit (h : SchedInvariant live s)
    (hexit : s.processExit ops sym = some s')
    (hfree : ∀ c, s.table.current = some c →
      FreeSafe ops live s.heap (s.table.procs c).stack ∧
        ∀ s₁, s.exitFree ops c = some s₁ → MallocSafe ops live stackSize s₁.heap) :
    SchedInvariant live s' := by
  refine ⟨h.running.processExit hexit, ?_⟩
  rcases processExit_cases hexit with ⟨-, rfl⟩ | ⟨c, s₁, next, s₂, hcurrent, hs₁, hpick, rfl⟩
  · exact h.slots
  obtain ⟨hfree, hmalloc⟩ := hfree c hcurrent
  have hslots := h.exitClear hcurrent hs₁ hfree
  have hlive := (exitPick_running (h.running.exitClear hcurrent hs₁).1 hpick).2.2
  have hslots₂ : Slots (live s₂.heap) s₂.created s₂.table := by
    rcases exitPick_cases hpick with ⟨n, -, -, -, rfl⟩ | hcreate
    · exact hslots
    · exact Slots.processCreate (s := s₁.exitClear c) hslots (hmalloc s₁ hs₁) hcreate
  cases next with
  | none => exact hslots₂.congr (fun _ hx ↦ hx) (fun _ ↦ ⟨Iff.rfl, rfl, rfl⟩) rfl
  | some n => exact hslots₂.run (hlive n rfl)

end Calls

/-! ### Every run

The allocator is a parameter with its contract (`Allocator`), so the invariant holds of runs over
any heap that keeps it; `valid` is what a heap has to satisfy for that. -/

section Runs

variable {σ : Type*} {ops : HeapOps σ} {sym : Symbols} {live : σ → Set ℕ} {valid : σ → Prop}
  {mayFree : σ → ℕ → Prop} {s s' : System σ}

theorem slots_boot (live : Set ℕ) : Slots live 0 (System.boot ()).table := by
  have hunused : ∀ i : Slot, ¬((System.boot ()).table.procs i).Live := fun _ h ↦ h rfl
  exact ⟨fun _ _ ↦ ⟨rfl, rfl⟩, fun i hi ↦ absurd hi (hunused i), fun i _ hi ↦ absurd hi (hunused i),
    ⟨fun _ ↦ 0, fun i hi ↦ absurd hi (hunused i), fun i _ hi ↦ absurd hi (hunused i)⟩, rfl⟩

/-- At the boot no slot is live and nothing runs. -/
theorem schedInvariant_boot (live : σ → Set ℕ) (heap : σ) :
    SchedInvariant live (System.boot heap) :=
  ⟨Or.inl ⟨rfl, rfl, fun _ h ↦ nomatch h⟩, slots_boot (live heap)⟩

/-- The current slot is live. -/
theorem SchedInvariant.live_of_current (h : SchedInvariant live s) {c : Slot}
    (hc : s.table.current = some c) : (s.table.procs c).Live :=
  h.running.live_of_current hc

/-- **One call**, over any heap, leaves one slot running, or none. -/
theorem RunningOk.step (h : RunningOk s.table) {a : SchedCall} (hstep : SchedStep ops sym s a s') :
    RunningOk s'.table := by
  cases hstep with
  | create hcreate => exact (processCreate_running hcreate).1 h
  | start hstart => exact h.schedulerStart hstart
  | yield => exact h.processYield _
  | exit hexit => exact h.processExit hexit

namespace Contract

/-- A call of `process_create` leaves the heap valid. -/
theorem processCreate (hC : Contract ops live stackSize valid mayFree) (h : valid s.heap)
    {entry arg : ℕ} {slot : Option Slot}
    (hcreate : s.processCreate ops sym entry arg = some (slot, s')) : valid s'.heap := by
  rcases processCreate_cases hcreate with ⟨-, -, -, hheap | hcall⟩ |
    ⟨idx, stack, heap, -, -, -, hcall, rfl⟩
  · rwa [hheap]
  · exact hC.malloc_valid h hcall
  · exact hC.malloc_valid h hcall

/-- So does the freeing of the current stack, where it is allowed. -/
theorem exitFree (hC : Contract ops live stackSize valid mayFree) (hvalid : valid s.heap)
    (h : SchedInvariant live s) {c : Slot} (hc : s.table.current = some c)
    (hmay : mayFree s.heap (s.table.procs c).stack) (hs' : s.exitFree ops c = some s') :
    valid s'.heap := by
  rcases exitFree_cases hs' with ⟨-, -, ⟨-, hheap⟩ | hcall⟩
  · rwa [hheap]
  · exact hC.free_valid hvalid (h.slots.stack c (h.live_of_current hc)).2 hmay hcall

/-- **One call keeps the invariant**, and leaves the heap valid. -/
theorem step (hC : Contract ops live stackSize valid mayFree) {a : SchedCall}
    (hI : SchedInvariant live s ∧ valid s.heap) (hstep : SchedStep ops sym s a s')
    (hguard : a = .exit → ∀ c, s.table.current = some c →
      mayFree s.heap (s.table.procs c).stack) :
    SchedInvariant live s' ∧ valid s'.heap := by
  obtain ⟨h, hvalid⟩ := hI
  cases hstep with
  | create hcreate =>
    exact ⟨h.processCreate (hC.malloc_safe hvalid) hcreate, hC.processCreate hvalid hcreate⟩
  | start hstart =>
    refine ⟨h.schedulerStart (hC.malloc_safe hvalid) hstart, ?_⟩
    rcases schedulerStart_cases hstart with ⟨-, rfl⟩ | ⟨-, s₁, hs₁, hs'⟩
    · exact hvalid
    have h₁ : valid s₁.heap := by
      rcases hs₁ with rfl | ⟨slot, hcreate⟩
      exacts [hvalid, hC.processCreate hvalid hcreate]
    rcases hs' with rfl | ⟨first, -, rfl⟩
    exacts [h₁, h₁]
  | yield => exact ⟨h.processYield _, hvalid⟩
  | exit hexit =>
    refine ⟨h.processExit hexit fun c hc ↦ ⟨?_, fun s₁ hs₁ ↦ ?_⟩, ?_⟩
    · exact hC.free_safe hvalid (h.slots.stack c (h.live_of_current hc)).2 (hguard rfl c hc)
    · exact hC.malloc_safe (hC.exitFree hvalid h hc (hguard rfl c hc) hs₁)
    rcases processExit_cases hexit with ⟨-, rfl⟩ | ⟨c, s₁, next, s₂, hcurrent, hs₁, hpick, rfl⟩
    · exact hvalid
    have hvalid₁ := hC.exitFree hvalid h hcurrent (hguard rfl c hcurrent) hs₁
    have hvalid₂ : valid s₂.heap := by
      rcases exitPick_cases hpick with ⟨n, -, -, -, rfl⟩ | hcreate
      exacts [hvalid₁, hC.processCreate (s := s₁.exitClear c) hvalid₁ hcreate]
    cases next <;> exact hvalid₂

end Contract

/-- The process table as the rest of the kernel sees it. -/
structure TableSound (live : Set ℕ) (created : ℕ) (t : ProcessTable) : Prop where
  running : (t.started = false ∧ t.current = none ∧ ∀ i, (t.procs i).state ≠ .running) ∨
    (t.started = true ∧ ∃ c, t.current = some c ∧ ∀ i, (t.procs i).state = .running ↔ i = c)
  pids : created < 2 ^ 64 → ∀ i, (t.procs i).Live → 0 < (t.procs i).pid ∧
    ∀ j, (t.procs j).Live → (t.procs i).pid = (t.procs j).pid → i = j
  below : created < 2 ^ 64 - 1 → ∀ i, (t.procs i).Live → (t.procs i).pid < t.nextPid
  stack : ∀ i, (t.procs i).Live → (t.procs i).stack ≠ 0 ∧ (t.procs i).stack ∈ live ∧
    ∀ j, (t.procs j).Live → (t.procs i).stack = (t.procs j).stack → i = j
  unused : ∀ i, ¬(t.procs i).Live → (t.procs i).pid = 0 ∧ (t.procs i).stack = 0

theorem SchedInvariant.tableSound (h : SchedInvariant live s) :
    TableSound (live s.heap) s.created s.table := by
  obtain ⟨serial, hserial, hinj⟩ := h.slots.serial
  refine ⟨h.running, fun hbound i hi ↦ ?_, fun hbound i hi ↦ ?_, fun i hi ↦ ?_, h.slots.unused⟩
  · obtain ⟨hpos, hle, hpid⟩ := hserial i hi
    rw [hpid, u64_of_lt (by omega)]
    refine ⟨hpos, fun j hj heq ↦ hinj i j hi hj ?_⟩
    obtain ⟨-, hle', hpid'⟩ := hserial j hj
    rwa [hpid', u64_of_lt (by omega)] at heq
  · obtain ⟨-, hle, hpid⟩ := hserial i hi
    rw [hpid, u64_of_lt (by omega), h.slots.nextPid, u64_of_lt (by omega)]
    omega
  · obtain ⟨hne, hmem⟩ := h.slots.stack i hi
    exact ⟨hne, hmem, fun j hj heq ↦ h.slots.apart i j hi hj heq⟩

/-- **The process table is sound in every reachable state**, over any allocator that keeps the
contract: the running slot is the current one, live slots have pids and stacks of their own, unused
slots have none, and a `process_create` that fails leaves the table alone. Pids are below
`g_next_pid` until it wraps to zero. -/
theorem table_sound (A : Allocator σ) {heap : σ} (hheap : A.Valid heap) {calls : List SchedCall}
    (hrun : Run (SchedStep A.toHeapOps sym) (System.boot heap) calls s) :
    TableSound (A.live s.heap) s.created s.table ∧
      ∀ entry arg s', s.processCreate A.toHeapOps sym entry arg = some (none, s') →
        s'.table = s.table := by
  obtain ⟨h, -⟩ := hrun.invariant (I := fun s ↦ SchedInvariant A.live s ∧ A.Valid s.heap)
    (fun hI hstep ↦ (A.contract stackSize).step hI hstep fun _ _ _ ↦ trivial)
    ⟨schedInvariant_boot A.live heap, hheap⟩
  refine ⟨h.tableSound, fun entry arg s' hcreate ↦ ?_⟩
  rcases processCreate_cases hcreate with ⟨-, htable, -, -⟩ | ⟨idx, stack, heap, hslot, -⟩
  · exact htable
  · cases hslot

end Runs

/-! ### Three processes -/

/-- A heap that always has a stack to give: the address of the next one. -/
def ampleOps : HeapOps ℕ where
  malloc next _ := some (next + stackSize, next + stackSize)
  free next _ := some next

/-- It keeps the contract: allocated is every address up to the one given last. -/
def ample : Allocator ℕ where
  toHeapOps := ampleOps
  Valid _ := True
  live next := {p | 0 < p ∧ p ≤ next}
  contract _ :=
    { malloc_valid _ _ := trivial
      malloc_safe {next} _ p a' h := by
        cases h
        have hnew : next < next + stackSize := Nat.lt_add_of_pos_right (by decide)
        exact ⟨fun x hx ↦ ⟨hx.1, hx.2.trans hnew.le⟩, fun hp ↦
          ⟨fun hold ↦ absurd hold.2 hnew.not_ge, Nat.pos_of_ne_zero hp, Nat.le_refl _⟩⟩
      free_valid _ _ _ _ := trivial
      free_safe _ _ _ _ h _ hx := by
        cases h
        exact hx.1 }

/-- Addresses for the runs below. -/
def sampleSymbols : Symbols := ⟨0x104000, 0x104100⟩

/-- A list of calls over `ampleOps`, as a function. -/
def sampleCalls (s : System ℕ) (calls : List SchedCall) : Option (System ℕ) :=
  calls.foldlM (System.call ampleOps sampleSymbols) s

theorem sampleCalls_run {s t : System ℕ} {calls : List SchedCall} (h : t ∈ sampleCalls s calls) :
    Run (SchedStep ampleOps sampleSymbols) s calls t :=
  (Run.of_foldlM h).mono .of_call

/-- The calls that create three processes and start the scheduler. -/
def startThree : List SchedCall := [.create 0 0, .create 0 0, .create 0 0, .start]

/-- The general theorem where three processes have been created, the one in the middle has left, and
a fourth has its slot. -/
theorem table_sound_startThree : ∃ s,
    Run (SchedStep ampleOps sampleSymbols) (System.boot 0)
      (startThree ++ [.yield ⟨0, 0, 0, 0, 0, 0, 0, 0⟩, .exit, .create 0 0]) s ∧
    ((List.finRange maxProcesses).map fun i ↦ (s.table.procs i).pid) = [1, 4, 3, 0, 0, 0, 0, 0] ∧
    TableSound (ample.live s.heap) s.created s.table ∧
    ∀ entry arg s', s.processCreate ample.toHeapOps sampleSymbols entry arg = some (none, s') →
      s'.table = s.table := by
  obtain ⟨s, hs, hpids⟩ : ∃ s ∈ sampleCalls (System.boot 0)
      (startThree ++ [.yield ⟨0, 0, 0, 0, 0, 0, 0, 0⟩, .exit, .create 0 0]),
      ((List.finRange maxProcesses).map fun i ↦ (s.table.procs i).pid) =
        [1, 4, 3, 0, 0, 0, 0, 0] := by
    decide +kernel
  exact ⟨s, sampleCalls_run hs, hpids, table_sound ample trivial (sampleCalls_run hs)⟩

/-! ### Pids wrap -/

/-- The address of the only block of `oneBlock`. -/
def blockAddr : ℕ := 0xffff800000200018

/-- An allocator with one block, big enough for a stack; the heap is whether it is allocated. -/
def oneBlock : Allocator Bool where
  malloc allocated _ := some (if allocated then (0, true) else (blockAddr, true))
  free allocated p := some (if p = blockAddr then false else allocated)
  Valid _ := True
  live allocated := {p | allocated = true ∧ p = blockAddr}
  contract _ :=
    { malloc_valid _ _ := trivial
      malloc_safe {a} _ p a' h := by cases a <;> cases h <;> simp [blockAddr]
      free_valid _ _ _ _ := trivial
      free_safe _ hp _ _ _ _ hx := absurd (hx.1.2.trans hp.2.symm) hx.2 }

/-- The idle process as it is created for the `n`-th time, with its stack at `blockAddr`. -/
def idleProcess (n : ℕ) : Process :=
  System.newProcess sampleSymbols (u64 n) blockAddr sampleSymbols.idleProcess 0

/-- The idle process alone, created `n + 1` times. -/
def idleOnly {σ : Type*} (heap : σ) (n : ℕ) : System σ where
  table :=
    { procs := Function.update (fun _ ↦ .zeroed) 0 { idleProcess (n + 1) with state := .running }
      current := some 0
      nextPid := u64 (n + 2)
      started := true }
  heap := heap
  created := n + 1

section Idle

variable {σ : Type*} {ops : HeapOps σ} {heap heap' : σ}

/-- The idle process on its way out: its slot is cleared. -/
def idleCleared (heap : σ) (n : ℕ) : System σ := (idleOnly heap n).exitClear 0

theorem idle_start (hmalloc : ops.malloc heap stackSize = some (blockAddr, heap')) :
    SchedStep ops sampleSymbols (System.boot heap) .start (idleOnly heap' 0) := by
  have hcreate : (System.boot heap).processCreate ops sampleSymbols sampleSymbols.idleProcess 0 =
      some (some 0, ⟨{ (System.boot heap).table.setProc 0 (idleProcess 1) with
        nextPid := u64 (1 + 1) }, heap', 1⟩) := by
    have hslot : (System.boot heap).table.allocSlot = some 0 := rfl
    have hheap : ops.malloc (System.boot heap).heap stackSize = some (blockAddr, heap') := hmalloc
    rw [System.processCreate, hslot]
    dsimp only
    rw [hheap]
    rfl
  have hstart : (System.boot heap).schedulerStart ops sampleSymbols =
      ((System.boot heap).processCreate ops sampleSymbols
        sampleSymbols.idleProcess 0).map fun r ↦ r.2.startFirst := rfl
  refine .start ?_
  rw [hstart, hcreate]
  refine congrArg some (congrArg (System.mk · heap' 1) ?_)
  refine congrArg (ProcessTable.mk · (some 0) 2 true) ?_
  exact Function.update_idem _ _ _

theorem idle_free {n : ℕ} (hfree : ops.free heap blockAddr = some heap') :
    (idleOnly heap n).exitFree ops 0 = some (idleOnly heap' n) := by
  have hstack : ((idleOnly heap n).table.procs 0).stack = blockAddr := rfl
  have hheap : ops.free (idleOnly heap n).heap blockAddr = some heap' := hfree
  rw [System.exitFree, hstack, if_pos (by decide), hheap]
  rfl

/-- No other process is left, so the idle process is created again, in the slot just cleared. -/
theorem idle_pick {n : ℕ} (hmalloc : ops.malloc heap stackSize = some (blockAddr, heap')) :
    (idleCleared heap n).exitPick ops sampleSymbols 0 = some (some 0,
      ⟨{ (idleCleared heap n).table.setProc 0 (idleProcess (n + 2)) with
        nextPid := u64 (u64 (n + 2) + 1) }, heap', n + 2⟩) := by
  have hpick : (idleCleared heap n).exitPick ops sampleSymbols 0 =
      (idleCleared heap n).processCreate ops sampleSymbols sampleSymbols.idleProcess 0 := rfl
  have hslot : (idleCleared heap n).table.allocSlot = some 0 := rfl
  have hheap : ops.malloc (idleCleared heap n).heap stackSize = some (blockAddr, heap') := hmalloc
  rw [hpick, System.processCreate, hslot]
  dsimp only
  rw [hheap]
  rfl

/-- The exit of the only process creates the idle process again. -/
theorem idle_exit {n : ℕ} (heap₁ : σ) (hfree : ops.free heap blockAddr = some heap₁)
    (hmalloc : ops.malloc heap₁ stackSize = some (blockAddr, heap')) :
    SchedStep ops sampleSymbols (idleOnly heap n) .exit (idleOnly heap' (n + 1)) := by
  have hexit : (idleOnly heap n).processExit ops sampleSymbols =
      ((idleOnly heap n).exitFree ops 0).bind fun s ↦
        ((s.exitClear 0).exitPick ops sampleSymbols 0).bind fun r ↦
          some (r.2.exitSwitch r.1) := rfl
  have hpid : u64 (u64 (n + 2) + 1) = u64 (n + 3) := by
    simp only [u64]
    omega
  refine .exit ?_
  rw [hexit, idle_free hfree, Option.bind_some, show (idleOnly heap₁ n).exitClear 0 =
    idleCleared heap₁ n from rfl, idle_pick hmalloc, hpid]
  refine congrArg some (congrArg (System.mk · heap' (n + 2)) ?_)
  refine congrArg (ProcessTable.mk · (some 0) (u64 (n + 3)) true) ?_
  refine (Function.update_idem _ _ _).trans ?_
  refine (Function.update_idem _ _ _).trans ?_
  exact Function.update_idem _ _ _

end Idle

/-- The scheduler with an idle process alone, which exits any number of times. -/
theorem idleOnly_run (n : ℕ) : Run (SchedStep oneBlock.toHeapOps sampleSymbols)
    (System.boot false) (.start :: List.replicate n .exit) (idleOnly true n) := by
  induction n with
  | zero => exact Run.single (idle_start rfl)
  | succ n ih =>
    rw [List.replicate_succ', ← List.cons_append]
    exact ih.snoc (idle_exit false rfl rfl)

/-- After `2 ^ 64 - 1` creates `g_next_pid` is `0`, and the pid of the live process is not below
it. -/
theorem pid_not_below_nextPid : ∃ s, Run (SchedStep oneBlock.toHeapOps sampleSymbols)
      (System.boot false) (.start :: List.replicate (2 ^ 64 - 2) .exit) s ∧
    s.created < 2 ^ 64 ∧ ∃ i, (s.table.procs i).Live ∧
      ¬(s.table.procs i).pid < s.table.nextPid := by
  have hnext : (idleOnly true (2 ^ 64 - 2)).table.nextPid = 0 := by decide
  refine ⟨_, idleOnly_run _, by decide, 0, (fun h ↦ nomatch h), ?_⟩
  rw [hnext]
  exact Nat.not_lt_zero _

end LightNight
