import LightNightOS.Memory.HeldHeap
import LightNightOS.Scheduler.TableInvariant

/-!
# Stacks on the kernel's heap

The scheduler over `malloc` and `free` of the kernel. The blocks allocated are the blocks in use on
the block list (`MemoryState.inUse`).

On consecutive pages the kernel's heap keeps the whole contract (`kernelAllocator`), so everything
`TableInvariant` says holds of it.

`process_exit` runs on the stack of the exiting process until it switches away from it. It frees
that stack first. `stack_kept_iff` is the exact condition under which the stack stays allocated
through all the stages of the call: there is no current process, or `free` rejects the stack as out
of its range. Where it fails the block is free while code still runs on it, and
`idle_stack_is_freed_stack` shows it handed out again in the same call.
-/

namespace LightNight

open Interval BlockHeap Transition

/-! ### The heap as an allocator

The contract has to hold of every call that a run may make. On consecutive pages the heap stays held
whatever is freed, so nothing about the scheduler has to be known. -/

/-- `malloc` and `free` of the kernel. -/
def kernelOps : HeapOps MemoryState := ⟨MemoryState.malloc, MemoryState.free⟩

theorem kernelOps_malloc : kernelOps.malloc = MemoryState.malloc := rfl

theorem kernelOps_free : kernelOps.free = MemoryState.free := rfl

section Contract

variable {s s' : MemoryState} {h : BlockHeap} {n k p q : ℕ}

/-- `malloc` of the kernel keeps its side of the contract on every heap that is held. -/
theorem HoldsHeap.mallocSafe (hs : HoldsHeap s h) (hk : k ≤ n) :
    MallocSafe kernelOps (MemoryState.inUse k) n s := by
  intro p s' hmalloc
  refine ⟨fun q hq ↦ hs.inUse_malloc hmalloc hq, fun hp ↦ ⟨hs.notMem_inUse hmalloc hp, ?_⟩⟩
  exact MemoryState.inUse_anti hk (hs.mem_inUse_malloc hmalloc hp)

/-- What is in use after `free` of a block in use: everything else, and the block itself exactly if
`free` rejects it. -/
theorem HoldsHeap.mem_inUse_free (hs : HoldsHeap s h) (hp : p ∈ s.inUse k)
    (hfree : s.free p = some s') :
    q ∈ s'.inUse k ↔ q ∈ s.inUse k ∧ (q = p → ¬h.Accepts p) := by
  obtain ⟨s₁, hfree', hr⟩ := hs.exists_free hp
  obtain rfl := Option.some.inj (hfree.symm.trans hfree')
  rw [hr.mem_inUse, hs.represents.mem_inUse]
  by_cases haccept : h.Accepts p
  · rw [used_free haccept]
    simp only [List.mem_filter, ne_eq, decide_not, Bool.not_eq_true', decide_eq_false_iff_not,
      haccept, not_true_eq_false, imp_false]
    grind
  · rw [BlockHeap.free, if_neg haccept]
    simp [haccept]

/-- So does `free`, for a pointer to a block in use. -/
theorem HoldsHeap.freeSafe (hs : HoldsHeap s h) (hp : p ∈ s.inUse k) :
    FreeSafe kernelOps (MemoryState.inUse k) s p := by
  intro s' hfree q hq
  exact (hs.mem_inUse_free hp hfree).2 ⟨hq.1, fun heq ↦ absurd heq hq.2⟩

/-- The range check of `free`, on the state and on the block heap. -/
theorem Represents.accepts_iff (hr : Represents s h) (hp : p ≠ 0) : h.Accepts p ↔ s.InRange p := by
  rw [Accepts, MemoryState.InRange, ← hr.rangeStart, ← hr.rangeEnd]
  exact ⟨fun h ↦ ⟨hp, h⟩, fun h ↦ h.2⟩

/-- A block rejected by `free` is left alone. -/
theorem free_of_not_inRange (h : ¬s.InRange p) : s.free p = some s := by
  rw [MemoryState.free]
  split
  case isTrue => rfl
  case isFalse hne =>
    refine if_pos ?_
    rw [MemoryState.InRange] at h
    omega

end Contract

/-- The kernel keeps the contract of `malloc` on valid pages, and that of `free` where `free`
rejects the block. -/
theorem kernel_contract : Contract kernelOps (MemoryState.inUse stackSize) stackSize
    (fun s ↦ ∃ h, HoldsHeap s h) fun s p ↦ ¬s.InRange p where
  malloc_valid := fun ⟨_, hs⟩ hmalloc ↦ ⟨_, (hs.malloc (n := stackSize) hmalloc).1⟩
  malloc_safe := fun ⟨_, hs⟩ ↦ hs.mallocSafe le_rfl
  free_valid := by
    rintro s s' p ⟨h, hs⟩ - hrange hfree
    rw [Option.some.inj (hfree.symm.trans (free_of_not_inRange hrange))]
    exact ⟨h, hs⟩
  free_safe := fun ⟨_, hs⟩ hp _ ↦ hs.freeSafe hp

/-- A heap all of whose pages, taken or not, are consecutive. -/
def ConsecutiveHeap (base : ℕ) (s : MemoryState) : Prop :=
  ∃ h, HoldsHeap s h ∧ Tiled base h ∧ Consecutive base (h.taken ++ h.supply)

/-- **The kernel's heap on consecutive pages is an allocator.** -/
def kernelAllocator (base : ℕ) : Allocator MemoryState where
  toHeapOps := kernelOps
  Valid := ConsecutiveHeap base
  live := MemoryState.inUse 0
  contract n :=
    { malloc_valid := by
        rintro s s' p ⟨h, hs, htiled, hpages⟩ hmalloc
        have hall := (h.after_pages (.malloc n)).1
        have htaken : Consecutive base (h.malloc n).2.taken :=
          hpages.of_prefix (hall ▸ List.prefix_append _ _)
        exact ⟨_, (hs.malloc hmalloc).1, tiled_malloc htiled htaken.pagesFrom, hall ▸ hpages⟩
      malloc_safe := fun ⟨_, hs, _⟩ ↦ hs.mallocSafe (Nat.zero_le n)
      free_valid := by
        rintro s s' p ⟨h, hs, htiled, hpages⟩ hp - hfree
        obtain ⟨s₁, hfree', hr⟩ := hs.exists_free hp
        obtain rfl := Option.some.inj (hfree.symm.trans hfree')
        have hall : (h.free p).taken ++ (h.free p).supply = h.taken ++ h.supply := by
          rw [BlockHeap.free]
          split <;> rfl
        exact ⟨h.free p, ⟨hr, wellFormed_free hs.wellFormed fun _ ↦ htiled.holesGuarded p,
          hall ▸ hs.pages⟩, tiled_free htiled p, hall ▸ hpages⟩
      free_safe := fun ⟨_, hs, _⟩ hp _ ↦ hs.freeSafe hp }

/-! ### The stages of `process_exit`

The stack is needed until the switch at the end of the call. `ExitStage` lists the states between
the stages, in each of which the code still runs on the stack of the process that exits. -/

/-- The states `process_exit` goes through with `c` the current slot, up to the context switch that
leaves it. -/
inductive ExitStage {σ : Type*} (ops : HeapOps σ) (sym : Symbols) (s : System σ) (c : Slot) :
    System σ → Prop
  | entered : ExitStage ops sym s c s
  | freed {s₁ : System σ} : s.exitFree ops c = some s₁ → ExitStage ops sym s c s₁
  | cleared {s₁ : System σ} : s.exitFree ops c = some s₁ → ExitStage ops sym s c (s₁.exitClear c)
  | picked {s₁ s₂ : System σ} {next : Option Slot} : s.exitFree ops c = some s₁ →
      (s₁.exitClear c).exitPick ops sym c = some (next, s₂) → ExitStage ops sym s c s₂
  | switched {s₁ s₂ : System σ} {next : Option Slot} : s.exitFree ops c = some s₁ →
      (s₁.exitClear c).exitPick ops sym c = some (next, s₂) →
      ExitStage ops sym s c (s₂.exitSwitch next)

/-- The exiting process keeps its stack: in every stage its block is in use, and once the next
process is picked, idle or not, no live process owns a stack that overlaps it. -/
structure KeepsStack (sym : Symbols) (s : System MemoryState) (c : Slot) : Prop where
  inUse : ∀ s', ExitStage kernelOps sym s c s' → (s.table.procs c).stack ∈ s'.heap.inUse stackSize
  apart : ∀ s₁ next s₂, s.exitFree kernelOps c = some s₁ →
    (s₁.exitClear c).exitPick kernelOps sym c = some (next, s₂) →
    ∀ i, (s₂.table.procs i).Live →
      Disjoint (Set.Ico (s₂.table.procs i).stack ((s₂.table.procs i).stack + stackSize))
        (Set.Ico (s.table.procs c).stack ((s.table.procs c).stack + stackSize))

/-- The condition on a call: `process_exit` is called without a current process, or with one whose
stack `free` rejects as out of its range. -/
def ExitGuard (s : System MemoryState) : SchedCall → Prop
  | .exit => ∀ c, s.table.current = some c → ¬s.heap.InRange (s.table.procs c).stack
  | _ => True

section Exit

variable {sym : Symbols} {s s₁ s₂ : System MemoryState} {c : Slot}

/-- If `free` accepts the stack, it is free in the next stage. -/
theorem not_keepsStack {h : BlockHeap} (hs : HoldsHeap s.heap h)
    (hI : SchedInvariant (MemoryState.inUse stackSize) s) (hc : s.table.current = some c)
    (hrange : s.heap.InRange (s.table.procs c).stack) : ¬KeepsStack sym s c := by
  intro hkeeps
  obtain ⟨hne, hmem⟩ := hI.slots.stack c (hI.live_of_current hc)
  obtain ⟨heap, hfree, -⟩ := hs.exists_free hmem
  have hfreed : s.exitFree kernelOps c = some { s with heap := heap } := by
    rw [System.exitFree, if_pos hne]
    exact Option.map_eq_some_iff.2 ⟨heap, hfree, rfl⟩
  have hkept := (hs.mem_inUse_free hmem hfree).1 (hkeeps.inUse _ (.freed hfreed))
  exact hkept.2 rfl ((hs.represents.accepts_iff hne).2 hrange)

/-- If `free` rejects the stack, it stays in use through all the stages. -/
theorem keepsStack (hvalid : ∃ h, HoldsHeap s.heap h)
    (hI : SchedInvariant (MemoryState.inUse stackSize) s) (hc : s.table.current = some c)
    (hrange : ¬s.heap.InRange (s.table.procs c).stack) : KeepsStack sym s c := by
  obtain ⟨hne, hmem⟩ := hI.slots.stack c (hI.live_of_current hc)
  have hheap : ∀ {s₁}, s.exitFree kernelOps c = some s₁ →
      s₁.heap = s.heap ∧ s₁.table = s.table := by
    intro s₁ hs₁
    obtain ⟨htable, -, ⟨-, hheap⟩ | hfree⟩ := exitFree_cases hs₁
    · exact ⟨hheap, htable⟩
    · exact ⟨(Option.some.inj ((free_of_not_inRange hrange).symm.trans hfree)).symm, htable⟩
  have hpicked : ∀ {s₁ next s₂}, s.exitFree kernelOps c = some s₁ →
      (s₁.exitClear c).exitPick kernelOps sym c = some (next, s₂) →
      (s.table.procs c).stack ∈ s₂.heap.inUse stackSize ∧ (∃ h, HoldsHeap s₂.heap h) ∧
        ∀ i, (s₂.table.procs i).Live → (s₂.table.procs i).stack ∈ s₂.heap.inUse stackSize ∧
          (s₂.table.procs i).stack ≠ (s.table.procs c).stack := by
    intro s₁ next s₂ hs₁ hpick
    obtain ⟨heap₁, htable₁⟩ := hheap hs₁
    have hslots := hI.exitClear hc hs₁ (kernel_contract.free_safe hvalid hmem hrange)
    have havoid : ∀ i, ((s₁.exitClear c).table.procs i).Live →
        ((s₁.exitClear c).table.procs i).stack ≠ (s.table.procs c).stack := by
      intro i hi heq
      by_cases hic : i = c
      · rw [hic, System.exitClear, ProcessTable.setProc_self] at hi
        exact hi rfl
      · rw [System.exitClear] at hi heq
        dsimp only at hi heq
        rw [ProcessTable.setProc_of_ne hic, htable₁] at hi heq
        exact hic (hI.slots.apart i c hi (hI.live_of_current hc) heq)
    have hmem₁ : (s.table.procs c).stack ∈ (s₁.exitClear c).heap.inUse stackSize := heap₁ ▸ hmem
    have hvalid₁ : ∃ h, HoldsHeap (s₁.exitClear c).heap h := heap₁ ▸ hvalid
    rcases exitPick_cases hpick with ⟨n, -, -, -, rfl⟩ | hcreate
    · exact ⟨hmem₁, hvalid₁, fun i hi ↦ ⟨(hslots.stack i hi).2, havoid i hi⟩⟩
    · have hsafe : MallocSafe kernelOps (MemoryState.inUse stackSize) stackSize
          (s₁.exitClear c).heap := kernel_contract.malloc_safe hvalid₁
      obtain ⟨hmem₂, havoid₂⟩ := processCreate_avoids hsafe hcreate hmem₁ havoid
      have hslots₂ := Slots.processCreate (s := s₁.exitClear c) hslots hsafe hcreate
      exact ⟨hmem₂, kernel_contract.processCreate hvalid₁ hcreate,
        fun i hi ↦ ⟨(hslots₂.stack i hi).2, havoid₂ i hi⟩⟩
  refine ⟨fun s' hstage ↦ ?_, fun s₁ next s₂ hs₁ hpick i hi ↦ ?_⟩
  · cases hstage with
    | entered => exact hmem
    | freed hs₁ => rwa [(hheap hs₁).1]
    | cleared hs₁ => exact (hheap hs₁).1.symm ▸ hmem
    | picked hs₁ hpick => exact (hpicked hs₁ hpick).1
    | @switched s₁ s₂ next hs₁ hpick =>
      have hmem₂ := (hpicked hs₁ hpick).1
      cases next <;> exact hmem₂
  · obtain ⟨hmem₂, ⟨h, hs⟩, hlive⟩ := hpicked hs₁ hpick
    exact hs.inUse_disjoint (hlive i hi).1 hmem₂ (hlive i hi).2

end Exit

/-! ### Every run -/

/-- **A process keeps its stack exactly where `free` does not take it.** In every state reached by
calls that meet the condition, from the heap that `init_page` leaves, the current process would keep
its stack through `process_exit` if and only if the condition holds of that call: there is no
current process, or `free` rejects the stack. -/
theorem stack_kept_iff {sym : Symbols} {s₀ : MemoryState} (hs : Uninitialised s₀)
    {entries : List E820} (hmap : SoundMap entries) {calls : List SchedCall}
    {s : System MemoryState} (hrun : Run (Guarded ExitGuard (SchedStep kernelOps sym))
      (System.boot (initPage entries s₀).2) calls s) :
    (∀ c, s.table.current = some c → KeepsStack sym s c) ↔ ExitGuard s .exit := by
  obtain ⟨hI, hvalid⟩ := hrun.invariant
    (I := fun s ↦ SchedInvariant (MemoryState.inUse stackSize) s ∧ ∃ h, HoldsHeap s.heap h)
    (fun hI hstep ↦ kernel_contract.step hI hstep.2 fun ha ↦ by
      have hguard := hstep.1
      rwa [ha] at hguard)
    ⟨schedInvariant_boot _ _, initPage_holdsHeap hs hmap⟩
  refine ⟨fun hkeeps c hc hrange ↦ ?_, fun hguard c hc ↦ keepsStack hvalid hI hc (hguard c hc)⟩
  obtain ⟨h, hheld⟩ := hvalid
  exact not_keepsStack hheld hI hc hrange (hkeeps c hc)

/-! ### The idle process on the freed stack -/

/-- Its first block of the size of a stack. -/
theorem smallHeap_malloc : (smallHeap.malloc stackSize).1 = blockAddr ∧
    (smallHeap.malloc stackSize).2.blocks =
      [⟨0xffff800000200000, stackSize, false⟩, ⟨0xffff800000204018, 2080720, true⟩] := by
  decide +kernel

/-- On the small machine the scheduler starts with the idle process on the first block. -/
theorem smallMachine_start : ∃ heap, HoldsHeap heap (smallHeap.malloc stackSize).2 ∧
    SchedStep kernelOps sampleSymbols (System.boot (initPage smallMap .zeroed).2) .start
      (idleOnly heap 0) := by
  obtain ⟨heap, hmalloc, hheld⟩ := holdsHeap_smallHeap.exists_malloc stackSize
  rw [smallHeap_malloc.1] at hmalloc
  rw [← kernelOps_malloc] at hmalloc
  exact ⟨heap, hheld, idle_start hmalloc⟩

/-- On the small machine `free` accepts the stack, so `process_exit` does not keep it. -/
theorem stack_kept_iff_smallMachine : ∃ heap,
    (∀ c, (idleOnly heap 0).table.current = some c → KeepsStack sampleSymbols (idleOnly heap 0) c) ↔
      ExitGuard (idleOnly heap 0) .exit := by
  obtain ⟨heap, -, hstart⟩ := smallMachine_start
  have hguard : Guarded ExitGuard (SchedStep kernelOps sampleSymbols)
      (System.boot (initPage smallMap .zeroed).2) .start (idleOnly heap 0) := ⟨trivial, hstart⟩
  exact ⟨heap, stack_kept_iff uninitialised_zeroed soundMap_smallMap (Run.single hguard)⟩

/-- **The idle process on a freed stack.** The only process exits: its stack is free in the next
stage, and then handed out again as the stack of the new idle process. -/
theorem idle_stack_is_freed_stack : ∃ s, Run (SchedStep kernelOps sampleSymbols)
      (System.boot (initPage smallMap .zeroed).2) [.start] s ∧ s.table.current = some 0 ∧
    ∃ s₁ s₂, s.exitFree kernelOps 0 = some s₁ ∧
      (s.table.procs 0).stack ∉ s₁.heap.inUse stackSize ∧
      (s₁.exitClear 0).exitPick kernelOps sampleSymbols 0 = some (some 0, s₂) ∧
      (s₂.table.procs 0).stack = (s.table.procs 0).stack := by
  obtain ⟨heap, hheld, hstart⟩ := smallMachine_start
  have hmem : blockAddr ∈ heap.inUse stackSize := by
    refine hheld.represents.mem_inUse.2 ⟨⟨0xffff800000200000, stackSize, false⟩, ?_, rfl, le_rfl⟩
    exact mem_used.2 ⟨by simp [smallHeap_malloc.2], rfl⟩
  obtain ⟨heap₁, hfree, hr₁⟩ := hheld.exists_free hmem
  have haccept : (smallHeap.malloc stackSize).2.Accepts blockAddr := by decide +kernel
  have hheld₁ : HoldsHeap heap₁ ((smallHeap.malloc stackSize).2.free blockAddr) := by
    refine ⟨hr₁, wellFormed_free hheld.wellFormed fun _ ↦ leavesHolesGuarded_iff.1 ?_, ?_⟩
    · rw [smallHeap_malloc.2]
      decide
    · have hpages : ((smallHeap.malloc stackSize).2.free blockAddr).taken ++
          ((smallHeap.malloc stackSize).2.free blockAddr).supply =
            [0xffff800000200000, 0xffff800000400000] := by decide +kernel
      exact hpages ▸ smallPages_valid
  obtain ⟨heap₂, hmalloc, -⟩ := hheld₁.exists_malloc stackSize
  have hagain : (((smallHeap.malloc stackSize).2.free blockAddr).malloc stackSize).1 =
      blockAddr := by decide +kernel
  rw [hagain, ← kernelOps_malloc] at hmalloc
  have hfreed := (hheld.mem_inUse_free (q := blockAddr) hmem hfree).not.2 fun h ↦ h.2 rfl haccept
  rw [← kernelOps_free] at hfree
  refine ⟨_, Run.single hstart, rfl, _, _, idle_free hfree, hfreed, idle_pick hmalloc, rfl⟩

end LightNight
