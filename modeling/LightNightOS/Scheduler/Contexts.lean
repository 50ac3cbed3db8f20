import LightNightOS.Scheduler.TableInvariant

/-!
# The saved context of a suspended process

The contexts live in the slots of the table, and slots are used again. `Occupies` says that a slot
holds the process it held before, with the context that was saved in it: each call keeps that of
every live slot but the current one (`occupies_step`), since a process is created in a slot that is
not live, and a call saves a context, or clears a slot, only where the current process is.

A process first runs in `process_wrapper`, which does not get `entry` and its argument in registers
of its own but reads them back from the slot of `g_current`. They are still those of
`process_create`, whatever happened in other slots before the first dispatch (`context_private`).

* `occupies_step`, `occupies_run` — one call, and any calls while the slot is not current;
* `processYield_saves`, `Creates.freshProcess` — the two ways a context gets into a slot;
* `context_private` — what a process finds when it is run: the context that it saved, or the wrapper
  with its own entry and argument.
-/

namespace LightNight

open Transition

/-- `process_wrapper` up to its call of `entry`: the function it calls, and the argument. Without a
current process it returns. -/
def ProcessTable.processWrapper (t : ProcessTable) : Option (ℕ × ℕ) :=
  t.current.map fun c ↦ ((t.procs c).context.rbx, (t.procs c).context.r12)

/-- The slot holds the same live process in both tables, with the same context. -/
structure Occupies (i : Slot) (t u : ProcessTable) : Prop where
  live : (u.procs i).Live
  pid : (u.procs i).pid = (t.procs i).pid
  context : (u.procs i).context = (t.procs i).context
  stack : (u.procs i).stack = (t.procs i).stack

namespace Occupies

variable {i j : Slot} {t u v : ProcessTable}

theorem refl (h : (t.procs i).Live) : Occupies i t t :=
  ⟨h, rfl, rfl, rfl⟩

theorem trans (h : Occupies i t u) (h' : Occupies i u v) : Occupies i t v :=
  ⟨h'.live, h'.pid.trans h.pid, h'.context.trans h.context, h'.stack.trans h.stack⟩

theorem of_eq (h : (t.procs i).Live) (heq : u.procs i = t.procs i) : Occupies i t u :=
  ⟨heq ▸ h, by rw [heq], by rw [heq], by rw [heq]⟩

/-- Another slot is replaced. -/
theorem setProc (h : (t.procs i).Live) (hne : i ≠ j) (p : Process) : Occupies i t (t.setProc j p) :=
  of_eq h (ProcessTable.setProc_of_ne hne)

/-- The state of a slot is set. -/
theorem setState (h : (t.procs i).Live) {state : ProcState} (hstate : state ≠ .unused) :
    Occupies i t (t.setState j state) := by
  by_cases hij : i = j
  · subst hij
    rw [ProcessTable.setState]
    have hself :=
      ProcessTable.setProc_self (t := t) (i := i) (p := { t.procs i with state := state })
    exact ⟨by rw [hself]; exact hstate, by rw [hself], by rw [hself], by rw [hself]⟩
  · exact setProc h hij _

theorem run (h : (t.procs i).Live) : Occupies i t (t.run j) :=
  (of_eq (u := { t with current := some j }) h rfl).trans
    (setState (t := { t with current := some j }) h (by decide))

end Occupies

section Steps

variable {σ : Type*} {ops : HeapOps σ} {sym : Symbols} {s s' s₁ : System σ} {i : Slot}
  {entry arg : ℕ}

/-! ### What one call does to a live slot that is not current

Case by case: each call either leaves the slot alone or changes its state. A create looks for an
unused slot, so a live one is not its slot. -/

/-- A yield saves the context of the process that yields, and of no other. -/
theorem occupies_processYield {t : ProcessTable} (hlive : (t.procs i).Live)
    (hne : t.current ≠ some i) (cpu : ProcessContext) : Occupies i t (t.processYield cpu) := by
  rw [ProcessTable.processYield]
  split
  · exact .refl hlive
  split
  case h_1 => exact .refl hlive
  case h_2 c hcurrent =>
    have hic : i ≠ c := fun heq ↦ hne (heq ▸ hcurrent)
    have hready : Occupies i t
        (if (t.procs c).state = .running then t.setState c .ready else t) := by
      split
      exacts [.setProc hlive hic _, .refl hlive]
    generalize (if (t.procs c).state = .running then t.setState c .ready else t) = u at hready
    dsimp only
    split
    case h_1 => exact hready.trans (.setProc hready.live hic _)
    case h_2 next hnext =>
      split
      case isTrue => exact hready.trans (.setProc hready.live hic _)
      case isFalse =>
        have hrun : Occupies i t (u.run next) := hready.trans (.run hready.live)
        exact hrun.trans (.setProc hrun.live hic _)

/-- A new process does not go to a live slot. -/
theorem occupies_processCreate {slot : Option Slot} (hlive : (s.table.procs i).Live)
    (hcreate : s.processCreate ops sym entry arg = some (slot, s')) :
    Occupies i s.table s'.table := by
  rcases processCreate_cases hcreate
    with ⟨-, htable, -, -⟩ | ⟨idx, stack, heap, -, hunused, -, -, rfl⟩
  · rw [htable]
    exact .refl hlive
  · exact .of_eq hlive (ProcessTable.setProc_of_ne fun heq ↦ hunused (heq ▸ hlive))

/-- Starting the scheduler changes the states of slots, not their contexts. -/
theorem occupies_startFirst (hlive : (s.table.procs i).Live) :
    Occupies i s.table s.startFirst.table := by
  rw [System.startFirst]
  split
  case h_1 => exact .refl hlive
  case h_2 first _ =>
    exact (Occupies.run (j := first) hlive).trans (.of_eq (Occupies.run hlive).live rfl)

/-- Switching away from the cleared slot changes the states of slots only. -/
theorem occupies_exitSwitch (hlive : (s.table.procs i).Live) (next : Option Slot) :
    Occupies i s.table (s.exitSwitch next).table := by
  cases next with
  | none => exact .of_eq hlive rfl
  | some n => exact .run hlive

/-- Clearing the slot of the current process leaves the others alone. -/
theorem occupies_exitClear {c : Slot} (hlive : (s.table.procs i).Live) (hic : i ≠ c)
    (hs₁ : s.exitFree ops c = some s₁) : Occupies i s.table (s₁.exitClear c).table := by
  refine .of_eq hlive ((ProcessTable.setProc_of_ne hic).trans ?_)
  rw [(exitFree_cases hs₁).1]

/-- **One call** keeps the process, and the context, of a live slot that is not current. -/
theorem occupies_step {a : SchedCall} (hlive : (s.table.procs i).Live)
    (hne : s.table.current ≠ some i) (hstep : SchedStep ops sym s a s') :
    Occupies i s.table s'.table := by
  cases hstep with
  | create hcreate => exact occupies_processCreate hlive hcreate
  | start hstart =>
    rw [System.schedulerStart] at hstart
    split at hstart
    · exact Option.some.inj hstart ▸ .refl hlive
    dsimp only at hstart
    split at hstart
    · obtain ⟨⟨slot, s₁⟩, hcreate, rfl⟩ := Option.map_eq_some_iff.1 hstart
      have hcreated := occupies_processCreate hlive hcreate
      exact hcreated.trans (occupies_startFirst hcreated.live)
    · exact Option.some.inj hstart ▸ occupies_startFirst hlive
  | yield => exact occupies_processYield hlive hne _
  | exit hexit =>
    rcases processExit_cases hexit with ⟨-, rfl⟩ | ⟨c, s₁, next, s₂, hcurrent, hs₁, hpick, rfl⟩
    · exact .refl hlive
    have hcleared := occupies_exitClear hlive (fun heq ↦ hne (heq ▸ hcurrent)) hs₁
    have hpicked : Occupies i s.table s₂.table := by
      rcases exitPick_cases hpick with ⟨n, -, -, -, rfl⟩ | hcreate
      · exact hcleared
      · exact hcleared.trans (occupies_processCreate hcleared.live hcreate)
    exact hpicked.trans (occupies_exitSwitch hpicked.live next)

/-! ### Where processes come from

A slot becomes live through a create, which may be one of its own, or the one of an idle process
inside another call (`Creates`). From then on the pid says which process it is. -/

/-- The call creates a process in slot `i`: `process_create` itself, or the idle process where there
is nothing else to run. -/
inductive Creates (ops : HeapOps σ) (sym : Symbols) :
    System σ → SchedCall → Slot → ℕ → ℕ → System σ → Prop
  | create {s s' : System σ} {i : Slot} {entry arg : ℕ} :
      s.processCreate ops sym entry arg = some (some i, s') →
      Creates ops sym s (.create entry arg) i entry arg s'
  | start {s s₁ : System σ} {i : Slot} :
      s.schedulerStart ops sym = some s₁.startFirst →
      s.processCreate ops sym sym.idleProcess 0 = some (some i, s₁) →
      Creates ops sym s .start i sym.idleProcess 0 s₁.startFirst
  | exit {s s₁ s₂ : System σ} {c i : Slot} :
      s.processExit ops sym = some (s₂.exitSwitch (some i)) →
      s.table.current = some c → s.exitFree ops c = some s₁ →
      (s₁.exitClear c).processCreate ops sym sym.idleProcess 0 = some (some i, s₂) →
      Creates ops sym s .exit i sym.idleProcess 0 (s₂.exitSwitch (some i))

theorem Creates.step {a : SchedCall} (h : Creates ops sym s a i entry arg s') :
    SchedStep ops sym s a s' := by
  cases h with
  | create hcreate => exact .create hcreate
  | start hstart _ => exact .start hstart
  | exit hexit _ _ _ => exact .exit hexit

/-- Slot `i` holds a process as `process_create` makes it, with a stack of its own. -/
structure FreshProcess (sym : Symbols) (i : Slot) (entry arg : ℕ) (t : ProcessTable) : Prop where
  live : (t.procs i).Live
  context : ∃ pid, (t.procs i).context =
    (System.newProcess sym pid (t.procs i).stack entry arg).context

/-- A process that has not run yet is what it was created as. -/
theorem FreshProcess.occupies {t u : ProcessTable} (h : FreshProcess sym i entry arg t)
    (hsame : Occupies i t u) : FreshProcess sym i entry arg u := by
  obtain ⟨pid, hcontext⟩ := h.context
  exact ⟨hsame.live, pid, by rw [hsame.context, hsame.stack, hcontext]⟩

/-- `process_create` leaves a process that has not run yet. -/
theorem freshProcess_processCreate
    (hcreate : s.processCreate ops sym entry arg = some (some i, s')) :
    FreshProcess sym i entry arg s'.table := by
  rcases processCreate_cases hcreate with ⟨hnone, -⟩ | ⟨idx, stack, heap, hidx, -, -, -, rfl⟩
  · cases hnone
  · obtain rfl := Option.some.inj hidx
    have hself := ProcessTable.setProc_self (t := s.table) (i := i)
      (p := System.newProcess sym s.table.nextPid stack entry arg)
    refine ⟨?_, s.table.nextPid, ?_⟩ <;> dsimp only <;> rw [hself]
    · exact fun h ↦ nomatch h
    · rfl

theorem Creates.freshProcess {a : SchedCall} (h : Creates ops sym s a i entry arg s') :
    FreshProcess sym i entry arg s'.table := by
  cases h with
  | create hcreate => exact freshProcess_processCreate hcreate
  | start _ hcreate =>
    have hnew := freshProcess_processCreate hcreate
    exact hnew.occupies (occupies_startFirst hnew.live)
  | exit _ _ _ hcreate =>
    have hnew := freshProcess_processCreate hcreate
    exact hnew.occupies (occupies_exitSwitch hnew.live _)

/-- A slot that was not live before a create is live after it only if the process was created
there. -/
theorem processCreate_fills {slot : Option Slot} (hunused : ¬(s.table.procs i).Live)
    (hcreate : s.processCreate ops sym entry arg = some (slot, s'))
    (hlive : (s'.table.procs i).Live) :
    slot = some i := by
  rcases processCreate_cases hcreate with ⟨-, htable, -, -⟩ | ⟨idx, stack, heap, rfl, -, -, -, rfl⟩
  · rw [htable] at hlive
    exact absurd hlive hunused
  · refine congrArg some (Classical.not_not.1 fun hne ↦ hunused ?_)
    rwa [ProcessTable.setProc_of_ne (Ne.symm hne)] at hlive

theorem live_of_run {t : ProcessTable} {j : Slot} (hj : (t.procs j).Live)
    (hlive : ((t.run j).procs i).Live) : (t.procs i).Live := by
  by_cases hij : i = j
  · exact hij ▸ hj
  · rwa [ProcessTable.run, ProcessTable.setState_of_ne hij] at hlive

theorem live_of_startFirst (hlive : (s.startFirst.table.procs i).Live) :
    (s.table.procs i).Live := by
  rw [System.startFirst] at hlive
  split at hlive
  case h_1 => exact hlive
  case h_2 first hfirst =>
    have hready := of_decide_eq_true (ProcessTable.firstSlot_some hfirst)
    exact live_of_run (ProcessTable.live_of_state (by decide) hready) hlive

/-- A slot that was cleared is filled by the idle process, or stays empty. -/
theorem exitPick_fills {c : Slot} {next : Option Slot} (hunused : ¬(s.table.procs i).Live)
    (hpick : s.exitPick ops sym c = some (next, s'))
    (hlive : ((s'.exitSwitch next).table.procs i).Live) :
    next = some i ∧ s.processCreate ops sym sym.idleProcess 0 = some (some i, s') := by
  rcases exitPick_cases hpick with ⟨n, rfl, hn, -, rfl⟩ | hcreate
  · exact absurd (live_of_run hn hlive) hunused
  · have hlive' : (s'.table.procs i).Live := by
      cases next with
      | none => exact hlive
      | some n => exact live_of_run (freshProcess_processCreate hcreate).live hlive
    obtain rfl := processCreate_fills hunused hcreate hlive'
    exact ⟨rfl, hcreate⟩

/-- `process_yield` keeps the pids, and makes no slot live. -/
theorem processYield_pid {t : ProcessTable} (hrunning : RunningOk t) (cpu : ProcessContext)
    (i : Slot) :
    ((t.processYield cpu).procs i).pid = (t.procs i).pid ∧
      (((t.processYield cpu).procs i).Live → (t.procs i).Live) := by
  rcases hrunning with ⟨hstopped, hcurrent, -⟩ | ⟨hstarted, c, hcurrent, hc⟩
  · rw [ProcessTable.processYield_of_not_running ⟨hstopped, hcurrent⟩]
    exact ⟨rfl, id⟩
  have hself : ∀ {u : ProcessTable} {j : Slot} {state : ProcState},
      ((u.setState j state).procs i).pid = (u.procs i).pid := by
    intro u j state
    by_cases hij : i = j
    · rw [hij, ProcessTable.setState, ProcessTable.setProc_self]
    · rw [ProcessTable.setState_of_ne hij]
  have hlive : (t.procs c).Live := ProcessTable.live_of_state (by decide) ((hc c).2 rfl)
  rcases processYield_cases hcurrent hstarted hc cpu with heq | ⟨next, hne, hnext, heq⟩ <;> rw [heq]
  · refine ⟨by rw [hself, hself], fun h ↦ ?_⟩
    by_cases hic : i = c
    · exact hic ▸ hlive
    · rwa [ProcessTable.setState_of_ne hic, ProcessTable.setState_of_ne hic] at h
  · by_cases hic : i = c
    · subst hic
      rw [ProcessTable.setProc_self]
      exact ⟨hself.trans hself, fun _ ↦ hlive⟩
    · rw [ProcessTable.setProc_of_ne hic]
      refine ⟨hself.trans hself, fun h ↦ ?_⟩
      have hready : ((t.setState c .ready).procs next).Live := by
        rw [ProcessTable.setState_of_ne hne]
        exact ProcessTable.live_of_state (by decide) hnext
      have hbefore := live_of_run hready h
      rwa [ProcessTable.setState_of_ne hic] at hbefore

/-- **Every process is created**: where a slot is live after a call, it holds the process it held
before, or the call has created one in it. -/
theorem pid_or_creates {a : SchedCall} (hrunning : RunningOk s.table)
    (hstep : SchedStep ops sym s a s') (hlive : (s'.table.procs i).Live) :
    (s.table.procs i).Live ∧ (s'.table.procs i).pid = (s.table.procs i).pid ∨
      ∃ entry arg, Creates ops sym s a i entry arg s' := by
  by_cases hbefore : (s.table.procs i).Live ∧ s.table.current ≠ some i
  · exact Or.inl ⟨hbefore.1, (occupies_step hbefore.1 hbefore.2 hstep).pid⟩
  cases hstep with
  | @create _ entry arg slot hcreate =>
    by_cases hlive' : (s.table.procs i).Live
    · exact Or.inl ⟨hlive', (occupies_processCreate hlive' hcreate).pid⟩
    · obtain rfl := processCreate_fills hlive' hcreate hlive
      exact Or.inr ⟨entry, arg, .create hcreate⟩
  | start hstart =>
    have hcall := hstart
    rw [System.schedulerStart] at hstart
    split at hstart
    · obtain rfl := Option.some.inj hstart
      exact Or.inl ⟨hlive, rfl⟩
    dsimp only at hstart
    split at hstart
    · obtain ⟨⟨slot, s₁⟩, hcreate, rfl⟩ := Option.map_eq_some_iff.1 hstart
      by_cases hlive' : (s.table.procs i).Live
      · have hcreated := occupies_processCreate hlive' hcreate
        exact Or.inl ⟨hlive', (hcreated.trans (occupies_startFirst hcreated.live)).pid⟩
      · obtain rfl := processCreate_fills hlive' hcreate (live_of_startFirst hlive)
        exact Or.inr ⟨_, _, .start hcall hcreate⟩
    · obtain rfl := Option.some.inj hstart
      have hlive' := live_of_startFirst hlive
      exact Or.inl ⟨hlive', (occupies_startFirst hlive').pid⟩
  | yield =>
    obtain ⟨hpid, hback⟩ := processYield_pid hrunning _ i
    exact Or.inl ⟨hback hlive, hpid⟩
  | exit hexit =>
    have hcall := hexit
    rcases processExit_cases hexit with ⟨-, rfl⟩ | ⟨c, s₁, next, s₂, hcurrent, hs₁, hpick, rfl⟩
    · exact Or.inl ⟨hlive, rfl⟩
    -- the slot was empty, or is the one that the call clears
    have hunused : ¬((s₁.exitClear c).table.procs i).Live := by
      rw [System.exitClear]
      dsimp only
      by_cases hic : i = c
      · rw [hic, ProcessTable.setProc_self]
        exact fun h ↦ h rfl
      · rw [ProcessTable.setProc_of_ne hic, (exitFree_cases hs₁).1]
        exact fun h ↦ hbefore ⟨h, fun heq ↦ hic (Option.some.inj (heq.symm.trans hcurrent))⟩
    obtain ⟨rfl, hcreate⟩ := exitPick_fills hunused hpick hlive
    exact Or.inr ⟨_, _, .exit hcall hcurrent hs₁ hcreate⟩

/-! ### Every run -/

/-- Slot `i` is not the current one. -/
def NotCurrent (i : Slot) (s : System σ) (_ : SchedCall) : Prop := s.table.current ≠ some i

theorem occupies_run {calls : List SchedCall} (hlive : (s.table.procs i).Live)
    (hrun : Run (Guarded (NotCurrent i) (SchedStep ops sym)) s calls s') :
    Occupies i s.table s'.table :=
  hrun.invariant (I := fun u ↦ Occupies i s.table u.table)
    (fun h hstep ↦ h.trans (occupies_step h.live hstep.1 hstep.2)) (.refl hlive)

/-- The call of `process_yield` that suspends a process saves its context. -/
theorem processYield_saves {t : ProcessTable} (hrunning : RunningOk t)
    (hcurrent : t.current = some i) (cpu : ProcessContext)
    (hswitch : (t.processYield cpu).current ≠ some i) :
    ((t.processYield cpu).procs i).Live ∧ ((t.processYield cpu).procs i).context = cpu := by
  rcases hrunning with ⟨-, hnone, -⟩ | ⟨hstarted, c, hc, hrunning⟩
  · rw [hcurrent] at hnone
    cases hnone
  obtain rfl := Option.some.inj (hc.symm.trans hcurrent)
  rcases processYield_cases hc hstarted hrunning cpu with heq | ⟨next, hne, -, heq⟩
  · rw [heq] at hswitch
    exact absurd hc hswitch
  · rw [heq, ProcessTable.setProc_self, ProcessTable.run, ProcessTable.setState_of_ne hne.symm]
    refine ⟨?_, rfl⟩
    show ((t.setState c .ready).procs c).state ≠ .unused
    rw [ProcessTable.setState_self]
    decide

/-- The processor runs `process_wrapper` on top of the stack of slot `i`, and that calls `entry`. -/
structure StartsProcess (sym : Symbols) (i : Slot) (entry arg : ℕ) (t : ProcessTable) : Prop where
  rip : (t.procs i).context.rip = sym.processWrapper
  rsp : (t.procs i).context.rsp = u64 ((t.procs i).stack + stackSize) / 16 * 16
  wrapper : t.processWrapper = some (entry, arg)

theorem FreshProcess.starts {t : ProcessTable} (h : FreshProcess sym i entry arg t)
    (hcurrent : t.current = some i) : StartsProcess sym i entry arg t := by
  obtain ⟨pid, hcontext⟩ := h.context
  refine ⟨by rw [hcontext]; rfl, ?_, ?_⟩
  · rw [hcontext]
    exact and_lowMask (u64_lt _) (by decide)
  · rw [ProcessTable.processWrapper, hcurrent, Option.map_some, hcontext]
    rfl

/-- **A suspended process keeps its context.** In every reachable state, a live slot keeps its
process and its context over any calls made while it is not the current one. A call of
`process_yield` leaves in the slot it switches from what it saved there. And when a slot becomes
current for the first time after a process was created in it, `process_wrapper` runs on top of the
stack of that process, with the function and the argument it was created with. -/
theorem context_private {heap : σ} {calls : List SchedCall}
    (hrun : Run (SchedStep ops sym) (System.boot heap) calls s) (i : Slot) :
    (∀ waiting t, (s.table.procs i).Live →
      Run (Guarded (NotCurrent i) (SchedStep ops sym)) s waiting t → Occupies i s.table t.table) ∧
    (∀ cpu, s.table.current = some i → (s.table.processYield cpu).current ≠ some i →
      ((s.table.processYield cpu).procs i).Live ∧
        ((s.table.processYield cpu).procs i).context = cpu) ∧
    ∀ a entry arg s₁ waiting t, Creates ops sym s a i entry arg s₁ →
      Run (Guarded (NotCurrent i) (SchedStep ops sym)) s₁ waiting t → t.table.current = some i →
      StartsProcess sym i entry arg t.table := by
  have hrunning : RunningOk s.table := hrun.invariant (I := fun s ↦ RunningOk s.table)
    (fun h hstep ↦ h.step hstep) (Or.inl ⟨rfl, rfl, fun _ h ↦ nomatch h⟩)
  refine ⟨fun waiting t hlive hwait ↦ occupies_run hlive hwait,
    fun cpu hcurrent hswitch ↦ processYield_saves hrunning hcurrent cpu hswitch, ?_⟩
  intro a entry arg s₁ waiting t hcreates hwait hcurrent
  have hnew := hcreates.freshProcess
  exact (hnew.occupies (occupies_run hnew.live hwait)).starts hcurrent

end Steps

/-- A list of calls over `ampleOps` while slot `i` is not the current one, as a function. -/
def sampleWaiting (i : Slot) (s : System ℕ) (calls : List SchedCall) : Option (System ℕ) :=
  calls.foldlM (fun s a ↦ if s.table.current = some i then none
    else s.call ampleOps sampleSymbols a) s

/-- The calls of the example, each of them made while slot `i` waits. -/
theorem sampleWaiting_run {i : Slot} {s t : System ℕ} {calls : List SchedCall}
    (h : t ∈ sampleWaiting i s calls) :
    Run (Guarded (NotCurrent i) (SchedStep ampleOps sampleSymbols)) s calls t := by
  refine (Run.of_foldlM h).mono fun {s a t} hstep ↦ ?_
  by_cases hcurrent : s.table.current = some i
  · rw [if_pos hcurrent] at hstep
    cases hstep
  · rw [if_neg hcurrent] at hstep
    exact ⟨hcurrent, .of_call hstep⟩

/-- Registers that all hold `n`. -/
def sampleCpu (n : ℕ) : ProcessContext := ⟨n, n, n, n, n, n, n, n⟩

/-- The general theorem on three processes. The second one is suspended with `5` in its registers;
the third one exits, a fourth is created in its slot, and when the second one runs again its context
is the one that was saved. The fourth starts with its own function and argument when its turn
comes. -/
theorem context_private_startThree : ∃ r s t u v w : System ℕ,
    Run (SchedStep ampleOps sampleSymbols) (System.boot 0)
      (startThree ++ [.yield (sampleCpu 4)]) r ∧
    r.table.current = some 1 ∧ s = { r with table := r.table.processYield (sampleCpu 5) } ∧
    Run (SchedStep ampleOps sampleSymbols) s [.exit, .create 7 9, .yield (sampleCpu 6)] t ∧
    t.table.current = some 1 ∧ Occupies 1 s.table t.table ∧
    (s.table.procs 1).context = sampleCpu 5 ∧
    Run (SchedStep ampleOps sampleSymbols) s [.exit] u ∧
    Creates ampleOps sampleSymbols u (.create 7 9) 2 7 9 v ∧
    Run (SchedStep ampleOps sampleSymbols) v [.yield (sampleCpu 6), .yield (sampleCpu 8)] w ∧
    StartsProcess sampleSymbols 2 7 9 w.table := by
  obtain ⟨r, hr, hcurrent, hswitch, hlive, ⟨t, ht, hback⟩, u, hu, v, hv, hcreate, w, hw, hstarts⟩ :
      ∃ r ∈ sampleCalls (System.boot 0) (startThree ++ [.yield (sampleCpu 4)]),
        r.table.current = some 1 ∧ (r.table.processYield (sampleCpu 5)).current ≠ some 1 ∧
        ((r.table.processYield (sampleCpu 5)).procs 1).Live ∧
        (∃ t ∈ sampleWaiting 1 { r with table := r.table.processYield (sampleCpu 5) }
          [.exit, .create 7 9, .yield (sampleCpu 6)], t.table.current = some 1) ∧
        ∃ u ∈ sampleCalls { r with table := r.table.processYield (sampleCpu 5) } [.exit],
          ∃ v ∈ u.processCreate ampleOps sampleSymbols 7 9, v.1 = some 2 ∧
            ∃ w ∈ sampleWaiting 2 v.2 [.yield (sampleCpu 6), .yield (sampleCpu 8)],
              w.table.current = some 2 := by
    decide +kernel
  obtain ⟨slot, v⟩ := v
  obtain rfl : slot = some 2 := hcreate
  have hrun := sampleCalls_run hr
  have hyield : SchedStep ampleOps sampleSymbols r (.yield (sampleCpu 5))
      { r with table := r.table.processYield (sampleCpu 5) } := .yield
  have hsuspended := hrun.snoc hyield
  have hcreates : Creates ampleOps sampleSymbols u (.create 7 9) 2 7 9 v := .create hv
  exact ⟨r, _, t, u, v, w, hrun, hcurrent, rfl, (sampleWaiting_run ht).of_guarded, hback,
    (context_private hsuspended 1).1 _ t hlive (sampleWaiting_run ht),
    ((context_private hrun 1).2.1 _ hcurrent hswitch).2, sampleCalls_run hu, hcreates,
    (sampleWaiting_run hw).of_guarded,
    (context_private (hsuspended.append (sampleCalls_run hu)) 2).2.2 _ _ _ v _ w hcreates
      (sampleWaiting_run hw) hstarts⟩

end LightNight
