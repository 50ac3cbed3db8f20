import LightNightOS.Scheduler.TableInvariant
import Mathlib.Data.List.Rotate

/-!
# Whose turn it is

`process_yield` looks for a ready slot from the one behind the current slot, around the table, back
to the current slot itself. In a started scheduler every live slot is ready or running, so over any
number of calls the processes take turns in the order of their slots (`yield_round_robin`).

`process_exit` has a loop of its own, which starts from slot 0 each time. It passes over a ready
slot behind the current one as soon as there is a ready slot before the current one, and two
processes in low slots that create each other anew whenever one of them exits keep a third one
waiting for ever (`starved`). Where this does not happen, every change of the current slot brings it
closer to a slot that waits, and no slot waits longer than it takes to go around the table
(`waits_bounded`).

* `find?_behind`, `getElem?_filter_behind` — searching around a list, once and any number of times;
* `Started.turn` — one yield goes to the next live slot;
* `turnsAfter_run`, `yield_round_robin` — any number of yields, in every reachable state;
* `waits_bounded` — how often the current slot changes while a slot is ready, if the exits are in
  turn;
* `starved` — three processes, of which the third is not run for as long as the others like.
-/

namespace LightNight

open Transition

/-! ### A turn in a list

A search around a list from some place finds the next element that passes. Taken over any number of
searches this goes through the elements that pass in the order of the list. -/

section Turn

variable {α : Type*} {p : α → Bool} {l m : List α} {c : α}

/-- The search that starts behind an element, and comes back to it, finds the next one in the list
of those that pass the test. -/
theorem find?_behind (hc : p c = true) : (m ++ (l ++ [c])).find? p =
    ((l ++ c :: m).filter p)[((l.filter p).length + 1) % ((l ++ c :: m).filter p).length]? := by
  have hfilter : (l ++ c :: m).filter p = (l.filter p ++ [c]) ++ m.filter p := by
    rw [List.filter_append, List.filter_cons_of_pos hc, List.append_assoc, List.singleton_append]
  have hlength : (l.filter p ++ [c]).length = (l.filter p).length + 1 := by
    rw [List.length_append, List.length_singleton]
  have hpos : 0 < ((l.filter p ++ [c]) ++ m.filter p).length := by
    rw [List.length_append, hlength]
    omega
  have hrotate := List.getElem?_rotate (n := (l.filter p ++ [c]).length) hpos
  rw [List.rotate_append_length_eq, Nat.zero_add] at hrotate
  rw [← List.head?_filter, List.filter_append, List.filter_append, List.filter_cons_of_pos hc,
    List.filter_nil, hfilter, ← hlength, ← hrotate, List.head?_eq_getElem?]

/-- Where the element stands in that list. -/
theorem getElem?_filter_behind (hc : p c = true) :
    ((l ++ c :: m).filter p)[(l.filter p).length]? = some c := by
  rw [List.filter_append, List.filter_cons_of_pos hc,
    List.getElem?_append_right (Nat.le_refl _), Nat.sub_self, List.getElem?_cons_zero]

end Turn

/-- The live slots, in the order of the table. -/
def liveSlots (t : ProcessTable) : List Slot :=
  (List.finRange maxProcesses).filter fun i ↦ (t.procs i).Live

/-- The table around a slot. -/
theorem finRange_around (c : Slot) : List.finRange maxProcesses =
    (List.finRange maxProcesses).take c ++ c :: (List.finRange maxProcesses).drop (c + 1) := by
  revert c
  decide

/-- The order in which `process_yield` searches: behind the current slot, around, and the current
slot last. -/
theorem roundRobin_eq (c : Slot) : ProcessTable.roundRobin c =
    (List.finRange maxProcesses).drop (c + 1) ++ ((List.finRange maxProcesses).take c ++ [c]) := by
  revert c
  decide

/-! ### One call of `process_yield`

In a started scheduler the current slot is running and every other live slot is ready, so the search
always ends: if there is no other it comes back to the current one. -/

/-- A scheduler that is started: `c` is running, no other slot is, and none is blocked. -/
structure Started (t : ProcessTable) (c : Slot) : Prop where
  started : t.started = true
  current : t.current = some c
  running : ∀ i, (t.procs i).state = .running ↔ i = c
  notBlocked : ∀ i, (t.procs i).state ≠ .blocked

section Yield

variable {t : ProcessTable} {c : Slot}

/-- A live slot is ready, or the current one. -/
theorem Started.live_iff (h : Started t c) (i : Slot) :
    (t.procs i).Live ↔ (t.procs i).state = .ready ∨ i = c := by
  have hblocked := h.notBlocked i
  rw [← h.running i, Process.Live]
  cases hstate : (t.procs i).state <;> simp_all

/-- The slot `process_yield` picks is the next live one. -/
theorem Started.processYield_current (h : Started t c) (cpu : ProcessContext) :
    (t.processYield cpu).current =
      (ProcessTable.roundRobin c).find? fun i ↦ decide (t.procs i).Live := by
  have hfind : ((t.setState c .ready).firstSlot (ProcessTable.roundRobin c) fun p ↦
      p.state = .ready) = (ProcessTable.roundRobin c).find? fun i ↦ decide (t.procs i).Live := by
    rw [ProcessTable.firstSlot]
    congr 1
    funext i
    rw [decide_eq_decide, h.live_iff i]
    by_cases hi : i = c
    · rw [hi, ProcessTable.setState_self]
      exact iff_of_true rfl (Or.inr rfl)
    · rw [ProcessTable.setState_of_ne hi]
      exact (or_iff_left hi).symm
  rw [← hfind, ProcessTable.processYield, h.started, h.current]
  simp only [Bool.not_true, Bool.false_eq_true, if_false, if_pos ((h.running c).2 rfl)]
  split
  case h_1 hnone =>
    -- the search comes back to the current slot, so it does not fail
    rw [hfind, roundRobin_eq] at hnone
    refine absurd ((h.live_iff c).2 (Or.inr rfl)) ?_
    simpa using List.find?_eq_none.1 hnone c (by simp)
  case h_2 next hnext =>
    rw [hnext]
    split
    case isTrue heq => exact h.current.trans (congrArg some heq.symm)
    case isFalse => rfl

/-- `process_yield` changes states and contexts, and keeps live slots live. -/
theorem Started.processYield_live (h : Started t c) (cpu : ProcessContext) (i : Slot) :
    (((t.processYield cpu).procs i).Live ↔ (t.procs i).Live) ∧
      ((t.processYield cpu).procs i).pid = (t.procs i).pid ∧
      ((t.processYield cpu).procs i).state ≠ .blocked := by
  have hc := ProcessTable.live_of_state (by decide) ((h.running c).2 rfl)
  rcases processYield_cases h.current h.started h.running cpu with heq | ⟨next, hne, hnext, heq⟩ <;>
    rw [heq]
  · by_cases hi : i = c
    · subst hi
      rw [ProcessTable.setState, ProcessTable.setProc_self, ProcessTable.setState,
        ProcessTable.setProc_self]
      exact ⟨iff_of_true (fun h ↦ by cases h) hc, rfl, fun h ↦ by cases h⟩
    · rw [ProcessTable.setState_of_ne hi, ProcessTable.setState_of_ne hi]
      exact ⟨Iff.rfl, rfl, h.notBlocked i⟩
  · by_cases hi : i = c
    · subst hi
      rw [ProcessTable.setProc_self, ProcessTable.run, ProcessTable.setState_of_ne hne.symm]
      dsimp only
      rw [ProcessTable.setState, ProcessTable.setProc_self]
      exact ⟨iff_of_true (fun h ↦ by cases h) hc, rfl, fun h ↦ by cases h⟩
    · rw [ProcessTable.setProc_of_ne hi, ProcessTable.run]
      by_cases hin : i = next
      · subst hin
        rw [ProcessTable.setState, ProcessTable.setProc_self]
        dsimp only
        rw [ProcessTable.setState_of_ne hi]
        exact ⟨iff_of_true (fun h ↦ by cases h) (ProcessTable.live_of_state (by decide) hnext), rfl,
          fun h ↦ by cases h⟩
      · rw [ProcessTable.setState_of_ne hin]
        dsimp only
        rw [ProcessTable.setState_of_ne hi]
        exact ⟨Iff.rfl, rfl, h.notBlocked i⟩

/-- A started scheduler, from its parts. -/
theorem RunningOk.toStarted (h : RunningOk t) (hstarted : t.started = true)
    (hblocked : ∀ i, (t.procs i).state ≠ .blocked) : ∃ c, Started t c := by
  rcases h with ⟨hstopped, -⟩ | ⟨-, c, hcurrent, hrunning⟩
  · rw [hstarted] at hstopped
    cases hstopped
  · exact ⟨c, hstarted, hcurrent, hrunning, hblocked⟩

theorem Started.runningOk (h : Started t c) : RunningOk t :=
  Or.inr ⟨h.started, c, h.current, h.running⟩

/-- `process_yield` does not stop the scheduler. -/
theorem Started.processYield (h : Started t c) (cpu : ProcessContext) :
    ∃ d, Started (t.processYield cpu) d := by
  refine (h.runningOk.processYield cpu).toStarted ?_ fun i ↦ (h.processYield_live cpu i).2.2
  rcases processYield_cases h.current h.started h.running cpu with heq | ⟨next, -, -, heq⟩ <;>
    rw [heq] <;> exact h.started

/-- **One turn**: the current slot is one further in the list of the live slots. -/
theorem Started.turn (h : Started t c) (cpu : ProcessContext) {k : ℕ}
    (hk : (liveSlots t)[k]? = some c) :
    (t.processYield cpu).current = (liveSlots t)[(k + 1) % (liveSlots t).length]? := by
  have hlive : decide (t.procs c).Live = true := decide_eq_true ((h.live_iff c).2 (Or.inr rfl))
  have hindex : k = (((List.finRange maxProcesses).take c).filter fun i ↦
      decide (t.procs i).Live).length := by
    have hnodup : (liveSlots t).Nodup := (List.nodup_finRange _).filter _
    have hat := getElem?_filter_behind (p := fun i ↦ decide (t.procs i).Live)
      (l := (List.finRange maxProcesses).take c)
      (m := (List.finRange maxProcesses).drop (c + 1)) hlive
    rw [← finRange_around] at hat
    exact (List.getElem?_inj (List.getElem?_eq_some_iff.1 hk).1 hnodup).1 (hk.trans hat.symm)
  rw [h.processYield_current cpu, roundRobin_eq,
    find?_behind (p := fun i ↦ decide (t.procs i).Live) hlive, ← finRange_around, ← hindex]
  rfl

/-- A yield changes the states of two slots, and both stay live. -/
theorem Started.liveSlots_processYield (h : Started t c) (cpu : ProcessContext) :
    liveSlots (t.processYield cpu) = liveSlots t := by
  rw [liveSlots, liveSlots]
  congr 1
  funext i
  exact decide_eq_decide.2 (h.processYield_live cpu i).1

end Yield

/-! ### Any number of calls -/

/-- What stays as it is while processes only yield. -/
structure TurnsAfter (s t : ProcessTable) (m : ℕ) : Prop where
  started : ∃ c, Started t c
  live : liveSlots t = liveSlots s
  pid : ∀ i, (t.procs i).pid = (s.procs i).pid
  current : ∃ k < (liveSlots s).length, s.current = (liveSlots s)[k]? ∧
    t.current = (liveSlots s)[(k + m) % (liveSlots s).length]?

theorem Started.turnsAfter_zero {t : ProcessTable} {c : Slot} (h : Started t c) :
    TurnsAfter t t 0 := by
  have hmem : c ∈ liveSlots t := List.mem_filter.2
    ⟨List.mem_finRange c, decide_eq_true ((h.live_iff c).2 (Or.inr rfl))⟩
  obtain ⟨k, hk, heq⟩ := List.getElem_of_mem hmem
  have hcurrent : t.current = (liveSlots t)[k]? := by
    rw [h.current, List.getElem?_eq_getElem hk, heq]
  refine ⟨⟨c, h⟩, rfl, fun _ ↦ rfl, k, hk, hcurrent, ?_⟩
  rw [Nat.add_zero, Nat.mod_eq_of_lt hk]
  exact hcurrent

/-- One call more. -/
theorem TurnsAfter.processYield {s t : ProcessTable} {m : ℕ} (h : TurnsAfter s t m)
    (cpu : ProcessContext) : TurnsAfter s (t.processYield cpu) (m + 1) := by
  obtain ⟨⟨c, hc⟩, hlive, hpid, k, hk, hs, ht⟩ := h
  have hturn := hc.turn cpu (k := (k + m) % (liveSlots s).length) (by rw [hlive, ← ht, hc.current])
  rw [hlive, Nat.mod_add_mod, Nat.add_assoc] at hturn
  refine ⟨hc.processYield cpu, (hc.liveSlots_processYield cpu).trans hlive, fun i ↦ ?_, k, hk, hs,
    hturn⟩
  exact (hc.processYield_live cpu i).2.1.trans (hpid i)

section Runs

variable {σ : Type*} {ops : HeapOps σ} {sym : Symbols} {s s' t : System σ}

/-- After any number of yields the current slot is the one that many places further in the order. -/
theorem turnsAfter_run {c : Slot} (hs : Started s.table c) {cpus : List ProcessContext}
    (hrun : Run (SchedStep ops sym) s (cpus.map .yield) t) :
    TurnsAfter s.table t.table cpus.length := by
  induction cpus using List.reverseRecOn generalizing t with
  | nil =>
    rw [Run.nil_iff.1 hrun]
    exact hs.turnsAfter_zero
  | append_singleton cpus cpu ih =>
    rw [List.map_append] at hrun
    obtain ⟨u, hfront, hstep⟩ := Run.snoc_iff.1 hrun
    rw [List.length_append, List.length_singleton]
    cases hstep
    exact (ih hfront).processYield cpu

/-! ### Reachable states -/

theorem processCreate_notBlocked {entry arg : ℕ} {slot : Option Slot}
    (h : ∀ i, (s.table.procs i).state ≠ .blocked)
    (hcreate : s.processCreate ops sym entry arg = some (slot, s')) (i : Slot) :
    (s'.table.procs i).state ≠ .blocked := by
  rcases processCreate_cases hcreate with ⟨-, htable, -, -⟩ | ⟨idx, stack, heap, -, -, -, -, rfl⟩
  · rw [htable]
    exact h i
  · dsimp only
    by_cases hi : i = idx
    · rw [hi, ProcessTable.setProc_self]
      exact fun h ↦ by cases h
    · rw [ProcessTable.setProc_of_ne hi]
      exact h i

/-- Running a slot leaves no slot blocked that was not blocked before. -/
theorem run_notBlocked {t : ProcessTable} {next : Slot} (h : ∀ i, (t.procs i).state ≠ .blocked)
    (i : Slot) : ((t.run next).procs i).state ≠ .blocked := by
  by_cases hi : i = next
  · rw [hi, ProcessTable.run, ProcessTable.setState_self]
    exact fun h ↦ by cases h
  · rw [ProcessTable.run, ProcessTable.setState_of_ne hi]
    exact h i

/-- No call blocks a slot. -/
theorem notBlocked_step {a : SchedCall} (hrunning : RunningOk s.table)
    (h : ∀ i, (s.table.procs i).state ≠ .blocked) (hstep : SchedStep ops sym s a s') (i : Slot) :
    (s'.table.procs i).state ≠ .blocked := by
  cases hstep with
  | create hcreate => exact processCreate_notBlocked h hcreate i
  | start hstart =>
    rcases schedulerStart_cases hstart with ⟨-, rfl⟩ | ⟨-, s₁, hs₁, hs'⟩
    · exact h i
    have h₁ : ∀ i, (s₁.table.procs i).state ≠ .blocked := by
      rcases hs₁ with rfl | ⟨slot, hcreate⟩
      exacts [h, processCreate_notBlocked h hcreate]
    rcases hs' with rfl | ⟨first, -, rfl⟩
    exacts [h₁ i, run_notBlocked h₁ i]
  | yield =>
    rcases hrunning with ⟨hstopped, hcurrent, -⟩ | ⟨hstarted, c, hcurrent, hc⟩
    · dsimp only
      rw [ProcessTable.processYield_of_not_running ⟨hstopped, hcurrent⟩]
      exact h i
    · exact (Started.processYield_live ⟨hstarted, hcurrent, hc, h⟩ _ i).2.2
  | exit hexit =>
    rcases processExit_cases hexit with ⟨-, rfl⟩ | ⟨c, s₁, next, s₂, -, hs₁, hpick, rfl⟩
    · exact h i
    have h₁ : ∀ i, ((s₁.exitClear c).table.procs i).state ≠ .blocked := by
      intro i
      rw [System.exitClear]
      dsimp only
      rw [(exitFree_cases hs₁).1]
      by_cases hi : i = c
      · rw [hi, ProcessTable.setProc_self]
        exact fun h ↦ by cases h
      · rw [ProcessTable.setProc_of_ne hi]
        exact h i
    have h₂ : ∀ i, (s₂.table.procs i).state ≠ .blocked := by
      rcases exitPick_cases hpick with ⟨n, -, -, -, rfl⟩ | hcreate
      exacts [h₁, processCreate_notBlocked h₁ hcreate]
    cases next with
    | none => exact h₂ i
    | some n => exact run_notBlocked h₂ i

/-- Every reachable state that is started. -/
theorem started_run {heap : σ} {calls : List SchedCall}
    (hrun : Run (SchedStep ops sym) (System.boot heap) calls s)
    (hstarted : s.table.started = true) :
    ∃ c, Started s.table c := by
  obtain ⟨hrunning, hblocked⟩ := hrun.invariant
    (I := fun s ↦ RunningOk s.table ∧ ∀ i, (s.table.procs i).state ≠ .blocked)
    (fun h hstep ↦ ⟨h.1.step hstep, notBlocked_step h.1 h.2 hstep⟩)
    ⟨Or.inl ⟨rfl, rfl, fun _ h ↦ nomatch h⟩, fun _ h ↦ nomatch h⟩
  exact hrunning.toStarted hstarted hblocked

/-- **Yield is round-robin.** In every reachable state that is started, after `m` calls of
`process_yield` the current slot is the one `m` places behind the first current one, around the list
of the live slots; the live slots and their pids are the same, and only the current one is
running. -/
theorem yield_round_robin {heap : σ} {calls : List SchedCall}
    (hrun : Run (SchedStep ops sym) (System.boot heap) calls s) (hstarted : s.table.started = true)
    {cpus : List ProcessContext} (hyield : Run (SchedStep ops sym) s (cpus.map .yield) t) :
    (∃ k < (liveSlots s.table).length, s.table.current = (liveSlots s.table)[k]? ∧
      t.table.current = ((liveSlots s.table).rotate k)[cpus.length % (liveSlots s.table).length]?) ∧
    liveSlots t.table = liveSlots s.table ∧
    (∀ i, (t.table.procs i).pid = (s.table.procs i).pid) ∧
    ∃ c, t.table.current = some c ∧ ∀ i, (t.table.procs i).state = .running ↔ i = c := by
  obtain ⟨c, hc⟩ := started_run hrun hstarted
  obtain ⟨⟨d, hd⟩, hlive, hpid, k, hk, hs, ht⟩ := turnsAfter_run hc hyield
  refine ⟨⟨k, hk, hs, ?_⟩, hlive, hpid, d, hd.current, hd.running⟩
  rw [List.getElem?_rotate (Nat.mod_lt _ (by omega)), Nat.mod_add_mod, Nat.add_comm, ht]

end Runs

/-- The general theorem where three processes yield five times: once around the table, and two slots
further. -/
theorem yield_round_robin_startThree : ∃ s t : System ℕ,
    Run (SchedStep ampleOps sampleSymbols) (System.boot 0) startThree s ∧
    Run (SchedStep ampleOps sampleSymbols) s
      ((List.replicate 5 ⟨0, 0, 0, 0, 0, 0, 0, 0⟩).map .yield) t ∧
    liveSlots s.table = [0, 1, 2] ∧ s.table.current = some 0 ∧
    t.table.current = some 2 ∧ liveSlots t.table = [0, 1, 2] ∧
    (∀ i, (t.table.procs i).pid = (s.table.procs i).pid) ∧
    ∀ i, (t.table.procs i).state = .running ↔ i = 2 := by
  obtain ⟨s, hs, ⟨hstarted, hslots, hcurrent⟩, t, ht, -⟩ :
      ∃ s ∈ sampleCalls (System.boot 0) startThree,
      (s.table.started = true ∧ liveSlots s.table = [0, 1, 2] ∧ s.table.current = some 0) ∧
      ∃ t ∈ sampleCalls s ((List.replicate 5 ⟨0, 0, 0, 0, 0, 0, 0, 0⟩).map .yield), True := by
    decide +kernel
  obtain ⟨⟨k, hk, hat, hnow⟩, hlive, hpid, c, hc, hrunning⟩ :=
    yield_round_robin (sampleCalls_run hs) hstarted (sampleCalls_run ht)
  rw [hslots] at hk hat hnow hlive
  -- the first current slot is the first of the three
  have hzero : k = 0 := by
    have hfirst : ∀ k < 3, some (0 : Slot) = [0, 1, 2][k]? → k = 0 := by decide
    exact hfirst k hk (hcurrent.symm.trans hat)
  subst hzero
  have htwo : t.table.current = some 2 := hnow
  obtain rfl := Option.some.inj (hc.symm.trans htwo)
  exact ⟨s, t, sampleCalls_run hs, sampleCalls_run ht, hslots, hcurrent, htwo, hlive,
    hpid, hrunning⟩

/-! ### How long a slot waits

`turnsUntil c j` counts the places from `c` to `j` around the table, which are fewer than the table
has slots. A yield lowers it, and so does an exit that is in turn (`ExitsInTurn`). -/

/-- How far a slot is from the current one, around the table. -/
def turnsUntil (c j : Slot) : ℕ := (j - c : Slot).val

/-- A call, with the number of changes of the current slot so far. -/
def CountStep {σ : Type*} (ops : HeapOps σ) (sym : Symbols) (s : System σ × ℕ) (a : SchedCall)
    (t : System σ × ℕ) : Prop :=
  SchedStep ops sym s.1 a t.1 ∧
    t.2 = s.2 + if t.1.table.current = s.1.table.current then 0 else 1

/-- Slot `j` is ready. -/
def Waits {σ : Type*} (j : Slot) (s : System σ × ℕ) (_ : SchedCall) : Prop :=
  (s.1.table.procs j).state = .ready

/-- `process_exit` is not called from a slot below `j` with a ready slot below that one. -/
def ExitsInTurn {σ : Type*} (j : Slot) (s : System σ × ℕ) (a : SchedCall) : Prop :=
  a = .exit → ∀ c, s.1.table.current = some c → c < j →
    ∀ n < c, (s.1.table.procs n).state ≠ .ready

section Waiting

variable {σ : Type*} {ops : HeapOps σ} {sym : Symbols} {s s' : System σ} {c n j : Slot}

theorem add_sub_behind : ∀ c j : Slot, c + 1 + (j - c - 1) = j := by
  decide

/-- The slots in the order of `process_yield`: what comes no later than `j` is closer to it. -/
theorem turnsUntil_behind : ∀ c j i : Slot, j ≠ c → i ≤ j - c - 1 →
    turnsUntil (c + 1 + i) j < turnsUntil c j := by
  decide +kernel

/-- The slots in the order of `process_exit`. -/
theorem turnsUntil_lowest : ∀ c j n : Slot, j ≠ c → n ≠ c → n ≤ j → (c < j → c < n) →
    turnsUntil n j < turnsUntil c j := by
  decide +kernel

theorem turnsUntil_lt (c j : Slot) : turnsUntil c j < maxProcesses := (j - c).isLt

/-- The slot a search around the table finds is not behind `j`, if the search accepts `j`. -/
theorem find?_roundRobin {p : Slot → Bool} (hj : p j = true) (hne : j ≠ c)
    (hfind : (ProcessTable.roundRobin c).find? p = some n) : turnsUntil n j < turnsUntil c j := by
  obtain ⟨-, i, hi, hn, hbefore⟩ := List.find?_eq_some_iff_getElem.1 hfind
  have hi' : i < maxProcesses := by simpa [ProcessTable.roundRobin] using hi
  have hat : n = c + 1 + ⟨i, hi'⟩ := hn.symm.trans (by simp [ProcessTable.roundRobin])
  rw [hat]
  refine turnsUntil_behind c j ⟨i, hi'⟩ hne (not_lt.1 fun hlt ↦ ?_)
  -- the slot `j` itself would have been found before
  have hbelow : (j - c - 1 : Slot).val < i := hlt
  refine absurd hj ?_
  have hslot : (ProcessTable.roundRobin c)[(j - c - 1 : Slot).val] = j := by
    simp only [ProcessTable.roundRobin, List.getElem_map, List.getElem_finRange, Fin.cast_mk]
    exact add_sub_behind c j
  simpa [hslot] using hbefore _ hbelow

/-- **`process_yield`** comes closer to a ready slot. -/
theorem Started.yield_closer (h : Started s.table c) (hj : (s.table.procs j).state = .ready)
    (cpu : ProcessContext) : ∃ n, (s.table.processYield cpu).current = some n ∧
      turnsUntil n j < turnsUntil c j := by
  have hne : j ≠ c := by
    rintro rfl
    rw [(h.running j).2 rfl] at hj
    cases hj
  obtain ⟨d, hd⟩ := h.processYield cpu
  have hfind := (h.processYield_current cpu).symm.trans hd.current
  exact ⟨d, hd.current, find?_roundRobin
    (decide_eq_true (ProcessTable.live_of_state (by decide) hj)) hne hfind⟩

/-- **`process_exit`** comes closer to a ready slot, where it does not start over. -/
theorem Started.exit_closer (h : Started s.table c) (hj : (s.table.procs j).state = .ready)
    (hturn : c < j → ∀ n < c, (s.table.procs n).state ≠ .ready)
    (hexit : s.processExit ops sym = some s') : ∃ n, s'.table.current = some n ∧
      turnsUntil n j < turnsUntil c j := by
  have hne : j ≠ c := by
    rintro rfl
    rw [(h.running j).2 rfl] at hj
    cases hj
  rcases processExit_cases hexit with ⟨hnone, -⟩ | ⟨d, s₁, next, s₂, hcurrent, hs₁, hpick, rfl⟩
  · rw [h.current] at hnone
    cases hnone
  obtain rfl := Option.some.inj (hcurrent.symm.trans h.current)
  -- the other slots are as they were before the call
  have hsame : ∀ i ≠ d, (s₁.exitClear d).table.procs i = s.table.procs i := fun i hi ↦
    (ProcessTable.setProc_of_ne hi).trans (by rw [(exitFree_cases hs₁).1])
  rw [System.exitPick] at hpick
  split at hpick
  case h_1 n hn =>
    obtain ⟨rfl, rfl⟩ := Prod.mk.inj (Option.some.inj hpick)
    obtain ⟨htest, i, hi, hat, hbefore⟩ := List.find?_eq_some_iff_getElem.1 hn
    obtain ⟨hstate, hnd⟩ := of_decide_eq_true htest
    rw [hsame n hnd] at hstate
    have hready : (s.table.procs n).state = .ready :=
      hstate.resolve_right fun hrun ↦ hnd ((h.running n).1 hrun)
    have hin : i = n.val := by simpa using congrArg Fin.val hat
    refine ⟨n, rfl, turnsUntil_lowest d j n hne hnd (not_lt.1 fun hlt ↦ ?_) fun hdj ↦ ?_⟩
    · have hbelow : j.val < n.val := hlt
      have hjtest := hbefore j.val (hin ▸ hbelow)
      simp [hsame j hne, hj, hne] at hjtest
    · exact lt_of_le_of_ne (not_lt.1 fun hnd' ↦ hturn hdj n hnd' hready) hnd.symm
  case h_2 hnone =>
    refine absurd (List.find?_eq_none.1 hnone j (List.mem_finRange j)) ?_
    simp [hsame j hne, hj, hne]

/-- What is kept while `j` waits: the changes of the current slot so far, and how far it still
is. -/
def ComesCloser (j : Slot) (s : System σ × ℕ) : Prop :=
  ∃ c, Started s.1.table c ∧ s.2 + turnsUntil c j < maxProcesses

/-- **One call** while slot `j` waits. -/
theorem ComesCloser.step {s t : System σ × ℕ} {a : SchedCall} (h : ComesCloser j s)
    (hwaits : Waits j s a) (hturn : ExitsInTurn j s a) (hstep : CountStep ops sym s a t) :
    ComesCloser j t := by
  obtain ⟨s, k⟩ := s
  obtain ⟨t, k'⟩ := t
  obtain ⟨c, hc, hbound⟩ := h
  obtain ⟨hstep, hcount⟩ := hstep
  dsimp only at hc hbound hstep hcount
  have hstarted : t.table.started = true → ∃ d, Started t.table d := fun hstarted ↦
    (hc.runningOk.step hstep).toStarted hstarted (notBlocked_step hc.runningOk hc.notBlocked hstep)
  -- the current slot is the same, or the next one is closer
  have hnext : ∃ d, t.table.current = some d ∧ (d = c ∨ turnsUntil d j < turnsUntil c j) := by
    cases hstep with
    | create hcreate =>
      exact ⟨c, (processCreate_running hcreate).2.2.1.trans hc.current, Or.inl rfl⟩
    | start hstart =>
      rcases schedulerStart_cases hstart with ⟨-, rfl⟩ | ⟨hstopped, -⟩
      · exact ⟨c, hc.current, Or.inl rfl⟩
      · rw [hc.started] at hstopped
        cases hstopped
    | yield =>
      obtain ⟨d, hd, hlt⟩ := hc.yield_closer hwaits _
      exact ⟨d, hd, Or.inr hlt⟩
    | exit hexit =>
      obtain ⟨d, hd, hlt⟩ := hc.exit_closer hwaits (hturn rfl c hc.current) hexit
      exact ⟨d, hd, Or.inr hlt⟩
  obtain ⟨d, hd, hcloser⟩ := hnext
  obtain ⟨e, he⟩ := hstarted (by
    rcases hc.runningOk.step hstep with ⟨-, hnone, -⟩ | ⟨hstarted, -⟩
    · rw [hd] at hnone
      cases hnone
    · exact hstarted)
  obtain rfl := Option.some.inj (he.current.symm.trans hd)
  refine ⟨e, he, ?_⟩
  show k' + turnsUntil e j < maxProcesses
  rw [hcount, hd, hc.current]
  rcases hcloser with rfl | hlt
  · rwa [if_pos rfl, Nat.add_zero]
  · split <;> omega

/-- **No slot waits for long.** In every run from a reachable state that is started, while slot `j`
is ready and `process_exit` is not called from a slot below it with a ready slot below that one, the
current slot changes at most `MAX_PROCESSES - 1` times. -/
theorem waits_bounded {heap : σ} {calls waiting : List SchedCall} {t : System σ × ℕ}
    (hrun : Run (SchedStep ops sym) (System.boot heap) calls s) (hstarted : s.table.started = true)
    (hwait : Run (Guarded (Waits j) (Guarded (ExitsInTurn j) (CountStep ops sym))) (s, 0)
      waiting t) :
    t.2 ≤ maxProcesses - 1 := by
  obtain ⟨c, hc⟩ := started_run hrun hstarted
  obtain ⟨d, -, hbound⟩ := hwait.invariant (I := ComesCloser j)
    (fun h hstep ↦ h.step hstep.1 hstep.2.1 hstep.2.2)
    ⟨c, hc, by rw [Nat.zero_add]; exact turnsUntil_lt c j⟩
  omega

end Waiting

/-! ### Starvation -/

/-- What decides which slot runs next: the current slot, and the states of all. -/
structure Shape (s : System ℕ) (c : Slot) (states : Slot → ProcState) : Prop where
  started : s.table.started = true
  current : s.table.current = some c
  states : ∀ i, (s.table.procs i).state = states i

section Shapes

variable {s : System ℕ} {c n : Slot} {states : Slot → ProcState}

/-- The states of the slots after a process was put into one of them. -/
theorem createState {t : ProcessTable} (h : ∀ i, (t.procs i).state = states i) {p : Process}
    (i : Slot) :
    ((t.setProc n p).procs i).state = Function.update states n p.state i := by
  rw [Function.update_apply]
  split
  case isTrue hi => rw [hi, ProcessTable.setProc_self]
  case isFalse hi => rw [ProcessTable.setProc_of_ne hi, h]

/-- `process_create` with a free slot. -/
theorem ample_create (entry arg : ℕ) (hstates : ∀ i, (s.table.procs i).state = states i)
    (hfree : ((List.finRange maxProcesses).find? fun i ↦ states i = .unused) = some n) : ∃ s',
      SchedStep ampleOps sampleSymbols s (.create entry arg) s' ∧
      s'.table.started = s.table.started ∧ s'.table.current = s.table.current ∧
      ∀ i, (s'.table.procs i).state = Function.update states n .ready i := by
  have hslot : s.table.allocSlot = some n := by
    rw [ProcessTable.allocSlot, ProcessTable.firstSlot, ← hfree]
    simp only [hstates]
  have hmalloc : ampleOps.malloc s.heap stackSize = some (s.heap + stackSize, s.heap + stackSize) :=
    rfl
  have hne : s.heap + stackSize ≠ 0 := Nat.ne_of_gt (Nat.add_pos_right _ (by decide))
  have hcreate : ∃ s', s.processCreate ampleOps sampleSymbols entry arg = some (some n, s') := by
    rw [System.processCreate, hslot]
    simp only [hmalloc, if_neg hne]
    exact ⟨_, rfl⟩
  obtain ⟨s', hcreate⟩ := hcreate
  obtain ⟨-, -, hcurrent, hstarted, -⟩ := processCreate_running hcreate
  refine ⟨s', .create hcreate, hstarted, hcurrent, fun i ↦ ?_⟩
  rcases processCreate_cases hcreate with ⟨hnone, -⟩ | ⟨_, _, _, hidx, -, -, -, rfl⟩
  · cases hnone
  · obtain rfl := Option.some.inj hidx
    exact createState hstates i

/-- `process_exit` with another slot that is ready. -/
theorem ample_exit (h : Shape s c states)
    (hnext : ((List.finRange maxProcesses).find? fun i ↦
      (Function.update states c .unused i = .ready ∨
      Function.update states c .unused i = .running) ∧ i ≠ c) = some n) :
    ∃ s', SchedStep ampleOps sampleSymbols s .exit s' ∧
      Shape s' n (Function.update (Function.update states c .unused) n .running) := by
  obtain ⟨s₁, hs₁⟩ : ∃ s₁, s.exitFree ampleOps c = some s₁ := by
    rw [System.exitFree]
    split
    exacts [⟨_, rfl⟩, ⟨_, rfl⟩]
  have htable := (exitFree_cases hs₁).1
  have hclear : ∀ i, ((s₁.exitClear c).table.procs i).state =
      Function.update states c .unused i := by
    rw [System.exitClear]
    exact createState fun i ↦ (congrArg (fun t ↦ (t.procs i).state) htable).trans (h.states i)
  have hpick : (s₁.exitClear c).exitPick ampleOps sampleSymbols c =
      some (some n, s₁.exitClear c) := by
    rw [System.exitPick]
    simp only [hclear, hnext]
  refine ⟨(s₁.exitClear c).exitSwitch (some n), .exit ?_, ?_, rfl, fun i ↦ ?_⟩
  · rw [System.processExit, h.current]
    simp only [hs₁, hpick, Option.bind_eq_bind, Option.bind_some]
  · show s₁.table.started = true
    rw [htable, h.started]
  · exact createState (t := { (s₁.exitClear c).table with current := some n }) hclear i

end Shapes

/-- A change of the current slot, or none, as it is counted. -/
theorem countStep_of {σ : Type*} {ops : HeapOps σ} {sym : Symbols} {s t : System σ} {a : SchedCall}
    {c d : Slot} (hstep : SchedStep ops sym s a t) (hs : s.table.current = some c)
    (ht : t.table.current = some d) (k : ℕ) :
    CountStep ops sym (s, k) a (t, k + if d = c then 0 else 1) := by
  refine ⟨hstep, ?_⟩
  simp only [hs, ht, Option.some.injEq]

/-- Every step is one of the counted steps, whatever the count. -/
theorem exists_countStep {σ : Type*} {ops : HeapOps σ} {sym : Symbols} {s t : System σ}
    {a : SchedCall} (hstep : SchedStep ops sym s a t) (k : ℕ) : ∃ u, CountStep ops sym (s, k) a u :=
  ⟨(t, k + if t.table.current = s.table.current then 0 else 1), hstep, rfl⟩

/-- Slots 0, 1 and 2 hold processes, and slot 0 runs. -/
def threeStates (i : Slot) : ProcState :=
  if i = 0 then .running else if i ≤ 2 then .ready else .unused

/-- The current process exits, and the next one creates a process in its slot; twice. -/
def exchange : List SchedCall := [.exit, .create 0 0, .exit, .create 0 0]

/-- Slots 0 and 1 each exit once and are filled again, while slot 2 waits. -/
theorem exchange_run {s : System ℕ} (h : Shape s 0 threeStates) (k : ℕ) :
    ∃ t, Shape t 0 threeStates ∧
    Run (Guarded (Waits 2) (CountStep ampleOps sampleSymbols)) (s, k) exchange (t, k + 2) := by
  obtain ⟨s₁, hexit₁, h₁⟩ := ample_exit (n := 1) h (by decide +kernel)
  obtain ⟨s₂, hcreate₂, hstarted₂, hcurrent₂, hstates₂⟩ :=
    ample_create (n := 0) 0 0 h₁.states (by decide +kernel)
  have h₂ : Shape s₂ 1 _ := ⟨hstarted₂.trans h₁.started, hcurrent₂.trans h₁.current, hstates₂⟩
  obtain ⟨s₃, hexit₃, h₃⟩ := ample_exit (n := 0) h₂ (by decide +kernel)
  obtain ⟨s₄, hcreate₄, hstarted₄, hcurrent₄, hstates₄⟩ :=
    ample_create (n := 1) 0 0 h₃.states (by decide +kernel)
  have h₄ : Shape s₄ 0 threeStates := by
    refine ⟨hstarted₄.trans h₃.started, hcurrent₄.trans h₃.current, fun i ↦ ?_⟩
    rw [hstates₄]
    revert i
    decide +kernel
  exact ⟨s₄, h₄, Run.cons ⟨h.states 2, countStep_of hexit₁ h.current h₁.current k⟩
    (Run.cons ⟨h₁.states 2, countStep_of hcreate₂ h₁.current h₂.current _⟩
      (Run.cons ⟨h₂.states 2, countStep_of hexit₃ h₂.current h₃.current _⟩
        (Run.single ⟨h₃.states 2, countStep_of hcreate₄ h₃.current h₄.current _⟩)))⟩

/-- Three processes are created, and the scheduler is started. -/
theorem startThree_run : ∃ s, Shape s 0 threeStates ∧
    Run (SchedStep ampleOps sampleSymbols) (System.boot 0) startThree s := by
  obtain ⟨s, hs, hstarted, hcurrent, hstates⟩ : ∃ s ∈ sampleCalls (System.boot 0) startThree,
      s.table.started = true ∧ s.table.current = some 0 ∧
      ∀ i, (s.table.procs i).state = threeStates i := by
    decide +kernel
  exact ⟨s, ⟨hstarted, hcurrent, hstates⟩, sampleCalls_run hs⟩

/-- **A ready slot can wait for ever**: two processes below it that create each other anew before
they exit take turns for as long as they like. -/
theorem starved : ∃ s, Run (SchedStep ampleOps sampleSymbols) (System.boot 0) startThree s ∧
    s.table.started = true ∧ ∀ n, ∃ calls t,
      Run (Guarded (Waits 2) (CountStep ampleOps sampleSymbols)) (s, 0) calls (t, 2 * n) ∧
      (t.table.procs 2).state = .ready := by
  obtain ⟨s, hs, hrun⟩ := startThree_run
  refine ⟨s, hrun, hs.started, fun n ↦ ?_⟩
  have hturns : ∃ calls t, Shape t 0 threeStates ∧
      Run (Guarded (Waits 2) (CountStep ampleOps sampleSymbols)) (s, 0) calls (t, 2 * n) := by
    induction n with
    | zero => exact ⟨[], s, hs, Run.nil _⟩
    | succ n ih =>
      obtain ⟨calls, t, ht, hcalls⟩ := ih
      obtain ⟨u, hu, hexchange⟩ := exchange_run ht (2 * n)
      exact ⟨calls ++ exchange, u, hu, hcalls.append hexchange⟩
  obtain ⟨calls, t, ht, hcalls⟩ := hturns
  exact ⟨calls, t, hcalls, ht.states 2⟩

/-- The general theorem where slot 2 waits and slot 0 yields. -/
theorem waits_bounded_startThree : ∃ s t : System ℕ × ℕ,
    Run (Guarded (Waits 2) (Guarded (ExitsInTurn 2) (CountStep ampleOps sampleSymbols)))
      s [.yield ⟨0, 0, 0, 0, 0, 0, 0, 0⟩] t ∧ t.2 ≤ maxProcesses - 1 := by
  obtain ⟨s, hs, hrun⟩ := startThree_run
  obtain ⟨t, hyield⟩ := exists_countStep
    (@SchedStep.yield _ ampleOps sampleSymbols s ⟨0, 0, 0, 0, 0, 0, 0, 0⟩) 0
  have hwait : Run (Guarded (Waits 2) (Guarded (ExitsInTurn 2) (CountStep ampleOps sampleSymbols)))
      (s, 0) [.yield ⟨0, 0, 0, 0, 0, 0, 0, 0⟩] t := Run.single ⟨hs.states 2, nofun, hyield⟩
  exact ⟨(s, 0), t, hwait, waits_bounded hrun hs.started hwait⟩

end LightNight
