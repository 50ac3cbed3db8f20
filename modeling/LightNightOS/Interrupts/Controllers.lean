import LightNightOS.Foundation.Pic
import LightNightOS.Foundation.Runs
import LightNightOS.Interrupts.Gates

/-!
# The interrupt controllers

`pic_init` of `interrupt.c` programs the two controllers of a PC by twelve writes to four ports. The
second controller is on line 2 of the first one.

Whatever was programmed before, `pic_init` leaves two lines open, those of the timer and of the
keyboard. So these are the only lines that the processor is ever interrupted for, and
`interrupt_init` has set a gate for each of them. When a device takes its request back before the
processor has asked for the vector, the answer is vector 39, which nothing has set a gate for
(`taken_installed`).

* `ours_picInit` — after `pic_init`, whatever was programmed before;
* `Ours.take` — a line that is taken is the timer or the keyboard;
* `waits_run` — a request waits until it is served or taken back;
* `taken_installed` — every run, with and without requests that are taken back.
-/

namespace LightNight

open I8259 Transition

/-! ### Ports -/

/-- `PIC_MASTER_CMD` -/
abbrev picMasterCmd : ℕ := 0x20

/-- `PIC_MASTER_DATA` -/
abbrev picMasterData : ℕ := 0x21

/-- `PIC_SLAVE_CMD` -/
abbrev picSlaveCmd : ℕ := 0xA0

/-- `PIC_SLAVE_DATA` -/
abbrev picSlaveData : ℕ := 0xA1

/-- The two controllers. -/
structure Pics where
  master : Pic
  slave : Pic

namespace Pics

variable (s : Pics)

/-- `outb` to a port of a controller. -/
def outb (port : ℕ) (v : BitVec 8) : Pics :=
  if port = picMasterCmd then { s with master := s.master.writeCommand v }
  else if port = picMasterData then { s with master := s.master.writeData v }
  else if port = picSlaveCmd then { s with slave := s.slave.writeCommand v }
  else if port = picSlaveData then { s with slave := s.slave.writeData v }
  else s

/-- `pic_init` -/
def picInit : Pics :=
  let s := s.outb picMasterData 0xFF
  let s := s.outb picSlaveData 0xFF
  let s := s.outb picMasterCmd 0x11
  let s := s.outb picSlaveCmd 0x11
  let s := s.outb picMasterData 0x20
  let s := s.outb picSlaveData 0x28
  let s := s.outb picMasterData 0x04
  let s := s.outb picSlaveData 0x02
  let s := s.outb picMasterData 0x01
  let s := s.outb picSlaveData 0x01
  let s := s.outb picMasterData 0xFC
  s.outb picSlaveData 0xFF

/-- The end of an interrupt, as the handlers send it to the first controller. -/
def endOfInterrupt : Pics := s.outb picMasterCmd 0x20

/-- The second controller requests its interrupts on line 2. -/
def cascade : Pics := if s.slave.line.isSome then { s with master := s.master.request 2 } else s

/-- The line of the first controller that the processor is interrupted for. -/
def line : Option ℕ := s.cascade.master.line

/-- The processor asks for the vector: it is that of the second controller if the line is its. -/
def acknowledge : ℕ × Pics :=
  let s := s.cascade
  match s.master.line with
  | some n =>
    if n = 2 then (s.slave.acknowledge.1, ⟨s.master.serve 2, s.slave.acknowledge.2⟩)
    else (s.master.base + n, { s with master := s.master.serve n })
  | none => (s.master.base + 7, s)

/-- The processor takes an interrupt, and asks for its vector at once. -/
def take : Option (ℕ × Pics) := s.line.map fun _ ↦ s.acknowledge

end Pics

/-- The controllers, and whether the processor has taken an interrupt and is yet to ask for its
vector. -/
structure InterruptCycle where
  pics : Pics
  asking : Bool

/-- What can happen to the controllers. -/
inductive PicEvent
  | request (n : Fin 8)
  | withdraw (n : Fin 8)
  | requestSlave (n : Fin 8)
  | withdrawSlave (n : Fin 8)
  /-- The processor finds its interrupt pin high. -/
  | interrupt
  | acknowledge
  | endOfInterrupt
  deriving DecidableEq, Repr

/-- One event. -/
def InterruptCycle.event (c : InterruptCycle) : PicEvent → Option InterruptCycle
  | .request n => some { c with pics := { c.pics with master := c.pics.master.request n } }
  | .withdraw n => some { c with pics := { c.pics with master := c.pics.master.withdraw n } }
  | .requestSlave n => some { c with pics := { c.pics with slave := c.pics.slave.request n } }
  | .withdrawSlave n => some { c with pics := { c.pics with slave := c.pics.slave.withdraw n } }
  | .interrupt =>
    if c.asking = false ∧ c.pics.line.isSome then some { c with asking := true } else none
  | .acknowledge => if c.asking then some ⟨c.pics.acknowledge.2, false⟩ else none
  | .endOfInterrupt => some { c with pics := c.pics.endOfInterrupt }

/-- One event as a step. -/
def PicStep (c : InterruptCycle) (a : PicEvent) (d : InterruptCycle) : Prop := c.event a = some d

/-- A device takes its request on the first controller back. -/
def PicEvent.Withdraws (a : PicEvent) : Prop := ∃ n, a = .withdraw n

/-! ### What is programmed

`Ours` holds after `pic_init` and is not touched by anything that happens later: requests,
acknowledges and ends of interrupts change what is requested and what is in service, but neither the
masks nor the vectors. -/

/-- A controller is programmed: its mask and its vectors are set, and no word of an initialisation
is missing. -/
structure Programmed (base : ℕ) (imr : BitVec 8) (p : Pic) : Prop where
  base : p.base = base
  imr : p.imr = imr
  expects : p.expects = .mask

namespace Pics

variable {s t : Pics} {n : ℕ}

/-- The controllers as `pic_init` leaves them, for all that may happen after it. -/
structure Ours (s : Pics) : Prop where
  master : Programmed 0x20 0xFC s.master
  slave : Programmed 0x28 0xFF s.slave

/-- **`pic_init`** programs the controllers from whatever state they are in. -/
theorem ours_picInit (s : Pics) : s.picInit.Ours := by
  refine ⟨⟨?_, rfl, rfl⟩, ⟨?_, rfl, rfl⟩⟩
  · show ((0x20 : BitVec 8) &&& 0xF8).toNat = 0x20
    decide
  · show ((0x28 : BitVec 8) &&& 0xF8).toNat = 0x28
    decide

/-- No line of the second controller is ever ready. -/
theorem Ours.slave_line (h : s.Ours) : s.slave.line = none := by
  refine Pic.line_eq_none_iff.2 fun n hn hready ↦ ?_
  have hmasked : ∀ n < 8, (0xFF : BitVec 8).getLsbD n = true := by decide
  have hopen := hready.2.1
  rw [h.slave.imr, hmasked n hn] at hopen
  cases hopen

/-- The lines of the first controller that are not masked. -/
theorem Ours.master_line (h : s.Ours) (hline : s.master.line = some n) : n = 0 ∨ n = 1 := by
  obtain ⟨hn, hready, -⟩ := Pic.line_eq_some_iff.1 hline
  have hmasked : ∀ n < 8, (0xFC : BitVec 8).getLsbD n = false → n = 0 ∨ n = 1 := by decide
  have hopen := hready.2.1
  rw [h.master.imr] at hopen
  exact hmasked n hn hopen

/-- With its lines masked the second controller asks for nothing. -/
theorem Ours.cascade_eq (h : s.Ours) : s.cascade = s := by
  rw [cascade, h.slave_line]
  rfl

/-- So the processor is offered what the first controller offers. -/
theorem Ours.line_eq (h : s.Ours) : s.line = s.master.line := by
  rw [line, h.cascade_eq]

/-- The answer when a line is ready. -/
theorem Ours.acknowledge_some (h : s.Ours) (hline : s.master.line = some n) :
    s.acknowledge = (0x20 + n, { s with master := s.master.serve n }) := by
  have hne : n ≠ 2 := by
    rintro rfl
    exact absurd (h.master_line hline) (by decide)
  rw [acknowledge, h.cascade_eq, hline]
  show (if n = 2 then _ else _) = _
  rw [if_neg hne, h.master.base]

/-- The answer when no line is ready any more. -/
theorem Ours.acknowledge_none (h : s.Ours) (hline : s.master.line = none) :
    s.acknowledge = (39, s) := by
  rw [acknowledge, h.cascade_eq, hline]
  show (s.master.base + 7, s) = _
  rw [h.master.base]

/-- And what it takes is a line of the first controller, at the vectors from 0x20 on. -/
theorem Ours.take_eq (h : s.Ours) : s.take = s.master.line.map fun n ↦
    (0x20 + n, { s with master := s.master.serve n }) := by
  rw [Pics.take, h.line_eq]
  cases hline : s.master.line with
  | none => rfl
  | some n => rw [Option.map_some, Option.map_some, h.acknowledge_some hline]

theorem Ours.serve (h : s.Ours) (n : ℕ) : Ours { s with master := s.master.serve n } :=
  ⟨⟨h.master.base, h.master.imr, h.master.expects⟩, h.slave⟩

/-- **What is taken** when the processor asks at once: an interrupt of the timer or of the
keyboard. -/
theorem Ours.take (h : s.Ours) {vector : ℕ} (htake : s.take = some (vector, t)) :
    (vector = 32 ∨ vector = 33) ∧ t.Ours := by
  rw [h.take_eq] at htake
  obtain ⟨n, hline, hpair⟩ := Option.map_eq_some_iff.1 htake
  obtain ⟨rfl, rfl⟩ := Prod.mk.inj hpair
  refine ⟨?_, h.serve n⟩
  rcases h.master_line hline with rfl | rfl
  exacts [Or.inl rfl, Or.inr rfl]

theorem Ours.request (h : s.Ours) (n : ℕ) : Ours { s with master := s.master.request n } :=
  ⟨⟨h.master.base, h.master.imr, h.master.expects⟩, h.slave⟩

theorem Ours.withdraw (h : s.Ours) (n : ℕ) : Ours { s with master := s.master.withdraw n } :=
  ⟨⟨h.master.base, h.master.imr, h.master.expects⟩, h.slave⟩

/-- The acknowledge changes requests and service bits only. -/
theorem Ours.acknowledge (h : s.Ours) : s.acknowledge.2.Ours := by
  cases hline : s.master.line with
  | none => rwa [h.acknowledge_none hline]
  | some n =>
    rw [h.acknowledge_some hline]
    exact h.serve n

/-- The end of an interrupt is one write to the first controller. -/
theorem endOfInterrupt_eq (s : Pics) : s.endOfInterrupt =
    { s with master := { s.master with isr := s.master.isr &&& (s.master.isr - 1) } } := by
  rw [endOfInterrupt, outb, if_pos rfl, Pic.writeCommand_end]

theorem Ours.endOfInterrupt (h : s.Ours) : s.endOfInterrupt.Ours := by
  rw [endOfInterrupt_eq]
  exact ⟨⟨h.master.base, h.master.imr, h.master.expects⟩, h.slave⟩

end Pics

namespace InterruptCycle

variable {c d : InterruptCycle} {a : PicEvent} {n : ℕ}

/-- **One event** keeps what is programmed. -/
theorem ours_event (h : c.pics.Ours) (hstep : PicStep c a d) : d.pics.Ours := by
  have hstep : c.event a = some d := hstep
  cases a with
  | request n =>
    obtain rfl := Option.some.inj hstep
    exact h.request n
  | withdraw n =>
    obtain rfl := Option.some.inj hstep
    exact h.withdraw n
  | requestSlave n =>
    obtain rfl := Option.some.inj hstep
    exact ⟨h.master, ⟨h.slave.base, h.slave.imr, h.slave.expects⟩⟩
  | withdrawSlave n =>
    obtain rfl := Option.some.inj hstep
    exact ⟨h.master, ⟨h.slave.base, h.slave.imr, h.slave.expects⟩⟩
  | interrupt =>
    obtain ⟨-, hsome⟩ := Option.ite_none_right_eq_some.1 hstep
    obtain rfl := Option.some.inj hsome
    exact h
  | acknowledge =>
    obtain ⟨-, hsome⟩ := Option.ite_none_right_eq_some.1 hstep
    obtain rfl := Option.some.inj hsome
    exact h.acknowledge
  | endOfInterrupt =>
    obtain rfl := Option.some.inj hstep
    exact h.endOfInterrupt

/-- The controllers are programmed, and while the processor is yet to ask, a line is ready. -/
structure Waits (c : InterruptCycle) : Prop where
  ours : c.pics.Ours
  ready : c.asking = true → ∃ n < 8, c.pics.master.Ready n

/-- A request does not make another line less ready. -/
theorem ready_request {p : Pic} (h : p.Ready n) (m : ℕ) : (p.request m).Ready n := by
  refine ⟨?_, h.2.1, h.2.2⟩
  rw [Pic.request, BitVec.getLsbD_or, h.1, Bool.true_or]

/-- The end of an interrupt takes a line out of service, and puts none in. -/
theorem ready_end {p : Pic} (h : p.Ready n) :
    Pic.Ready { p with isr := p.isr &&& (p.isr - 1) } n := by
  refine ⟨h.1, h.2.1, fun m hm ↦ ?_⟩
  show (p.isr &&& (p.isr - 1)).getLsbD m = false
  rw [BitVec.getLsbD_and, h.2.2 m hm, Bool.false_and]

/-- **One event** other than a withdrawal keeps a line ready. -/
theorem Waits.event (h : c.Waits) (hkept : ¬a.Withdraws) (hstep : PicStep c a d) : d.Waits := by
  refine ⟨ours_event h.ours hstep, ?_⟩
  have hstep : c.event a = some d := hstep
  cases a with
  | request n =>
    obtain rfl := Option.some.inj hstep
    exact fun hasking ↦ (h.ready hasking).imp fun m hm ↦ ⟨hm.1, ready_request hm.2 n⟩
  | withdraw n => exact absurd ⟨n, rfl⟩ hkept
  | requestSlave n =>
    obtain rfl := Option.some.inj hstep
    exact h.ready
  | withdrawSlave n =>
    obtain rfl := Option.some.inj hstep
    exact h.ready
  | interrupt =>
    obtain ⟨⟨-, hline⟩, hsome⟩ := Option.ite_none_right_eq_some.1 hstep
    obtain rfl := Option.some.inj hsome
    rw [h.ours.line_eq] at hline
    obtain ⟨n, hline⟩ := Option.isSome_iff_exists.1 hline
    obtain ⟨hn, hready, -⟩ := Pic.line_eq_some_iff.1 hline
    exact fun _ ↦ ⟨n, hn, hready⟩
  | acknowledge =>
    obtain ⟨-, hsome⟩ := Option.ite_none_right_eq_some.1 hstep
    obtain rfl := Option.some.inj hsome
    exact fun hasking ↦ absurd hasking Bool.false_ne_true
  | endOfInterrupt =>
    obtain rfl := Option.some.inj hstep
    intro hasking
    obtain ⟨n, hn, hready⟩ := h.ready hasking
    refine ⟨n, hn, ?_⟩
    show Pic.Ready c.pics.endOfInterrupt.master n
    rw [Pics.endOfInterrupt_eq]
    exact ready_end hready

/-- **A whole run** behind `pic_init` in which nothing is withdrawn. -/
theorem waits_run {s : Pics} {events : List PicEvent}
    (hrun : Run PicStep ⟨s.picInit, false⟩ events c) (hkept : ∀ a ∈ events, ¬a.Withdraws) :
    c.Waits := by
  have hstart : Waits ⟨s.picInit, false⟩ := ⟨s.ours_picInit, fun h ↦ absurd h Bool.false_ne_true⟩
  refine hrun.traced (I := fun events c ↦ (∀ a ∈ events, ¬a.Withdraws) → Waits c)
    (fun ih hstep hkept ↦ ?_) (fun _ ↦ hstart) hkept
  rw [List.forall_mem_append, List.forall_mem_singleton] at hkept
  exact (ih hkept.1).event hkept.2 hstep

end InterruptCycle

/-! ### Gates

A vector that is taken is 32 or 33, or 39 where a request was taken back; what gates there are for
these follows from the calls of the `idt` functions alone. -/

section Taken

variable {sym : Handlers} {s : Pics} {c d : InterruptCycle} {calls : List IdtCall}
  {events : List PicEvent}

/-- A gate behind `interrupt_init`: its own, or the one that was set before. -/
theorem active_interruptInit (sym : Handlers) (calls : List IdtCall) (v : ℕ) :
    (Idt.run sym (calls ++ [.interruptInit])).active v =
      ((IdtCall.interruptInit.sets sym .interrupt v).or (lastIn sym calls .interrupt v)).map
        fun h ↦ .gate h 0x8E := by
  have hloaded : loaded (calls ++ [.interruptInit]) = some .interrupt := List.foldl_append
  have hlast : lastIn sym (calls ++ [.interruptInit]) .interrupt v =
      (IdtCall.interruptInit.sets sym .interrupt v).or (lastIn sym calls .interrupt v) :=
    List.foldl_append
  rw [run_active, hloaded, Option.bind_some, hlast]

/-- Only `idt_register_handler` sets a vector past those of the timer and of the keyboard. -/
theorem lastIn_eq_none {v : ℕ} (hv : 33 < v) (hfree : ∀ h, .registerHandler v h ∉ calls) :
    lastIn sym calls .interrupt v = none := by
  induction calls using List.reverseRecOn with
  | nil => rfl
  | append_singleton calls call ih =>
    have hlast : lastIn sym (calls ++ [call]) .interrupt v =
        (call.sets sym .interrupt v).or (lastIn sym calls .interrupt v) :=
      List.foldl_append
    rw [hlast, ih fun h hmem ↦ hfree h (List.mem_append_left _ hmem), Option.or_none]
    cases call with
    | idtInit => rfl
    | interruptInit =>
      rw [IdtCall.sets, if_neg fun h ↦ by omega, if_neg fun h ↦ by omega]
    | registerHandler vector handler =>
      refine if_neg fun h ↦ hfree handler ?_
      rw [← h.2.1]
      exact List.mem_append_right _ (List.mem_singleton_self _)

/-- The processor that asks for the vector gets that of the timer or of the keyboard, and the table
that it looks into after these calls and `interrupt_init` has the gate of its handler. -/
def InterruptCycle.Handled (sym : Handlers) (calls : List IdtCall) (c : InterruptCycle) : Prop :=
  (c.pics.acknowledge.1 = 32 ∧
    (Idt.run sym (calls ++ [.interruptInit])).active 32 = some (.gate sym.timerHandler 0x8E)) ∨
  (c.pics.acknowledge.1 = 33 ∧
    (Idt.run sym (calls ++ [.interruptInit])).active 33 = some (.gate sym.keyboardHandler 0x8E))

/-- A device has taken its request back, and no line is ready any more: the processor gets vector
39, which has no gate unless one was registered. -/
structure InterruptCycle.Spurious (sym : Handlers) (calls : List IdtCall) (events : List PicEvent)
    (c : InterruptCycle) : Prop where
  withdrawn : ∃ a ∈ events, a.Withdraws
  line : c.pics.line = none
  vector : c.pics.acknowledge.1 = 39
  gate : (∀ h, .registerHandler 39 h ∉ calls) →
    (Idt.run sym (calls ++ [.interruptInit])).active 39 = none

/-- **Every interrupt that is taken has its handler**, but for a request that was taken back. After
`pic_init` and `interrupt_init`, from any state of the controllers and of the tables, and after any
requests and withdrawals on any of the lines, the processor that was interrupted and asks for the
vector gets that of the timer or of the keyboard, with its handler. Or a request was withdrawn
meanwhile, and it gets vector 39. -/
theorem taken_installed (sym : Handlers) (calls : List IdtCall)
    (hrun : Run PicStep ⟨s.picInit, false⟩ events c) (hstep : PicStep c .acknowledge d) :
    c.Handled sym calls ∨ c.Spurious sym calls events := by
  have hours : c.pics.Ours := by
    refine hrun.invariant (I := fun c ↦ c.pics.Ours)
      (fun h hstep ↦ InterruptCycle.ours_event h hstep) ?_
    exact s.ours_picInit
  have hasking : c.asking = true := (Option.ite_none_right_eq_some.1 hstep).1
  cases hline : c.pics.master.line with
  | some n =>
    rw [InterruptCycle.Handled, hours.acknowledge_some hline]
    rcases hours.master_line hline with rfl | rfl
    · exact Or.inl (Or.inl ⟨rfl, active_interruptInit sym calls 32⟩)
    · exact Or.inl (Or.inr ⟨rfl, active_interruptInit sym calls 33⟩)
  | none =>
    refine Or.inr ⟨?_, hours.line_eq.trans hline, congrArg Prod.fst (hours.acknowledge_none hline),
      fun hfree ↦ ?_⟩
    · by_contra hkept
      have hwaits := InterruptCycle.waits_run hrun fun a ha hwithdraws ↦ hkept ⟨a, ha, hwithdraws⟩
      obtain ⟨n, hn, hready⟩ := hwaits.ready hasking
      exact Pic.line_eq_none_iff.1 hline n hn hready
    · rw [active_interruptInit, lastIn_eq_none (by decide) hfree]
      rfl

/-- Controllers that nothing has programmed. -/
def rawPics : Pics := ⟨⟨0, 0, 0, 0, .mask, false, false⟩, ⟨0, 0, 0, 0, .mask, false, false⟩⟩

/-- The disk requests an interrupt on the second controller, and the keyboard on the first one; the
processor is interrupted for the keyboard, and gets vector 33. -/
def keyboardAsks : InterruptCycle where
  pics := ⟨rawPics.picInit.master.request 1, rawPics.picInit.slave.request 6⟩
  asking := true

/-- The same, and then the keyboard takes its request back: the processor gets vector 39. -/
def keyboardWithdraws : InterruptCycle where
  pics := { keyboardAsks.pics with master := keyboardAsks.pics.master.withdraw 1 }
  asking := true

theorem keyboardAsks_run :
    Run PicStep ⟨rawPics.picInit, false⟩ [.requestSlave 6, .request 1, .interrupt]
      keyboardAsks := by
  have hdisk : PicStep ⟨rawPics.picInit, false⟩ (.requestSlave 6)
      ⟨⟨rawPics.picInit.master, keyboardAsks.pics.slave⟩, false⟩ := rfl
  have hkeyboard : PicStep ⟨⟨rawPics.picInit.master, keyboardAsks.pics.slave⟩, false⟩ (.request 1)
      ⟨keyboardAsks.pics, false⟩ := rfl
  have hline : keyboardAsks.pics.line = some 1 := by decide +kernel
  have hinterrupt : PicStep ⟨keyboardAsks.pics, false⟩ .interrupt keyboardAsks := by
    rw [PicStep, InterruptCycle.event, hline]
    exact if_pos ⟨rfl, rfl⟩
  exact ((Run.single hdisk).snoc hkeyboard).snoc hinterrupt

/-- The keyboard asks, the processor is interrupted, and the request is taken back. -/
theorem keyboardWithdraws_run :
    Run PicStep ⟨rawPics.picInit, false⟩ [.requestSlave 6, .request 1, .interrupt, .withdraw 1]
      keyboardWithdraws :=
  keyboardAsks_run.snoc rfl

/-- After the order of `kernel_init`, without the withdrawal and with it. -/
theorem taken_installed_keyboard :
    (keyboardAsks.Handled sampleHandlers [.idtInit] ∨
      keyboardAsks.Spurious sampleHandlers [.idtInit] [.requestSlave 6, .request 1, .interrupt]) ∧
    (keyboardWithdraws.Handled sampleHandlers [.idtInit] ∨
      keyboardWithdraws.Spurious sampleHandlers [.idtInit]
        [.requestSlave 6, .request 1, .interrupt, .withdraw 1]) :=
  ⟨taken_installed sampleHandlers [.idtInit] keyboardAsks_run rfl,
    taken_installed sampleHandlers [.idtInit] keyboardWithdraws_run rfl⟩

end Taken

end LightNight
