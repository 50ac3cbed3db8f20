import LightNightOS.Interrupts.Controllers
import LightNightOS.Shell.Keyboard

/-!
# From the keyboard to the shell

The machine while the kernel waits in its loop: the keyboard controller, which holds the scan codes
that have not been read and requests line 1 when the first of them can be; the timer, which requests
line 0; the interrupt controllers; and the processor, which takes an interrupt between two
instructions of the kernel and runs its handler with further interrupts off. Codes and ticks come at
any time, also between any two accesses of a handler to a port.

No code is lost, taken twice, or left without an interrupt that will read it (`delivery_safe`), and
when the processor is left alone it comes to rest with all of them handled (`delivery_drains`).

Hardware differs in whether a request stays when its line falls again, so the controller may take
back the request of line 1 whenever no code is waiting. The processor asks for a vector as soon as
it is interrupted: a request that is taken back between the two, which is answered with vector 39,
is a matter of the controllers alone (`taken_installed`).

* `Delivers` — the invariant: the codes that were handled and the codes that wait are, in this
  order, the codes that came;
* `delivers_of_run` — every order of events keeps it, from the boot on;
* `Delivers.effort_lt`, `Delivers.drains` — what is left to do gets less, and the machine comes to
  rest.
-/

namespace LightNight

open I8259 Transition

/-! ### The machine

`Phase` says where the processor is, between two accesses to the ports; `event` is what can happen
next, from outside (a key, a tick, a withdrawn request) or from the processor (one access). The two
come in any order. -/

/-- Where the processor is: in the kernel with interrupts on, or at an access of a handler to a
port. -/
inductive Phase
  | kernel
  /-- `timer_handler_c`, in front of its `outb`. -/
  | timer
  /-- `keyboard_handler_c`, in front of `inb(PS2_STATUS)`. -/
  | poll
  /-- `keyboard_handler_c`, in front of `inb(PS2_DATA)`. -/
  | read
  /-- `keyboard_handler_c`, in front of its `outb`. -/
  | finish
  /-- Either handler, in front of its `iretq`. -/
  | leave
  deriving DecidableEq, Repr

/-- The machine. -/
structure Machine where
  pics : Pics
  /-- The scan codes that the keyboard controller holds. -/
  waiting : List UInt8
  phase : Phase
  session : Session
  /-- `g_ticks` -/
  ticks : ℕ

namespace Machine

variable (m : Machine)

/-- A request on a line of the first controller. -/
def request (n : ℕ) : Machine :=
  { m with pics := { m.pics with master := m.pics.master.request n } }

/-- `inb(PS2_DATA)`, when `rest` stays in the controller: the next code makes the line rise
again. -/
def keep (rest : List UInt8) : Machine :=
  let m := { m with waiting := rest }
  if rest = [] then m else m.request 1

/-- `kbd_flush`, with the number of turns left. -/
def kbdFlush : ℕ → Machine → Machine
  | 0, m => m
  | k + 1, m =>
    match m.waiting with
    | [] => m
    | _ :: rest => kbdFlush k (m.keep rest)

/-- The next access of the processor, if it is not halted. -/
def proceed : Option Machine :=
  match m.phase with
  | .kernel => m.pics.take.bind fun r ↦
    if r.1 = 32 then some { m with pics := r.2, phase := .timer }
    else if r.1 = 33 then some { m with pics := r.2, phase := .poll }
    else none
  | .timer => some { m with
      ticks := u64 (m.ticks + 1)
      pics := m.pics.endOfInterrupt
      phase := .leave }
  | .poll =>
    if m.waiting = [] then some { m with session := m.session.showCursor, phase := .finish }
    else some { m with phase := .read }
  | .read =>
    match m.waiting with
    | [] => none
    | scancode :: rest => (m.session.scan scancode).map fun session ↦
        { m with session := session, phase := .poll }.keep rest
  | .finish => some { m with pics := m.pics.endOfInterrupt, phase := .leave }
  | .leave => some { m with phase := .kernel }

end Machine

/-- What can happen. -/
inductive MachineEvent
  | key (scancode : UInt8)
  | tick
  | withdraw
  | run
  deriving DecidableEq, Repr

/-- One event. -/
def Machine.event (m : Machine) : MachineEvent → Option Machine
  | .key scancode =>
    let n := { m with waiting := m.waiting ++ [scancode] }
    some (if m.waiting = [] then n.request 1 else n)
  | .tick => some (m.request 0)
  | .withdraw =>
    if m.waiting = [] then
      some { m with pics := { m.pics with master := m.pics.master.withdraw 1 } } else none
  | .run => m.proceed

/-- One event as a step. -/
def MachineStep (m : Machine) (a : MachineEvent) (n : Machine) : Prop := m.event a = some n

/-- The machine when the shell has started: `pic_init`, then `keyboard_init` on the codes that the
controller held, with the console that the shell is started on. The codes that come while it starts
are not described. -/
def Machine.booted (pics : Pics) (buffered : List UInt8) (console : Console) : Machine :=
  kbdFlush 256 ⟨pics.picInit, buffered, .kernel, Session.started console, 0⟩

/-- The scan code that comes with an event. -/
def MachineEvent.scancode : MachineEvent → Option UInt8
  | .key scancode => some scancode
  | _ => none

/-- The scan codes that come with some events. -/
def scancodes (events : List MachineEvent) : List UInt8 := events.filterMap MachineEvent.scancode

/-! ### One event -/

/-- The lines in service, where the processor is. -/
def Phase.inService : Phase → BitVec 8
  | .kernel | .leave => 0
  | .timer => 1
  | .poll | .read | .finish => 2

/-- The processor has yet to look whether codes are waiting. -/
def Phase.Looks (phase : Phase) : Prop := phase = .poll ∨ phase = .read

/-- The ticks that are not yet counted. -/
def Machine.uncounted (m : Machine) : ℕ :=
  (if m.pics.master.irr.getLsbD 0 then 1 else 0) + if m.phase = .timer then 1 else 0

/-- **The invariant.** The codes that came, from the start of the shell `first` on, are those that
were handled and then those that are waiting, and these have an interrupt. -/
structure Delivers (first : Session) (came : List UInt8) (ticks : ℕ) (m : Machine) : Prop where
  ours : m.pics.Ours
  isr : m.pics.master.isr = m.phase.inService
  awake : m.waiting ≠ [] → m.pics.master.irr.getLsbD 1 = true ∨ m.phase.Looks
  reads : m.phase = .read → m.waiting ≠ []
  counted : m.ticks + m.uncounted ≤ ticks
  sound : m.session.Sound
  shown : ¬m.phase.Looks → m.session.showCursor = m.session
  handled : ∃ handled, handled ++ m.waiting = came ∧
    first.keyboardHandlerC handled = some m.session.showCursor

namespace Delivers

variable {first : Session} {came : List UInt8} {ticks : ℕ} {m n : Machine} {a : MachineEvent}

theorem keyboardHandlerC_concat {u v w : Session} {handled : List UInt8} {scancode : UInt8}
    (h : u.keyboardHandlerC handled = some v.showCursor) (hscan : v.scan scancode = some w) :
    u.keyboardHandlerC (handled ++ [scancode]) = some w.showCursor := by
  have hone : v.showCursor.keyboardHandlerC [scancode] = some w.showCursor := by
    have hlast := Session.scan_showCursor v scancode
    rw [hscan] at hlast
    show Option.map _ ((v.showCursor.scan scancode).bind some) = _
    rw [Option.bind_fun_some]
    exact hlast
  rw [Session.keyboardHandlerC_append, h]
  exact hone

/-- A scan code comes. -/
theorem key (h : Delivers first came ticks m) {scancode : UInt8}
    (hstep : MachineStep m (.key scancode) n) : Delivers first (came ++ [scancode]) ticks n := by
  obtain rfl := Option.some.inj hstep
  obtain ⟨handled, hcame, hhandled⟩ := h.handled
  have hnext : handled ++ (m.waiting ++ [scancode]) = came ++ [scancode] := by
    rw [← List.append_assoc, hcame]
  have hsome : m.waiting ++ [scancode] ≠ [] := List.concat_ne_nil _ _
  split
  case isTrue hempty =>
    refine ⟨h.ours.request 1, h.isr, fun _ ↦ Or.inl ?_, fun _ ↦ hsome, ?_, h.sound, h.shown,
      handled, hnext, hhandled⟩
    · exact Pic.getLsbD_request (by decide) 1
    · have hbit := Pic.getLsbD_request (p := m.pics.master) (by decide : 1 < 8) 0
      show m.ticks + ((if (m.pics.master.request 1).irr.getLsbD 0 then 1 else 0) + _) ≤ ticks
      rw [hbit]
      exact h.counted
  case isFalse hwaiting =>
    -- the line is up already, and what it stands for covers the new code
    exact ⟨h.ours, h.isr, fun _ ↦ h.awake hwaiting, fun _ ↦ hsome, h.counted, h.sound, h.shown,
      handled, hnext, hhandled⟩

/-- The timer ticks. -/
theorem tick (h : Delivers first came ticks m) (hstep : MachineStep m .tick n) :
    Delivers first came (ticks + 1) n := by
  obtain rfl := Option.some.inj hstep
  have hbit := Pic.getLsbD_request (p := m.pics.master) (by decide : 0 < 8)
  refine ⟨h.ours.request 0, h.isr, fun hwaiting ↦ ?_, h.reads, ?_, h.sound, h.shown, h.handled⟩
  · refine (h.awake hwaiting).imp_left fun hrequested ↦ ?_
    exact (hbit 1).trans hrequested
  · have hcounted := h.counted
    show m.ticks + ((if (m.pics.master.request 0).irr.getLsbD 0 then 1 else 0) +
      if m.phase = .timer then 1 else 0) ≤ ticks + 1
    rw [Machine.uncounted] at hcounted
    -- a tick that finds its request still there is lost
    split <;> split at hcounted <;> omega

/-- The keyboard controller takes back its request, while no code is waiting. -/
theorem withdraw (h : Delivers first came ticks m) (hstep : MachineStep m .withdraw n) :
    Delivers first came ticks n := by
  have hstep : m.event .withdraw = some n := hstep
  rw [Machine.event] at hstep
  split at hstep
  case isFalse => cases hstep
  case isTrue hempty =>
    obtain rfl := Option.some.inj hstep
    refine ⟨h.ours.withdraw 1, h.isr, fun hwaiting ↦ absurd hempty hwaiting, h.reads, ?_,
      h.sound, h.shown, h.handled⟩
    have hbit := Pic.getLsbD_withdraw (p := m.pics.master) (by decide : 1 < 8) 0
    show m.ticks + ((if (m.pics.master.withdraw 1).irr.getLsbD 0 then 1 else 0) + _) ≤ ticks
    rw [hbit]
    exact h.counted

/-- **What can be taken** in the kernel: the interrupt of the timer or that of the keyboard, when it
is requested. -/
theorem take_cases (h : Delivers first came ticks m) (hphase : m.phase = .kernel)
    (hstep : m.proceed = some n) :
    n.pics.Ours ∧
    (m.pics.master.irr.getLsbD 0 = true ∧
        n = { m with pics := { m.pics with master := m.pics.master.serve 0 }, phase := .timer } ∨
      m.pics.master.irr.getLsbD 1 = true ∧
        n = { m with
          pics := { m.pics with master := m.pics.master.serve 1 }, phase := .poll }) := by
  rw [Machine.proceed, hphase] at hstep
  obtain ⟨⟨vector, pics⟩, htake, hstep⟩ := Option.bind_eq_some_iff.1 hstep
  have hours := (h.ours.take htake).2
  rw [h.ours.take_eq] at htake
  obtain ⟨line, hline, hpair⟩ := Option.map_eq_some_iff.1 htake
  obtain ⟨rfl, rfl⟩ := Prod.mk.inj hpair
  have hrequested := (Pic.line_eq_some_iff.1 hline).2.1.1
  rcases h.ours.master_line hline with rfl | rfl
  · obtain rfl := Option.some.inj hstep
    exact ⟨hours, Or.inl ⟨hrequested, rfl⟩⟩
  · obtain rfl := Option.some.inj hstep
    exact ⟨hours, Or.inr ⟨hrequested, rfl⟩⟩

/-- An interrupt is taken. -/
theorem take (h : Delivers first came ticks m) (hphase : m.phase = .kernel)
    (hstep : m.proceed = some n) : Delivers first came ticks n := by
  have hisr : m.pics.master.isr = 0 := by
    rw [h.isr, hphase]
    rfl
  have hshown := h.shown (by rw [hphase, Phase.Looks]; decide)
  have hcounted := h.counted
  rw [Machine.uncounted, hphase] at hcounted
  obtain ⟨hours, ⟨hrequested, rfl⟩ | ⟨-, rfl⟩⟩ := h.take_cases hphase hstep
  · -- the timer: the request that is served becomes a tick to be counted
    have hbit := Pic.getLsbD_serve (p := m.pics.master) (by decide : 0 < 8)
    refine ⟨hours, ?_, fun hwaiting ↦ Or.inl ?_, (fun hread ↦ by cases hread), ?_, h.sound,
      fun _ ↦ hshown, h.handled⟩
    · show m.pics.master.isr ||| BitVec.twoPow 8 0 = 1
      rw [hisr]
      decide
    · refine (hbit 1).trans ((h.awake hwaiting).resolve_right ?_)
      rw [hphase, Phase.Looks]
      decide
    · show m.ticks + ((if (m.pics.master.serve 0).irr.getLsbD 0 then 1 else 0) + 1) ≤ ticks
      have hclear : (m.pics.master.serve 0).irr.getLsbD 0 = false := hbit 0
      rw [if_pos hrequested, if_neg (by decide)] at hcounted
      rw [hclear, if_neg Bool.false_ne_true]
      omega
  · -- the keyboard: its handler has yet to look
    have hbit := Pic.getLsbD_serve (p := m.pics.master) (by decide : 1 < 8) 0
    refine ⟨hours, ?_, fun _ ↦ Or.inr (Or.inl rfl), (fun hread ↦ by cases hread), ?_, h.sound,
      fun _ ↦ hshown, h.handled⟩
    · show m.pics.master.isr ||| BitVec.twoPow 8 1 = 2
      rw [hisr]
      decide
    · show m.ticks + ((if (m.pics.master.serve 1).irr.getLsbD 0 then 1 else 0) + 0) ≤ ticks
      rw [hbit]
      exact hcounted

/-- The end of an interrupt ends the one that is in service. -/
theorem isr_end (h : Delivers first came ticks m)
    (hserved : m.phase.inService = 1 ∨ m.phase.inService = 2) :
    m.pics.endOfInterrupt.master.isr = 0 := by
  rw [Pics.endOfInterrupt_eq]
  show m.pics.master.isr &&& (m.pics.master.isr - 1) = 0
  rw [h.isr]
  rcases hserved with heq | heq <;> rw [heq] <;> decide

/-- A code is read and handled. -/
theorem read (h : Delivers first came ticks m) (hphase : m.phase = .read)
    (hstep : m.proceed = some n) : Delivers first came ticks n := by
  have hcounted := h.counted
  rw [Machine.uncounted, hphase] at hcounted
  rw [Machine.proceed, hphase] at hstep
  obtain ⟨handled, hcame, hhandled⟩ := h.handled
  cases hwaiting : m.waiting with
  | nil => exact absurd hwaiting (h.reads hphase)
  | cons scancode rest =>
    rw [hwaiting] at hstep hcame
    obtain ⟨v, hscan, hsound⟩ := h.sound.scan scancode
    obtain ⟨w, hscan', rfl⟩ := Option.map_eq_some_iff.1 hstep
    obtain rfl := Option.some.inj (hscan.symm.trans hscan')
    have hisr : m.pics.master.isr = 2 := by
      rw [h.isr, hphase]
      rfl
    have hnext : (handled ++ [scancode]) ++ rest = came := by
      rw [← hcame, List.append_assoc]
      rfl
    have hlast := keyboardHandlerC_concat hhandled hscan
    rw [Machine.keep]
    split
    case isTrue hempty =>
      -- the last code: the handler looks once more
      exact ⟨h.ours, hisr, fun _ ↦ Or.inr (Or.inl rfl), (fun hread ↦ by cases hread),
        hcounted, hsound, fun hlooks ↦ absurd (Or.inl rfl) hlooks, _, hnext, hlast⟩
    case isFalse hmore =>
      have hbit := Pic.getLsbD_request (p := m.pics.master) (by decide : 1 < 8) 0
      refine ⟨h.ours.request 1, hisr, fun _ ↦ Or.inr (Or.inl rfl), (fun hread ↦ by cases hread),
        ?_, hsound, fun hlooks ↦ absurd (Or.inl rfl) hlooks, _, hnext, hlast⟩
      show m.ticks + ((if (m.pics.master.request 1).irr.getLsbD 0 then 1 else 0) + 0) ≤ ticks
      rw [hbit]
      exact hcounted

/-- **The processor goes on.** -/
theorem run (h : Delivers first came ticks m) (hstep : MachineStep m .run n) :
    Delivers first came ticks n := by
  have hproceed : m.proceed = some n := hstep
  have hcounted := h.counted
  cases hphase : m.phase with
  | kernel => exact h.take hphase hproceed
  | read => exact h.read hphase hproceed
  | timer =>
    have hisr := h.isr_end (Or.inl (by rw [hphase]; rfl))
    rw [Machine.uncounted, hphase, if_pos rfl] at hcounted
    rw [Machine.proceed, hphase] at hproceed
    obtain rfl := Option.some.inj hproceed
    refine ⟨h.ours.endOfInterrupt, hisr, fun hwaiting ↦ Or.inl ?_, (fun hread ↦ by cases hread),
      ?_, h.sound, fun _ ↦ h.shown (by rw [hphase, Phase.Looks]; decide), h.handled⟩
    · rw [Pics.endOfInterrupt_eq]
      exact (h.awake hwaiting).resolve_right (by rw [hphase, Phase.Looks]; decide)
    · rw [Machine.uncounted, Pics.endOfInterrupt_eq]
      show u64 (m.ticks + 1) + ((if m.pics.master.irr.getLsbD 0 then 1 else 0) + 0) ≤ ticks
      -- the tick that was taken moves into `g_ticks`, which may wrap
      have hwrap : u64 (m.ticks + 1) ≤ m.ticks + 1 := Nat.mod_le _ _
      omega
  | poll =>
    rw [Machine.uncounted, hphase] at hcounted
    have hisr : m.pics.master.isr = 2 := by
      rw [h.isr, hphase]
      rfl
    rw [Machine.proceed, hphase] at hproceed
    dsimp only at hproceed
    split at hproceed
    case isTrue hempty =>
      obtain rfl := Option.some.inj hproceed
      exact ⟨h.ours, hisr, fun hwaiting ↦ absurd hempty hwaiting,
        (fun hread ↦ by cases hread), hcounted, h.sound.showCursor, fun _ ↦ rfl, h.handled⟩
    case isFalse hwaiting =>
      obtain rfl := Option.some.inj hproceed
      exact ⟨h.ours, hisr, fun _ ↦ Or.inr (Or.inr rfl), fun _ ↦ hwaiting, hcounted, h.sound,
        fun hlooks ↦ absurd (Or.inr rfl) hlooks, h.handled⟩
  | finish =>
    have hisr := h.isr_end (Or.inr (by rw [hphase]; rfl))
    rw [Machine.uncounted, hphase] at hcounted
    rw [Machine.proceed, hphase] at hproceed
    obtain rfl := Option.some.inj hproceed
    refine ⟨h.ours.endOfInterrupt, hisr, fun hwaiting ↦ Or.inl ?_, (fun hread ↦ by cases hread),
      ?_, h.sound, fun _ ↦ h.shown (by rw [hphase, Phase.Looks]; decide), h.handled⟩
    · rw [Pics.endOfInterrupt_eq]
      exact (h.awake hwaiting).resolve_right (by rw [hphase, Phase.Looks]; decide)
    · rw [Machine.uncounted, Pics.endOfInterrupt_eq]
      exact hcounted
  | leave =>
    have hisr : m.pics.master.isr = 0 := by
      rw [h.isr, hphase]
      rfl
    rw [Machine.uncounted, hphase] at hcounted
    rw [Machine.proceed, hphase] at hproceed
    obtain rfl := Option.some.inj hproceed
    exact ⟨h.ours, hisr, fun hwaiting ↦ Or.inl ((h.awake hwaiting).resolve_right
      (by rw [hphase, Phase.Looks]; decide)), (fun hread ↦ by cases hread), hcounted, h.sound,
      fun _ ↦ h.shown (by rw [hphase, Phase.Looks]; decide), h.handled⟩

/-- **One event.** -/
theorem event (h : Delivers first came ticks m) (hstep : MachineStep m a n) :
    Delivers first (came ++ scancodes [a]) (ticks + [a].count .tick) n := by
  cases a with
  | key scancode => exact h.key hstep
  | tick =>
    show Delivers first (came ++ []) (ticks + 1) n
    rw [List.append_nil]
    exact h.tick hstep
  | withdraw =>
    show Delivers first (came ++ []) ticks n
    rw [List.append_nil]
    exact h.withdraw hstep
  | run =>
    show Delivers first (came ++ []) ticks n
    rw [List.append_nil]
    exact h.run hstep

end Delivers

/-! ### The boot

Codes may arrive before the kernel is ready. They are read and dropped, and what arrives behind the
last look is delivered like any other. -/

section Boot

variable {m : Machine} {buffered : List UInt8} {console : Console} {pics : Pics}

/-- What `kbd_flush` leaves: it has read as many codes as it has turns, and where there are more, a
request for the next one. -/
structure Flushed (k : ℕ) (m n : Machine) : Prop where
  ours : n.pics.Ours
  isr : n.pics.master.isr = 0
  timer : n.pics.master.irr.getLsbD 0 = false
  waiting : n.waiting = m.waiting.drop k
  awake : n.waiting ≠ [] → n.pics.master.irr.getLsbD 1 = true
  phase : n.phase = m.phase
  session : n.session = m.session
  ticks : n.ticks = m.ticks

/-- The loop that empties the controller at the boot ends with nothing waiting. -/
theorem flushed_kbdFlush {k : ℕ} (hours : m.pics.Ours) (hisr : m.pics.master.isr = 0)
    (htimer : m.pics.master.irr.getLsbD 0 = false)
    (hawake : m.waiting ≠ [] → m.pics.master.irr.getLsbD 1 = true ∨ 0 < k) :
    Flushed k m (m.kbdFlush k) := by
  induction k generalizing m with
  | zero =>
    exact ⟨hours, hisr, htimer, rfl, fun hwaiting ↦ (hawake hwaiting).resolve_right (lt_irrefl 0),
      rfl, rfl, rfl⟩
  | succ k ih =>
    rw [Machine.kbdFlush]
    cases hwaiting : m.waiting with
    | nil =>
      exact ⟨hours, hisr, htimer, by rw [hwaiting]; rfl, fun hne ↦ absurd hwaiting hne,
        rfl, rfl, rfl⟩
    | cons scancode rest =>
      dsimp only
      rw [Machine.keep]
      split
      case isTrue hempty =>
        obtain ⟨hours, hisr, htimer, hleft, hawake, hphase, hsession, hticks⟩ :=
          ih (m := { m with waiting := rest })
          hours hisr htimer fun hne ↦ absurd hempty hne
        exact ⟨hours, hisr, htimer, by rw [hleft, hwaiting]; rfl, hawake, hphase, hsession, hticks⟩
      case isFalse hmore =>
        have hbit := Pic.getLsbD_request (p := m.pics.master) (by decide : 1 < 8)
        obtain ⟨hours, hisr, htimer, hleft, hawake, hphase, hsession, hticks⟩ :=
          ih (m := Machine.request { m with waiting := rest } 1) (hours.request 1) hisr
            ((hbit 0).trans htimer)
            fun _ ↦ Or.inl (hbit 1)
        exact ⟨hours, hisr, htimer, by rw [hleft, hwaiting]; rfl, hawake, hphase, hsession, hticks⟩

/-- The machine boots with the invariant, and with none of the codes that the keyboard held. -/
theorem delivers_booted (hsound : (Session.started console).Sound) (pics : Pics)
    (hbuffered : buffered.length ≤ 256) :
    Delivers (Session.started console) [] 0 (Machine.booted pics buffered console) := by
  have hclear : pics.picInit.master.irr.getLsbD 0 = false := by
    show (0 : BitVec 8).getLsbD 0 = false
    decide
  obtain ⟨hours, hisr, htimer, hwaiting, hawake, hphase, hsession, hticks⟩ :=
    flushed_kbdFlush (k := 256) (m := ⟨pics.picInit, buffered, .kernel, Session.started console, 0⟩)
      pics.ours_picInit rfl hclear fun _ ↦ Or.inr (by decide)
  have hshown : (Session.started console).showCursor = Session.started console :=
    Session.showCursor_showCursor _
  have hread : Phase.kernel ≠ .read := by decide
  refine ⟨hours, ?_, fun hne ↦ Or.inl (hawake hne), fun heq ↦ absurd (hphase.symm.trans heq) hread,
    ?_, ?_, fun _ ↦ ?_, [], hwaiting.trans (List.drop_eq_nil_of_le hbuffered), ?_⟩
  · exact hisr.trans (by rw [Machine.booted, hphase]; rfl)
  · rw [Machine.uncounted]
    show Machine.ticks _ + ((if BitVec.getLsbD _ 0 then 1 else 0) + _) ≤ 0
    rw [Machine.booted, htimer, hticks, hphase]
    exact le_rfl
  · rw [Machine.booted, hsession]
    exact hsound
  · rw [Machine.booted, hsession, hshown]
  · rw [Machine.booted, hsession]
    rfl

/-- **Every run.** -/
theorem delivers_of_run {events : List MachineEvent} (hsound : (Session.started console).Sound)
    (hbuffered : buffered.length ≤ 256)
    (hrun : Run MachineStep (Machine.booted pics buffered console) events m) :
    Delivers (Session.started console) (scancodes events) (events.count .tick) m := by
  refine hrun.traced (I := fun events m ↦
    Delivers (Session.started console) (scancodes events) (events.count .tick) m)
    (fun {events _ a _} h hstep ↦ ?_) (delivers_booted hsound pics hbuffered)
  have hcodes : scancodes (events ++ [a]) = scancodes events ++ scancodes [a] :=
    List.filterMap_append
  rw [hcodes, List.count_append]
  exact h.event hstep

end Boot

/-! ### Rest

`effort` counts the accesses that are left to the processor. Every step of the processor lowers it,
and only a key or a tick raises it; where it can take no further step there is nothing left to
do. -/

/-- How far a handler is from its end. -/
def Phase.rank : Phase → ℕ
  | .kernel => 0
  | .leave => 1
  | .timer | .finish => 2
  | .read => 3
  | .poll => 4

/-- What is left to be done: for each code, two accesses and an interrupt of its own, and an
interrupt for each line that is requested. -/
def Machine.effort (m : Machine) : ℕ :=
  20 * m.waiting.length + (if m.pics.master.irr.getLsbD 1 then 10 else 0) +
    (if m.pics.master.irr.getLsbD 0 then 5 else 0) + m.phase.rank

section Rest

variable {first : Session} {came : List UInt8} {ticks : ℕ} {m n : Machine}

/-- What is left to do, bounded by the codes that are waiting. -/
theorem Machine.effort_le (m : Machine) : m.effort ≤ 20 * m.waiting.length + 19 := by
  have hrank : m.phase.rank ≤ 4 := by cases m.phase <;> decide
  rw [Machine.effort]
  split <;> split <;> omega

/-- **The processor gets on.** -/
theorem Delivers.effort_lt (h : Delivers first came ticks m) (hstep : MachineStep m .run n) :
    n.effort < m.effort := by
  have hproceed : m.proceed = some n := hstep
  rw [Machine.effort, Machine.effort]
  cases hphase : m.phase with
  | kernel =>
    -- a request pays for the whole handler
    obtain ⟨-, ⟨hrequested, rfl⟩ | ⟨hrequested, rfl⟩⟩ := h.take_cases hphase hproceed
    · have hbit := Pic.getLsbD_serve (p := m.pics.master) (by decide : 0 < 8)
      have htimer : (m.pics.master.serve 0).irr.getLsbD 0 = false := hbit 0
      have hkeyboard : (m.pics.master.serve 0).irr.getLsbD 1 = m.pics.master.irr.getLsbD 1 := hbit 1
      dsimp only [Phase.rank]
      rw [htimer, hkeyboard, hrequested, if_pos rfl, if_neg Bool.false_ne_true]
      omega
    · have hbit := Pic.getLsbD_serve (p := m.pics.master) (by decide : 1 < 8)
      have htimer : (m.pics.master.serve 1).irr.getLsbD 0 = m.pics.master.irr.getLsbD 0 := hbit 0
      have hkeyboard : (m.pics.master.serve 1).irr.getLsbD 1 = false := hbit 1
      dsimp only [Phase.rank]
      rw [htimer, hkeyboard, hrequested, if_pos rfl, if_neg Bool.false_ne_true]
      omega
  | poll =>
    rw [Machine.proceed, hphase] at hproceed
    dsimp only at hproceed
    split at hproceed
    case isTrue =>
      obtain rfl := Option.some.inj hproceed
      exact Nat.add_lt_add_left (show 2 < 4 by decide) _
    case isFalse =>
      obtain rfl := Option.some.inj hproceed
      exact Nat.add_lt_add_left (show 3 < 4 by decide) _
  | read =>
    rw [Machine.proceed, hphase] at hproceed
    cases hwaiting : m.waiting with
    | nil => exact absurd hwaiting (h.reads hphase)
    | cons scancode rest =>
      rw [hwaiting] at hproceed
      obtain ⟨session, -, rfl⟩ := Option.map_eq_some_iff.1 hproceed
      -- the code that is gone pays for the request of the next one
      rw [Machine.keep, List.length_cons]
      split
      case isTrue hempty =>
        dsimp only [Phase.rank]
        omega
      case isFalse hmore =>
        have hbit := Pic.getLsbD_request (p := m.pics.master) (by decide : 1 < 8)
        have htimer : (m.pics.master.request 1).irr.getLsbD 0 = m.pics.master.irr.getLsbD 0 :=
          hbit 0
        have hkeyboard : (m.pics.master.request 1).irr.getLsbD 1 = true := hbit 1
        show 20 * rest.length + (if (m.pics.master.request 1).irr.getLsbD 1 then 10 else 0) +
          (if (m.pics.master.request 1).irr.getLsbD 0 then 5 else 0) + 4 < _ + 3
        rw [htimer, hkeyboard, if_pos rfl]
        omega
  | timer | finish =>
    rw [Machine.proceed, hphase] at hproceed
    obtain rfl := Option.some.inj hproceed
    rw [Pics.endOfInterrupt_eq]
    exact Nat.add_lt_add_left (show 1 < 2 by decide) _
  | leave =>
    rw [Machine.proceed, hphase] at hproceed
    obtain rfl := Option.some.inj hproceed
    exact Nat.add_lt_add_left (show 0 < 1 by decide) _

/-- A controller whose processor takes nothing in the kernel has no request on the two open
lines. -/
theorem Delivers.line_none (h : Delivers first came ticks m) (hphase : m.phase = .kernel)
    (hline : m.pics.master.line = none) {line : ℕ} (hopen : line < 2) :
    m.pics.master.irr.getLsbD line = false := by
  have hready := Pic.line_eq_none_iff.1 hline line (by omega)
  have hunmasked : ∀ line < 2, (0xFC : BitVec 8).getLsbD line = false := by decide
  rw [Pic.Ready, h.ours.master.imr, h.isr, hphase] at hready
  rcases hrequested : m.pics.master.irr.getLsbD line with _ | _
  · rfl
  · exact absurd ⟨hrequested, hunmasked line hopen, fun _ _ ↦ BitVec.getLsbD_zero⟩ hready

/-- **At rest**, the processor is in the kernel, and nothing waits for it. -/
theorem Delivers.rest (h : Delivers first came ticks m) (hrest : ∀ n, ¬MachineStep m .run n) :
    m.phase = .kernel ∧ m.waiting = [] ∧ m.uncounted = 0 := by
  have hhalted : m.proceed = none := by
    rcases hproceed : m.proceed with _ | n
    · rfl
    · exact absurd hproceed (hrest n)
  rw [Machine.proceed] at hhalted
  cases hphase : m.phase with
  | kernel =>
    have hline : m.pics.master.line = none := by
      rcases hline : m.pics.master.line with _ | line
      · rfl
      rw [hphase, h.ours.take_eq, hline] at hhalted
      rcases h.ours.master_line hline with rfl | rfl <;> cases hhalted
    have hempty : m.waiting = [] := by
      by_contra hwaiting
      rcases h.awake hwaiting with hrequested | hlooks
      · rw [h.line_none hphase hline (by decide)] at hrequested
        cases hrequested
      · rw [hphase, Phase.Looks] at hlooks
        exact absurd hlooks (by decide)
    refine ⟨rfl, hempty, ?_⟩
    rw [Machine.uncounted, h.line_none hphase hline (by decide), hphase]
    rfl
  | read =>
    cases hwaiting : m.waiting with
    | nil => exact absurd hwaiting (h.reads hphase)
    | cons scancode rest =>
      obtain ⟨v, hscan, -⟩ := h.sound.scan scancode
      rw [hphase, hwaiting] at hhalted
      dsimp only at hhalted
      rw [hscan] at hhalted
      cases hhalted
  | poll =>
    rw [hphase] at hhalted
    dsimp only at hhalted
    split at hhalted <;> cases hhalted
  | timer | finish | leave =>
    rw [hphase] at hhalted
    cases hhalted

/-- **A machine that is left alone comes to rest**, with every code handled. -/
theorem Delivers.drains (h : Delivers first came ticks m) :
    ∃ n ≤ 20 * m.waiting.length + 19, ∃ v, Run MachineStep m (List.replicate n .run) v ∧
      v.proceed = none ∧ v.phase = .kernel ∧ v.waiting = [] ∧ v.uncounted = 0 ∧
      first.keyboardHandlerC came = some v.session := by
  obtain ⟨n, hn, v, hsteps, hv, hrest⟩ :=
    Run.settles Machine.effort (fun h hstep ↦ ⟨Delivers.run h hstep, Delivers.effort_lt h hstep⟩) h
  obtain ⟨hphase, hempty, hcounted⟩ := hv.rest hrest
  obtain ⟨handled, hcame, hhandled⟩ := hv.handled
  refine ⟨n, hn.trans m.effort_le, v, hsteps, ?_, hphase, hempty, hcounted, ?_⟩
  · rcases hproceed : v.proceed with _ | w
    · rfl
    · exact absurd hproceed (hrest w)
  · rw [← hcame, hempty, List.append_nil, hhandled, hv.shown (by rw [hphase, Phase.Looks]; decide)]

end Rest

/-! ### Delivery -/

section Delivery

variable {vga : ℕ → UInt16} {calls : List ConsoleCall} {console : Console} {pics : Pics}
  {buffered : List UInt8}
  {events : List MachineEvent} {m : Machine}

/-- **No code is lost, handled twice or out of order**, whatever the interleaving: after any codes,
ticks and accesses of the handlers, from any state of the controllers before the boot and any codes
that the keyboard then held, no more than the 256 that `kbd_flush` reads (`hbuffered`), what the
session is comes from the codes that came, but for those that still wait; and these have an
interrupt that is requested, or a handler that has yet to look. The first controller has those lines
in service whose handler runs, and no tick is counted that did not come. -/
theorem delivery_safe
    (hboot : Run (Guarded Console.TabGuard ConsoleStep) (Console.boot vga).consoleInit
      calls console)
    (hbuffered : buffered.length ≤ 256)
    (hrun : Run MachineStep (Machine.booted pics buffered console) events m) :
    (∃ handled, handled ++ m.waiting = scancodes events ∧
      (Session.started console).keyboardHandlerC handled = some m.session.showCursor) ∧
    (m.phase = .kernel → m.session.showCursor = m.session) ∧
    (m.waiting ≠ [] → m.pics.master.irr.getLsbD 1 = true ∨ m.phase.Looks) ∧
    m.pics.master.isr = m.phase.inService ∧
    m.ticks + m.uncounted ≤ events.count .tick := by
  have h := delivers_of_run (Session.sound_of_boot hboot).1 hbuffered hrun
  refine ⟨h.handled, fun hphase ↦ h.shown ?_, h.awake, h.isr, h.counted⟩
  rw [hphase, Phase.Looks]
  decide

/-- The machine in front of the `outb` of the timer, with the key `a` waiting. -/
def sampleMachine : Machine where
  pics := ⟨((rawPics.picInit.master.request 1).request 0).serve 0, rawPics.picInit.slave⟩
  waiting := [0x1E]
  phase := .timer
  session := Session.started Session.sampleConsole
  ticks := 0

theorem run_sampleMachine :
    Run MachineStep (Machine.booted rawPics [0x1C] Session.sampleConsole)
      [.key 0x1E, .tick, .run] sampleMachine := by
  have hkey : MachineStep (Machine.booted rawPics [0x1C] Session.sampleConsole) (.key 0x1E)
      ⟨⟨rawPics.picInit.master.request 1, rawPics.picInit.slave⟩, [0x1E], .kernel,
        sampleMachine.session, 0⟩ := rfl
  have htick : MachineStep
      ⟨⟨rawPics.picInit.master.request 1, rawPics.picInit.slave⟩, [0x1E], .kernel,
        sampleMachine.session, 0⟩ .tick
      ⟨⟨(rawPics.picInit.master.request 1).request 0, rawPics.picInit.slave⟩, [0x1E], .kernel,
        sampleMachine.session, 0⟩ := rfl
  refine ((Run.single hkey).snoc htick).snoc ?_
  have htake : Pics.take ⟨(rawPics.picInit.master.request 1).request 0, rawPics.picInit.slave⟩ =
      some (32, sampleMachine.pics) := rfl
  show Machine.event _ .run = some _
  rw [Machine.event, Machine.proceed]
  dsimp only
  rw [htake]
  rfl

/-- The key `a` and a tick come, and the tick is served first. -/
theorem delivery_safe_tick :
    (∃ handled, handled ++ sampleMachine.waiting = scancodes [.key 0x1E, .tick, .run] ∧
      (Session.started Session.sampleConsole).keyboardHandlerC handled =
        some sampleMachine.session.showCursor) ∧
    (sampleMachine.phase = .kernel → sampleMachine.session.showCursor = sampleMachine.session) ∧
    (sampleMachine.waiting ≠ [] → sampleMachine.pics.master.irr.getLsbD 1 = true ∨
      sampleMachine.phase.Looks) ∧ sampleMachine.pics.master.isr = sampleMachine.phase.inService ∧
    sampleMachine.ticks + sampleMachine.uncounted ≤
      [.key 0x1E, .tick, .run].count MachineEvent.tick :=
  delivery_safe Session.run_sampleConsole (by decide) run_sampleMachine

/-- **The machine comes to rest**: wherever it is after a boot with at most 256 codes in the
keyboard (`hbuffered`), left alone it takes no more than a number of steps that the codes which wait
give, and halts in the kernel, with every code that ever came handled. -/
theorem delivery_drains
    (hboot : Run (Guarded Console.TabGuard ConsoleStep) (Console.boot vga).consoleInit
      calls console)
    (hbuffered : buffered.length ≤ 256)
    (hrun : Run MachineStep (Machine.booted pics buffered console) events m) :
    ∃ n ≤ 20 * m.waiting.length + 19, ∃ v, Run MachineStep m (List.replicate n .run) v ∧
      v.proceed = none ∧ v.phase = .kernel ∧ v.waiting = [] ∧ v.uncounted = 0 ∧
      (Session.started console).keyboardHandlerC (scancodes events) = some v.session :=
  (delivers_of_run (Session.sound_of_boot hboot).1 hbuffered hrun).drains

/-- From there, the tick is counted, and then the key is read. -/
theorem delivery_drains_tick :
    ∃ n ≤ 20 * sampleMachine.waiting.length + 19, ∃ v,
      Run MachineStep sampleMachine (List.replicate n .run) v ∧
      v.proceed = none ∧ v.phase = .kernel ∧ v.waiting = [] ∧ v.uncounted = 0 ∧
      (Session.started Session.sampleConsole).keyboardHandlerC
        (scancodes [.key 0x1E, .tick, .run]) =
        some v.session :=
  delivery_drains Session.run_sampleConsole (by decide) run_sampleMachine

end Delivery

end LightNight
