import LightNightOS.Foundation.Pit
import Mathlib.Order.Bounds.Basic

/-!
# The rate of the timer

`timer_init` of `timer.c` divides the frequency of the interval timer by the one that is asked for,
and loads channel 0 with the quotient. It sends the lower sixteen bits only, so that a rate which is
too low or too high is not what the timer is set to: `timerInit_rate_iff` says which rates are.
-/

namespace LightNight

open I8254

/-- `PIT_CHANNEL0` -/
abbrev pitChannel0 : ℕ := 0x40

/-- `PIT_COMMAND` -/
abbrev pitCommand : ℕ := 0x43

/-- `PIT_FREQUENCY` -/
abbrev pitFrequency : ℕ := 1193182

/-- The interval timer, and the ticks that are counted. -/
structure Timer where
  pit : Pit
  /-- `g_ticks` -/
  ticks : ℕ

namespace Timer

variable (s : Timer)

/-- `outb` to a port of the interval timer. -/
def outb (port : ℕ) (v : BitVec 8) : Timer :=
  if port = pitCommand then { s with pit := s.pit.writeControl v }
  else if port = pitChannel0 then { s with pit := Function.update s.pit 0 ((s.pit 0).writeCount v) }
  else s

/-- The frequency that `timer_init` takes, for its argument. -/
def asked (frequency : ℕ) : ℕ := if frequency = 0 then 100 else frequency

/-- `timer_init` -/
def timerInit (frequency : ℕ) : Timer :=
  let frequency := asked frequency
  let divisor := pitFrequency / frequency
  let s := s.outb pitCommand 0x36
  let s := s.outb pitChannel0 (BitVec.ofNat 8 (divisor &&& 0xFF))
  let s := s.outb pitChannel0 (BitVec.ofNat 8 (divisor >>> 8 &&& 0xFF))
  { s with ticks := 0 }

variable {s}

theorem asked_pos (frequency : ℕ) : 0 < asked frequency := by
  rw [asked]
  split <;> omega

/-- Channel 0 behind the control word: a square wave, counted in binary, with both bytes to come. -/
def squareWave : Channel := ⟨.both, 3, false, none, none⟩

/-- Whatever the channel was programmed for, it is loaded with the bytes of the divisor. -/
theorem timerInit_channel (s : Timer) (frequency : ℕ) : (s.timerInit frequency).pit 0 =
    (squareWave.writeCount (BitVec.ofNat 8 (pitFrequency / asked frequency &&& 0xFF))).writeCount
      (BitVec.ofNat 8 ((pitFrequency / asked frequency) >>> 8 &&& 0xFF)) := by
  have hcontrol : (s.outb pitCommand 0x36).pit 0 = squareWave := rfl
  have hcount : ∀ (t : Timer) v, (t.outb pitChannel0 v).pit 0 = (t.pit 0).writeCount v := by
    intro t v
    show Function.update t.pit 0 ((t.pit 0).writeCount v) 0 = _
    rw [Function.update_self]
  rw [timerInit]
  dsimp only
  rw [hcount, hcount, hcontrol]

/-- The longest period at which the timer is not slower than it should be is the quotient. -/
theorem isGreatest_period_iff {frequency period : ℕ} (hpos : 0 < frequency) :
    IsGreatest {p | p * frequency ≤ pitFrequency} period ↔ period = pitFrequency / frequency := by
  have hquotient : IsGreatest {p | p * frequency ≤ pitFrequency} (pitFrequency / frequency) :=
    ⟨Nat.div_mul_le_self _ _, fun _ hp ↦ (Nat.le_div_iff_mul_le hpos).2 hp⟩
  exact ⟨fun h ↦ h.unique hquotient, fun h ↦ h ▸ hquotient⟩

/-- **Which rates does the timer get?** From any state of the timer, `timer_init` sets the longest
period at which it is not slower than it is asked for, if and only if it is asked for nothing or for
a rate between 19 Hz and the frequency of the timer. -/
theorem timerInit_rate_iff (s : Timer) (frequency : ℕ) :
    (∃ period, ((s.timerInit frequency).pit 0).period = some period ∧
      IsGreatest {p | p * asked frequency ≤ pitFrequency} period) ↔
    frequency = 0 ∨ 19 ≤ frequency ∧ frequency ≤ pitFrequency := by
  have hpos := asked_pos frequency
  have hloaded : (∃ period, ((s.timerInit frequency).pit 0).period = some period ∧
      IsGreatest {p | p * asked frequency ≤ pitFrequency} period) ↔
      1 ≤ pitFrequency / asked frequency ∧ pitFrequency / asked frequency ≤ 65536 := by
    simp only [isGreatest_period_iff hpos, exists_eq_right]
    rw [timerInit_channel]
    exact Channel.load_period_iff rfl rfl rfl _
  have hsmall : pitFrequency / asked frequency ≤ 65536 ↔ pitFrequency < 65537 * asked frequency :=
    Nat.lt_succ_iff.symm.trans (Nat.div_lt_iff_lt_mul hpos)
  rw [hloaded, Nat.le_div_iff_mul_le hpos, Nat.one_mul, hsmall, asked, pitFrequency]
  split <;> omega

end Timer

end LightNight
