import LightNightOS.Console.Number
import LightNightOS.Console.Output
import LightNightOS.Interrupts.Stubs
import LightNightOS.Shell.Input

/-!
# The panic screen

`isr_handler` of `interrupts.c` writes to the memory of the screen and halts. What it leaves there,
whatever was on the screen, are the twelve lines of `panicLines` (`reports_isrHandler`).

So what can be read off the screen is the state of the interrupted code, from the pushes of the
processor over those of the stub to the digits: `exception_reported`.

* `puts_vgaPutsAt`, `puts_vgaPrintHex64` — a text and a number on a row;
* `ShowsLines.put` — one more row of the report;
* `readHex_eq` — sixteen digits read as the number.
-/

namespace LightNight

open Numeral X86

/-! ### The screen -/

/-- A cell of the panic screen, white on red. -/
def panicCell (c : UInt8) : UInt16 :=
  let attr := ((0x4 : UInt16) <<< 4) ||| 0xF
  (attr <<< 8) ||| c.toUInt16

/-- `vga_clear_panic` -/
def vgaClearPanic (v : VgaMemory) : VgaMemory :=
  forLoop (vgaWidth * vgaHeight) (fun i v ↦ v.put i (panicCell 0x20)) v

/-- The loop of `vga_puts_at`. -/
def putsFrom (row col : ℕ) : List UInt8 → VgaMemory → VgaMemory
  | [], v => v
  | c :: s, v =>
    if ¬row < vgaHeight then v
    else if c = newline then putsFrom (row + 1) 0 s v
    else if col < vgaWidth then putsFrom row (col + 1) s (v.put (vgaIndex row col) (panicCell c))
    else putsFrom row col s v

/-- `vga_puts_at` -/
def vgaPutsAt (row : ℕ) (s : List UInt8) (v : VgaMemory) : VgaMemory := putsFrom row 0 s v

/-- `hex` of `vga_print_hex64` -/
def hexChars : List UInt8 := ascii "0123456789ABCDEF"

/-- The character at place `i` of a number. -/
def hexChar (val : Word) (i : ℕ) : UInt8 :=
  let shift := (15 - i) * 4
  hexChars.getD ((val >>> shift) &&& 0xF).toNat 0

/-- `vga_print_hex64` -/
def vgaPrintHex64 (row col : ℕ) (val : Word) (v : VgaMemory) : VgaMemory :=
  forLoop 16 (fun i v ↦ v.put (vgaIndex row (col + i)) (panicCell (hexChar val i))) v

/-- `exception_messages` -/
def exceptionMessages : List String :=
  ["0: Divide-by-zero", "1: Debug", "2: NMI", "3: Breakpoint", "4: Overflow", "5: Bound-Range",
    "6: Invalid Opcode", "7: Device Not Available", "8: Double Fault",
    "9: Coprocessor Segment Overrun", "10: Invalid TSS", "11: Segment Not Present",
    "12: Stack-Segment Fault", "13: General Protection Fault", "14: Page Fault", "15: Reserved",
    "16: x87 Floating-Point", "17: Alignment Check", "18: Machine Check",
    "19: SIMD Floating-Point", "20: Virtualization", "21: Control Protection", "22: Reserved",
    "23: Reserved", "24: Reserved", "25: Reserved", "26: Reserved", "27: Reserved",
    "28: Hypervisor Injection", "29: VMM Communication", "30: Security Exception", "31: Reserved"]

/-- The message for a vector. -/
def exceptionMessage (intNo : Word) : List UInt8 :=
  if intNo.toNat < 32 then ascii (exceptionMessages.getD intNo.toNat "") else ascii "Unknown"

/-- `isr_handler`, up to the loop in which it halts. -/
def isrHandler (r : RegsT) (v : VgaMemory) : VgaMemory :=
  let v := vgaClearPanic v
  let v := vgaPutsAt 0 (ascii "KERNEL PANIC") v
  let v := vgaPutsAt 1 (ascii "CPU exception occurred.") v
  let v := vgaPutsAt 3 (ascii "Exception:") v
  let v := vgaPutsAt 4 (exceptionMessage r.intNo) v
  let v := vgaPutsAt 6 (ascii "RIP:") v
  let v := vgaPrintHex64 6 5 r.rip v
  let v := vgaPutsAt 7 (ascii "RSP:") v
  let v := vgaPrintHex64 7 5 r.rsp v
  let v := vgaPutsAt 8 (ascii "RFLAGS:") v
  let v := vgaPrintHex64 8 9 r.rflags v
  let v := vgaPutsAt 9 (ascii "ERR:") v
  let v := vgaPrintHex64 9 5 r.errCode v
  vgaPutsAt 11 (ascii "System halted.") v

/-! ### Lines

`ShowsLines` describes the screen as a list of rows with a text on each. The prints of the report
fill one row after the other, and none of them runs over the end of its row. -/

/-- The lines that the screen shows, with blanks behind them. -/
def ShowsLines (v : VgaMemory) (lines : List (List UInt8)) : Prop :=
  ∀ row < vgaHeight, ∀ col < vgaWidth,
    v.val (vgaIndex row col) = panicCell ((lines.getD row []).getD col 0x20)

/-- A text is put on a row, and nothing else changes. -/
structure Puts (row col : ℕ) (s : List UInt8) (v w : VgaMemory) : Prop where
  within : v.Within (Set.Iio screenSize) w
  new : ∀ i < s.length, w.val (vgaIndex row (col + i)) = panicCell (s.getD i 0)
  old : ∀ row' col', col' < vgaWidth → ¬(row' = row ∧ col ≤ col' ∧ col' < col + s.length) →
    w.val (vgaIndex row' col') = v.val (vgaIndex row' col')

section Lines

variable {v w : VgaMemory} {lines : List (List UInt8)} {row col : ℕ} {s text : List UInt8}

theorem Puts.nil (row col : ℕ) (v : VgaMemory) : Puts row col [] v v where
  within := .refl _ v
  new := fun _ hi ↦ absurd hi (Nat.not_lt_zero _)
  old := fun _ _ _ _ ↦ rfl

/-- One character more. -/
theorem Puts.concat (h : Puts row col s v w) (hrow : row < vgaHeight)
    (hcol : col + s.length < vgaWidth) (c : UInt8) :
    Puts row col (s ++ [c]) v (w.put (vgaIndex row (col + s.length)) (panicCell c)) := by
  have hother : ∀ row' col', col' < vgaWidth → ¬(row' = row ∧ col' = col + s.length) →
      (w.put (vgaIndex row (col + s.length)) (panicCell c)).val (vgaIndex row' col') =
        w.val (vgaIndex row' col') := by
    refine fun row' col' hcol' hne ↦ Recorded.put_of_ne fun heq ↦ hne ?_
    exact Prod.mk.inj (Console.vgaIndex_inj hcol' hcol heq)
  have hinside : vgaIndex row (col + s.length) ∈ Set.Iio screenSize :=
    Set.mem_Iio.2 (Console.vgaIndex_lt hrow hcol)
  refine ⟨h.within.trans (.put hinside _ _), fun i hi ↦ ?_, fun row' col' hcol' hout ↦ ?_⟩
  · rw [List.length_append, List.length_singleton] at hi
    rcases Nat.lt_or_eq_of_le (Nat.le_of_lt_succ hi) with hlt | rfl
    · rw [hother row (col + i) (by omega) (by omega), h.new i hlt, List.getD_append _ _ _ _ hlt]
    · rw [Recorded.put_self, List.getD_append_right _ _ _ _ le_rfl, Nat.sub_self,
        List.getD_cons_zero]
  · rw [List.length_append, List.length_singleton] at hout
    rw [hother row' col' hcol' (by omega), h.old row' col' hcol' (by omega)]

/-- A text behind another one on the same row, if both fit. -/
theorem puts_putsFrom {s' : List UInt8} (h : Puts row col s v w) (hrow : row < vgaHeight)
    (hfits : col + s.length + s'.length ≤ vgaWidth) (hline : newline ∉ s') :
    Puts row col (s ++ s') v (putsFrom row (col + s.length) s' w) := by
  induction s' generalizing s w with
  | nil =>
    rw [List.append_nil]
    exact h
  | cons c s' ih =>
    rw [List.length_cons] at hfits
    obtain ⟨hc, hrest⟩ := not_or.1 (mt List.mem_cons.2 hline)
    have hstep := ih (h.concat hrow (by omega) c)
      (by rw [List.length_append, List.length_singleton]; omega) hrest
    rw [List.length_append, List.length_singleton, List.append_assoc] at hstep
    rw [putsFrom, if_neg (not_not.2 hrow), if_neg (Ne.symm hc), if_pos (by omega)]
    exact hstep

/-- **`vga_puts_at`** puts a text that fits on its row. -/
theorem puts_vgaPutsAt (v : VgaMemory) (hrow : row < vgaHeight)
    (htext : s.length ≤ vgaWidth ∧ newline ∉ s) : Puts row 0 s v (vgaPutsAt row s v) :=
  puts_putsFrom (Puts.nil row 0 v) hrow (by rw [List.length_nil]; omega) htext.2

/-- The characters of a number. -/
def hexText (val : Word) : List UInt8 := (List.range 16).map (hexChar val)

/-- **`vga_print_hex64`** puts sixteen characters. -/
theorem puts_vgaPrintHex64 (v : VgaMemory) (val : Word) (hrow : row < vgaHeight)
    (hcol : col + 16 ≤ vgaWidth) : Puts row col (hexText val) v (vgaPrintHex64 row col val v) := by
  refine forLoop_invariant (I := fun k w ↦ Puts row col ((List.range k).map (hexChar val)) v w)
    (.nil row col v)
    fun k hk w hw ↦ ?_
  have hlength : ((List.range k).map (hexChar val)).length = k := by
    rw [List.length_map, List.length_range]
  have hstep := hw.concat hrow (by omega) (hexChar val k)
  rw [hlength] at hstep
  rw [List.range_succ, List.map_append, List.map_singleton]
  exact hstep

/-- A text that is put behind a line extends it. -/
theorem ShowsLines.put (h : ShowsLines v lines) (hput : Puts row col s v w)
    (hbehind : (lines.getD row []).length ≤ col) (hrow : row < lines.length)
    (htext : (lines.getD row []).rightpad col 0x20 ++ s = text) :
    ShowsLines w (lines.set row text) := by
  intro row' hrow' col' hcol'
  rcases eq_or_ne row' row with rfl | hne
  · have hpadded : ((lines.getD row' []).rightpad col 0x20).length = col := by
      rw [List.length_rightpad]
      omega
    have hset : (lines.set row' text).getD row' [] = text := by
      rw [List.getD_eq_getElem _ _ (by rwa [List.length_set]), List.getElem_set_self]
    rw [hset, ← htext]
    rcases Nat.lt_or_ge col' col with hlt | hge
    · -- in front of the text
      rw [hput.old row' col' hcol' (by omega), h row' hrow' col' hcol',
        List.getD_append _ _ _ _ (by omega), List.rightpad]
      rcases Nat.lt_or_ge col' (lines.getD row' []).length with hin | hout
      · rw [List.getD_append _ _ _ _ hin]
      · rw [List.getD_append_right _ _ _ _ hout, List.getD_eq_default _ _ hout,
          List.getD_replicate _ (by omega)]
    rw [List.getD_append_right _ _ _ _ (by omega), hpadded]
    -- in the text, or behind it
    rcases Nat.lt_or_ge col' (col + s.length) with hin | hout
    · have hnew := hput.new (col' - col) (by omega)
      rw [Nat.add_sub_cancel' hge] at hnew
      rw [hnew, List.getD_eq_getElem _ _ (by omega), List.getD_eq_getElem _ _ (by omega)]
    · rw [hput.old row' col' hcol' (by omega), h row' hrow' col' hcol',
        List.getD_eq_default _ _ (by omega), List.getD_eq_default _ _ (by omega)]
  · have hset : (lines.set row text).getD row' [] = lines.getD row' [] := by
      rw [List.getD_eq_getElem?_getD, List.getD_eq_getElem?_getD, List.getElem?_set_ne hne.symm]
    rw [hset, hput.old row' col' hcol' (by omega), h row' hrow' col' hcol']

/-- **`vga_clear_panic`** leaves blank lines. -/
theorem showsLines_clear (v : VgaMemory) (n : ℕ) :
    ShowsLines (vgaClearPanic v) (List.replicate n []) := by
  have hcells : ∀ i < vgaWidth * vgaHeight, (vgaClearPanic v).val i = panicCell 0x20 := by
    refine forLoop_invariant (I := fun k (w : VgaMemory) ↦ ∀ i < k, w.val i = panicCell 0x20)
      (fun i hi ↦ absurd hi (Nat.not_lt_zero i)) fun k _ w hw i hi ↦ ?_
    rcases Nat.lt_or_eq_of_le (Nat.le_of_lt_succ hi) with hlt | rfl
    · rw [Recorded.put_of_ne hlt.ne, hw i hlt]
    · exact w.put_self i _
  intro row hrow col hcol
  have hblank : (List.replicate n ([] : List UInt8)).getD row [] = [] := by
    rcases Nat.lt_or_ge row n with hlt | hge
    · rw [List.getD_replicate _ hlt]
    · rw [List.getD_eq_default _ _ (by rwa [List.length_replicate])]
  rw [hcells _ (Console.vgaIndex_lt hrow hcol), hblank]
  rfl

theorem within_clear (v : VgaMemory) : v.Within (Set.Iio screenSize) (vgaClearPanic v) :=
  Recorded.Within.forLoop (fun _ hk _ ↦ .put (Set.mem_Iio.2 hk) _ _) v

end Lines

/-! ### The report

The rows that `isr_handler` prints, from the headline down to the last line, and that its prints
leave exactly those. -/

section Report

variable {v : VgaMemory} {r : RegsT}

/-- The lines of the panic screen. -/
def panicLines (r : RegsT) : List (List UInt8) :=
  [ascii "KERNEL PANIC", ascii "CPU exception occurred.", [], ascii "Exception:",
    exceptionMessage r.intNo, [], ascii "RIP: " ++ hexText r.rip, ascii "RSP: " ++ hexText r.rsp,
    ascii "RFLAGS:  " ++ hexText r.rflags, ascii "ERR: " ++ hexText r.errCode, [],
    ascii "System halted."]

/-- The messages fit on a row. -/
theorem exceptionMessage_fits (intNo : Word) :
    (exceptionMessage intNo).length ≤ vgaWidth ∧ newline ∉ exceptionMessage intNo := by
  have hmessages : ∀ n < 32, (ascii (exceptionMessages.getD n "")).length ≤ vgaWidth ∧
      newline ∉ ascii (exceptionMessages.getD n "") := by decide +kernel
  rw [exceptionMessage]
  split
  case isTrue hlt => exact hmessages _ hlt
  case isFalse => decide +kernel

/-- What has been put on the screen so far. -/
structure Reports (v : VgaMemory) (lines : List (List UInt8)) (w : VgaMemory) : Prop where
  lines : ShowsLines w lines
  within : v.Within (Set.Iio screenSize) w

section Steps

variable {w : VgaMemory} {lines : List (List UInt8)} {s label : List UInt8}

/-- A text on a row that is blank. -/
theorem Reports.text (h : Reports v lines w) (row : ℕ) (hrow : row < lines.length ∧ row < vgaHeight)
    (hblank : lines.getD row [] = []) (htext : s.length ≤ vgaWidth ∧ newline ∉ s) :
    Reports v (lines.set row s) (vgaPutsAt row s w) := by
  have hput := puts_vgaPutsAt w hrow.2 htext
  refine ⟨h.lines.put hput ?_ hrow.1 ?_, h.within.trans hput.within⟩
  · rw [hblank]
    exact le_rfl
  · rw [hblank]
    rfl

/-- A number behind its label. -/
theorem Reports.number (h : Reports v lines w) (row col : ℕ) (val : Word)
    (hrow : row < lines.length ∧ row < vgaHeight) (hcol : col + 16 ≤ vgaWidth)
    (hbehind : (lines.getD row []).length ≤ col)
    (hlabel : (lines.getD row []).rightpad col 0x20 = label) :
    Reports v (lines.set row (label ++ hexText val)) (vgaPrintHex64 row col val w) := by
  have hput := puts_vgaPrintHex64 w val hrow.2 hcol
  exact ⟨h.lines.put hput hbehind hrow.1 (congrArg (· ++ _) hlabel), h.within.trans hput.within⟩

end Steps

/-- What `isr_handler` leaves. -/
theorem reports_isrHandler (r : RegsT) (v : VgaMemory) :
    Reports v (panicLines r) (isrHandler r v) := by
  have hfits : ∀ s ∈ [ascii "KERNEL PANIC", ascii "CPU exception occurred.", ascii "Exception:",
      ascii "RIP:", ascii "RSP:", ascii "RFLAGS:", ascii "ERR:", ascii "System halted."],
      s.length ≤ vgaWidth ∧ newline ∉ s := by decide +kernel
  have hrow : ∀ n < 12, n < 12 ∧ n < vgaHeight := fun n hn ↦ ⟨hn, hn.trans (by decide)⟩
  have hclear : Reports v (List.replicate 12 []) (vgaClearPanic v) :=
    ⟨showsLines_clear v 12, within_clear v⟩
  have htitle :=
    (hclear.text 0 (hrow 0 (by decide)) rfl (hfits (ascii "KERNEL PANIC") (by simp))).text 1
    (hrow 1 (by decide)) rfl (hfits (ascii "CPU exception occurred.") (by simp))
  have hmessage :=
    (htitle.text 3 (hrow 3 (by decide)) rfl (hfits (ascii "Exception:") (by simp))).text 4
    (hrow 4 (by decide)) rfl (exceptionMessage_fits r.intNo)
  have hrip :=
    (hmessage.text 6 (hrow 6 (by decide)) rfl (hfits (ascii "RIP:") (by simp))).number 6 5 r.rip
    (hrow 6 (by decide)) (by decide) (show (ascii "RIP:").length ≤ 5 by decide +kernel)
    (show (ascii "RIP:").rightpad 5 0x20 = ascii "RIP: " by decide +kernel)
  have hrsp :=
    (hrip.text 7 (hrow 7 (by decide)) rfl (hfits (ascii "RSP:") (by simp))).number 7 5 r.rsp
    (hrow 7 (by decide)) (by decide) (show (ascii "RSP:").length ≤ 5 by decide +kernel)
    (show (ascii "RSP:").rightpad 5 0x20 = ascii "RSP: " by decide +kernel)
  have hrflags :=
    (hrsp.text 8 (hrow 8 (by decide)) rfl (hfits (ascii "RFLAGS:") (by simp))).number 8 9 r.rflags
    (hrow 8 (by decide)) (by decide) (show (ascii "RFLAGS:").length ≤ 9 by decide +kernel)
    (show (ascii "RFLAGS:").rightpad 9 0x20 = ascii "RFLAGS:  " by decide +kernel)
  have herr :=
    (hrflags.text 9 (hrow 9 (by decide)) rfl (hfits (ascii "ERR:") (by simp))).number 9 5 r.errCode
    (hrow 9 (by decide)) (by decide) (show (ascii "ERR:").length ≤ 5 by decide +kernel)
    (show (ascii "ERR:").rightpad 5 0x20 = ascii "ERR: " by decide +kernel)
  exact herr.text 11 (hrow 11 (by decide)) rfl (hfits (ascii "System halted.") (by simp))

/-! ### Reading the report

From the characters on the screen back to the numbers: sixteen hexadecimal digits are a word, and
the message names the vector. -/

/-- The number that is to be read at a place of the screen. -/
def readHex (v : VgaMemory) (row col : ℕ) : ℕ :=
  readIn 16 ((List.range 16).map fun i ↦ (v.val (vgaIndex row (col + i))).toUInt8)

/-- The digit that is printed for four bits of a number. -/
theorem digitValue_hexChar (val : Word) (i : ℕ) :
    digitValue (hexChar val i) = val.toNat / 16 ^ (15 - i) % 16 := by
  have hdigits : ∀ d < 16, digitValue (hexChars.getD d 0) = d := by decide +kernel
  have hnibble : ((val >>> ((15 - i) * 4)) &&& 0xF).toNat = val.toNat / 16 ^ (15 - i) % 16 := by
    have hpow : (2 : ℕ) ^ ((15 - i) * 4) = 16 ^ (15 - i) := by
      rw [Nat.mul_comm, Nat.pow_mul]
    rw [BitVec.toNat_and, BitVec.toNat_ushiftRight, Nat.shiftRight_eq_div_pow, hpow]
    exact Nat.and_two_pow_sub_one_eq_mod _ 4
  rw [hexChar, hnibble, hdigits _ (Nat.mod_lt _ (by decide))]

theorem panicCell_toUInt8 (c : UInt8) : (panicCell c).toUInt8 = c := by
  rw [panicCell]
  apply UInt8.toBitVec_inj.1
  simp

/-- **A number reads back** from the line that it is on. -/
theorem readHex_eq {lines : List (List UInt8)} {label : List UInt8} {val : Word} {row col : ℕ}
    (h : ShowsLines v lines) (hrow : row < vgaHeight) (hcol : col + 16 ≤ vgaWidth)
    (hline : lines.getD row [] = label ++ hexText val) (hlabel : label.length = col) :
    readHex v row col = val.toNat := by
  have hchars : ((List.range 16).map fun i ↦ (v.val (vgaIndex row (col + i))).toUInt8) =
      hexText val := by
    refine List.map_congr_left fun i hi ↦ ?_
    have hi := List.mem_range.1 hi
    have hlength : i < (hexText val).length := by rwa [hexText, List.length_map, List.length_range]
    have hchar : (label ++ hexText val).getD (col + i) 0x20 = hexChar val i := by
      rw [List.getD_append_right _ _ _ _ (by omega), ← hlabel, Nat.add_sub_cancel_left,
        List.getD_eq_getElem _ _ hlength]
      exact (List.getElem_map _).trans (congrArg _ (List.getElem_range _))
    rw [h row hrow (col + i) (by omega), hline, hchar, panicCell_toUInt8]
  have hdigits : (hexText val).map digitValue = fixed 16 16 val.toNat := by
    rw [hexText, List.map_map]
    exact List.map_congr_left fun i _ ↦ digitValue_hexChar val i
  have hbound : val.toNat < 16 ^ 16 := val.isLt
  rw [readHex, hchars, readIn, hdigits, value_fixed, Nat.mod_eq_of_lt hbound]

/-- What a row shows of the message for a vector. -/
def messageRow (n : ℕ) : List UInt8 :=
  (List.range vgaWidth).map ((exceptionMessage (BitVec.ofNat 64 n)).getD · 0x20)

/-- The row of a message says which exception it is. -/
theorem messageRow_inj {n m : ℕ} (hn : n < 32) (hm : m < 32) (h : messageRow n = messageRow m) :
    n = m := by
  have hrows : ((List.range 32).map messageRow).Nodup := by decide +kernel
  rw [List.nodup_map_iff_inj_on List.nodup_range] at hrows
  exact hrows n (List.mem_range.2 hn) m (List.mem_range.2 hm) h

/-- The screen when the processor has halted, for an exception that interrupts `p`. -/
def exceptionScreen (p : Processor) (selector handler : Word) (vector : ℕ) (code : Option Word)
    (v : VgaMemory) : VgaMemory :=
  isrHandler (isrRegs p selector handler vector code) v

/-- **An exception is reported.** Where the stub of the vector agrees with the processor on the
error code, the numbers that are to be read on the panic screen are the address, the stack pointer
and the flags of the interrupted code and its error code, for every state of the processor and of
the screen; the message is that of the vector and of no other; the other lines are as they should
be, and nothing is written beside the screen. -/
theorem exception_reported {vector : ℕ} {code : Option Word} (hvector : vector < 32)
    (hcode : isrErr vector = code.isSome) (p : Processor) (selector handler : Word)
    (v : VgaMemory) :
    readHex (exceptionScreen p selector handler vector code v) 6 5 = p.rip.toNat ∧
    readHex (exceptionScreen p selector handler vector code v) 7 5 = p.rsp.toNat ∧
    readHex (exceptionScreen p selector handler vector code v) 8 9 = p.rflags.toNat ∧
    readHex (exceptionScreen p selector handler vector code v) 9 5 = (code.getD 0).toNat ∧
    (∀ n < 32, (∀ col < vgaWidth,
      (exceptionScreen p selector handler vector code v).val (vgaIndex 4 col) =
      panicCell ((exceptionMessage (BitVec.ofNat 64 n)).getD col 0x20)) ↔ n = vector) ∧
    ShowsLines (exceptionScreen p selector handler vector code v)
      (panicLines (.interrupted p vector (code.getD 0))) ∧
    v.Within (Set.Iio screenSize) (exceptionScreen p selector handler vector code v) := by
  obtain ⟨hlines, hwithin⟩ := reports_isrHandler (.interrupted p vector (code.getD 0)) v
  rw [exceptionScreen, isrRegs_of_agree hcode]
  have hlengths : (ascii "RIP: ").length = 5 ∧ (ascii "RSP: ").length = 5 ∧
      (ascii "RFLAGS:  ").length = 9 ∧ (ascii "ERR: ").length = 5 := by decide +kernel
  refine ⟨readHex_eq hlines (by decide) (by decide) rfl hlengths.1,
    readHex_eq hlines (by decide) (by decide) rfl hlengths.2.1,
    readHex_eq hlines (by decide) (by decide) rfl hlengths.2.2.1,
    readHex_eq hlines (by decide) (by decide) rfl hlengths.2.2.2, fun n hn ↦ ?_, hlines, hwithin⟩
  have hshown : ∀ col < vgaWidth,
      (isrHandler (.interrupted p vector (code.getD 0)) v).val (vgaIndex 4 col) =
      panicCell ((exceptionMessage (BitVec.ofNat 64 vector)).getD col 0x20) :=
    hlines 4 (by decide)
  constructor
  · intro hmessage
    refine messageRow_inj hn hvector (List.map_congr_left fun col hcol ↦ ?_)
    have hcol := List.mem_range.1 hcol
    have hcell := congrArg UInt16.toUInt8 ((hmessage col hcol).symm.trans (hshown col hcol))
    rwa [panicCell_toUInt8, panicCell_toUInt8] at hcell
  · rintro rfl
    exact hshown

/-- A page fault in the kernel, on a screen of zeros. -/
theorem exception_reported_pageFault :
    readHex (exceptionScreen (kernelAt 0x100007) 0x18 0x100000 14 (some 2) ⟨fun _ ↦ 0, ∅⟩) 6 5 =
      (kernelAt 0x100007).rip.toNat ∧
    readHex (exceptionScreen (kernelAt 0x100007) 0x18 0x100000 14 (some 2) ⟨fun _ ↦ 0, ∅⟩) 7 5 =
      (kernelAt 0x100007).rsp.toNat ∧
    readHex (exceptionScreen (kernelAt 0x100007) 0x18 0x100000 14 (some 2) ⟨fun _ ↦ 0, ∅⟩) 8 9 =
      (kernelAt 0x100007).rflags.toNat ∧
    readHex (exceptionScreen (kernelAt 0x100007) 0x18 0x100000 14 (some 2) ⟨fun _ ↦ 0, ∅⟩) 9 5 =
      ((some (2 : Word)).getD 0).toNat ∧
    (∀ n < 32, (∀ col < vgaWidth,
      (exceptionScreen (kernelAt 0x100007) 0x18 0x100000 14 (some 2) ⟨fun _ ↦ 0, ∅⟩).val
        (vgaIndex 4 col) =
        panicCell ((exceptionMessage (BitVec.ofNat 64 n)).getD col 0x20)) ↔ n = 14) ∧
    ShowsLines (exceptionScreen (kernelAt 0x100007) 0x18 0x100000 14 (some 2) ⟨fun _ ↦ 0, ∅⟩)
      (panicLines (.interrupted (kernelAt 0x100007) 14 ((some (2 : Word)).getD 0))) ∧
    Recorded.Within (Set.Iio screenSize) ⟨fun _ ↦ 0, ∅⟩
      (exceptionScreen (kernelAt 0x100007) 0x18 0x100000 14 (some 2) ⟨fun _ ↦ 0, ∅⟩) :=
  exception_reported (by decide) (by decide) (kernelAt 0x100007) 0x18 0x100000 ⟨fun _ ↦ 0, ∅⟩

end Report

end LightNight
