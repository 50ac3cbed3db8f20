import LightNightOS.Foundation.Stack

/-!
# The interrupt stubs

`keyboard_handler` and `timer_handler` of `kmain64.asm`, and the stubs `isr0` to `isr31` of
`isr.asm`. All of them save the same fifteen general registers, so that the stack is a `regs_t` once
the vector and the error code are below them. They do not save `xmm0` and the like, which are no
part of the processor here, though compiled C code may use them.

For an exception the stub pushes an error code where the processor does not. `ISR_ERR` and
`ISR_NOERR` are a choice made at each vector; `isr_handler` reads the state of the interrupted code
exactly if that choice is the processor's (`isr_reads_iff`). Which vectors have an error code is the
processor's matter, so the code that it pushes is a parameter.
-/

namespace LightNight

open X86

/-! ### The stubs -/

/-- The pushes of `PUSH_ALL`, which are those of `isr_common`. -/
def pushAllRegs : List Reg :=
  [.r15, .r14, .r13, .r12, .r11, .r10, .r9, .r8, .rbp, .rdi, .rsi, .rdx, .rcx, .rbx, .rax]

/-- The pops of `POP_ALL`. -/
def popAllRegs : List Reg :=
  [.rax, .rbx, .rcx, .rdx, .rsi, .rdi, .rbp, .r8, .r9, .r10, .r11, .r12, .r13, .r14, .r15]

/-- `keyboard_handler`, with the C function that it calls, and the address behind the call. -/
def keyboardHandler (back : Word) (keyboardHandlerC : Processor → Processor) (p : Processor) :
    Processor :=
  let p := p.pushRegs pushAllRegs
  let p := p.call back keyboardHandlerC
  let p := p.popRegs popAllRegs
  p.iretq

/-- `timer_handler`, with the C function that it calls, and the address behind the call. -/
def timerHandler (back : Word) (timerHandlerC : Processor → Processor) (p : Processor) :
    Processor :=
  let p := p.pushRegs pushAllRegs
  let p := p.movReg .rdi .rsp
  let p := p.call back timerHandlerC
  let p := p.popRegs popAllRegs
  p.iretq

/-- The interrupt flag. -/
def interruptFlag : Word := 0x200

/-- `cli` -/
def cli (p : Processor) : Processor := { p with rflags := p.rflags &&& ~~~interruptFlag }

/-- The vectors whose stub is an `ISR_ERR`. -/
def isrErr (vector : ℕ) : Bool := vector ∈ [8, 10, 11, 12, 13, 14, 17, 30]

/-- The macros `ISR_NOERR` and `ISR_ERR`. -/
def isrEntry (vector : ℕ) (p : Processor) : Processor :=
  let p := cli p
  let p := if isrErr vector then p else p.push 0
  p.push (BitVec.ofNat 64 vector)

/-- `isr_common`, up to the call of `isr_handler`. -/
def isrCommon (p : Processor) : Processor :=
  let p := p.pushRegs pushAllRegs
  p.movReg .rdi .rsp

/-- The stub of a vector, up to the call of `isr_handler`. -/
def isrStub (vector : ℕ) (p : Processor) : Processor := isrCommon (isrEntry vector p)

/-! ### `regs_t` -/

/-- `regs_t` -/
@[ext] structure RegsT where
  rax : Word
  rbx : Word
  rcx : Word
  rdx : Word
  rsi : Word
  rdi : Word
  rbp : Word
  r8 : Word
  r9 : Word
  r10 : Word
  r11 : Word
  r12 : Word
  r13 : Word
  r14 : Word
  r15 : Word
  intNo : Word
  errCode : Word
  rip : Word
  cs : Word
  rflags : Word
  rsp : Word
  ss : Word

/-- The structure whose words, from its first on, are `w`. -/
def RegsT.ofWords (w : ℕ → Word) : RegsT :=
  ⟨w 0, w 1, w 2, w 3, w 4, w 5, w 6, w 7, w 8, w 9, w 10, w 11, w 12, w 13, w 14, w 15, w 16,
    w 17, w 18, w 19, w 20, w 21⟩

/-- The `regs_t` at an address. -/
def RegsT.read (mem : Word → UInt8) (a : Word) : RegsT :=
  .ofWords fun i ↦ load64 mem (a + BitVec.ofNat 64 (8 * i))

/-- What a `regs_t` should hold when `vector` interrupts `p`. -/
def RegsT.interrupted (p : Processor) (vector : ℕ) (code : Word) : RegsT where
  rax := p.regs .rax
  rbx := p.regs .rbx
  rcx := p.regs .rcx
  rdx := p.regs .rdx
  rsi := p.regs .rsi
  rdi := p.regs .rdi
  rbp := p.regs .rbp
  r8 := p.regs .r8
  r9 := p.regs .r9
  r10 := p.regs .r10
  r11 := p.regs .r11
  r12 := p.regs .r12
  r13 := p.regs .r13
  r14 := p.regs .r14
  r15 := p.regs .r15
  intNo := BitVec.ofNat 64 vector
  errCode := code
  rip := p.rip
  cs := p.cs
  rflags := p.rflags
  rsp := p.rsp
  ss := p.ss

/-! ### The interrupts of the devices

A device interrupts between any two instructions, so its stub has to give back every register it
saves, the flags, the stack pointer and the place. The C handler may do anything that leaves the
saved words and the frame alone and comes back with its stack pointer (`KeepsFrame`). -/

/-- What a C function leaves alone until it returns: the stack pointer, and the words on the stack
that the call, the stub and the processor pushed. The frames of the function are below these. -/
structure KeepsFrame (p q : Processor) : Prop where
  rsp : q.rsp = p.rsp
  words : ∀ i < pushAllRegs.length + 6, q.word i = p.word i

section Devices

variable {p : Processor} {selector handler : Word}

/-- A body that keeps its frame keeps what is on top of the stack there. -/
theorem KeepsFrame.tops {q : Processor} {l : List Word} (h : KeepsFrame p q) (hp : p.Tops l)
    (hl : l.length ≤ pushAllRegs.length + 6) : q.Tops l :=
  fun i hi ↦ (h.words i (hi.trans_le hl)).trans (hp i hi)

/-- The stack pointer is not among the registers saved. -/
theorem rsp_notMem_pushAllRegs : .rsp ∉ pushAllRegs := by decide

theorem pushAllRegs_nodup : pushAllRegs.Nodup := by decide

theorem mem_pushAllRegs (r : Reg) (hr : r ≠ .rsp) : r ∈ pushAllRegs := by
  cases r with
  | rsp => exact absurd rfl hr
  | _ => decide

/-- What is on the stack when the C function is called. -/
theorem tops_saved : ((p.deliver selector handler none).pushRegs pushAllRegs).Tops
    (pushAllRegs.reverse.map p.regs ++ p.frame none) := by
  have hsaved := (p.tops_deliver selector handler none).pushRegs rsp_notMem_pushAllRegs
    (by rw [Processor.length_frame]; decide)
  rwa [List.map_reverse, Processor.map_regs_deliver rsp_notMem_pushAllRegs,
    ← List.map_reverse] at hsaved

theorem popAllRegs_eq : popAllRegs = pushAllRegs.reverse := rfl

/-- The stub of the keyboard, in the terms of the rules for saving and restoring. -/
theorem keyboardHandler_eq (back : Word) (handlerC : Processor → Processor) (p : Processor) :
    keyboardHandler back handlerC p =
      (((p.pushRegs pushAllRegs).call back handlerC).popRegs pushAllRegs.reverse).iretq := by
  rw [← popAllRegs_eq, keyboardHandler]

/-- The stub of the timer, which passes its stack pointer to the C handler. -/
theorem timerHandler_eq (back : Word) (handlerC : Processor → Processor) (p : Processor) :
    timerHandler back handlerC p =
      ((((p.pushRegs pushAllRegs).movReg .rdi .rsp).call back handlerC).popRegs
        pushAllRegs.reverse).iretq := by
  rw [← popAllRegs_eq, timerHandler]

/-- A call of a C function that keeps the frame, with the saved registers on the stack. -/
theorem resumed_call {handlerC : Processor → Processor} (hC : ∀ p, KeepsFrame p (handlerC p))
    {q : Processor} (back : Word) (hq : q.Tops (pushAllRegs.reverse.map p.regs ++ p.frame none)) :
    ((q.call back handlerC).popRegs pushAllRegs.reverse).iretq =
      { p with mem := (handlerC (q.push back)).mem } := by
  have hlength : (pushAllRegs.reverse.map p.regs ++ p.frame none).length = 20 := rfl
  have hentry := hq.push back (by rw [hlength]; decide)
  have hreturn := ((hC _).tops hentry (by rw [List.length_cons, hlength]; decide)).ret
  exact Processor.resumed rsp_notMem_pushAllRegs pushAllRegs_nodup mem_pushAllRegs hreturn

/-- **The interrupted code does not notice.** After the interrupt of a device, whatever its C
function does beside keeping the frame, every general register, the flags, the segments and the
address to go on at are as they were; and the C function starts on the memory as it was, but for the
21 words below the stack. -/
theorem device_resumes {handlerC : Processor → Processor} (hC : ∀ p, KeepsFrame p (handlerC p))
    (p : Processor) (selector handler back : Word)
    (stub : Word → (Processor → Processor) → Processor → Processor)
    (hstub : stub = keyboardHandler ∨ stub = timerHandler) : ∃ entry,
      stub back handlerC (p.deliver selector handler none) =
        { p with mem := (handlerC entry).mem } ∧
      entry.word 0 = back ∧ ∀ x ∉ Processor.below (p.rsp &&& ~~~15) 21, entry.mem x = p.mem x := by
  have hdepth : 8 * ([back].length + pushAllRegs.length + 6) ≤ 2 ^ 64 := by
    rw [List.length_singleton]
    decide
  have hpushed : ∀ x ∉ Processor.below (p.rsp &&& ~~~15) 21,
      (((p.deliver selector handler none).pushRegs pushAllRegs).push back).mem x = p.mem x :=
        fun x hx ↦
    Processor.mem_saved [back] rsp_notMem_pushAllRegs hdepth hx
  rcases hstub with rfl | rfl
  · refine ⟨((p.deliver selector handler none).pushRegs pushAllRegs).push back, ?_,
      Processor.word_push_zero, hpushed⟩
    rw [keyboardHandler_eq]
    exact resumed_call hC back tops_saved
  · refine ⟨(((p.deliver selector handler none).pushRegs pushAllRegs).movReg .rdi .rsp).push back,
      ?_, Processor.word_push_zero, fun x hx ↦ ?_⟩
    swap
    · rw [Processor.mem_push_movReg (by decide)]
      exact hpushed x hx
    rw [timerHandler_eq]
    exact resumed_call hC back (tops_saved.movReg (by decide))

/-- The processor in the kernel, on the stack that `_kstart` sets, with interrupts on. -/
def kernelAt (rip : Word) : Processor where
  regs := Function.update (fun _ ↦ 0) .rsp 0x90000
  mem := fun _ ↦ 0
  rip := rip
  cs := 0x18
  rflags := 0x202
  ss := 0x20

/-- A C function with a frame of its own: it uses `rax`, and a word below its return address. -/
def scratchC (p : Processor) : Processor :=
  { p with
    regs := Function.update p.regs .rax 0x20
    mem := store64 p.mem (p.rsp - 8) 0x20 }

/-- The C handler that only uses scratch registers. -/
theorem keepsFrame_scratchC (p : Processor) : KeepsFrame p (scratchC p) := by
  have hrsp : (scratchC p).rsp = p.rsp := by
    show Function.update p.regs .rax 0x20 .rsp = _
    rw [Function.update_of_ne (by decide), Processor.rsp]
  refine ⟨hrsp, fun i hi ↦ ?_⟩
  rw [Processor.word, Processor.word, hrsp]
  refine load64_store64_of_disjoint (Set.disjoint_left.2 fun x hx hx' ↦ ?_)
  have hlength : pushAllRegs.length = 15 := rfl
  simp only [bytes64, Set.mem_ofPred_eq] at hx hx'
  bv_omega

/-- The general theorem on this function, called by the stub of the timer. -/
theorem device_resumes_scratchC : ∃ entry : Processor,
    timerHandler 0x100020 scratchC ((kernelAt 0x100007).deliver 0x18 0x100000 none) =
      { kernelAt 0x100007 with mem := (scratchC entry).mem } ∧
    entry.word 0 = 0x100020 ∧
    ∀ x ∉ Processor.below ((kernelAt 0x100007).rsp &&& ~~~15) 21,
      entry.mem x = (kernelAt 0x100007).mem x :=
  device_resumes keepsFrame_scratchC (kernelAt 0x100007) 0x18 0x100000 0x100020 timerHandler
    (Or.inr rfl)

end Devices

/-! ### Exceptions

The C handler reads the words of the stack as a structure, from the last register pushed to the `ss`
of the interrupted code. Whether each field has the right word depends on one thing, the presence of
an error code. -/

section Exceptions

variable {p p' : Processor} {selector handler : Word} {code : Option Word} {vector : ℕ}
  {w w' : ℕ → Word}

/-- What is behind the registers when `isr_handler` is called: the vector, the error code of the
stub, and what the processor pushed. -/
def isrFrame (p : Processor) (vector : ℕ) (code : Option Word) : List Word :=
  BitVec.ofNat 64 vector :: ((if isrErr vector then [] else [0]) ++ p.frame code)

theorem RegsT.ofWords_congr (h : ∀ i < 22, w i = w' i) : RegsT.ofWords w = RegsT.ofWords w' := by
  simp only [RegsT.ofWords, h, Nat.reduceLT]

/-- The entry of a stub changes no register but the stack pointer. -/
theorem regs_isrEntry {r : Reg} (hr : r ≠ .rsp) : (isrEntry vector p).regs r = p.regs r := by
  refine (Processor.regs_push hr).trans ?_
  split
  · rfl
  · exact Processor.regs_push hr

/-- Behind the entry the vector and the error code are on top of the frame. -/
theorem tops_isrEntry (h : p.Tops (p'.frame code)) :
    (isrEntry vector p).Tops (isrFrame p' vector code) := by
  have hframe := p'.frame_length_le code
  have hcli : (cli p).Tops (p'.frame code) := h.congr rfl rfl
  have hcode : (if isrErr vector then cli p else (cli p).push 0).Tops
      ((if isrErr vector then [] else [0]) ++ p'.frame code) := by
    split
    · exact hcli
    · exact hcli.push 0 (by omega)
  refine hcode.push _ ?_
  have hstub : (if isrErr vector then [] else [(0 : Word)]).length ≤ 1 := by
    split <;> decide
  rw [List.length_append]
  omega

/-- What is on the stack when `isr_handler` is called. -/
theorem tops_isrStub (p : Processor) (selector handler : Word) (vector : ℕ) (code : Option Word) :
    (isrStub vector (p.deliver selector handler code)).Tops
      (pushAllRegs.reverse.map p.regs ++ isrFrame p vector code) := by
  have hentry : (isrEntry vector (p.deliver selector handler code)).Tops (isrFrame p vector code) :=
    tops_isrEntry (p.tops_deliver selector handler code)
  have hregs : pushAllRegs.reverse.map (isrEntry vector (p.deliver selector handler code)).regs =
      pushAllRegs.reverse.map p.regs := by
    refine List.map_congr_left fun r hr ↦ ?_
    have hr : r ≠ .rsp := fun heq ↦ rsp_notMem_pushAllRegs (heq ▸ List.mem_reverse.1 hr)
    rw [regs_isrEntry hr, Processor.regs_deliver hr]
  have hdepth : (isrFrame p vector code).length ≤ 8 := by
    have hframe := p.frame_length_le code
    have hstub : (if isrErr vector then [] else [(0 : Word)]).length ≤ 1 := by
      split <;> decide
    rw [isrFrame, List.length_cons, List.length_append]
    omega
  have hsaved := hentry.pushRegs rsp_notMem_pushAllRegs (by
    have hlength : pushAllRegs.length = 15 := rfl
    omega)
  rw [hregs] at hsaved
  exact hsaved.movReg (by decide)

/-- `isr_handler` gets the address of the top of the stack. -/
theorem read_isrStub (p : Processor) :
    RegsT.read (isrStub vector p).mem ((isrStub vector p).regs .rdi) =
    .ofWords (isrStub vector p).word := by
  have hrdi : (isrStub vector p).regs .rdi = (isrStub vector p).rsp := by
    rw [isrStub, isrCommon]
    exact Processor.regs_movReg_rsp (by decide)
  rw [RegsT.read, hrdi]
  rfl

/-- What `isr_handler` reads through the pointer it is called with. -/
def isrRegs (p : Processor) (selector handler : Word) (vector : ℕ) (code : Option Word) : RegsT :=
  let q := isrStub vector (p.deliver selector handler code)
  .read q.mem (q.regs .rdi)

/-- A word of what `isr_handler` reads. -/
theorem isrRegs_eq (p : Processor) (selector handler : Word) (vector : ℕ) (code : Option Word) :
    isrRegs p selector handler vector code =
      .ofWords (isrStub vector (p.deliver selector handler code)).word :=
  read_isrStub _

/-- Where the stub and the processor agree on the error code, the words are those of the interrupted
code. -/
theorem isrRegs_of_agree (hcode : isrErr vector = code.isSome) :
    isrRegs p selector handler vector code = .interrupted p vector (code.getD 0) := by
  have htops := tops_isrStub p selector handler vector code
  rw [isrRegs_eq]
  cases code with
  | none =>
    rw [isrFrame, hcode] at htops
    exact RegsT.ofWords_congr htops
  | some c =>
    rw [isrFrame, hcode] at htops
    exact RegsT.ofWords_congr htops

/-- **When is the interrupted code reported right?** `isr_handler` reads every register, the error
code and the state that the processor pushed, whatever these were, exactly if the stub of the vector
is an `ISR_ERR` where the processor pushes an error code and an `ISR_NOERR` where it does not. -/
theorem isr_reads_iff (vector : ℕ) (code : Option Word) :
    (∀ p selector handler,
      isrRegs p selector handler vector code = .interrupted p vector (code.getD 0)) ↔
      isrErr vector = code.isSome := by
  refine ⟨fun hreads ↦ ?_, fun hcode _ _ _ ↦ isrRegs_of_agree hcode⟩
  by_contra hdiffer
  cases code with
  | none =>
    -- the address is read as the error code
    have herr : isrErr vector = true := Bool.eq_true_of_not_eq_false hdiffer
    have htops := tops_isrStub (kernelAt 1) 0 0 vector none
    rw [isrFrame, if_pos herr] at htops
    have hword : (isrStub vector ((kernelAt 1).deliver 0 0 none)).word 16 = 1 :=
      htops 16 (by decide : 16 < 21)
    have hread := congrArg RegsT.errCode (hreads (kernelAt 1) 0 0)
    rw [isrRegs_eq] at hread
    have heq : (1 : Word) = 0 := hword.symm.trans hread
    exact absurd heq (by decide)
  | some c =>
    -- the error code is read as the address
    have herr : ¬isrErr vector = true := hdiffer
    have htops := tops_isrStub (kernelAt (c + 1)) 0 0 vector (some c)
    rw [isrFrame, if_neg herr] at htops
    have hword : (isrStub vector ((kernelAt (c + 1)).deliver 0 0 (some c))).word 17 = c :=
      htops 17 (by decide : 17 < 23)
    have hread := congrArg RegsT.rip (hreads (kernelAt (c + 1)) 0 0)
    rw [isrRegs_eq] at hread
    have heq : c = c + 1 := hword.symm.trans hread
    bv_omega

end Exceptions

end LightNight
