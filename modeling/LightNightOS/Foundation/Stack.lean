import LightNightOS.Foundation.X86
import Mathlib.Data.List.GetD
import Mathlib.Data.List.Induction
import Mathlib.Data.List.Nodup

/-!
# The stack and the interrupts of x86-64

The instructions that an interrupt stub consists of: `push` and `pop` of 64-bit words, `call` and
`ret`, the delivery of an interrupt through a gate in 64-bit mode, and `iretq`. There is no change
of privilege and no stack switch, and the registers are the general ones: `xmm0` and the like are no
part of the state.

A stack is read from its top: `p.word i` is the word `i` words above `rsp`. With a bound on the
depth, since addresses wrap, `push` puts a word in front of these and `pop` takes one off
(`Tops.push`, `word_pop`), and no address appears in what follows. A stub that saves registers puts
a list on top (`Tops.pushRegs`), and one that restores them reads it back (`regs_popRegs`); so
`resumed` says when the two undo each other. A `call` puts the return address in front, and the
`ret` of the routine takes it off (`Tops.ret`).
-/

namespace X86

/-- The processor, as far as an interrupt saves and restores it. -/
@[ext] structure Processor where
  regs : Reg → Word
  mem : Word → UInt8
  rip : Word
  cs : Word
  rflags : Word
  ss : Word

namespace Processor

/-! ### Instructions -/

/-- The stack pointer. -/
def rsp (p : Processor) : Word := p.regs .rsp

/-- The word `i` words above the top of the stack. -/
def word (p : Processor) (i : ℕ) : Word := load64 p.mem (p.rsp + BitVec.ofNat 64 (8 * i))

/-- `push` of a value. -/
def push (p : Processor) (v : Word) : Processor :=
  { p with
    regs := Function.update p.regs .rsp (p.rsp - 8)
    mem := store64 p.mem (p.rsp - 8) v }

/-- Values pushed one after the other. -/
def pushAll (p : Processor) (vs : List Word) : Processor := vs.foldl push p

/-- `push r` for each of the registers. -/
def pushRegs (p : Processor) (rs : List Reg) : Processor := rs.foldl (fun p r ↦ p.push (p.regs r)) p

/-- `pop r` -/
def pop (p : Processor) (r : Reg) : Processor :=
  { p with regs := Function.update (Function.update p.regs .rsp (p.rsp + 8)) r (p.word 0) }

/-- `pop r` for each of the registers. -/
def popRegs (p : Processor) (rs : List Reg) : Processor := rs.foldl pop p

/-- `ret` -/
def ret (p : Processor) : Processor :=
  { p with
    rip := p.word 0
    regs := Function.update p.regs .rsp (p.rsp + 8) }

/-- `call` of a routine, with the address behind the call; the routine is what it does before its
`ret`. -/
def call (p : Processor) (back : Word) (routine : Processor → Processor) : Processor :=
  (routine (p.push back)).ret

/-- `mov dst, src` -/
def movReg (p : Processor) (dst src : Reg) : Processor :=
  { p with regs := Function.update p.regs dst (p.regs src) }

/-- The flags `IF`, `TF`, `NT` and `RF`, which an interrupt gate clears. -/
def gateFlags : Word := 0x14300

/-- The stack pointer is rounded down to a multiple of 16. -/
def alignStack (p : Processor) : Processor :=
  { p with regs := Function.update p.regs .rsp (p.rsp &&& ~~~15) }

/-- What an interrupt pushes: the stack is aligned, the state is pushed, and behind it the error
code, if there is one. -/
def pushFrame (p : Processor) (code : Option Word) : Processor :=
  p.alignStack.pushAll ([p.ss, p.rsp, p.rflags, p.cs, p.rip] ++ code.toList)

/-- An interrupt is delivered through an interrupt gate. The `RFLAGS` pushed are those the code ran
with: that some faults set `RF` in what they push is not described. -/
def deliver (p : Processor) (selector handler : Word) (code : Option Word) : Processor :=
  { p.pushFrame code with
    rip := handler
    cs := selector
    rflags := p.rflags &&& ~~~gateFlags }

/-- `iretq` -/
def iretq (p : Processor) : Processor :=
  { p with
    rip := p.word 0
    cs := p.word 1
    rflags := p.word 2
    regs := Function.update p.regs .rsp (p.word 3)
    ss := p.word 4 }

/-- The words of `l` are on top of the stack. -/
def Tops (p : Processor) (l : List Word) : Prop := ∀ i < l.length, p.word i = l.getD i 0

/-- The `n` words below an address. -/
def below (a : Word) (n : ℕ) : Set Word := {x | (x - (a - BitVec.ofNat 64 (8 * n))).toNat < 8 * n}

/-! ### Pushing

Words are numbered from the top, so the number of a word says nothing about its address: a push adds
one to every number. The bound on the depth is where addresses come in, since a stack of `2 ^ 61`
words would reach around. -/

section Push

variable {p q : Processor} {v : Word} {vs l : List Word} {r : Reg} {rs : List Reg} {i : ℕ}

@[simp] theorem rsp_push : (p.push v).rsp = p.rsp - 8 := by
  show Function.update p.regs .rsp (p.rsp - 8) .rsp = _
  rw [Function.update_self]

/-- A push changes no register but the stack pointer. -/
theorem regs_push (hr : r ≠ .rsp) : (p.push v).regs r = p.regs r := Function.update_of_ne hr _ _

/-- The words on the stack depend on the registers and the memory. -/
theorem word_congr (hregs : p.regs = q.regs) (hmem : p.mem = q.mem) : p.word i = q.word i := by
  rw [word, word, rsp, rsp, hregs, hmem]

@[simp] theorem word_push_zero : (p.push v).word 0 = v := by
  rw [word, rsp_push, Nat.mul_zero, BitVec.add_zero]
  exact load64_store64_self

/-- The other words are one further down, as far as the stack does not reach around. -/
theorem word_push_succ (hi : 8 * (i + 2) ≤ 2 ^ 64) : (p.push v).word (i + 1) = p.word i := by
  have haddr : p.rsp - 8 + BitVec.ofNat 64 (8 * (i + 1)) = p.rsp + BitVec.ofNat 64 (8 * i) := by
    bv_omega
  rw [word, rsp_push, haddr]
  refine load64_store64_of_disjoint (Set.disjoint_left.2 fun x hx hx' ↦ ?_)
  simp only [bytes64, Set.mem_ofPred_eq] at hx hx'
  bv_omega

theorem pushAll_append (vs ws : List Word) : p.pushAll (vs ++ ws) = (p.pushAll vs).pushAll ws :=
  List.foldl_append

/-- What pushes leave depends on the registers and the memory. -/
theorem pushAll_congr (hregs : p.regs = q.regs) (hmem : p.mem = q.mem) :
    (p.pushAll vs).mem = (q.pushAll vs).mem := by
  induction vs generalizing p q with
  | nil => exact hmem
  | cons v vs ih =>
    refine ih (p := p.push v) (q := q.push v) ?_ ?_
    · rw [push, push, rsp, rsp, hregs]
    · rw [push, push, rsp, rsp, hregs, hmem]

/-- Pushing a list changes no register but the stack pointer. -/
theorem regs_pushAll (hr : r ≠ .rsp) : (p.pushAll vs).regs r = p.regs r := by
  induction vs generalizing p with
  | nil => rfl
  | cons v vs ih => exact ih.trans (regs_push hr)

/-- **A push writes below the stack only.** -/
theorem mem_pushAll {x : Word} (hdepth : 8 * vs.length ≤ 2 ^ 64) (hx : x ∉ below p.rsp vs.length) :
    (p.pushAll vs).mem x = p.mem x := by
  induction vs generalizing p with
  | nil => rfl
  | cons v vs ih =>
    simp only [below, Set.mem_ofPred_eq, List.length_cons] at hx hdepth
    have hrest : x ∉ below (p.push v).rsp vs.length := by
      rw [rsp_push]
      simp only [below, Set.mem_ofPred_eq]
      bv_omega
    have hword : x ∉ bytes64 (p.rsp - 8) := by
      simp only [bytes64, Set.mem_ofPred_eq]
      bv_omega
    exact (ih (p := p.push v) (by omega) hrest).trans (store64_of_notMem hword)

theorem tops_nil (p : Processor) : p.Tops [] := fun i hi ↦ absurd hi (Nat.not_lt_zero i)

/-- What is on top depends on the registers and the memory. -/
theorem Tops.congr (h : p.Tops l) (hregs : q.regs = p.regs) (hmem : q.mem = p.mem) : q.Tops l :=
  fun i hi ↦ (word_congr hregs hmem).trans (h i hi)

/-- **A push puts a word in front of the others.** -/
theorem Tops.push (h : p.Tops l) (v : Word) (hdepth : 8 * (l.length + 1) ≤ 2 ^ 64) :
    (p.push v).Tops (v :: l) := by
  intro i hi
  cases i with
  | zero => exact word_push_zero
  | succ i =>
    rw [List.length_cons, Nat.add_lt_add_iff_right] at hi
    rw [word_push_succ (by omega), h i hi, List.getD_cons_succ]

/-- The words pushed are on top, the last one first. -/
theorem Tops.pushAll (h : p.Tops l) (vs : List Word)
    (hdepth : 8 * (vs.length + l.length) ≤ 2 ^ 64) :
    (p.pushAll vs).Tops (vs.reverse ++ l) := by
  induction vs generalizing p l with
  | nil => exact h
  | cons v vs ih =>
    rw [List.length_cons] at hdepth
    rw [List.reverse_cons, List.append_assoc]
    exact ih (h.push v (by omega)) (by rw [List.length_append, List.length_singleton]; omega)

/-- Registers other than `rsp` do not change while they are pushed. -/
theorem pushRegs_eq (hrs : .rsp ∉ rs) : p.pushRegs rs = p.pushAll (rs.map p.regs) := by
  induction rs generalizing p with
  | nil => rfl
  | cons r rs ih =>
    rw [List.mem_cons, not_or] at hrs
    refine (ih hrs.2).trans ?_
    have hmap : rs.map (p.push (p.regs r)).regs = rs.map p.regs :=
      List.map_congr_left fun r' hr' ↦ regs_push fun heq ↦ hrs.2 (heq ▸ hr')
    rw [hmap]
    rfl

end Push

/-! ### Popping

A list of registers is restored in the order opposite to that of saving. The stack pointer itself is
in no such list. -/

section Pop

variable {p q : Processor} {r : Reg} {rs : List Reg} {i : ℕ}

theorem rsp_pop (hr : r ≠ .rsp) : (p.pop r).rsp = p.rsp + 8 := by
  rw [rsp, pop]
  exact (Function.update_of_ne hr.symm _ _).trans (Function.update_self _ _ _)

/-- **A pop takes the front word off.** -/
theorem word_pop (hr : r ≠ .rsp) : (p.pop r).word i = p.word (i + 1) := by
  have haddr : p.rsp + 8 + BitVec.ofNat 64 (8 * i) = p.rsp + BitVec.ofNat 64 (8 * (i + 1)) := by
    bv_omega
  rw [word, rsp_pop hr, haddr]
  rfl

/-- The register that is popped into has the word that was on top. -/
theorem regs_pop_self : (p.pop r).regs r = p.word 0 := Function.update_self _ _ _

theorem regs_pop_of_ne {r' : Reg} (hr' : r' ≠ r) (hrsp : r' ≠ .rsp) :
    (p.pop r).regs r' = p.regs r' :=
  (Function.update_of_ne hr' _ _).trans (Function.update_of_ne hrsp _ _)

theorem word_popRegs (hrs : .rsp ∉ rs) : (p.popRegs rs).word i = p.word (i + rs.length) := by
  induction rs generalizing p with
  | nil => rfl
  | cons r rs ih =>
    rw [List.mem_cons, not_or] at hrs
    refine (ih hrs.2).trans ?_
    rw [word_pop (Ne.symm hrs.1), List.length_cons, Nat.add_assoc]

theorem mem_popRegs (p : Processor) (rs : List Reg) : (p.popRegs rs).mem = p.mem := by
  induction rs generalizing p with
  | nil => rfl
  | cons r rs ih => exact ih (p.pop r)

/-- A register that is not popped into stays as it is. -/
theorem regs_popRegs_of_notMem {r' : Reg} (hr' : r' ∉ rs) (hrsp : r' ≠ .rsp) :
    (p.popRegs rs).regs r' = p.regs r' := by
  induction rs generalizing p with
  | nil => rfl
  | cons r rs ih =>
    rw [List.mem_cons, not_or] at hr'
    exact (ih hr'.2).trans (regs_pop_of_ne hr'.1 hrsp)

/-- **The registers popped** hold the words from the top on. -/
theorem regs_popRegs (hrs : .rsp ∉ rs) (hnodup : rs.Nodup) (hi : i < rs.length) :
    (p.popRegs rs).regs rs[i] = p.word i := by
  induction rs generalizing p i with
  | nil => exact absurd hi (Nat.not_lt_zero i)
  | cons r rs ih =>
    rw [List.mem_cons, not_or] at hrs
    obtain ⟨hhead, htail⟩ := List.nodup_cons.1 hnodup
    cases i with
    | zero => exact (regs_popRegs_of_notMem hhead fun heq ↦ hrs.1 heq.symm).trans regs_pop_self
    | succ i =>
      rw [List.length_cons, Nat.add_lt_add_iff_right] at hi
      exact (ih hrs.2 htail hi).trans (word_pop (Ne.symm hrs.1))

theorem rsp_ret : p.ret.rsp = p.rsp + 8 := by
  show Function.update p.regs .rsp (p.rsp + 8) .rsp = _
  rw [Function.update_self]

/-- **A return takes the address off.** -/
theorem word_ret : p.ret.word i = p.word (i + 1) := by
  have haddr : p.rsp + 8 + BitVec.ofNat 64 (8 * i) = p.rsp + BitVec.ofNat 64 (8 * (i + 1)) := by
    bv_omega
  rw [word, rsp_ret, haddr]
  rfl

/-- The word behind the return address is on top again. -/
theorem Tops.ret {v : Word} {l : List Word} (h : p.Tops (v :: l)) : p.ret.Tops l := fun i hi ↦ by
  rw [word_ret, h (i + 1) (by rw [List.length_cons]; omega), List.getD_cons_succ]

theorem rsp_movReg {dst src : Reg} (hdst : dst ≠ .rsp) : (p.movReg dst src).rsp = p.rsp :=
  Function.update_of_ne hdst.symm _ _

/-- Copying a register leaves the words of the stack where they are. -/
theorem word_movReg {dst src : Reg} (hdst : dst ≠ .rsp) : (p.movReg dst src).word i = p.word i := by
  rw [word, word, rsp_movReg hdst]
  rfl

/-- A push after it stores what it would have stored before. -/
theorem mem_push_movReg {dst src : Reg} {v : Word} (hdst : dst ≠ .rsp) :
    ((p.movReg dst src).push v).mem = (p.push v).mem := by
  rw [push, push, rsp_movReg hdst]
  rfl

/-- The stack pointer, moved to another register. -/
theorem regs_movReg_rsp {dst : Reg} (hdst : dst ≠ .rsp) :
    (p.movReg dst .rsp).regs dst = (p.movReg dst .rsp).rsp := by
  show Function.update p.regs dst (p.regs .rsp) dst = Function.update p.regs dst (p.regs .rsp) .rsp
  rw [Function.update_self, Function.update_of_ne hdst.symm]

theorem Tops.movReg {l : List Word} {dst src : Reg} (h : p.Tops l) (hdst : dst ≠ .rsp) :
    (p.movReg dst src).Tops l :=
  fun i hi ↦ (word_movReg hdst).trans (h i hi)

end Pop

/-! ### Interrupts

From the interrupted code over the frame and a body that leaves the frame alone to the return:
`resumed` says that the code goes on with everything it had. -/

section Interrupt

variable {p q : Processor} {selector handler : Word} {code : Option Word} {r : Reg} {rs : List Reg}
  {i : ℕ}

/-- What an interrupt pushes, from the top of the stack on. -/
def frame (p : Processor) (code : Option Word) : List Word :=
  code.toList ++ [p.rip, p.cs, p.rflags, p.rsp, p.ss]

/-- The five words of the processor, and the error code. -/
theorem length_frame : (p.frame code).length = code.toList.length + 5 := List.length_append

/-- The handler begins with the registers of the interrupted code, but for the stack pointer. -/
theorem deliver_regs : (p.deliver selector handler code).regs = (p.pushFrame code).regs := by
  rw [deliver]

theorem deliver_mem : (p.deliver selector handler code).mem = (p.pushFrame code).mem := by
  rw [deliver]

/-- Delivery changes no register but the stack pointer. -/
theorem regs_deliver (hr : r ≠ .rsp) : (p.deliver selector handler code).regs r = p.regs r := by
  rw [deliver_regs, pushFrame, regs_pushAll hr, alignStack]
  exact Function.update_of_ne hr _ _

theorem rsp_alignStack : p.alignStack.rsp = p.rsp &&& ~~~15 := by
  show Function.update p.regs .rsp (p.rsp &&& ~~~15) .rsp = _
  rw [Function.update_self]

theorem frame_length_le (p : Processor) (code : Option Word) : (p.frame code).length ≤ 6 := by
  rw [length_frame]
  exact Nat.add_le_add_right code.length_toList_le 5

/-- **What the processor pushed** is on top when the stub starts. -/
theorem tops_deliver (p : Processor) (selector handler : Word) (code : Option Word) :
    (p.deliver selector handler code).Tops (p.frame code) := by
  have hpushed : ([p.ss, p.rsp, p.rflags, p.cs, p.rip] ++ code.toList).reverse ++ [] =
      p.frame code := by
    cases code <;> rfl
  have hlength : ([p.ss, p.rsp, p.rflags, p.cs, p.rip] ++ code.toList).length ≤ 6 := by
    have hframe := p.frame_length_le code
    rwa [← hpushed, List.append_nil, List.length_reverse] at hframe
  rw [← hpushed]
  exact ((tops_nil _).pushAll _ (by rw [List.length_nil]; omega)).congr deliver_regs deliver_mem

/-- Registers pushed are on top, in the order in which they are popped. -/
theorem Tops.pushRegs {l : List Word} (h : p.Tops l) (hrs : .rsp ∉ rs)
    (hdepth : 8 * (rs.length + l.length) ≤ 2 ^ 64) :
    (p.pushRegs rs).Tops (rs.reverse.map p.regs ++ l) := by
  rw [pushRegs_eq hrs, List.map_reverse]
  exact h.pushAll _ (by rwa [List.length_map])

/-- The registers as the interrupted code had them. -/
theorem map_regs_deliver (hrs : .rsp ∉ rs) :
    rs.map (p.deliver selector handler code).regs = rs.map p.regs :=
  List.map_congr_left fun _ hr ↦ regs_deliver fun heq ↦ hrs (heq ▸ hr)

/-- What a stub has written, once it has pushed registers and then other words, is below the
interrupted stack. -/
theorem mem_saved {x : Word} (vs : List Word) (hrs : .rsp ∉ rs)
    (hdepth : 8 * (vs.length + rs.length + 6) ≤ 2 ^ 64)
    (hx : x ∉ below (p.rsp &&& ~~~15) (vs.length + rs.length + (p.frame code).length)) :
    (((p.deliver selector handler code).pushRegs rs).pushAll vs).mem x = p.mem x := by
  have hpushed : (((p.deliver selector handler code).pushRegs rs).pushAll vs).mem =
      (p.alignStack.pushAll (([p.ss, p.rsp, p.rflags, p.cs, p.rip] ++ code.toList) ++
        (rs.map (p.deliver selector handler code).regs ++ vs))).mem := by
    rw [pushRegs_eq hrs, ← pushAll_append, pushAll_append _ (_ ++ vs)]
    exact pushAll_congr deliver_regs deliver_mem
  have hframe := p.frame_length_le code
  have hlength : (([p.ss, p.rsp, p.rflags, p.cs, p.rip] ++ code.toList) ++
      (rs.map (p.deliver selector handler code).regs ++ vs)).length =
        vs.length + rs.length + (p.frame code).length := by
    rw [List.length_append, List.length_append, List.length_append, List.length_map, length_frame]
    simp only [List.length_cons, List.length_nil]
    omega
  rw [hpushed]
  refine mem_pushAll (by omega) ?_
  rwa [hlength, rsp_alignStack]

/-- **A stub is transparent**: it saves registers, calls a routine that leaves what is on the stack
alone, restores the registers and returns. Only the memory is then as the routine left it. -/
theorem resumed (hrs : .rsp ∉ rs) (hnodup : rs.Nodup) (hall : ∀ r, r ≠ .rsp → r ∈ rs)
    (hq : q.Tops (rs.reverse.map p.regs ++ p.frame none)) :
    (q.popRegs rs.reverse).iretq = { p with mem := q.mem } := by
  have hrs' : .rsp ∉ rs.reverse := fun hmem ↦ hrs (List.mem_reverse.1 hmem)
  have hlength : (rs.reverse.map p.regs).length = rs.reverse.length := List.length_map _
  -- behind the registers is what the processor pushed
  have hframe : ∀ i < 5, (q.popRegs rs.reverse).word i = (p.frame none).getD i 0 := by
    intro i hi
    have hword := hq (i + rs.reverse.length) (by
      rw [List.length_append, hlength, length_frame, Option.toList_none, List.length_nil]
      omega)
    rwa [List.getD_append_right _ _ _ _ (by omega), hlength, Nat.add_sub_cancel,
      ← word_popRegs hrs'] at hword
  have hregs : ∀ r, r ≠ .rsp → (q.popRegs rs.reverse).regs r = p.regs r := by
    intro r hr
    obtain ⟨i, hi, rfl⟩ := List.mem_iff_getElem.1 (List.mem_reverse.2 (hall r hr))
    rw [regs_popRegs hrs' (List.nodup_reverse.2 hnodup) hi, hq i (by
        rw [List.length_append, hlength]
        omega),
      List.getD_append _ _ _ _ (by omega), List.getD_eq_getElem _ _ (by omega), List.getElem_map]
  have hresumed : Function.update (q.popRegs rs.reverse).regs .rsp ((q.popRegs rs.reverse).word 3) =
      p.regs := by
    funext r
    rcases eq_or_ne r .rsp with rfl | hr
    · rw [Function.update_self]
      exact hframe 3 (by omega)
    · rw [Function.update_of_ne hr]
      exact hregs r hr
  rw [iretq, hresumed, hframe 0 (by omega), hframe 1 (by omega), hframe 2 (by omega),
    hframe 4 (by omega), mem_popRegs]
  rfl

end Interrupt

end Processor

end X86
