import LightNightOS.Foundation.ByteMemory
import Mathlib.Data.List.Basic
import Mathlib.Logic.Function.Basic

/-!
# A fragment of x86-64

The part of the machine that a register-save routine uses: the sixteen general registers, the zero
flag, byte memory at 64-bit addresses that wrap, and the instructions `test`, `jz`, `jmp` and `mov`
to and from memory. A routine is a list of instructions; `run` executes it until an indirect `jmp`
leaves it, and gives the state and the address where execution continues.

Blocks of `mov`s are what such a routine consists of, so they have their rules of their own:
`run_moves` executes a block at once, `load64_stores` says that the fields stored through one base
register hold the registers, and `regs_loads` that registers loaded through one base register hold
the fields.
-/

namespace X86

open LittleEndian

/-! ### State -/

/-- The general registers. -/
inductive Reg
  | rax | rbx | rcx | rdx | rsi | rdi | rbp | rsp
  | r8 | r9 | r10 | r11 | r12 | r13 | r14 | r15
  deriving DecidableEq, Repr

/-- A 64-bit word. -/
abbrev Word := BitVec 64

/-- The state of the machine, without the program counter. -/
structure Machine where
  regs : Reg → Word
  zf : Bool
  mem : Word → UInt8

/-- The word in the eight bytes from `a` on; addresses wrap. -/
def load64 (mem : Word → UInt8) (a : Word) : Word :=
  BitVec.ofNat 64 (decode (fun i ↦ mem (a + BitVec.ofNat 64 i)) 8)

/-- Write a word to the eight bytes from `a` on; addresses wrap. -/
def store64 (mem : Word → UInt8) (a v : Word) : Word → UInt8 := fun x ↦
  if (x - a).toNat < 8 then byte v.toNat (x - a).toNat else mem x

/-- The eight bytes from `a` on. -/
def bytes64 (a : Word) : Set Word := {x | (x - a).toNat < 8}

section Memory

variable {mem mem' : Word → UInt8} {a b base v : Word} {i j : ℕ}

theorem add_ofNat_mem_bytes64 (hi : i < 8) : a + BitVec.ofNat 64 i ∈ bytes64 a := by
  have hsub : a + BitVec.ofNat 64 i - a = BitVec.ofNat 64 i := by
    rw [BitVec.add_comm, BitVec.add_sub_cancel]
  rw [bytes64, Set.mem_ofPred_eq, hsub, BitVec.toNat_ofNat]
  omega

theorem load64_congr (h : Set.EqOn mem mem' (bytes64 a)) : load64 mem a = load64 mem' a :=
  congrArg (BitVec.ofNat 64) (decode_congr fun _ hi ↦ h (add_ofNat_mem_bytes64 hi))

/-- A store leaves the bytes outside its field alone. -/
theorem store64_of_notMem {x : Word} (h : x ∉ bytes64 a) : store64 mem a v x = mem x :=
  if_neg h

/-- **A stored word reads back.** -/
theorem load64_store64_self : load64 (store64 mem a v) a = v := by
  have hbytes : ∀ i < 8, store64 mem a v (a + BitVec.ofNat 64 i) = byte v.toNat i := by
    intro i hi
    have hsub : a + BitVec.ofNat 64 i - a = BitVec.ofNat 64 i := by
      rw [BitVec.add_comm, BitVec.add_sub_cancel]
    have hval : (BitVec.ofNat 64 i).toNat = i := by
      rw [BitVec.toNat_ofNat]
      omega
    rw [store64, hsub, hval, if_pos hi]
  rw [load64, decode_congr hbytes, decode_byte]
  refine BitVec.eq_of_toNat_eq ?_
  rw [BitVec.toNat_ofNat]
  have hlt := v.isLt
  omega

/-- A store beside a word leaves the word alone. -/
theorem load64_store64_of_disjoint (h : Disjoint (bytes64 a) (bytes64 b)) :
    load64 (store64 mem a v) b = load64 mem b :=
  load64_congr fun _ hx ↦ store64_of_notMem fun hmem ↦ Set.disjoint_left.1 h hmem hx

/-- A nonnegative displacement of a memory operand: it fits 32 bits with sign. -/
def IsDisp (d : ℕ) : Prop := d < 2 ^ 31

instance : DecidablePred IsDisp := fun d ↦ inferInstanceAs (Decidable (d < 2 ^ 31))

/-- Two words at displacements at least eight apart do not overlap, wherever the base is. -/
theorem disjoint_bytes64 (hi : IsDisp i) (hj : IsDisp j) (hij : i + 8 ≤ j ∨ j + 8 ≤ i) :
    Disjoint (bytes64 (base + BitVec.ofNat 64 i)) (bytes64 (base + BitVec.ofNat 64 j)) := by
  refine Set.disjoint_left.2 fun x hx hx' ↦ ?_
  rw [IsDisp] at hi hj
  simp only [bytes64, Set.mem_ofPred_eq] at hx hx'
  bv_omega

end Memory

/-! ### Moves -/

/-- `mov` between a register and memory at a base register and a displacement. -/
inductive Move
  | store (base : Reg) (disp : ℕ) (src : Reg)
  | load (dst base : Reg) (disp : ℕ)
  deriving DecidableEq, Repr

namespace Machine

/-- The address of a memory operand. -/
def operand (m : Machine) (base : Reg) (disp : ℕ) : Word :=
  m.regs base + BitVec.ofNat 64 disp

/-- Execute one move. -/
def move (m : Machine) : Move → Machine
  | .store base disp src =>
    { m with mem := store64 m.mem (m.operand base disp) (m.regs src) }
  | .load dst base disp =>
    { m with regs := Function.update m.regs dst (load64 m.mem (m.operand base disp)) }

/-- Execute a block of moves. -/
def moves (m : Machine) (block : List Move) : Machine :=
  block.foldl move m

@[simp] theorem moves_nil (m : Machine) : m.moves [] = m := rfl

@[simp] theorem moves_cons (m : Machine) (i : Move) (block : List Move) :
    m.moves (i :: block) = (m.move i).moves block := rfl

theorem moves_append (m : Machine) (block block' : List Move) :
    m.moves (block ++ block') = (m.moves block).moves block' :=
  List.foldl_append

end Machine

/-! ### Routines -/

/-- Instructions; the target of a conditional jump is an index in the routine. -/
inductive Instr
  | mov (i : Move)
  | test (a b : Reg)
  | jz (target : ℕ)
  | jmp (r : Reg)
  deriving DecidableEq, Repr

/-- Run a routine from index `pc` until a `jmp` leaves it: the state then, and the address where
execution continues. `none` when the fuel is used up or the routine is run off its end. -/
def run (code : List Instr) : ℕ → ℕ → Machine → Option (Machine × Word)
  | 0, _, _ => none
  | fuel + 1, pc, m =>
    match code[pc]? with
    | none => none
    | some (.mov i) => run code fuel (pc + 1) (m.move i)
    | some (.test a b) => run code fuel (pc + 1) { m with zf := m.regs a &&& m.regs b == 0 }
    | some (.jz target) => run code fuel (if m.zf then target else pc + 1) m
    | some (.jmp r) => some (m, m.regs r)

theorem run_test {code : List Instr} {fuel pc : ℕ} {m : Machine} {a b : Reg}
    (h : code[pc]? = some (.test a b)) :
    run code (fuel + 1) pc m =
      run code fuel (pc + 1) { m with zf := m.regs a &&& m.regs b == 0 } := by
  rw [run, h]

theorem run_jz {code : List Instr} {fuel pc target : ℕ} {m : Machine}
    (h : code[pc]? = some (.jz target)) :
    run code (fuel + 1) pc m = run code fuel (if m.zf then target else pc + 1) m := by
  rw [run, h]

theorem run_jmp {code : List Instr} {fuel pc : ℕ} {m : Machine} {r : Reg}
    (h : code[pc]? = some (.jmp r)) : run code (fuel + 1) pc m = some (m, m.regs r) := by
  rw [run, h]

/-- **A block of moves runs as one.** -/
theorem run_moves {code rest : List Instr} {block : List Move} {pc fuel : ℕ} {m : Machine}
    (hcode : code.drop pc = block.map .mov ++ rest) :
    run code (fuel + block.length) pc m = run code fuel (pc + block.length) (m.moves block) := by
  induction block generalizing pc m with
  | nil => rfl
  | cons i block ih =>
    have hget : code[pc]? = some (.mov i) := by
      rw [← Nat.add_zero pc, ← List.getElem?_drop, hcode]
      rfl
    have htail : code.drop (pc + 1) = block.map .mov ++ rest := by
      rw [← List.drop_drop, hcode]
      rfl
    rw [List.length_cons, ← Nat.add_assoc, run, hget]
    dsimp only
    rw [ih htail, Machine.moves_cons, Nat.add_assoc pc, Nat.add_comm 1]

/-! ### Saving and restoring through one base register

Fields at different offsets from one base register do not overlap where the offsets are at least
eight apart (`Spaced`). The base register itself is none of those that are loaded, so that it stays
the base.
-/

/-- Store the registers at the displacements from `base`. -/
def stores (base : Reg) (fields : List (ℕ × Reg)) : List Move :=
  fields.map fun f ↦ .store base f.1 f.2

/-- Load the registers from the displacements from `base`. -/
def loads (base : Reg) (fields : List (ℕ × Reg)) : List Move :=
  fields.map fun f ↦ .load f.2 base f.1

section Fields

variable {m : Machine} {base : Reg} {fields : List (ℕ × Reg)} {d : ℕ} {r : Reg}

theorem regs_stores : (m.moves (stores base fields)).regs = m.regs := by
  induction fields generalizing m with
  | nil => rfl
  | cons f fields ih => exact ih

/-- Words beside the fields stored keep their value. -/
theorem load64_stores_of_disjoint {a : Word}
    (h : ∀ f ∈ fields, Disjoint (bytes64 (m.operand base f.1)) (bytes64 a)) :
    load64 (m.moves (stores base fields)).mem a = load64 m.mem a := by
  induction fields generalizing m with
  | nil => rfl
  | cons f fields ih =>
    obtain ⟨hhead, htail⟩ := List.forall_mem_cons.1 h
    have hmove : load64 (m.move (.store base f.1 f.2)).mem a = load64 m.mem a :=
      load64_store64_of_disjoint hhead
    rw [← hmove]
    exact ih (m := m.move (.store base f.1 f.2)) htail

/-- Fields at displacements at least eight apart. -/
def Spaced (ds : List ℕ) : Prop :=
  (∀ d ∈ ds, IsDisp d) ∧ ds.Pairwise fun d d' ↦ d + 8 ≤ d' ∨ d' + 8 ≤ d

instance (ds : List ℕ) : Decidable (Spaced ds) := inferInstanceAs (Decidable (_ ∧ _))

/-- **The fields stored through one base register hold the registers.** -/
theorem load64_stores (hspaced : Spaced (fields.map Prod.fst)) (hf : (d, r) ∈ fields) :
    load64 (m.moves (stores base fields)).mem (m.operand base d) = m.regs r := by
  induction fields generalizing m with
  | nil => cases hf
  | cons f fields ih =>
    obtain ⟨hbound, hapart⟩ := hspaced
    obtain ⟨hhead, htail⟩ := List.pairwise_cons.1 hapart
    obtain ⟨hboundHead, hboundTail⟩ := List.forall_mem_cons.1 hbound
    rcases List.mem_cons.1 hf with rfl | hf
    · have hstored : load64 (m.move (.store base d r)).mem (m.operand base d) = m.regs r :=
        load64_store64_self
      rw [← hstored]
      refine load64_stores_of_disjoint (m := m.move (.store base d r)) fun f hf ↦ ?_
      have hmem := List.mem_map_of_mem (f := Prod.fst) hf
      exact disjoint_bytes64 (hboundTail _ hmem) hboundHead (hhead _ hmem).symm
    · exact ih (m := m.move (.store base f.1 f.2)) ⟨hboundTail, htail⟩ hf

theorem mem_loads : (m.moves (loads base fields)).mem = m.mem := by
  induction fields generalizing m with
  | nil => rfl
  | cons f fields ih => exact ih

/-- Registers that are not loaded keep their value. -/
theorem regs_loads_of_notMem (hr : r ∉ fields.map Prod.snd) :
    (m.moves (loads base fields)).regs r = m.regs r := by
  induction fields generalizing m with
  | nil => rfl
  | cons f fields ih =>
    rw [List.map_cons, List.mem_cons, not_or] at hr
    exact (ih hr.2).trans (Function.update_of_ne hr.1 _ _)

/-- **Registers loaded through one base register hold the fields**, if the base is not one of
them. -/
theorem regs_loads (hnodup : (fields.map Prod.snd).Nodup) (hbase : base ∉ fields.map Prod.snd)
    (hf : (d, r) ∈ fields) :
    (m.moves (loads base fields)).regs r = load64 m.mem (m.operand base d) := by
  induction fields generalizing m with
  | nil => cases hf
  | cons f fields ih =>
    rw [List.map_cons, List.mem_cons, not_or] at hbase
    obtain ⟨hhead, htail⟩ := List.nodup_cons.1 hnodup
    rcases List.mem_cons.1 hf with rfl | hf
    · exact (regs_loads_of_notMem hhead).trans (Function.update_self _ _ _)
    · have hkeep : (m.move (.load f.2 base f.1)).operand base d = m.operand base d :=
        congrArg (· + _) (Function.update_of_ne hbase.1 _ _)
      refine (ih (m := m.move (.load f.2 base f.1)) htail hbase.2 hf).trans ?_
      rw [hkeep]
      rfl

end Fields

end X86
