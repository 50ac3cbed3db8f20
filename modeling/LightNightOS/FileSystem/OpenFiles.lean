import LightNightOS.FileSystem.Calls

/-!
# Descriptors that are not open

A slot of `open_files` is free when its `ref_count` is 0. A free slot carries the number 0
(`FreeZero`), and the functions look for the number alone. So a descriptor that is not open is
rejected unless it is 0 and a slot is free (`rejected_iff`).

The functions compare `fd` with the number in each slot, free or not, and take the first that fits.
Since a slot gets a number when it is filled, and 0 when it is cleared, a number other than 0 is
only found in a slot that is in use; and 0 is found in any slot that is not.
-/

namespace LightNight

open Transition

variable {σ : Type*} {ops : DataHeap σ}

namespace FileSystem

variable {s t : FileSystem σ} {r : FileResult} {fd : ℕ}

/-- A slot that is free carries the number 0. -/
def FreeZero (s : FileSystem σ) : Prop := ∀ i, (s.openFiles i).refCount = 0 → (s.openFiles i).fd = 0

/-- Assigning a slot. -/
theorem FreeZero.update (h : s.FreeZero) {i : FileSlot} {f : FileDescriptor}
    (hf : f.refCount = 0 → f.fd = 0) (ht : t.openFiles = Function.update s.openFiles i f) :
    t.FreeZero := by
  intro j
  rw [ht]
  by_cases hj : j = i
  · rw [hj, Function.update_self]
    exact hf
  · rw [Function.update_of_ne hj]
    exact h j

theorem FreeZero.same (h : s.FreeZero) (ht : t.openFiles = s.openFiles) : t.FreeZero := by
  intro i
  rw [ht]
  exact h i

/-- Moving an offset frees no slot and changes no number. -/
theorem FreeZero.movesOffset (h : s.FreeZero) (ht : MovesOffset fd s t) : t.FreeZero := by
  rcases ht.2 with hsame | ⟨i, offset, -, hupdate⟩
  · exact h.same hsame
  · refine h.update ?_ hupdate
    exact h i

/-- **Every call keeps the free slots at 0.** -/
theorem FreeZero.step {a : FileCall × FileResult} (h : s.FreeZero) (hstep : FileStep ops s a t) :
    t.FreeZero := by
  obtain ⟨call, r⟩ := a
  have hcall : s.call ops call = some (r, t) := hstep
  by_cases htable : call.onTable = false
  · rcases call_moves hcall htable with hsame | ⟨fd, -, hmove⟩
    exacts [h.same hsame.openFiles, h.movesOffset hmove]
  cases call with
  | init fresh bytes =>
    obtain ⟨u, hu, heq⟩ := Option.map_eq_some_iff.1 hcall
    obtain ⟨-, rfl⟩ := Prod.mk.inj heq
    rcases (fsInit_files hu).2 with hsame | hempty
    · exact h.same hsame
    · intro i _
      rw [hempty]
  | «open» filename mode =>
    obtain ⟨-, rfl⟩ := call_eq_some hcall
    cases filename with
    | none => exact h
    | some filename =>
      rcases fsOpen_cases (s := s) filename mode with ⟨-, heq⟩ | ⟨i, -, heq⟩ <;> rw [heq]
      · exact h
      · exact h.update (i := i) (fun hzero ↦ absurd hzero Nat.one_ne_zero) rfl
  | close fd =>
    obtain ⟨-, rfl⟩ := call_eq_some hcall
    rcases fsClose_cases s fd with ⟨-, heq⟩ | ⟨i, f, -, heq, -, hf⟩ <;> rw [heq]
    · exact h
    · exact h.update hf rfl
  | _ => exact absurd rfl htable

/-- The two tables of `fs.c` are the same. -/
structure SameTables (s t : FileSystem σ) : Prop where
  openFiles : t.openFiles = s.openFiles
  inodeTable : t.inodeTable = s.inodeTable

/-- A call returns -1 and leaves the tables alone. -/
def RejectsCall (ops : DataHeap σ) (s : FileSystem σ) (a : FileCall) : Prop :=
  ∃ r t, s.call ops a = some (r, t) ∧ r.ret = -1 ∧ s.SameTables t

/-- The four calls reject the descriptor. -/
def Rejects (ops : DataHeap σ) (s : FileSystem σ) (fd : ℕ) : Prop :=
  s.RejectsCall ops (.close fd) ∧ (∀ offset, s.RejectsCall ops (.seek fd offset)) ∧
    ∀ buffer size, s.RejectsCall ops (.read fd buffer size) ∧
      s.RejectsCall ops (.write fd buffer size)

/-- A number that no slot carries is rejected. -/
theorem rejects_of_forall (h : ∀ i, (s.openFiles i).fd ≠ fd) : s.Rejects ops fd := by
  have hfind : ∀ p : FileDescriptor → Bool, (∀ f, p f = true → f.fd = fd) →
      s.findFile p = none := by
    intro p hp
    rcases hfind : s.findFile p with - | i
    · rfl
    · exact absurd (hp _ (findFile_some hfind)) (h i)
  have hfd := hfind (fun f ↦ f.fd = fd) fun f hf ↦ by simpa using hf
  have hfd' := hfind (fun f ↦ f.fd = fd ∧ f.inodeId < fsMaxInodes) fun f hf ↦
    (by simpa using hf : f.fd = fd ∧ f.inodeId < fsMaxInodes).1
  have hself : ∀ {a : FileCall} {r : FileResult}, s.call ops a = some (r, s) → r.ret = -1 →
      s.RejectsCall ops a := fun hcall hret ↦ ⟨_, s, hcall, hret, rfl, rfl⟩
  refine ⟨hself (r := ⟨-1, none⟩) ?_ rfl, fun offset ↦ hself (r := ⟨-1, none⟩) ?_ rfl,
    fun buffer size ↦ ⟨?_, ?_⟩⟩
  · rw [call, fsClose, hfd]
  · rw [call, fsSeek, hfd]
  · rw [RejectsCall, call, fsRead.eq_def, hfd]
    cases buffer with
    | none => exact ⟨_, s, rfl, rfl, rfl, rfl⟩
    | some bytes => exact ⟨_, s, ite_self _, rfl, rfl, rfl⟩
  · rw [RejectsCall, call, fsWrite.eq_def, hfd']
    cases buffer with
    | none => exact ⟨_, s, rfl, rfl, rfl, rfl⟩
    | some bytes => exact ⟨_, s, ite_self _, rfl, rfl, rfl⟩

/-- A number that a slot carries can be closed. -/
theorem not_rejects {i : FileSlot} (h : (s.openFiles i).fd = fd) : ¬s.Rejects ops fd := by
  rintro ⟨⟨r, t, hcall, hret, -⟩, -⟩
  rcases fsClose_cases s fd with ⟨hnone, -⟩ | ⟨j, f, -, heq, -⟩
  · exact hnone i h
  · rw [call, heq] at hcall
    rw [← (Prod.mk.inj (Option.some.inj hcall)).1] at hret
    exact absurd hret (by decide)

end FileSystem

/-- **Which descriptors are rejected.** In every state reached by calls of the file system, a
descriptor that no slot in use carries is rejected by `fs_close`, `fs_seek`, `fs_read` and
`fs_write`, without an effect on the tables, if and only if it is not 0 or no slot is free. -/
theorem rejected_iff {heap : σ} {calls : List (FileCall × FileResult)} {s : FileSystem σ}
    (hrun : Run (FileStep ops) (FileSystem.boot heap) calls s) {fd : ℕ}
    (hfd : ∀ i, 0 < (s.openFiles i).refCount → (s.openFiles i).fd ≠ fd) :
    s.Rejects ops fd ↔ fd ≠ 0 ∨ ∀ i, (s.openFiles i).refCount ≠ 0 := by
  have hzero : s.FreeZero :=
    hrun.invariant (I := FileSystem.FreeZero) FileSystem.FreeZero.step fun _ _ ↦ rfl
  constructor
  · intro hrejects
    by_contra hfree
    push Not at hfree
    obtain ⟨rfl, i, hi⟩ := hfree
    exact FileSystem.not_rejects (hzero i hi) hrejects
  · intro hcond
    refine FileSystem.rejects_of_forall fun i hi ↦ ?_
    rcases Nat.eq_zero_or_pos (s.openFiles i).refCount with href | href
    · rcases hcond with hne | hfull
      · exact hne (hi.symm.trans (hzero i href))
      · exact hfull i href
    · exact hfd i href hi

/-! ### A small file system -/

/-- A heap that hands out addresses in order, and never takes them back. -/
def bumpHeap : DataHeap (ℕ × ByteMemory) where
  malloc h n := if n = 0 then some (0, h) else some (h.1, (h.1 + n, h.2))
  mem := Prod.snd
  setMem h m := (h.1, m)

/-- The heap is empty. -/
def bumpStart : ℕ × ByteMemory := (4096, fun _ ↦ 0)

/-- The call of `fs_init`, on memory that was cleared. -/
def initCall : FileCall := .init (fun _ ↦ ⟨0, 0, 0, 0, 0, 0, 0, 0⟩) fun _ ↦ 0

/-- The file system after `fs_init`. -/
def bumpInit : FileSystem (ℕ × ByteMemory) where
  freeBlocks := 10240
  freeInodes := fsMaxInodes
  inodeTable := some (FileSystem.initInodes fun _ ↦ ⟨0, 0, 0, 0, 0, 0, 0, 0⟩)
  blockBitmap := some fun i ↦ if i < bitmapSize then 0 else 0
  inodeBitmap := some fun i ↦ if i < bitmapSize then 0 else 0
  openFiles := fun _ ↦ ⟨0, 0, 0, 0, 0⟩
  nextFd := 1
  lastCreatedInode := noInode
  heap := (225280, fun _ ↦ 0)

theorem bumpInit_eq : (FileSystem.boot bumpStart).fsInit bumpHeap
    (fun _ ↦ ⟨0, 0, 0, 0, 0, 0, 0, 0⟩) (fun _ ↦ 0) = some bumpInit :=
  rfl

theorem bumpInit_step : FileStep bumpHeap (FileSystem.boot bumpStart) (initCall, ⟨0, none⟩)
    bumpInit :=
  congrArg (Option.map fun s ↦ ((⟨0, none⟩ : FileResult), s)) bumpInit_eq

/-- The general theorem on the number of a file that was closed, with another file open. -/
theorem rejected_closed : ∃ s, Run (FileStep bumpHeap) (FileSystem.boot bumpStart)
      [(initCall, ⟨0, none⟩), (.open (some ⟨[0x61], by decide⟩) 1, ⟨1, none⟩),
        (.open (some ⟨[0x62], by decide⟩) 3, ⟨2, none⟩), (.close 1, ⟨0, none⟩)] s ∧
    (s.openFiles 1).fd = 2 ∧ (s.openFiles 1).refCount = 1 ∧
    (s.Rejects bumpHeap 1 ↔ (1 : ℕ) ≠ 0 ∨ ∀ i, (s.openFiles i).refCount ≠ 0) := by
  let s₁ := (bumpInit.fsOpen (some ⟨[0x61], by decide⟩) 1).2
  let s₂ := (s₁.fsOpen (some ⟨[0x62], by decide⟩) 3).2
  have hopen₁ : FileStep bumpHeap bumpInit (.open (some ⟨[0x61], by decide⟩) 1, ⟨1, none⟩) s₁ := rfl
  have hopen₂ : FileStep bumpHeap s₁ (.open (some ⟨[0x62], by decide⟩) 3, ⟨2, none⟩) s₂ := rfl
  have hclose : FileStep bumpHeap s₂ (.close 1, ⟨0, none⟩) (s₂.fsClose 1).2 := rfl
  have hrun := (((Run.single bumpInit_step).snoc hopen₁).snoc hopen₂).snoc hclose
  have hother : ∀ i, 0 < ((s₂.fsClose 1).2.openFiles i).refCount →
      ((s₂.fsClose 1).2.openFiles i).fd ≠ 1 := by
    decide +kernel
  exact ⟨_, hrun, rfl, rfl, rejected_iff hrun hother⟩

/-- **The number 0 is accepted**: no file is open after `fs_init`, but `fs_close(0)` returns 0 and
counts the free slot down to `0xFFFFFFFF`. -/
theorem close_zero_accepted : ∃ s t,
    Run (FileStep bumpHeap) (FileSystem.boot bumpStart) [(initCall, ⟨0, none⟩)] s ∧
    (∀ i, (s.openFiles i).refCount = 0) ∧ FileStep bumpHeap s (.close 0, ⟨0, none⟩) t ∧
    (t.openFiles 0).refCount = 0xFFFFFFFF ∧ ¬s.Rejects bumpHeap 0 :=
  ⟨bumpInit, _, Run.single bumpInit_step, fun _ ↦ rfl, rfl, by decide,
    FileSystem.not_rejects (i := 0) rfl⟩

end LightNight
