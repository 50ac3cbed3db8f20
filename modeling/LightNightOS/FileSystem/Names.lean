import LightNightOS.FileSystem.OpenFiles

/-!
# Which inode a name opens

`fs.c` stores no names. `fs_open` knows two names, `test.txt` and `mydir`, which it takes for the
inodes 1 and 2; any other name opens the inode created last, or inode 1 when none was created.
`resolve` says so on the history of the calls alone, and `fsOpen_resolves` that this is what
`fs_open` does in every state reached, whatever the names in the history were.
-/

namespace LightNight

open Transition

variable {σ : Type*} {ops : DataHeap σ}

/-- The inodes that calls of `fs_create_file` and `fs_create_dir` have returned, in order. -/
def createdInodes (calls : List (FileCall × FileResult)) : List ℕ :=
  calls.filterMap fun
    | (.createFile _, r) | (.createDir _, r) => if r.ret = -1 then none else some r.ret.toNat
    | _ => none

/-- The inode a name opens after some inodes have been created. -/
def resolve (filename : FileName) (created : List ℕ) : ℕ :=
  if filename.1 = fileName "test.txt" then 1
  else if filename.1 = fileName "mydir" then 2
  else created.getLast?.getD 1

namespace FileSystem

variable {s t : FileSystem σ} {r : FileResult}

/-! ### `last_created_inode`

The variable holds the marker for no inode until the first create, and is set by each create that
succeeds; nothing else touches it. -/

theorem fsWrite_lastCreated {fd size : ℕ} {buffer : Option (ℕ → UInt8)}
    (h : s.fsWrite ops fd buffer size = some (r, t)) :
    t.lastCreatedInode = s.lastCreatedInode := by
  rcases fsWrite_cases h with
    ⟨-, rfl | ⟨_, _, _, -, -, rfl⟩⟩ | ⟨_, _, _, _, _, -, -, -, -, -, -, -, rfl⟩ <;> rfl

/-- What the history of the calls says about the inode that is remembered. -/
def Remembers (s : FileSystem σ) (created : List ℕ) : Prop :=
  s.lastCreatedInode = created.getLast?.getD noInode ∧ ∀ i ∈ created, i < fsMaxInodes

/-- What is remembered depends on `last_created_inode` alone. -/
theorem Remembers.same {created : List ℕ} (h : s.Remembers created)
    (ht : t.lastCreatedInode = s.lastCreatedInode) : t.Remembers created :=
  ⟨ht.trans h.1, h.2⟩

/-- Creating an inode, or failing to. -/
theorem Remembers.create {created : List ℕ} (h : s.Remembers created) {filename : Option FileName}
    {fill : Inode → Inode} (hcreate : s.createInode filename fill = some (r, t)) :
    t.Remembers (created ++ if r.ret = -1 then [] else [r.ret.toNat]) := by
  rcases createInode_cases hcreate with ⟨hret, rfl⟩ | ⟨table, i, -, -, hi, -, hret, rfl⟩
  · rw [if_pos hret, List.append_nil]
    exact h
  · rw [if_neg (by omega), hret, Int.toNat_natCast]
    refine ⟨by rw [List.getLast?_concat, Option.getD_some], fun j hj ↦ ?_⟩
    rcases List.mem_append.1 hj with hj | hj
    · exact h.2 j hj
    · exact List.mem_singleton.1 hj ▸ hi

/-- Looking a name up in the code and in the history. -/
theorem Remembers.lookup {created : List ℕ} (h : s.Remembers created) (filename : FileName) :
    s.lookup filename = resolve filename created := by
  rw [FileSystem.lookup, resolve]
  simp only [strCompare_iff]
  refine if_congr Iff.rfl rfl (if_congr Iff.rfl rfl ?_)
  have hmem := h.1
  rcases hlast : created.getLast? with - | i <;> rw [hlast] at hmem
  · exact if_pos hmem
  · have hi : s.lastCreatedInode = i := hmem
    have hlt := h.2 i (List.mem_of_getLast? hlast)
    rw [hi, if_neg, Option.getD_some]
    rintro rfl
    exact absurd hlt (by decide)

end FileSystem

/-! ### Runs -/

theorem createdInodes_append (calls : List (FileCall × FileResult)) (a : FileCall × FileResult) :
    createdInodes (calls ++ [a]) = createdInodes calls ++ createdInodes [a] :=
  List.filterMap_append

/-- One call. -/
theorem remembers_step {s t : FileSystem σ} {created : List ℕ} {a : FileCall × FileResult}
    (h : s.Remembers created) (hstep : FileStep ops s a t) :
    t.Remembers (created ++ createdInodes [a]) := by
  obtain ⟨call, r⟩ := a
  have hsame : t.lastCreatedInode = s.lastCreatedInode → createdInodes [(call, r)] = [] →
      t.Remembers (created ++ createdInodes [(call, r)]) := by
    intro hlast hnone
    rw [hnone, List.append_nil]
    exact h.same hlast
  have hcreated : createdInodes [(call, r)] = (if r.ret = -1 then [] else [r.ret.toNat]) →
      ∀ {filename fill}, s.createInode filename fill = some (r, t) →
        t.Remembers (created ++ createdInodes [(call, r)]) := by
    intro hlist _ _ hcreate
    rw [hlist]
    exact h.create hcreate
  have hcall : s.call ops call = some (r, t) := hstep
  cases call with
  | init fresh bytes =>
    obtain ⟨u, hu, heq⟩ := Option.map_eq_some_iff.1 hcall
    obtain ⟨-, rfl⟩ := Prod.mk.inj heq
    obtain ⟨_, _, _, _, _, _, -, -, -, -, -, hlast, -⟩ := FileSystem.fsInit_cases hu
    exact hsame hlast rfl
  | createFile filename =>
    have hcreate : s.fsCreateFile filename = some (r, t) := hcall
    refine hcreated ?_ hcreate
    by_cases hret : r.ret = -1 <;> simp [createdInodes, hret]
  | createDir dirname =>
    have hcreate : s.fsCreateDir dirname = some (r, t) := hcall
    refine hcreated ?_ hcreate
    by_cases hret : r.ret = -1 <;> simp [createdInodes, hret]
  | write fd buffer size => exact hsame (FileSystem.fsWrite_lastCreated hcall) rfl
  | _ =>
    obtain ⟨files, n, rfl⟩ := FileSystem.call_onlyFiles hcall rfl
    exact hsame rfl rfl

/-- In every state reached, the inode created last is remembered. -/
theorem remembers_run {s t : FileSystem σ} {calls : List (FileCall × FileResult)}
    (hrun : Run (FileStep ops) s calls t) (hs : s.Remembers []) :
    t.Remembers (createdInodes calls) := by
  induction hrun with
  | nil => exact hs
  | snoc _ hstep ih =>
    rw [createdInodes_append]
    exact remembers_step ih hstep

/-- `fs_open` fills a free slot with a descriptor of an inode, and returns its number. -/
def OpensInode (s : FileSystem σ) (filename : FileName) (mode inode : ℕ) : Prop :=
  ∃ i, (s.openFiles i).refCount = 0 ∧
    (s.fsOpen (some filename) mode).1.ret = i32 s.nextFd ∧
    (s.fsOpen (some filename) mode).2.openFiles =
      Function.update s.openFiles i ⟨s.nextFd, inode, 0, mode, 1⟩

/-- **What a name opens.** In every state reached by calls of the file system, `fs_open` of a name
fails when no slot is free, and otherwise opens inode 1 for `test.txt`, inode 2 for `mydir`, and for
any other name the inode of the last successful create, or inode 1 before the first. -/
theorem fsOpen_resolves {heap : σ} {calls : List (FileCall × FileResult)} {s : FileSystem σ}
    (hrun : Run (FileStep ops) (FileSystem.boot heap) calls s) (filename : FileName) (mode : ℕ) :
    (∀ i, (s.openFiles i).refCount ≠ 0) ∧ s.fsOpen (some filename) mode = (⟨-1, none⟩, s) ∨
      OpensInode s filename mode (resolve filename (createdInodes calls)) := by
  have hremembers := remembers_run hrun ⟨rfl, fun _ h ↦ absurd h List.not_mem_nil⟩
  rcases FileSystem.fsOpen_cases (s := s) filename mode with hfail | ⟨i, hfree, heq⟩
  · exact Or.inl hfail
  · refine Or.inr ⟨i, hfree, ?_, ?_⟩ <;> rw [heq]
    rw [hremembers.lookup filename]
    rfl

/-! ### Two files -/

/-- The calls that create `a` and `b`. -/
def createTwo : List (FileCall × FileResult) :=
  [(initCall, ⟨0, none⟩), (.createFile (some ⟨fileName "a", by decide⟩), ⟨1, none⟩),
    (.createFile (some ⟨fileName "b", by decide⟩), ⟨2, none⟩)]

theorem createTwo_run : ∃ s, Run (FileStep bumpHeap) (FileSystem.boot bumpStart) createTwo s ∧
    (s.openFiles 0).refCount = 0 :=
  ⟨_, Run.cons bumpInit_step (Run.cons rfl (Run.single rfl)), rfl⟩

/-- The general theorem after these calls. -/
theorem fsOpen_resolves_createTwo : ∃ s,
    Run (FileStep bumpHeap) (FileSystem.boot bumpStart) createTwo s ∧
    OpensInode s ⟨fileName "mydir", by decide⟩ 1 2 := by
  obtain ⟨s, hrun, hfree⟩ := createTwo_run
  rcases fsOpen_resolves hrun ⟨fileName "mydir", by decide⟩ 1 with ⟨hfull, -⟩ | hopen
  · exact absurd hfree (hfull 0)
  · exact ⟨s, hrun, hopen⟩

/-- **Names are not resolved**: after `a` was created as inode 1 and `b` as inode 2, `fs_open` of
`a` yields a descriptor of inode 2, and so does `fs_open` of `c`, which was never created. -/
theorem open_a_opens_b : ∃ s, Run (FileStep bumpHeap) (FileSystem.boot bumpStart) createTwo s ∧
    OpensInode s ⟨fileName "a", by decide⟩ 1 2 ∧ OpensInode s ⟨fileName "c", by decide⟩ 1 2 :=
  ⟨_, Run.cons bumpInit_step (Run.cons rfl (Run.single rfl)),
    ⟨0, rfl, rfl, rfl⟩, ⟨0, rfl, rfl, rfl⟩⟩

end LightNight
