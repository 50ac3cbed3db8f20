import LightNightOS.FileSystem.OpenFiles
import LightNightOS.Foundation.SlotTable

/-!
# The table of open files as a finite map

`FileSystem.openList` lists the files that the slots in use hold, and `Descriptors` is what the
table is for: the files that are open, by the number `fs_open` returned for each, and the numbers it
has returned so far. As long as the callers close, read, write and seek open descriptors only, a
free slot is never found by its number and a slot in use has one reference, and then the table is
the map (`descriptors_map`).

* `Tracks.step` — a call on the table is a call on the map;
* `Tracks.keepsSlots` — and it leaves the slots of other descriptors alone, and the inode and mode
  of its own;
* `tracks_run`, `descriptors_map` — every run with fewer than `2 ^ 31` opens, in which only open
  descriptors are used;
* `open_unnamed_fails` — an open without a name returns -1, though every slot is free.
-/

namespace LightNight

open Transition

variable {σ : Type*} {ops : DataHeap σ}

/-! ### The map

A descriptor is looked up by its number, in the first slot that has it. `Tracks` carries what makes
that a map: the numbers of the open files are different, a free slot has the number 0, and the
number that is handed out next is larger than all before. -/

/-- A file that is open. -/
structure OpenFile where
  fd : ℕ
  inodeId : ℕ
  mode : ℕ
  deriving DecidableEq, Repr

/-- The file a slot holds. -/
def FileDescriptor.file (f : FileDescriptor) : Option OpenFile :=
  if f.refCount = 0 then none else some ⟨f.fd, f.inodeId, f.mode⟩

/-- The files the table holds. -/
def FileSystem.openList (s : FileSystem σ) : List OpenFile :=
  SlotTable.contents fun i ↦ (s.openFiles i).file

/-- What the table is for: the files that are open, and the numbers returned so far. -/
structure Descriptors where
  opened : List OpenFile
  issued : List ℕ

/-- What the callers may rely on, when a call is made with the file system in state `s`. A file gets
a number that was never returned before, the inode that its name leads to in `s`, and the mode asked
for, and keeps them until it is closed; opening fails without a name, or with 128 files open. -/
inductive DescriptorStep (s : FileSystem σ) :
    Descriptors → FileCall × FileResult → Descriptors → Prop
  | opened (d : Descriptors) {filename : FileName} {mode fd : ℕ} :
      d.opened.length < fsMaxOpenFiles → 0 < fd → fd ∉ d.issued →
      DescriptorStep s d (.open (some filename) mode, ⟨fd, none⟩)
        ⟨⟨fd, s.lookup filename, mode⟩ :: d.opened, fd :: d.issued⟩
  | full (d : Descriptors) {filename : FileName} {mode : ℕ} :
      d.opened.length = fsMaxOpenFiles →
      DescriptorStep s d (.open (some filename) mode, ⟨-1, none⟩) d
  | unnamed (d : Descriptors) {mode : ℕ} : DescriptorStep s d (.open none mode, ⟨-1, none⟩) d
  | closed (d : Descriptors) {fd : ℕ} : (∃ f ∈ d.opened, f.fd = fd) →
      DescriptorStep s d (.close fd, ⟨0, none⟩)
        { d with opened := d.opened.filter fun f ↦ f.fd ≠ fd }
  | other (d : Descriptors) {a : FileCall} {r : FileResult} : a.onTable = false →
      DescriptorStep s d (a, r) d

/-- The file system and its callers, with the descriptors that `fs_open` returned and that were not
closed since. -/
structure FileUse (σ : Type*) where
  fs : FileSystem σ
  opened : List ℕ

/-- How a call moves the descriptors. -/
def nextOpened (opened : List ℕ) : FileCall × FileResult → List ℕ
  | (.open _ _, r) => if r.ret = -1 then opened else r.ret.toNat :: opened
  | (.close fd, _) => opened.filter fun fd' ↦ fd' ≠ fd
  | _ => opened

/-- A call as a step of the callers. -/
def UseStep (ops : DataHeap σ) (u : FileUse σ) (a : FileCall × FileResult) (u' : FileUse σ) :
    Prop :=
  FileStep ops u.fs a u'.fs ∧ u'.opened = nextOpened u.opened a

/-- The callers and the map, moved by the same call. -/
def MapStep (ops : DataHeap σ) (x : FileUse σ × Descriptors) (a : FileCall × FileResult)
    (y : FileUse σ × Descriptors) : Prop :=
  UseStep ops x.1 a y.1 ∧ DescriptorStep x.1.fs x.2 a y.2

/-- A call among `calls` opened the file: it returned the number, was given the mode, and found the
inode by its name; and the file was not closed since. -/
def OpenedBy (ops : DataHeap σ) (u₀ : FileUse σ) (calls : List (FileCall × FileResult))
    (f : OpenFile) : Prop :=
  ∃ before filename after v,
    calls = before ++ (.open (some filename) f.mode, ⟨f.fd, none⟩) :: after ∧
    Run (UseStep ops) u₀ before v ∧ f.inodeId = v.fs.lookup filename ∧
    ∀ a ∈ after, a.1 ≠ .close f.fd

/-- The callers use open descriptors, and do not set up the file system again. -/
def OnOpen (u : FileUse σ) (a : FileCall × FileResult) : Prop :=
  (∀ fd, a.1.fd = some fd → fd ∈ u.opened) ∧ ∀ fresh bytes, a.1 ≠ .init fresh bytes

/-- The call has opened a file. -/
def opensFile : FileCall × FileResult → Bool
  | (.open _ _, r) => r.ret ≠ -1
  | _ => false

/-- After `n` files have been opened, the table holds the map. -/
structure Tracks (n : ℕ) (u : FileUse σ) (d : Descriptors) : Prop where
  opened : d.opened.Perm u.fs.openList
  fds : u.opened = d.opened.map OpenFile.fd
  nodup : (d.opened.map OpenFile.fd).Nodup
  inUse : ∀ i, (u.fs.openFiles i).refCount ≤ 1
  free : u.fs.FreeZero
  nextFd : u.fs.nextFd = n + 1
  issued : ∀ fd ∈ d.issued, 0 < fd ∧ fd ≤ n
  openIssued : ∀ f ∈ d.opened, f.fd ∈ d.issued

section Tracks

variable {n : ℕ} {u u' : FileUse σ} {d : Descriptors}

theorem file_eq_none {f : FileDescriptor} : f.file = none ↔ f.refCount = 0 := by
  rw [FileDescriptor.file]
  split <;> simp_all

/-- The table is full exactly if 128 files are open. -/
theorem Tracks.full_iff (h : Tracks n u d) :
    d.opened.length = fsMaxOpenFiles ↔ ∀ i, (u.fs.openFiles i).refCount ≠ 0 := by
  rw [h.opened.length_eq, FileSystem.openList, SlotTable.length_contents_eq_iff]
  refine forall_congr' fun i ↦ ?_
  rw [← not_iff_not, not_not, Option.not_isSome_iff_eq_none, file_eq_none]

theorem Tracks.length_le (h : Tracks n u d) : d.opened.length ≤ fsMaxOpenFiles := by
  rw [h.opened.length_eq]
  exact SlotTable.length_contents_le _

/-- The table of files after a slot is assigned. -/
theorem openList_update {s t : FileSystem σ} {i : FileSlot} {f : FileDescriptor}
    (ht : t.openFiles = Function.update s.openFiles i f) :
    t.openList.Perm (f.file.toList ++ SlotTable.others (fun i ↦ (s.openFiles i).file) i) := by
  have hfiles : (fun j ↦ (t.openFiles j).file) =
      Function.update (fun j ↦ (s.openFiles j).file) i f.file := by
    funext j
    rw [ht]
    by_cases hj : j = i
    · rw [hj, Function.update_self, Function.update_self]
    · rw [Function.update_of_ne hj, Function.update_of_ne hj]
  rw [FileSystem.openList, hfiles]
  exact SlotTable.contents_update _ i _

/-- The open files are the file of one slot and the files of the others. -/
theorem openList_perm (s : FileSystem σ) (i : FileSlot) :
    s.openList.Perm ((s.openFiles i).file.toList ++
      SlotTable.others (fun i ↦ (s.openFiles i).file) i) :=
  SlotTable.contents_perm _ i

/-- Moving an offset does not change the files. -/
theorem Tracks.movesOffset {fd : ℕ} (h : Tracks n u d)
    (hmove : FileSystem.MovesOffset fd u.fs u'.fs) (hopened : u'.opened = u.opened) :
    Tracks n u' d := by
  have hfree := h.free.movesOffset hmove
  obtain ⟨hnext, hsame | ⟨i, offset, -, hupdate⟩⟩ := hmove
  · refine ⟨?_, hopened.trans h.fds, h.nodup, fun i ↦ ?_, hfree, hnext.trans h.nextFd, h.issued,
      h.openIssued⟩
    · rw [FileSystem.openList, hsame]
      exact h.opened
    · rw [hsame]
      exact h.inUse i
  · refine ⟨?_, hopened.trans h.fds, h.nodup, fun j ↦ ?_, hfree, hnext.trans h.nextFd, h.issued,
      h.openIssued⟩
    · exact h.opened.trans ((openList_perm u.fs i).trans (openList_update hupdate).symm)
    · rw [hupdate]
      by_cases hj : j = i
      · rw [hj, Function.update_self]
        exact h.inUse i
      · rw [Function.update_of_ne hj]
        exact h.inUse j

theorem i32_of_lt {k : ℕ} (h : k < 2 ^ 31) : i32 k = k := by
  rw [i32, u32_of_lt (by omega), if_pos h]

/-- A number handed out by fewer than `2 ^ 31` opens is not the failure value. -/
theorem i32_ne_neg_one {k : ℕ} (h : k ≤ 2 ^ 31) : i32 k ≠ -1 := by
  rw [i32, u32_of_lt (by omega)]
  split <;> omega

/-- **Opening fills a free slot.** -/
theorem Tracks.fill (h : Tracks n u d) {filename : FileName} {mode : ℕ} {i : FileSlot}
    (hi : (u.fs.openFiles i).refCount = 0) (hn : n + 1 < 2 ^ 31)
    (hfs : u'.fs = { u.fs.setFile i ⟨u.fs.nextFd, u.fs.lookup filename, 0, mode, 1⟩ with
      nextFd := u32 (u.fs.nextFd + 1) })
    (hopened : u'.opened =
      nextOpened u.opened (.open (some filename) mode, ⟨i32 u.fs.nextFd, none⟩)) :
    ∃ d', DescriptorStep u.fs d (.open (some filename) mode, ⟨i32 u.fs.nextFd, none⟩) d' ∧
      Tracks (n + 1) u' d' := by
  have hupdate : u'.fs.openFiles = Function.update u.fs.openFiles i
      ⟨u.fs.nextFd, u.fs.lookup filename, 0, mode, 1⟩ := by
    rw [hfs]
    rfl
  have hfresh : u.fs.nextFd ∉ d.issued := fun hmem ↦ by
    have hle := (h.issued _ hmem).2
    rw [h.nextFd] at hle
    omega
  have hlt : d.opened.length < fsMaxOpenFiles := by
    refine h.length_le.lt_of_ne fun heq ↦ ?_
    exact h.full_iff.1 heq i hi
  have hpos : 0 < u.fs.nextFd := by
    rw [h.nextFd]
    exact Nat.succ_pos n
  have hret : i32 u.fs.nextFd = u.fs.nextFd := i32_of_lt (by rwa [h.nextFd])
  refine ⟨⟨⟨u.fs.nextFd, u.fs.lookup filename, mode⟩ :: d.opened, u.fs.nextFd :: d.issued⟩,
    hret ▸ .opened d hlt hpos hfresh, ?_, ?_, ?_, fun j ↦ ?_,
      h.free.update (fun hzero ↦ ?_) hupdate,
    ?_, ?_, ?_⟩
  · have hrest := openList_perm u.fs i
    rw [file_eq_none.2 hi] at hrest
    exact ((h.opened.trans hrest).cons _).trans (openList_update hupdate).symm
  · have hne : ¬i32 u.fs.nextFd = -1 := i32_ne_neg_one (by rw [h.nextFd]; omega)
    rw [hopened, nextOpened, if_neg hne, hret, Int.toNat_natCast, h.fds, List.map_cons]
  · rw [List.map_cons, List.nodup_cons]
    refine ⟨fun hmem ↦ ?_, h.nodup⟩
    obtain ⟨f, hf, hfd⟩ := List.mem_map.1 hmem
    have hissued := h.openIssued f hf
    rw [hfd] at hissued
    exact hfresh hissued
  · rw [hupdate]
    by_cases hj : j = i
    · rw [hj, Function.update_self]
    · rw [Function.update_of_ne hj]
      exact h.inUse j
  · exact absurd hzero Nat.one_ne_zero
  · rw [hfs]
    change u32 (u.fs.nextFd + 1) = n + 1 + 1
    rw [h.nextFd, u32_of_lt (by omega)]
  · refine List.forall_mem_cons.2 ⟨⟨hpos, h.nextFd.le⟩, fun fd hfd ↦ ?_⟩
    exact ⟨(h.issued fd hfd).1, (h.issued fd hfd).2.trans (Nat.le_succ n)⟩
  · exact List.forall_mem_cons.2 ⟨List.mem_cons_self,
      fun f hf ↦ List.mem_cons_of_mem _ (h.openIssued f hf)⟩

/-- An open descriptor is carried by a slot in use. -/
theorem Tracks.carried (h : Tracks n u d) {fd : ℕ} (hfd : fd ∈ u.opened) :
    0 < fd ∧ (∃ f ∈ d.opened, f.fd = fd) ∧ ∃ i, (u.fs.openFiles i).fd = fd := by
  rw [h.fds] at hfd
  obtain ⟨f, hf, rfl⟩ := List.mem_map.1 hfd
  refine ⟨(h.issued _ (h.openIssued f hf)).1, ⟨f, hf, rfl⟩, ?_⟩
  obtain ⟨i, hi⟩ := SlotTable.mem_contents.1 (h.opened.mem_iff.1 hf)
  rw [FileDescriptor.file] at hi
  split at hi
  · cases hi
  · exact ⟨i, congrArg OpenFile.fd (Option.some.inj hi)⟩

/-- **Closing clears the slot** of the descriptor. -/
theorem Tracks.clear (h : Tracks n u d) {i : FileSlot} {f : FileDescriptor}
    (hpos : 0 < (u.fs.openFiles i).fd)
    (hcount : f.refCount = u32 ((u.fs.openFiles i).refCount + 0xFFFFFFFF))
    (hzero : f.refCount = 0 → f.fd = 0) (hfs : u'.fs = u.fs.setFile i f)
    (hopened : u'.opened = u.opened.filter fun fd ↦ fd ≠ (u.fs.openFiles i).fd) :
    Tracks n u'
      { d with opened := d.opened.filter fun file ↦ file.fd ≠ (u.fs.openFiles i).fd } := by
  have href : (u.fs.openFiles i).refCount = 1 := by
    have hle := h.inUse i
    have hne : (u.fs.openFiles i).refCount ≠ 0 := fun hfree ↦ hpos.ne' (h.free i hfree)
    omega
  have hcleared : f.refCount = 0 := by
    rw [hcount, href]
    rfl
  have hupdate : u'.fs.openFiles = Function.update u.fs.openFiles i f := by
    rw [hfs]
    rfl
  have hfile : (u.fs.openFiles i).file = some ⟨(u.fs.openFiles i).fd, (u.fs.openFiles i).inodeId,
      (u.fs.openFiles i).mode⟩ := by
    rw [FileDescriptor.file, if_neg (by rw [href]; exact Nat.one_ne_zero)]
  have hsplit := h.opened.trans (openList_perm u.fs i)
  rw [hfile] at hsplit
  have hrest := openList_update hupdate
  rw [file_eq_none.2 hcleared] at hrest
  refine ⟨?_, ?_, ?_, fun j ↦ ?_, h.free.update hzero hupdate, ?_, h.issued, fun file hfile ↦ ?_⟩
  · exact (SlotTable.filter_key_perm hsplit h.nodup).trans hrest.symm
  · rw [hopened, h.fds, List.filter_map]
    rfl
  · exact h.nodup.sublist (List.filter_sublist.map _)
  · rw [hupdate]
    by_cases hj : j = i
    · rw [hj, Function.update_self, hcleared]
      exact Nat.zero_le 1
    · rw [Function.update_of_ne hj]
      exact h.inUse j
  · rw [hfs]
    exact h.nextFd
  · exact h.openIssued file (List.mem_filter.1 hfile).1

/-- The files do not change. -/
theorem Tracks.same (h : Tracks n u d) (hsame : u.fs.SameFiles u'.fs)
    (hopened : u'.opened = u.opened) :
    Tracks n u' d :=
  h.movesOffset (hsame.movesOffset 0) hopened

/-- **One call**: the map moves as the callers may rely on. -/
theorem Tracks.step {a : FileCall × FileResult} (h : Tracks n u d) (hstep : UseStep ops u a u')
    (hguard : OnOpen u a) (hn : n + (opensFile a).toNat < 2 ^ 31) :
    ∃ d', DescriptorStep u.fs d a d' ∧ Tracks (n + (opensFile a).toNat) u' d' := by
  obtain ⟨call, r⟩ := a
  obtain ⟨hcall, hopened⟩ := hstep
  obtain ⟨hopen, hinit⟩ := hguard
  rw [FileStep] at hcall
  by_cases htable : call.onTable = false
  · have hkept : u'.opened = u.opened ∧ opensFile (call, r) = false := by
      cases call <;> first | exact ⟨hopened, rfl⟩ | exact Bool.noConfusion htable
    refine ⟨d, .other d htable, ?_⟩
    rw [hkept.2]
    rcases FileSystem.call_moves hcall htable with hsame | ⟨fd, -, hmove⟩
    exacts [h.same hsame hkept.1, h.movesOffset hmove hkept.1]
  cases call with
  | init fresh bytes => exact absurd rfl (hinit fresh bytes)
  | close fd =>
    obtain ⟨hpos, hmem, j, hj⟩ := h.carried (hopen fd rfl)
    rcases FileSystem.fsClose_cases u.fs fd with ⟨hnone, -⟩ | ⟨i, f, hfd, heq, hcount, hzero⟩
    · exact absurd hj (hnone j)
    · rw [FileSystem.call, heq] at hcall
      obtain ⟨rfl, hfs⟩ := FileSystem.call_eq_some hcall
      subst hfd
      exact ⟨_, .closed d hmem, h.clear hpos hcount hzero hfs hopened⟩
  | «open» filename mode =>
    cases filename with
    | none =>
      obtain ⟨rfl, hfs⟩ := FileSystem.call_eq_some hcall
      exact ⟨d, .unnamed d, h.same (hfs ▸ .refl _) hopened⟩
    | some filename =>
      rcases FileSystem.fsOpen_cases (s := u.fs) filename mode with ⟨hfull, heq⟩ | ⟨i, hi, heq⟩
      · rw [FileSystem.call, heq] at hcall
        obtain ⟨rfl, hfs⟩ := FileSystem.call_eq_some hcall
        exact ⟨d, .full d (h.full_iff.2 hfull), h.same (hfs ▸ .refl _) hopened⟩
      · rw [FileSystem.call, heq] at hcall
        obtain ⟨rfl, hfs⟩ := FileSystem.call_eq_some hcall
        have hle : u.fs.nextFd ≤ 2 ^ 31 := by
          rw [h.nextFd]
          omega
        have hcount : (opensFile (.open (some filename) mode, ⟨i32 u.fs.nextFd, none⟩)).toNat =
            1 := by
          rw [opensFile, decide_eq_true (i32_ne_neg_one hle)]
          rfl
        rw [hcount] at hn ⊢
        exact h.fill hi hn hfs hopened
  | _ => exact absurd rfl htable

/-- What a call leaves of the slots in use. The slots that do not carry its descriptor stay as they
are; a slot that does keeps its number, inode and mode, unless the call closes it; and if `fs_open`
fails, the whole table stays. -/
structure KeepsSlots (s : FileSystem σ) (a : FileCall × FileResult) (t : FileSystem σ) : Prop where
  others : ∀ i, (s.openFiles i).refCount ≠ 0 → a.1.fd ≠ some (s.openFiles i).fd →
    t.openFiles i = s.openFiles i
  own : ∀ i, (s.openFiles i).refCount ≠ 0 → a.1 ≠ .close (s.openFiles i).fd →
    (t.openFiles i).file = (s.openFiles i).file
  failed : ∀ filename mode, a.1 = .open filename mode → a.2.ret = -1 → t.openFiles = s.openFiles

/-- A call that leaves the table alone keeps its slots. -/
theorem KeepsSlots.of_eq {s t : FileSystem σ} {a : FileCall × FileResult}
    (h : t.openFiles = s.openFiles) : KeepsSlots s a t :=
  ⟨fun i _ _ ↦ by rw [h], fun i _ _ ↦ by rw [h], fun _ _ _ _ ↦ h⟩

/-- A call that changes one slot keeps the others; the slot itself was free, or is that of the
call's own descriptor and keeps its file unless the call closes it. -/
theorem KeepsSlots.of_update {s t : FileSystem σ} {a : FileCall × FileResult} {i : FileSlot}
    {f : FileDescriptor} (hupdate : t.openFiles = Function.update s.openFiles i f)
    (hfd : (s.openFiles i).refCount ≠ 0 → a.1.fd = some (s.openFiles i).fd)
    (hfile : (s.openFiles i).refCount ≠ 0 → a.1 ≠ .close (s.openFiles i).fd →
      f.file = (s.openFiles i).file)
    (hret : ∀ filename mode, a.1 = .open filename mode → a.2.ret ≠ -1) : KeepsSlots s a t := by
  refine ⟨fun j hj hne ↦ ?_, fun j hj hne ↦ ?_, fun filename mode heq hfail ↦
    absurd hfail (hret filename mode heq)⟩
  · rw [hupdate, Function.update_of_ne]
    rintro rfl
    exact hne (hfd hj)
  · rw [hupdate]
    rcases eq_or_ne j i with rfl | hji
    · rw [Function.update_self]
      exact hfile hj hne
    · rw [Function.update_of_ne hji]

/-- **A step keeps the slots** that it has no business with: the slot of its own descriptor keeps
the inode and the mode. -/
theorem Tracks.keepsSlots {a : FileCall × FileResult} (h : Tracks n u d)
    (hstep : UseStep ops u a u') (hguard : OnOpen u a) (hn : n < 2 ^ 31) :
    KeepsSlots u.fs a u'.fs := by
  obtain ⟨call, r⟩ := a
  obtain ⟨hcall, -⟩ := hstep
  rw [FileStep] at hcall
  by_cases htable : call.onTable = false
  · rcases FileSystem.call_moves hcall htable
      with heq | ⟨fd, hfd, -, heq | ⟨i, offset, hi, hupdate⟩⟩
    · exact .of_eq heq.openFiles
    · exact .of_eq heq
    · -- the slot of the descriptor: its offset is no part of the file
      refine .of_update hupdate (fun _ ↦ hfd.trans (congrArg some hi.symm)) (fun _ _ ↦ rfl)
        fun filename mode heq ↦ ?_
      have heq : call = .open filename mode := heq
      rw [heq] at hfd
      cases hfd
  cases call with
  | init fresh bytes => exact absurd rfl (hguard.2 fresh bytes)
  | close fd =>
    rcases FileSystem.fsClose_cases u.fs fd with ⟨-, heq⟩ | ⟨i, f, hi, heq, -⟩ <;>
      rw [FileSystem.call, heq] at hcall <;> obtain ⟨-, hfs⟩ := FileSystem.call_eq_some hcall
    · exact .of_eq (by rw [hfs])
    · exact .of_update (i := i) (f := f) (by rw [hfs]; rfl) (fun _ ↦ congrArg some hi.symm)
        (fun _ hne ↦ absurd (congrArg FileCall.close hi.symm) hne)
        fun _ _ heq ↦ absurd heq FileCall.noConfusion
  | «open» filename mode =>
    cases filename with
    | none => exact .of_eq (by rw [(FileSystem.call_eq_some hcall).2]; rfl)
    | some filename =>
      rcases FileSystem.fsOpen_cases (s := u.fs) filename mode with ⟨-, heq⟩ | ⟨i, hi, heq⟩ <;>
        rw [FileSystem.call, heq] at hcall <;>
        obtain ⟨rfl, hfs⟩ := FileSystem.call_eq_some hcall
      · exact .of_eq (by rw [hfs])
      · refine .of_update (i := i) (by rw [hfs]; rfl) (fun hj ↦ absurd hi hj)
          (fun hj _ ↦ absurd hi hj) fun _ _ _ ↦ i32_ne_neg_one ?_
        rw [h.nextFd]
        omega
  | _ => exact absurd rfl htable

/-! ### Where the open files come from

`OpenedBy` says of an open file that an open in the run returned its number, and that the inode in
it is the one which that call found for its name. -/

/-- The file was opened before the last call, which did not close it. -/
theorem OpenedBy.snoc {u₀ : FileUse σ} {calls : List (FileCall × FileResult)} {f : OpenFile}
    {a : FileCall × FileResult} (h : OpenedBy ops u₀ calls f) (ha : a.1 ≠ .close f.fd) :
    OpenedBy ops u₀ (calls ++ [a]) f := by
  obtain ⟨before, filename, after, v, rfl, hrun, hinode, hafter⟩ := h
  refine ⟨before, filename, after ++ [a], v, by rw [List.append_assoc, List.cons_append],
    hrun, hinode, fun b hb ↦ ?_⟩
  rcases List.mem_append.1 hb with hb | hb
  · exact hafter b hb
  · exact List.mem_singleton.1 hb ▸ ha

/-- A call of `fs_open` opens its file, and every call keeps where the others come from. -/
theorem DescriptorStep.openedBy {u₀ : FileUse σ} {calls : List (FileCall × FileResult)}
    {a : FileCall × FileResult} {d' : Descriptors} (hstep : DescriptorStep u.fs d a d')
    (hrun : Run (UseStep ops) u₀ calls u) (hopened : ∀ f ∈ d.opened, OpenedBy ops u₀ calls f) :
    ∀ f ∈ d'.opened, OpenedBy ops u₀ (calls ++ [a]) f := by
  cases hstep with
  | @opened filename mode fd _ _ _ =>
    refine List.forall_mem_cons.2 ⟨⟨calls, filename, [], u, rfl, hrun, rfl, ?_⟩, fun f hf ↦ ?_⟩
    · exact fun _ h ↦ absurd h List.not_mem_nil
    · exact (hopened f hf).snoc FileCall.noConfusion
  | full _ => exact fun f hf ↦ (hopened f hf).snoc FileCall.noConfusion
  | unnamed => exact fun f hf ↦ (hopened f hf).snoc FileCall.noConfusion
  | closed _ =>
    intro f hf
    obtain ⟨hf, hne⟩ := List.mem_filter.1 hf
    exact (hopened f hf).snoc fun heq ↦ of_decide_eq_true hne (FileCall.close.inj heq).symm
  | @other call r htable =>
    refine fun f hf ↦ (hopened f hf).snoc fun heq ↦ ?_
    have heq : call = .close f.fd := heq
    rw [heq] at htable
    cases htable

end Tracks

/-! ### Every run -/

/-- The table after `fs_init`. -/
theorem tracks_init {heap : σ} {fresh : ℕ → Inode} {bytes : ℕ → UInt8} {s₀ : FileSystem σ}
    (hinit : (FileSystem.boot heap).fsInit ops fresh bytes = some s₀) :
    Tracks 0 ⟨s₀, []⟩ ⟨[], []⟩ := by
  obtain ⟨hnext, hfiles⟩ := FileSystem.fsInit_files hinit
  have hslot : ∀ i, (s₀.openFiles i).refCount = 0 ∧ (s₀.openFiles i).fd = 0 := by
    intro i
    rcases hfiles with hfiles | hfiles <;> rw [hfiles] <;> exact ⟨rfl, rfl⟩
  have hempty : s₀.openList = [] := by
    refine List.eq_nil_iff_forall_not_mem.2 fun f hf ↦ ?_
    obtain ⟨i, hi⟩ := SlotTable.mem_contents.1 hf
    rw [file_eq_none.2 (hslot i).1] at hi
    cases hi
  exact ⟨hempty ▸ .nil, rfl, List.nodup_nil, fun i ↦ (hslot i).1.trans_le (Nat.zero_le 1),
    fun i _ ↦ (hslot i).2, hnext, fun _ h ↦ absurd h List.not_mem_nil,
    fun _ h ↦ absurd h List.not_mem_nil⟩

/-- Every run is a run of the map, in which each file has the inode that its own open has found. -/
theorem tracks_run {u₀ u : FileUse σ} {calls : List (FileCall × FileResult)}
    (hrun : Run (Guarded OnOpen (UseStep ops)) u₀ calls u) {d₀ : Descriptors}
    (h₀ : Tracks 0 u₀ d₀) (hnone : d₀.opened = []) (hopens : calls.countP opensFile < 2 ^ 31) :
    ∃ d, Run (MapStep ops) (u₀, d₀) calls (u, d) ∧ Tracks (calls.countP opensFile) u d ∧
      ∀ f ∈ d.opened, OpenedBy ops u₀ calls f := by
  induction hrun with
  | nil =>
    refine ⟨d₀, Run.nil _, h₀, fun f hf ↦ ?_⟩
    rw [hnone] at hf
    exact absurd hf List.not_mem_nil
  | @snoc t v calls a hfront hstep ih =>
    have hcount : (calls ++ [a]).countP opensFile =
        calls.countP opensFile + (opensFile a).toNat := by
      rw [List.countP_append, List.countP_singleton]
      cases opensFile a <;> rfl
    rw [hcount] at hopens ⊢
    obtain ⟨d, hd, htracks, hopened⟩ := ih (by omega)
    obtain ⟨d', hd', htracks'⟩ := htracks.step hstep.2 hstep.1 hopens
    exact ⟨d', hd.snoc ⟨hstep.2, hd'⟩, htracks', hd'.openedBy hfront.of_guarded hopened⟩

/-- **The table of open files is a finite map.** In every run after `fs_init` with fewer than
`2 ^ 31` files opened, in which the descriptors that are closed, read, written or sought are open,
the calls move the map as the callers may rely on. The files open are those in the slots, with
distinct positive numbers, and each has the inode and the mode of the call that opened it; and a
call changes no slot in use but the one of its descriptor, of which it keeps number, inode and mode
unless it closes it. -/
theorem descriptors_map {heap : σ} {fresh : ℕ → Inode} {bytes : ℕ → UInt8} {s₀ : FileSystem σ}
    (hinit : (FileSystem.boot heap).fsInit ops fresh bytes = some s₀)
    {calls : List (FileCall × FileResult)} {u : FileUse σ}
    (hrun : Run (Guarded OnOpen (UseStep ops)) ⟨s₀, []⟩ calls u)
    (hopens : calls.countP opensFile < 2 ^ 31) :
    ∃ d, Run (MapStep ops) (⟨s₀, []⟩, ⟨[], []⟩) calls (u, d) ∧ d.opened.Perm u.fs.openList ∧
      u.opened = d.opened.map OpenFile.fd ∧ u.opened.Nodup ∧ (∀ fd ∈ u.opened, 0 < fd) ∧
      (∀ f ∈ u.fs.openList, OpenedBy ops ⟨s₀, []⟩ calls f) ∧
      ∀ a u', UseStep ops u a u' → OnOpen u a → KeepsSlots u.fs a u'.fs := by
  obtain ⟨d, hd, htracks, hopened⟩ := tracks_run hrun (tracks_init hinit) rfl hopens
  refine ⟨d, hd, htracks.opened, htracks.fds, htracks.fds ▸ htracks.nodup,
    fun fd hfd ↦ (htracks.carried hfd).1, fun f hf ↦ hopened f (htracks.opened.mem_iff.2 hf),
    fun a u' hstep hguard ↦ ?_⟩
  exact htracks.keepsSlots hstep hguard hopens

/-- The general theorem where `mydir` and another name are opened, and the first one is closed: the
second one is still on inode 1. -/
theorem descriptors_map_open_close : ∃ (calls : List (FileCall × FileResult)) (u : FileUse _),
    calls.map Prod.fst = [.open (some ⟨fileName "mydir", by decide⟩) 1,
      .open (some ⟨[0x61], by decide⟩) 3, .close 1] ∧
    Run (Guarded OnOpen (UseStep bumpHeap)) ⟨bumpInit, []⟩ calls u ∧
    (u.fs.openFiles 1).file = some ⟨2, 1, 3⟩ ∧
    ∃ d, Run (MapStep bumpHeap) (⟨bumpInit, []⟩, ⟨[], []⟩) calls (u, d) ∧
      d.opened.Perm u.fs.openList ∧
      u.opened = d.opened.map OpenFile.fd ∧ u.opened.Nodup ∧ (∀ fd ∈ u.opened, 0 < fd) ∧
      (∀ f ∈ u.fs.openList, OpenedBy bumpHeap ⟨bumpInit, []⟩ calls f) ∧
      ∀ a u', UseStep bumpHeap u a u' → OnOpen u a → KeepsSlots u.fs a u'.fs := by
  let s₁ := (bumpInit.fsOpen (some ⟨fileName "mydir", by decide⟩) 1).2
  let s₂ := (s₁.fsOpen (some ⟨[0x61], by decide⟩) 3).2
  have hopen₁ : Guarded OnOpen (UseStep bumpHeap) ⟨bumpInit, []⟩
      (.open (some ⟨fileName "mydir", by decide⟩) 1, ⟨1, none⟩) ⟨s₁, [1]⟩ :=
    ⟨⟨fun _ h ↦ (nomatch h), fun _ _ ↦ FileCall.noConfusion⟩, rfl, rfl⟩
  have hopen₂ : Guarded OnOpen (UseStep bumpHeap) ⟨s₁, [1]⟩
      (.open (some ⟨[0x61], by decide⟩) 3, ⟨2, none⟩) ⟨s₂, [2, 1]⟩ :=
    ⟨⟨fun _ h ↦ (nomatch h), fun _ _ ↦ FileCall.noConfusion⟩, rfl, rfl⟩
  have hclose : Guarded OnOpen (UseStep bumpHeap) ⟨s₂, [2, 1]⟩ (.close 1, ⟨0, none⟩)
      ⟨(s₂.fsClose 1).2, [2]⟩ :=
    ⟨⟨fun fd h ↦ Option.some.inj h ▸ by decide, fun _ _ ↦ FileCall.noConfusion⟩, rfl, rfl⟩
  have hrun := ((Run.single hopen₁).snoc hopen₂).snoc hclose
  exact ⟨_, _, rfl, hrun, rfl, descriptors_map bumpInit_eq hrun (by decide)⟩

/-- **`fs_open` can fail with room left**: without a name it returns -1 with no file open. -/
theorem open_unnamed_fails : ∃ u : FileUse (ℕ × ByteMemory),
    Run (Guarded OnOpen (UseStep bumpHeap)) ⟨bumpInit, []⟩ [(.open none 1, ⟨-1, none⟩)] u ∧
    u.opened = [] ∧ u.fs.openFiles = bumpInit.openFiles :=
  ⟨⟨bumpInit, []⟩, Run.single ⟨⟨fun _ h ↦ (nomatch h), fun _ _ ↦ FileCall.noConfusion⟩,
    rfl, rfl⟩, rfl, rfl⟩

end LightNight
