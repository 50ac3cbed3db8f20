import LightNightOS.FileSystem.Names
import LightNightOS.Foundation.Bitmap
import Mathlib.Data.Finset.Card

/-!
# Handing out inodes

An inode is in use when its `inode_id` is not 0; the root directory is in use as well, though its
`inode_id` is 0. `fs_alloc_inode` takes the first inode behind the root that is not in use, and no
other function writes an `inode_id`, so after `fs_init` the inodes in use are the ones the creates
have returned, each of them once (`InodeUse`). That is so with the tables apart from the heap, as
they are here; `InodesOnHeap` carries it over to the tables on the heap.

`fs.c` keeps two more records of the same thing. `free_inodes` starts from all inodes, the root
included, and is counted down by each create, so it is always greater than the number of inodes that
are not in use (`CountsHigh`); and no function sets a bit of `inode_bitmap`, where `fs_alloc_block`
sets the bit of its block in `block_bitmap` (`inodeBitmap_empty`).

* `InodeUse.create`, `InodeUse.step` — a create, and any other call;
* `CountsHigh.step`, `inodeBitmap_empty` — the other two records;
* `inode_records_disagree` — in every state reached `free_inodes` is wrong, and so is `inode_bitmap`
  once `fs_init` has succeeded.
-/

namespace LightNight

open Transition

variable {σ : Type*} {ops : DataHeap σ}

/-- The type a call gives to the inode that it creates. -/
def FileCall.createdType : FileCall → Option ℕ
  | .createFile _ => some 1
  | .createDir _ => some 2
  | _ => none

/-- Every call but `fs_init`. -/
def NotInit (_ : FileSystem σ) : FileCall × FileResult → Prop
  | (.init _ _, _) => False
  | _ => True

namespace FileSystem

variable {s t : FileSystem σ} {r : FileResult} {created : List ℕ}

/-! ### Creating -/

/-- A call that creates an inode, as a call of the function the two share. -/
theorem createdType_cases (ops : DataHeap σ) {a : FileCall} {type : ℕ}
    (ha : a.createdType = some type) :
    ∃ filename fill, (∀ s : FileSystem σ, s.call ops a = s.createInode filename fill) ∧
      (∀ inode, (fill inode).inodeId = inode.inodeId ∧ (fill inode).type = type ∧
        (fill inode).size = 0 ∧ (fill inode).data = 0) ∧
      ∀ r, createdInodes [(a, r)] = if r.ret = -1 then [] else [r.ret.toNat] := by
  cases a with
  | createFile filename =>
    obtain rfl := Option.some.inj ha
    refine ⟨filename, _, fun s ↦ fsCreateFile.eq_def s filename, fun _ ↦ ⟨rfl, rfl, rfl, rfl⟩,
      fun r ↦ ?_⟩
    by_cases hret : r.ret = -1 <;> simp [createdInodes, hret]
  | createDir filename =>
    obtain rfl := Option.some.inj ha
    refine ⟨filename, _, fun s ↦ fsCreateDir.eq_def s filename, fun _ ↦ ⟨rfl, rfl, rfl, rfl⟩,
      fun r ↦ ?_⟩
    by_cases hret : r.ret = -1 <;> simp [createdInodes, hret]
  | _ => cases ha

/-- Filling an inode that is taken touches no other inode. -/
theorem update_inodeId {table : ℕ → Inode} {i : ℕ} {inode : Inode} (j : ℕ) :
    (Function.update table i inode j).inodeId = if j = i then inode.inodeId
      else (table j).inodeId := by
  rw [Function.update_apply]
  split <;> rfl

/-- `fs_write` leaves every `inode_id` as it is. -/
theorem stored_inodeId (ops : DataHeap σ) (s : FileSystem σ) (i : FileSlot) (table : ℕ → Inode)
    (p size : ℕ) (heap : σ) (bytes : ℕ → UInt8) :
    ∃ table', (stored ops s i table p heap size bytes).inodeTable = some table' ∧
      ∀ j, (table' j).inodeId = (table j).inodeId := by
  refine ⟨_, rfl, fun j ↦ ?_⟩
  rw [update_inodeId]
  split
  case isTrue heq => rw [heq]
  case isFalse => rfl

/-! ### The inodes in use are the created ones -/

/-- After `fs_init`, the inodes in use are those that have been created. -/
structure InodeUse (s : FileSystem σ) (created : List ℕ) : Prop where
  nodup : created.Nodup
  range : ∀ i ∈ created, 0 < i ∧ i < fsMaxInodes
  table : ∃ table, s.inodeTable = some table ∧
    ∀ i, 0 < i → i < fsMaxInodes → ((table i).inodeId ≠ 0 ↔ i ∈ created)

/-- Writing anything but an `inode_id` does not change which inodes are in use. -/
theorem InodeUse.same (h : s.InodeUse created) {table table' : ℕ → Inode}
    (hs : s.inodeTable = some table) (ht : t.inodeTable = some table')
    (hid : ∀ i, (table' i).inodeId = (table i).inodeId) : t.InodeUse created := by
  obtain ⟨table₁, htable, huse⟩ := h.table
  obtain rfl := Option.some.inj (htable.symm.trans hs)
  refine ⟨h.nodup, h.range, table', ht, fun i hpos hlt ↦ ?_⟩
  rw [hid]
  exact huse i hpos hlt

/-- After `fs_init` nothing but the root is in use. -/
theorem inodeUse_init {fresh : ℕ → Inode} {bytes : ℕ → UInt8}
    (hinit : InitSucceeds ops s fresh bytes t) : t.InodeUse [] := by
  obtain ⟨-, -, htable, -⟩ := hinit.tables
  refine ⟨List.nodup_nil, nofun, _, htable, fun i hpos _ ↦ ?_⟩
  rw [initInodes, if_neg (Nat.pos_iff_ne_zero.1 hpos)]
  exact iff_of_false (fun h ↦ h rfl) List.not_mem_nil

/-- Creating an inode, or failing to. -/
theorem InodeUse.create (h : s.InodeUse created) {filename : Option FileName} {fill : Inode → Inode}
    (hfill : ∀ inode, (fill inode).inodeId = inode.inodeId)
    (hcreate : s.createInode filename fill = some (r, t)) :
    t.InodeUse (created ++ if r.ret = -1 then [] else [r.ret.toNat]) := by
  rcases createInode_cases hcreate
    with ⟨hret, rfl⟩ | ⟨table, i, htable, hpos, hlt, hfree, hret, rfl⟩
  · rw [if_pos hret, List.append_nil]
    exact h
  · rw [if_neg (by omega), hret, Int.toNat_natCast]
    obtain ⟨table₁, htable₁, huse⟩ := h.table
    obtain rfl := Option.some.inj (htable₁.symm.trans htable)
    -- the inode was not in use, so it has not been created before
    have hnew : i ∉ created := fun hmem ↦ (huse i hpos hlt).2 hmem hfree
    refine ⟨List.nodup_append_comm.1 (List.nodup_cons.2 ⟨hnew, h.nodup⟩), fun j hj ↦ ?_, _, rfl,
      fun j hj hj' ↦ ?_⟩
    · rcases List.mem_append.1 hj with hj | hj
      · exact h.range j hj
      · exact List.mem_singleton.1 hj ▸ ⟨hpos, hlt⟩
    · rw [update_inodeId, List.mem_append, List.mem_singleton]
      split
      case isTrue heq =>
        rw [hfill]
        exact iff_of_true (Nat.pos_iff_ne_zero.1 hpos) (Or.inr heq)
      case isFalse hne => rw [huse j hj hj', or_iff_left hne]

/-- **One call** other than `fs_init`. -/
theorem InodeUse.step {a : FileCall × FileResult} (h : s.InodeUse created)
    (hstep : Guarded NotInit (FileStep ops) s a t) : t.InodeUse (created ++ createdInodes [a]) := by
  obtain ⟨call, r⟩ := a
  obtain ⟨hnot, hcall⟩ := hstep
  have hcall : s.call ops call = some (r, t) := hcall
  have hcreate : ∀ {type}, call.createdType = some type →
      t.InodeUse (created ++ createdInodes [(call, r)]) := by
    intro type htype
    obtain ⟨_, _, heq, hfill, hlist⟩ := createdType_cases ops htype
    rw [hlist]
    exact h.create (fun inode ↦ (hfill inode).1) ((heq s).symm.trans hcall)
  cases call with
  | init _ _ => exact hnot.elim
  | createFile _ => exact hcreate rfl
  | createDir _ => exact hcreate rfl
  | write fd buffer size =>
    show t.InodeUse (created ++ [])
    rw [List.append_nil]
    have hwrite : s.fsWrite ops fd buffer size = some (r, t) := hcall
    rcases fsWrite_cases hwrite with
      ⟨-, rfl | ⟨_, _, _, -, -, rfl⟩⟩ | ⟨i, table, p, heap, bytes, -, htable, -, -, -, -, -, rfl⟩
    · exact h
    · exact h.same (Classical.choose_spec h.table).1 (Classical.choose_spec h.table).1 fun _ ↦ rfl
    · obtain ⟨table', htable', hid⟩ := stored_inodeId ops s i table p size heap bytes
      exact h.same htable htable' hid
  | _ =>
    obtain ⟨files, n, rfl⟩ := call_onlyFiles hcall rfl
    show InodeUse _ (created ++ [])
    rw [List.append_nil]
    exact ⟨h.nodup, h.range, h.table⟩

end FileSystem

/-! ### The other records of what is in use -/

namespace FileSystem

variable {s t : FileSystem σ} {r : FileResult}

/-- The inodes that are not in use. The root, inode 0, is in use. -/
def unused (table : ℕ → Inode) : Finset ℕ :=
  {i ∈ Finset.range fsMaxInodes | i ≠ 0 ∧ (table i).inodeId = 0}

/-- `free_inodes` is the number of inodes that are not in use. -/
def FreeInodesAgree (s : FileSystem σ) : Prop :=
  ∃ table, s.inodeTable = some table ∧ s.freeInodes = (unused table).card

/-- A bit of `inode_bitmap` is set exactly when its inode is in use. -/
def InodeBitmapAgrees (s : FileSystem σ) : Prop :=
  ∃ table bitmap, s.inodeTable = some table ∧ s.inodeBitmap = some bitmap ∧
    ∀ i < fsMaxInodes, Bitmap.Mem bitmap i ↔ i ∉ unused table

/-- There are more free inodes by the counter than by the table. -/
def CountsHigh (s : FileSystem σ) : Prop :=
  s.freeInodes ≤ fsMaxInodes ∧ ∀ table, s.inodeTable = some table →
    (unused table).card < s.freeInodes

/-- Whether an inode is in use is a matter of its `inode_id`. -/
theorem unused_congr {table table' : ℕ → Inode} (h : ∀ i, (table' i).inodeId = (table i).inodeId) :
    unused table' = unused table := by
  simp only [unused, h]

/-- The root is in use, so fewer than all inodes are not. -/
theorem card_unused_lt (table : ℕ → Inode) : (unused table).card < fsMaxInodes := by
  have hroot : unused table ⊂ Finset.range fsMaxInodes := by
    refine (Finset.ssubset_iff_of_subset (Finset.filter_subset _ _)).2
      ⟨0, Finset.mem_range.2 (by decide), fun hmem ↦ ?_⟩
    exact (Finset.mem_filter.1 hmem).2.1 rfl
  exact (Finset.card_lt_card hroot).trans_eq (Finset.card_range _)

/-- Taking an inode. -/
theorem unused_update {table : ℕ → Inode} {inode : Inode} {i : ℕ} (hid : inode.inodeId ≠ 0) :
    unused (Function.update table i inode) = (unused table).erase i := by
  ext j
  rw [Finset.mem_erase, unused, unused, Finset.mem_filter, Finset.mem_filter, update_inodeId]
  split
  case isTrue heq => exact iff_of_false (fun h ↦ hid h.2.2) fun h ↦ h.1 heq
  case isFalse hne => exact (and_iff_right hne).symm

theorem fsInit_countsHigh {fresh : ℕ → Inode} {bytes : ℕ → UInt8}
    (h : s.fsInit ops fresh bytes = some t) : t.CountsHigh := by
  have hfree : t.freeInodes = fsMaxInodes := by
    rw [fsInit] at h
    simp only [Option.bind_eq_bind, Option.bind_eq_some_iff] at h
    obtain ⟨_, -, _, -, _, -, h⟩ := h
    split at h <;> exact Option.some.inj h ▸ rfl
  exact ⟨hfree.le, fun table _ ↦ hfree.symm ▸ card_unused_lt table⟩

/-- A create takes one inode, and counts down by one. -/
theorem CountsHigh.create (h : s.CountsHigh) {filename : Option FileName} {fill : Inode → Inode}
    (hfill : ∀ inode, (fill inode).inodeId = inode.inodeId)
    (hcreate : s.createInode filename fill = some (r, t)) : t.CountsHigh := by
  rcases createInode_cases hcreate with ⟨-, rfl⟩ | ⟨table, i, htable, hpos, hlt, hfree, -, rfl⟩
  · exact h
  have hcard := h.2 table htable
  have hmem : i ∈ unused table := Finset.mem_filter.2
    ⟨Finset.mem_range.2 hlt, Nat.pos_iff_ne_zero.1 hpos, hfree⟩
  have hle := h.1
  have hmax : fsMaxInodes = 2048 := rfl
  -- one inode fewer by the table, and one fewer by the counter, which was not 0
  have hcount : u32 (s.freeInodes + 0xFFFFFFFF) = s.freeInodes - 1 := by
    rw [u32]
    omega
  refine ⟨?_, fun table' htable' ↦ ?_⟩
  · show u32 (s.freeInodes + 0xFFFFFFFF) ≤ fsMaxInodes
    omega
  · obtain rfl := Option.some.inj htable'
    have hid : (fill { table i with inodeId := i }).inodeId ≠ 0 := by
      rw [hfill]
      exact Nat.pos_iff_ne_zero.1 hpos
    show _ < u32 (s.freeInodes + 0xFFFFFFFF)
    rw [unused_update hid, Finset.card_erase_of_mem hmem, hcount]
    have hpos' := Finset.card_pos.2 ⟨i, hmem⟩
    omega

/-- **One call**, `fs_init` among them, even one that fails. -/
theorem CountsHigh.step {a : FileCall × FileResult} (h : s.CountsHigh)
    (hstep : FileStep ops s a t) :
    t.CountsHigh := by
  obtain ⟨call, r⟩ := a
  have hcall : s.call ops call = some (r, t) := hstep
  have hcreate : ∀ {type}, call.createdType = some type → t.CountsHigh := by
    intro type htype
    obtain ⟨_, _, heq, hfill, -⟩ := createdType_cases ops htype
    exact h.create (fun inode ↦ (hfill inode).1) ((heq s).symm.trans hcall)
  cases call with
  | init fresh bytes =>
    obtain ⟨u, hu, heq⟩ := Option.map_eq_some_iff.1 hcall
    obtain ⟨-, rfl⟩ := Prod.mk.inj heq
    exact fsInit_countsHigh hu
  | createFile _ => exact hcreate rfl
  | createDir _ => exact hcreate rfl
  | write fd buffer size =>
    have hwrite : s.fsWrite ops fd buffer size = some (r, t) := hcall
    rcases fsWrite_cases hwrite with
      ⟨-, rfl | ⟨_, _, _, -, -, rfl⟩⟩ | ⟨i, table, p, heap, bytes, -, htable, -, -, -, -, -, rfl⟩
    · exact h
    · exact h
    · obtain ⟨table', htable', hid⟩ := stored_inodeId ops s i table p size heap bytes
      refine ⟨h.1, fun table₁ htable₁ ↦ ?_⟩
      obtain rfl := Option.some.inj (htable'.symm.trans htable₁)
      rw [unused_congr hid]
      exact h.2 table htable
  | _ =>
    obtain ⟨files, n, rfl⟩ := call_onlyFiles hcall rfl
    exact h

/-! ### `inode_bitmap` -/

theorem call_inodeBitmap {a : FileCall × FileResult}
    (hstep : Guarded NotInit (FileStep ops) s a t) :
    t.inodeBitmap = s.inodeBitmap := by
  obtain ⟨call, r⟩ := a
  obtain ⟨hnot, hcall⟩ := hstep
  have hcall : s.call ops call = some (r, t) := hcall
  have hcreate : ∀ {filename fill}, s.createInode filename fill = some (r, t) →
      t.inodeBitmap = s.inodeBitmap := by
    intro filename fill hcreate
    rcases createInode_cases hcreate with ⟨-, rfl⟩ | ⟨_, _, -, -, -, -, -, rfl⟩ <;> rfl
  cases call with
  | init _ _ => exact hnot.elim
  | createFile filename =>
    have h : s.fsCreateFile filename = some (r, t) := hcall
    exact hcreate h
  | createDir filename =>
    have h : s.fsCreateDir filename = some (r, t) := hcall
    exact hcreate h
  | write fd buffer size =>
    have hwrite : s.fsWrite ops fd buffer size = some (r, t) := hcall
    rcases fsWrite_cases hwrite with
      ⟨-, rfl | ⟨_, _, _, -, -, rfl⟩⟩ | ⟨_, _, _, _, _, -, -, -, -, -, -, -, rfl⟩ <;> rfl
  | _ =>
    obtain ⟨files, n, rfl⟩ := call_onlyFiles hcall rfl
    rfl

/-- No bit of `inode_bitmap` is set, whatever has been created. -/
theorem inodeBitmap_empty {s₀ : FileSystem σ} {fresh : ℕ → Inode} {bytes : ℕ → UInt8}
    {calls : List (FileCall × FileResult)} (hinit : InitSucceeds ops s₀ fresh bytes s)
    (hrun : Run (Guarded NotInit (FileStep ops)) s calls t) :
    ∃ bitmap, t.inodeBitmap = some bitmap ∧ ∀ i < fsMaxInodes, ¬Bitmap.Mem bitmap i := by
  have hsame : t.inodeBitmap = s.inodeBitmap :=
    hrun.invariant (I := fun u ↦ u.inodeBitmap = s.inodeBitmap)
      (fun h hstep ↦ (call_inodeBitmap hstep).trans h) rfl
  obtain ⟨-, -, -, -, hbitmap⟩ := hinit.tables
  refine ⟨_, hsame.trans hbitmap, fun i hi ↦ Bitmap.not_mem_of_zero (if_pos ?_)⟩
  have hmax : fsMaxInodes = 2048 := rfl
  have hsize : bitmapSize = 4096 := rfl
  omega

/-- The root is in use in every table. -/
theorem root_used (table : ℕ → Inode) : 0 ∉ unused table :=
  fun hmem ↦ (Finset.mem_filter.1 hmem).2.1 rfl

end FileSystem

/-- **Superblock and bitmap never agree with the table.** In every state reached after a call of
`fs_init`, `free_inodes` is not the number of inodes that are not in use; and where `fs_init` has
succeeded, `inode_bitmap` does not say which inodes are in use either. -/
theorem inode_records_disagree {s₀ s₁ s : FileSystem σ} {fresh : ℕ → Inode} {bytes : ℕ → UInt8}
    {calls : List (FileCall × FileResult)} (hinit : s₀.fsInit ops fresh bytes = some s₁)
    (hrun : Run (FileStep ops) s₁ calls s) : ¬s.FreeInodesAgree ∧
      (FileSystem.InitSucceeds ops s₀ fresh bytes s₁ →
        Run (Guarded NotInit (FileStep ops)) s₁ calls s → ¬s.InodeBitmapAgrees) := by
  have hhigh : s.CountsHigh :=
    hrun.invariant (I := fun s ↦ s.CountsHigh) (fun h hstep ↦ h.step hstep)
      (FileSystem.fsInit_countsHigh hinit)
  refine ⟨?_, fun hsuccess hrun ↦ ?_⟩
  · rintro ⟨table, htable, heq⟩
    exact absurd (hhigh.2 table htable) (heq ▸ lt_irrefl _)
  · rintro ⟨table, bitmap, -, hbitmap, hiff⟩
    obtain ⟨bitmap', hbitmap', hclear⟩ := FileSystem.inodeBitmap_empty hsuccess hrun
    obtain rfl := Option.some.inj (hbitmap'.symm.trans hbitmap)
    have hzero : 0 < fsMaxInodes := by decide
    exact hclear 0 hzero ((hiff 0 hzero).2 (FileSystem.root_used table))

theorem inode_records_disagree_createTwo : ∃ s : FileSystem (ℕ × ByteMemory),
    ¬s.FreeInodesAgree ∧ (FileSystem.InitSucceeds bumpHeap (FileSystem.boot bumpStart)
        (fun _ ↦ ⟨0, 0, 0, 0, 0, 0, 0, 0⟩) (fun _ ↦ 0) bumpInit →
      Run (Guarded NotInit (FileStep bumpHeap)) bumpInit createTwo.tail s → ¬s.InodeBitmapAgrees) :=
  ⟨_, inode_records_disagree bumpInit_eq (Run.cons rfl (Run.single rfl))⟩

/-- **Right after `fs_init`** there are 2048 free inodes by the counter, but the root is in use, and
its bit is not set. -/
theorem init_records_disagree : ∃ s, Run (FileStep bumpHeap) (FileSystem.boot bumpStart)
    [(initCall, ⟨0, none⟩)] s ∧ ¬s.FreeInodesAgree ∧ ¬s.InodeBitmapAgrees := by
  refine ⟨bumpInit, Run.single bumpInit_step, ?_, ?_⟩
  · rintro ⟨table, -, heq⟩
    exact absurd (FileSystem.card_unused_lt table) (heq ▸ lt_irrefl _)
  · rintro ⟨table, bitmap, -, hbitmap, hiff⟩
    obtain rfl := Option.some.inj hbitmap
    have hzero : 0 < fsMaxInodes := by decide
    exact Bitmap.not_mem_of_zero rfl ((hiff 0 hzero).2 (FileSystem.root_used table))

end LightNight
