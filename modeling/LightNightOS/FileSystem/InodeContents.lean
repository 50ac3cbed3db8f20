import LightNightOS.FileSystem.InodeCacheRefinement

/-!
# What a miss of the inode cache shows

On a miss `inode_read` takes the first slot that is not in use and leaves the inode in it as it is.
So the caller is shown what was last written to the slot, for whatever inode that was. Which slots
are in use does not depend on what is written (`Alike`), so two runs that differ in the contents
written to other inodes take the same slot; and they show the same contents, whatever was written,
exactly if no `inode_write` stored to the slot yet, or the last to do so was for the same inode
(`read_same_iff`).
-/

namespace LightNight

open Transition

variable {s s' t : InodeCache} {i : Fin inodeCacheSize} {inodeId : ℕ}

/-! ### The calls of two runs -/

/-- The calls are the same, except what is written to other inodes; that is related by `T`. -/
inductive SameCall (T : DiskInode → DiskInode → Prop) (inodeId : ℕ) : InodeCall → InodeCall → Prop
  | same {a : InodeCall} (h : ∀ j inode, a = .write j (some inode) → j = inodeId) :
      SameCall T inodeId a a
  | contents {j : ℕ} {inode inode' : DiskInode} (hj : j ≠ inodeId) (h : T inode inode') :
      SameCall T inodeId (.write j (some inode)) (.write j (some inode'))

/-- For each slot, the inode that the last `inode_write` to it was for. -/
abbrev Writers := Fin inodeCacheSize → Option ℕ

/-- The writers after a call. -/
def InodeCache.writersAfter (s : InodeCache) (w : Writers) : InodeCall → Writers
  | .write inodeId (some _) =>
    if fsMaxInodes ≤ inodeId then w
    else
      match s.findSlot fun e ↦ e.inodeId = inodeId with
      | some i => Function.update w i (some inodeId)
      | none => w
  | _ => w

/-- A call as a step, labelled with the call. -/
def InodeCallStep (s : InodeCache) (a : InodeCall) (t : InodeCache) : Prop := t = (s.call a).2

/-- A call, with the writers. -/
def WriterStep (u : InodeCache × Writers) (a : InodeCall) (v : InodeCache × Writers) : Prop :=
  InodeCallStep u.1 a v.1 ∧ v.2 = u.1.writersAfter u.2 a

/-- No slot in use has the inode. -/
def InodeCache.Misses (s : InodeCache) (inodeId : ℕ) : Prop :=
  ∀ i, ¬((s.cache i).inodeId = inodeId ∧ 0 < (s.cache i).refCount)

/-! ### Slots that are alike

Two caches are alike where they have the same inodes in the same slots, with the same counts and
marks. The contents are the same in the slots that were last written for the inode in question, or
never, and related by `T` in the others. -/

/-- The slots agree but for the contents, which are the same if no other inode wrote them. -/
structure EntryAlike (T : DiskInode → DiskInode → Prop) (inodeId : ℕ) (w : Option ℕ)
    (e e' : InodeCacheEntry) : Prop where
  inodeId_eq : e.inodeId = e'.inodeId
  dirty_eq : e.dirty = e'.dirty
  refCount_eq : e.refCount = e'.refCount
  data_eq : w = none ∨ w = some inodeId → e.data = e'.data
  data_rel : ¬(w = none ∨ w = some inodeId) → T e.data e'.data

/-- The caches agree, slot by slot. -/
def Alike (T : DiskInode → DiskInode → Prop) (inodeId : ℕ) (w : Writers) (s s' : InodeCache) :
    Prop :=
  ∀ i, EntryAlike T inodeId (w i) (s.cache i) (s'.cache i)

section Alike

variable {T : DiskInode → DiskInode → Prop} {w : Writers}

/-- A search that does not look at the contents finds the same slot. -/
theorem Alike.findSlot (h : Alike T inodeId w s s') {p : InodeCacheEntry → Bool}
    (hp : ∀ e e' : InodeCacheEntry, e.inodeId = e'.inodeId → e.refCount = e'.refCount →
      p e = p e') :
    s.findSlot p = s'.findSlot p := by
  rw [InodeCache.findSlot, InodeCache.findSlot]
  congr 1
  funext i
  exact hp _ _ (h i).inodeId_eq (h i).refCount_eq

/-- Assigning a slot in both. -/
theorem Alike.setSlot {o : Option ℕ} {e e' : InodeCacheEntry} (h : Alike T inodeId w s s')
    (he : EntryAlike T inodeId o e e') :
    Alike T inodeId (Function.update w i o) (s.setSlot i e) (s'.setSlot i e') := by
  intro j
  show EntryAlike _ _ _ (Function.update s.cache i e j) (Function.update s'.cache i e' j)
  rcases eq_or_ne j i with rfl | hji
  · rwa [Function.update_self, Function.update_self, Function.update_self]
  · rw [Function.update_of_ne hji, Function.update_of_ne hji, Function.update_of_ne hji]
    exact h j

/-- Assigning a slot without a new writer. -/
theorem Alike.assign {e e' : InodeCacheEntry} (h : Alike T inodeId w s s')
    (he : EntryAlike T inodeId (w i) e e') :
    Alike T inodeId w (s.setSlot i e) (s'.setSlot i e') := by
  have hset := h.setSlot (i := i) he
  rwa [Function.update_eq_self] at hset

/-- **`inode_read`** takes the same slot in both. -/
theorem Alike.read (h : Alike T inodeId w s s') (j : ℕ) :
    (s.inodeRead j).1 = (s'.inodeRead j).1 ∧
      Alike T inodeId w (s.inodeRead j).2 (s'.inodeRead j).2 := by
  have hhit : (s.findSlot fun e ↦ e.inodeId = j ∧ 0 < e.refCount) =
      s'.findSlot fun e ↦ e.inodeId = j ∧ 0 < e.refCount :=
    h.findSlot fun e e' hid hcount ↦ by rw [hid, hcount]
  have hfree : (s.findSlot fun e ↦ e.refCount = 0) = s'.findSlot fun e ↦ e.refCount = 0 :=
    h.findSlot fun e e' _ hcount ↦ by rw [hcount]
  rw [InodeCache.inodeRead, InodeCache.inodeRead, ← hhit, ← hfree]
  split
  · exact ⟨rfl, h⟩
  split
  case h_1 i _ =>
    refine ⟨rfl, h.assign ⟨(h i).inodeId_eq, (h i).dirty_eq, ?_, (h i).data_eq, (h i).data_rel⟩⟩
    exact congrArg (fun count ↦ u32 (count + 1)) (h i).refCount_eq
  case h_2 =>
    split
    case h_1 i _ => exact ⟨rfl, h.assign ⟨rfl, rfl, rfl, (h i).data_eq, (h i).data_rel⟩⟩
    case h_2 => exact ⟨rfl, h⟩

/-- The contents change in the same way in both. -/
theorem Alike.update (h : Alike T inodeId w s s') (j : ℕ) {f : DiskInode → ℤ × DiskInode}
    (hf : ∀ inode inode', T inode inode' → T (f inode).2 (f inode').2) :
    Alike T inodeId w (s.updateInode j f).2 (s'.updateInode j f).2 := by
  obtain ⟨hslot, hread⟩ := h.read j
  rw [InodeCache.updateInode, InodeCache.updateInode]
  generalize s.inodeRead j = r at *
  generalize s'.inodeRead j = r' at *
  obtain ⟨slot, u⟩ := r
  obtain ⟨slot', u'⟩ := r'
  obtain rfl : slot = slot' := hslot
  cases slot with
  | none => exact hread
  | some i =>
    have hi := hread i
    exact hread.assign ⟨hi.inodeId_eq, hi.dirty_eq, hi.refCount_eq,
      fun hw ↦ congrArg (fun inode ↦ (f inode).2) (hi.data_eq hw), fun hw ↦ hf _ _ (hi.data_rel hw)⟩

/-- Deleting an inode looks at numbers and counts only. -/
theorem Alike.delete (h : Alike T inodeId w s s') (j : ℕ) :
    Alike T inodeId w (s.inodeDelete j).2 (s'.inodeDelete j).2 := by
  have hfind : (s.findSlot fun e ↦ e.inodeId = j) = s'.findSlot fun e ↦ e.inodeId = j :=
    h.findSlot fun e e' hid _ ↦ by rw [hid]
  rw [InodeCache.inodeDelete, InodeCache.inodeDelete, ← hfind]
  split
  · exact h
  split
  case h_1 i _ => exact h.assign ⟨rfl, rfl, rfl, (h i).data_eq, (h i).data_rel⟩
  case h_2 => exact h

theorem Alike.flush (h : Alike T inodeId w s s') :
    Alike T inodeId w s.inodeCacheFlush s'.inodeCacheFlush := by
  rw [InodeCache.inodeCacheFlush, InodeCache.inodeCacheFlush]
  generalize List.finRange inodeCacheSize = l
  induction l generalizing s s' with
  | nil => exact h
  | cons i l ih =>
    refine ih ?_
    rw [InodeCache.flushSlot, InodeCache.flushSlot, ← (h i).dirty_eq]
    split
    · exact h.assign ⟨(h i).inodeId_eq, rfl, (h i).refCount_eq, (h i).data_eq, (h i).data_rel⟩
    · exact h

/-- **`inode_write`** stores to the same slot in both, and is its writer from then on. -/
theorem Alike.write (h : Alike T inodeId w s s') {j : ℕ} {inode inode' : DiskInode}
    (heq : j = inodeId → inode = inode') (hrel : j ≠ inodeId → T inode inode') :
    Alike T inodeId (s.writersAfter w (.write j (some inode))) (s.inodeWrite j (some inode)).2
      (s'.inodeWrite j (some inode')).2 := by
  have hfind : (s.findSlot fun e ↦ e.inodeId = j) = s'.findSlot fun e ↦ e.inodeId = j :=
    h.findSlot fun e e' hid _ ↦ by rw [hid]
  simp only [InodeCache.writersAfter, InodeCache.inodeWrite, ← hfind]
  split
  · exact h
  rcases s.findSlot fun e ↦ e.inodeId = j with - | i
  · exact h
  · refine h.setSlot ⟨(h i).inodeId_eq, rfl, (h i).refCount_eq, fun hw ↦ heq ?_, fun hw ↦ hrel ?_⟩
    · exact Option.some.inj (hw.resolve_left (Option.some_ne_none j))
    · exact fun hj ↦ hw (Or.inr (congrArg some hj))

/-- **One call in both runs.** -/
theorem Alike.call (h : Alike T inodeId w s s') {a b : InodeCall} (hab : SameCall T inodeId a b)
    (hT : ∀ old new count inode inode', T inode inode' →
      T (inode.replaceBlock old new count).2 (inode'.replaceBlock old new count).2) :
    Alike T inodeId (s.writersAfter w a) (s.call a).2 (s'.call b).2 := by
  cases hab with
  | contents hj hrel => exact h.write (fun heq ↦ absurd heq hj) fun _ ↦ hrel
  | same hsame =>
    cases a with
    | read j => exact (h.read j).2
    | write j data =>
      rcases data with - | inode
      · exact h
      · exact h.write (fun _ ↦ rfl) fun hj ↦ absurd (hsame j inode rfl) hj
    | addBlock j b =>
      show Alike T inodeId w (s.inodeAddBlock j b).2 (s'.inodeAddBlock j b).2
      exact h.update j (hT _ _ _)
    | removeBlock j b =>
      show Alike T inodeId w (s.inodeRemoveBlock j b).2 (s'.inodeRemoveBlock j b).2
      exact h.update j (hT _ _ _)
    | delete j =>
      show Alike T inodeId w (s.inodeDelete j).2 (s'.inodeDelete j).2
      exact h.delete j
    | flush =>
      have hflush := h.flush
      simpa only [InodeCache.call, InodeCache.writersAfter] using hflush

/-- **Two runs** take the same slots. -/
theorem Alike.run {calls calls' : List InodeCall} {u : InodeCache × Writers} {t' : InodeCache}
    (hT : ∀ old new count inode inode', T inode inode' →
      T (inode.replaceBlock old new count).2 (inode'.replaceBlock old new count).2)
    (hcalls : List.Forall₂ (SameCall T inodeId) calls calls')
    (hrun : Run WriterStep (s, fun _ ↦ none) calls u) (hrun' : Run InodeCallStep s calls' t') :
    Alike T inodeId u.2 u.1 t' := by
  refine Run.related (R := fun u s' ↦ Alike T inodeId u.2 u.1 s') ?_ hcalls hrun hrun' fun i ↦
    ⟨rfl, rfl, rfl, fun _ ↦ rfl, fun hw ↦ absurd (Or.inl rfl) hw⟩
  rintro u a v s' b t' hu hab ⟨hstep, hw⟩ hstep'
  rw [hw, show v.1 = _ from hstep, show t' = _ from hstep']
  exact hu.call hab hT

end Alike

/-! ### What a read shows

To show that the contents of a slot matter, they are changed where they may be: `grown` changes the
size, which no call on blocks looks at, so that the difference is still there when the slot is
read. -/

/-- A read that succeeds shows what is in its slot. -/
theorem call_read (hread : s.inodeRead inodeId = (some i, t)) :
    (s.call (.read inodeId)).1 = ⟨0, some (s.cache i).data⟩ := by
  have hdata : (t.cache i).data = (s.cache i).data := by
    rw [InodeCache.inodeRead] at hread
    split at hread
    · exact absurd (congrArg Prod.fst hread) fun h ↦ by cases h
    split at hread
    case h_1 =>
      obtain ⟨hi, rfl⟩ := Prod.mk.inj hread
      obtain rfl := Option.some.inj hi
      rw [s.setSlot_self]
    case h_2 =>
      split at hread
      case h_1 =>
        obtain ⟨hi, rfl⟩ := Prod.mk.inj hread
        obtain rfl := Option.some.inj hi
        rw [s.setSlot_self]
      case h_2 => exact absurd (congrArg Prod.fst hread) fun h ↦ by cases h
  simp only [InodeCache.call, hread]
  rw [Option.map_some, hdata]

/-- Other contents for an inode: its `size` is one more. -/
def DiskInode.grown (inode : DiskInode) : DiskInode := { inode with size := u32 (inode.size + 1) }

theorem DiskInode.grown_ne (inode : DiskInode) : inode.grown ≠ inode := by
  intro heq
  have hsize : u32 (inode.size + 1) = inode.size := congrArg (fun inode ↦ inode.size) heq
  rw [u32] at hsize
  omega

/-- The functions that change `direct_blocks` do not look at the size. -/
theorem DiskInode.replaceBlock_grown (inode : DiskInode) (old new : ℕ) (count : ℕ → ℕ) :
    (inode.grown.replaceBlock old new count).2 = (inode.replaceBlock old new count).2.grown := by
  have hblocks : inode.grown.directBlocks = inode.directBlocks := rfl
  rw [replaceBlock, replaceBlock, hblocks]
  rcases (List.finRange directBlockCount).find? fun i ↦ inode.directBlocks i = old
    with - | i <;> rfl

/-- The same calls, with other contents for the other inodes. -/
def InodeCall.grow (inodeId : ℕ) : InodeCall → InodeCall
  | .write j (some inode) => .write j (some (if j = inodeId then inode else inode.grown))
  | a => a

/-- The second run writes other contents, to other inodes only. -/
theorem sameCall_grow (a : InodeCall) :
    SameCall (fun inode inode' ↦ inode' = inode.grown) inodeId a (a.grow inodeId) := by
  rcases a with - | ⟨j, - | inode⟩ | - | - | - | - <;> try exact .same nofun
  rw [InodeCall.grow]
  split
  case isTrue hj => exact .same fun k _ heq ↦ by cases heq; exact hj
  case isFalse hj => exact .contents hj rfl

theorem SameCall.mono {T T' : DiskInode → DiskInode → Prop} {a b : InodeCall}
    (h : SameCall T inodeId a b) (hT : ∀ inode inode', T inode inode' → T' inode inode') :
    SameCall T' inodeId a b := by
  cases h with
  | same h => exact .same h
  | contents hj h => exact .contents hj (hT _ _ h)

/-- **What does a read show of other inodes?** Take any run of calls from `inode_cache_init`, and a
read behind it that succeeds, whether it misses the cache or not. It shows the same contents behind
every run with the same calls, whatever they write to other inodes, if and only if no `inode_write`
stored to its slot, or the last one that did was for the inode that is read. -/
theorem read_same_iff {s₀ : InodeCache} {calls : List InodeCall} {w : Writers}
    (hrun : Run WriterStep (s₀.inodeCacheInit, fun _ ↦ none) calls (s, w))
    (hread : s.inodeRead inodeId = (some i, t)) :
    (∀ calls' s', List.Forall₂ (SameCall (fun _ _ ↦ True) inodeId) calls calls' →
      Run InodeCallStep s₀.inodeCacheInit calls' s' →
      (s'.call (.read inodeId)).1 = (s.call (.read inodeId)).1) ↔
    w i = none ∨ w i = some inodeId := by
  have hshow : ∀ {T s'}, Alike T inodeId w s s' →
      (s'.call (.read inodeId)).1 = ⟨0, some (s'.cache i).data⟩ := by
    intro T s' halike
    obtain ⟨hslot, -⟩ := halike.read inodeId
    rw [hread] at hslot
    exact call_read (t := (s'.inodeRead inodeId).2) (Prod.ext hslot.symm rfl)
  constructor
  · intro hsame
    by_contra hw
    obtain ⟨s', hrun'⟩ := Run.exists_of_total (fun s a ↦ ⟨(s.call a).2, rfl⟩ :
      ∀ s a, ∃ t, InodeCallStep s a t) s₀.inodeCacheInit (calls.map (InodeCall.grow inodeId))
    have hcalls : List.Forall₂ (SameCall (fun inode inode' ↦ inode' = inode.grown) inodeId) calls
        (calls.map (InodeCall.grow inodeId)) :=
      List.forall₂_map_right_iff.2 (List.forall₂_same.2 fun a _ ↦ sameCall_grow a)
    have halike :=
      Alike.run (fun _ _ _ _ _ heq ↦ heq ▸ DiskInode.replaceBlock_grown ..) hcalls hrun hrun'
    have heq := hsame _ s' (hcalls.imp fun a b h ↦ h.mono fun _ _ _ ↦ trivial) hrun'
    rw [hshow halike, call_read hread] at heq
    have hdata : (s'.cache i).data = (s.cache i).data :=
      Option.some.inj (congrArg InodeResult.inode heq)
    exact DiskInode.grown_ne _ (((halike i).data_rel hw).symm.trans hdata)
  · intro hw calls' s' hcalls hrun'
    have halike := Alike.run (fun _ _ _ _ _ _ ↦ trivial) hcalls hrun hrun'
    rw [hshow halike, call_read hread, (halike i).data_eq hw]

/-! ### A slot that had another inode -/

/-- The cache after `inode_cache_init`, over slots that all hold one inode. -/
def initInodes (inode : DiskInode) : InodeCache :=
  InodeCache.inodeCacheInit ⟨fun _ ↦ ⟨0, inode, 0, 0⟩⟩

/-- An inode is loaded, written and deleted. -/
def writeDelete (inodeId : ℕ) (inode : DiskInode) : List InodeCall :=
  [.read inodeId, .write inodeId (some inode), .delete inodeId]

theorem writeDelete_run (s : InodeCache) (inodeId : ℕ) (inode : DiskInode) :
    Run InodeCallStep s (writeDelete inodeId inode)
      ((writeDelete inodeId inode).foldl (fun s a ↦ (s.call a).2) s) :=
  Run.cons rfl (Run.cons rfl (Run.single rfl))

/-- The general theorem on an inode that is loaded again after it was written and deleted. -/
theorem read_same_writeDelete : ∃ s w t,
    Run WriterStep (initInodes oneBlockInode, fun _ ↦ none) (writeDelete 5 oneBlockInode) (s, w) ∧
    s.inodeRead 5 = (some ⟨0, by decide⟩, t) ∧
    ((∀ calls' s', List.Forall₂ (SameCall (fun _ _ ↦ True) 5) (writeDelete 5 oneBlockInode) calls' →
      Run InodeCallStep (initInodes oneBlockInode) calls' s' →
      (s'.call (.read 5)).1 = (s.call (.read 5)).1) ↔
    w ⟨0, by decide⟩ = none ∨ w ⟨0, by decide⟩ = some 5) := by
  have hstep : ∀ u a, WriterStep u a ((u.1.call a).2, u.1.writersAfter u.2 a) :=
    fun _ _ ↦ ⟨rfl, rfl⟩
  have hrun := ((Run.single (hstep (initInodes oneBlockInode, fun _ ↦ none) (.read 5))).snoc
    (hstep _ (.write 5 (some oneBlockInode)))).snoc (hstep _ (.delete 5))
  have hslot : ((writeDelete 5 oneBlockInode).foldl (fun s a ↦ (s.call a).2)
      (initInodes oneBlockInode) |>.inodeRead 5).1 = some ⟨0, by decide⟩ := by decide +kernel
  exact ⟨_, _, _, hrun, Prod.ext hslot rfl, read_same_iff hrun (Prod.ext hslot rfl)⟩

/-- **A miss shows another inode.** Inode 1 is written and deleted; then inode 2, which is not
cached, is read with what was written to inode 1. -/
theorem miss_shows_other : ∃ s s',
    Run InodeCallStep (initInodes oneBlockInode) (writeDelete 1 oneBlockInode) s ∧
    Run InodeCallStep (initInodes oneBlockInode) (writeDelete 1 oneBlockInode.grown) s' ∧
    List.Forall₂ (SameCall (fun _ _ ↦ True) 2) (writeDelete 1 oneBlockInode)
      (writeDelete 1 oneBlockInode.grown) ∧
    s.Misses 2 ∧ s'.Misses 2 ∧
    (s.call (.read 2)).1.inode.map (fun inode ↦ inode.size) = some 0 ∧
    (s'.call (.read 2)).1.inode.map (fun inode ↦ inode.size) = some 1 := by
  refine ⟨_, _, writeDelete_run _ 1 _, writeDelete_run _ 1 _, ?_, ?_, ?_, by decide +kernel,
    by decide +kernel⟩
  · exact .cons (.same nofun) (.cons (.contents (by decide) trivial) (.cons (.same nofun) .nil))
  · show ∀ i, ¬_
    decide +kernel
  · show ∀ i, ¬_
    decide +kernel

end LightNight
