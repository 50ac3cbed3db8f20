import LightNightOS.FileSystem.InodeCache

/-!
# The inode cache is a keyed store

In every run of fewer than `2 ^ 32` calls the calls of `inode.c` return what the calls of the store
return (`inodeCache_keyed`). The slots keep the map of the store in the sense of `SlotTable.Keeps`,
and the number of calls made so far bounds the `ref_count`s, which keeps them from wrapping to 0.
The two conditions by which `inode.c` looks for an inode, by its number or by its number in a slot
in use, come to the same since a slot that is not in use has the number `0xFFFFFFFF`.

* `KeepsInodes.read`, `KeepsInodes.write`, `KeepsInodes.delete`, `KeepsInodes.update` — the calls,
  one by one;
* `KeepsInodes.cached_iff` — an inode is in a slot exactly if it is a key of the map;
* `inodeCache_keyed` — every run.
-/

namespace LightNight

open Transition SlotTable

/-! ### The slots -/

/-- What a slot contributes to the store. -/
def InodeCacheEntry.entry (e : InodeCacheEntry) : Option (ℕ × DiskInode) :=
  if e.refCount = 0 then none else some (e.inodeId, e.data)

/-- The store that the slots keep. -/
def InodeCache.entries (s : InodeCache) (i : Fin inodeCacheSize) : Option (ℕ × DiskInode) :=
  (s.cache i).entry

/-- A slot is in order after `k` calls. -/
structure InodeCacheEntry.Ok (k : ℕ) (e : InodeCacheEntry) : Prop where
  /-- A slot is unused exactly when nothing refers to it. -/
  unused : e.inodeId = noInode ↔ e.refCount = 0
  valid : e.refCount ≠ 0 → e.inodeId < fsMaxInodes
  count : e.refCount ≤ k

/-- After `k` calls the cache holds the inodes of the store `m`. -/
structure KeepsInodes (k : ℕ) (s : InodeCache) (m : InodeStore) : Prop where
  ok : ∀ i, (s.cache i).Ok k
  keeps : Keeps s.entries m

section

variable {k : ℕ} {s t : InodeCache} {m : InodeStore} {inodeId : ℕ} {i : Fin inodeCacheSize}
  {e : InodeCacheEntry}

theorem entry_of_refCount (he : e.refCount ≠ 0) : e.entry = some (e.inodeId, e.data) := if_neg he

theorem entry_of_unused (he : e.refCount = 0) : e.entry = none := if_pos he

/-- The bound on the number of calls may be raised, for a slot. -/
theorem InodeCacheEntry.Ok.mono {k' : ℕ} (h : e.Ok k) (hk : k ≤ k') : e.Ok k' :=
  ⟨h.unused, h.valid, h.count.trans hk⟩

/-- The cache just after `inode_cache_init`. -/
theorem keepsInodes_init (s : InodeCache) : KeepsInodes 0 s.inodeCacheInit fun _ ↦ none where
  ok := fun _ ↦ ⟨⟨fun _ ↦ rfl, fun _ ↦ rfl⟩, fun h ↦ absurd rfl h, le_rfl⟩
  keeps := keeps_empty

theorem KeepsInodes.mono {k' : ℕ} (h : KeepsInodes k s m) (hk : k ≤ k') : KeepsInodes k' s m :=
  ⟨fun i ↦ (h.ok i).mono hk, h.keeps⟩

/-- A slot is assigned. -/
theorem KeepsInodes.setSlot {k' : ℕ} {m' : InodeStore} (h : KeepsInodes k s m) (hk : k ≤ k')
    (he : e.Ok k') (hkeeps : Keeps (Function.update s.entries i e.entry) m') :
    KeepsInodes k' (s.setSlot i e) m' := by
  constructor
  · intro j
    show (Function.update s.cache i e j).Ok k'
    by_cases hj : j = i
    · rw [hj, Function.update_self]
      exact he
    · rw [Function.update_of_ne hj]
      exact (h.ok j).mono hk
  · have hentries : (s.setSlot i e).entries = Function.update s.entries i e.entry := by
      funext j
      show (Function.update s.cache i e j).entry = _
      rw [Function.apply_update (fun _ e ↦ InodeCacheEntry.entry e)]
      rfl
    rw [hentries]
    exact hkeeps

/-! ### Finding an inode

A lookup by number finds the slot in use, if there is one, and otherwise none at all: slots that are
not in use have the marker for their number. -/

namespace InodeCache

/-- A slot that is found is one that was looked for. -/
theorem findSlot_some {p : InodeCacheEntry → Bool} (hfind : s.findSlot p = some i) :
    p (s.cache i) = true :=
  List.find?_some (p := fun i ↦ p (s.cache i)) hfind

theorem findSlot_none {p : InodeCacheEntry → Bool} (hfind : s.findSlot p = none)
    (i : Fin inodeCacheSize) : p (s.cache i) = false := by
  simpa using List.find?_eq_none.1 hfind i (List.mem_finRange i)

end InodeCache

/-- A slot with the number of an inode is in use. -/
theorem KeepsInodes.inUse (h : KeepsInodes k s m) (hlt : inodeId < fsMaxInodes)
    (hi : (s.cache i).inodeId = inodeId) : (s.cache i).refCount ≠ 0 := by
  intro hzero
  have hno := (h.ok i).unused.2 hzero
  rw [hi, noInode] at hno
  rw [fsMaxInodes] at hlt
  omega

/-- The number of an inode is found: the slot has its contents. -/
theorem KeepsInodes.entries_eq (h : KeepsInodes k s m) (hlt : inodeId < fsMaxInodes)
    (hi : (s.cache i).inodeId = inodeId) : s.entries i = some (inodeId, (s.cache i).data) := by
  rw [← hi]
  exact entry_of_refCount (h.inUse hlt hi)

/-- The number of an inode is not found: the inode is not cached. -/
theorem KeepsInodes.ne_entries (hnone : ∀ i, (s.cache i).inodeId ≠ inodeId) (i : Fin inodeCacheSize)
    (inode : DiskInode) : s.entries i ≠ some (inodeId, inode) := by
  intro heq
  rw [InodeCache.entries, InodeCacheEntry.entry] at heq
  split at heq
  · exact absurd heq nofun
  · exact hnone i (Prod.mk.inj (Option.some.inj heq)).1

/-- An inode whose number is too large is not cached. -/
theorem KeepsInodes.eq_none_of_le (h : KeepsInodes k s m) (hle : fsMaxInodes ≤ inodeId) :
    m inodeId = none := by
  refine h.keeps.eq_none fun i inode heq ↦ ?_
  rw [InodeCache.entries, InodeCacheEntry.entry] at heq
  split at heq
  case isTrue => exact absurd heq nofun
  case isFalse hne =>
    have hlt := (h.ok i).valid hne
    rw [(Prod.mk.inj (Option.some.inj heq)).1] at hlt
    omega

/-- **The two lookups agree**: an inode is found by its number exactly if it is cached. -/
theorem KeepsInodes.lookup (h : KeepsInodes k s m) (hlt : inodeId < fsMaxInodes) :
    (∃ i, (s.findSlot fun e ↦ e.inodeId = inodeId) = some i ∧
      (s.findSlot fun e ↦ e.inodeId = inodeId ∧ 0 < e.refCount) = some i ∧
      (s.cache i).inodeId = inodeId) ∨
    (s.findSlot fun e ↦ e.inodeId = inodeId) = none ∧
      (s.findSlot fun e ↦ e.inodeId = inodeId ∧ 0 < e.refCount) = none ∧
      ∀ i, (s.cache i).inodeId ≠ inodeId := by
  have hsame : (s.findSlot fun e ↦ e.inodeId = inodeId ∧ 0 < e.refCount) =
      s.findSlot fun e ↦ e.inodeId = inodeId := by
    rw [InodeCache.findSlot, InodeCache.findSlot]
    congr 1
    funext i
    refine decide_eq_decide.2 (and_iff_left_of_imp fun hi ↦ ?_)
    exact Nat.pos_of_ne_zero (h.inUse hlt hi)
  rw [hsame]
  rcases hfind : s.findSlot fun e ↦ e.inodeId = inodeId with - | i
  · exact Or.inr ⟨rfl, rfl, fun i ↦ of_decide_eq_false (InodeCache.findSlot_none hfind i)⟩
  · exact Or.inl ⟨i, rfl, rfl, of_decide_eq_true (InodeCache.findSlot_some hfind)⟩

/-! ### The calls

Each call either returns what it finds, or takes a slot for the inode first; in terms of the map it
is a lookup or an assignment, with the contents of the slot left open on a miss. -/

/-- A slot in use gets new contents and a new count. -/
theorem KeepsInodes.assign {k' : ℕ} (h : KeepsInodes k s m) (hk : k ≤ k')
    (hlt : inodeId < fsMaxInodes) (hi : (s.cache i).inodeId = inodeId) (inode : DiskInode)
    {dirty refCount : ℕ} (hpos : refCount ≠ 0) (hcount : refCount ≤ k') :
    KeepsInodes k' (s.setSlot i ⟨(s.cache i).inodeId, inode, dirty, refCount⟩)
      (Function.update m inodeId (some inode)) := by
  have hne : (s.cache i).inodeId ≠ noInode := (h.ok i).unused.not.2 (h.inUse hlt hi)
  refine h.setSlot hk ⟨iff_of_false hne hpos, fun _ ↦ hi.trans_lt hlt, hcount⟩ ?_
  rw [entry_of_refCount hpos, hi]
  refine h.keeps.insert (Or.inr ⟨_, h.entries_eq hlt hi⟩) fun j inode' hj heq ↦ hj ?_
  exact h.keeps.unique j i _ _ _ heq (h.entries_eq hlt hi)

/-- **`inode_read`** returns a cached inode, or loads it into a slot that is not in use; otherwise
the inode is not cached. -/
theorem KeepsInodes.read (h : KeepsInodes k s m) (hk : k + 1 < 2 ^ 32) (inodeId : ℕ) :
    (∃ i t, s.inodeRead inodeId = (some i, t) ∧ inodeId < fsMaxInodes ∧
      (t.cache i).inodeId = inodeId ∧ m.Fetch inodeId (t.cache i).data ∧
      KeepsInodes (k + 1) t (Function.update m inodeId (some (t.cache i).data))) ∨
    s.inodeRead inodeId = (none, s) ∧ m inodeId = none := by
  rcases Nat.lt_or_ge inodeId fsMaxInodes with hlt | hle
  case inr => exact Or.inr ⟨by rw [InodeCache.inodeRead, if_pos hle], h.eq_none_of_le hle⟩
  rw [InodeCache.inodeRead, if_neg hlt.not_ge]
  rcases h.lookup hlt with ⟨i, -, hfind, hi⟩ | ⟨-, hfind, hnone⟩
  · -- a hit: only the count changes
    have hcount := (h.ok i).count
    have hsucc : u32 ((s.cache i).refCount + 1) = (s.cache i).refCount + 1 :=
      u32_of_lt (by omega)
    simp only [hfind, hsucc]
    refine Or.inl ⟨i, _, rfl, hlt, ?_, Or.inl ?_, ?_⟩
    · rw [s.setSlot_self]
      exact hi
    · rw [s.setSlot_self]
      exact h.keeps.eq_some (h.entries_eq hlt hi)
    · rw [s.setSlot_self]
      exact h.assign (Nat.le_succ k) hlt hi _ (Nat.succ_ne_zero _) (by omega)
  · -- a miss
    have hm : m inodeId = none := h.keeps.eq_none (KeepsInodes.ne_entries hnone)
    simp only [hfind]
    rcases hempty : s.findSlot fun e ↦ e.refCount = 0 with - | i
    · exact Or.inr ⟨rfl, hm⟩
    · have hzero : (s.cache i).refCount = 0 :=
        of_decide_eq_true (InodeCache.findSlot_some hempty)
      refine Or.inl ⟨i, _, rfl, hlt, ?_, Or.inr ⟨hm, hlt⟩, ?_⟩
      · rw [s.setSlot_self]
      · rw [s.setSlot_self]
        refine h.setSlot (Nat.le_succ k)
          ⟨iff_of_false ?_ Nat.one_ne_zero, fun _ ↦ hlt, Nat.le_add_left 1 k⟩ ?_
        · show inodeId ≠ noInode
          rw [noInode]
          rw [fsMaxInodes] at hlt
          omega
        · rw [entry_of_refCount Nat.one_ne_zero]
          exact h.keeps.insert (Or.inl (entry_of_unused hzero)) fun j inode _ ↦
            KeepsInodes.ne_entries hnone j inode

/-- An update of the inode that `inode_read` returns. -/
theorem KeepsInodes.update (h : KeepsInodes k s m) (hk : k + 1 < 2 ^ 32) (inodeId : ℕ)
    (f : DiskInode → ℤ × DiskInode) :
    (∃ t inode, s.updateInode inodeId f = ((f inode).1, t) ∧ m.Fetch inodeId inode ∧
      KeepsInodes (k + 1) t (Function.update m inodeId (some (f inode).2))) ∨
    s.updateInode inodeId f = (-1, s) ∧ m inodeId = none := by
  rw [InodeCache.updateInode]
  rcases h.read hk inodeId with ⟨i, t, hread, hlt, hi, hfetch, ht⟩ | ⟨hread, hm⟩
  · rw [hread]
    refine Or.inl ⟨_, (t.cache i).data, rfl, hfetch, ?_⟩
    have hassign : KeepsInodes (k + 1)
        (t.setSlot i { t.cache i with data := (f (t.cache i).data).2 }) _ :=
      ht.assign le_rfl hlt hi _ (ht.inUse hlt hi) (ht.ok i).count
    rw [Function.update_idem] at hassign
    exact hassign
  · rw [hread]
    exact Or.inr ⟨rfl, hm⟩

/-- **`inode_write` succeeds exactly if the inode is cached.** -/
theorem KeepsInodes.write (h : KeepsInodes k s m) (inodeId : ℕ) (inode : DiskInode) :
    (m inodeId ≠ none ∧ ∃ t, s.inodeWrite inodeId (some inode) = (0, t) ∧
      KeepsInodes k t (Function.update m inodeId (some inode))) ∨
    m inodeId = none ∧ s.inodeWrite inodeId (some inode) = (-1, s) := by
  rcases Nat.lt_or_ge inodeId fsMaxInodes with hlt | hle
  case inr => exact Or.inr ⟨h.eq_none_of_le hle, if_pos hle⟩
  rw [InodeCache.inodeWrite]
  simp only [if_neg hlt.not_ge]
  rcases h.lookup hlt with ⟨i, hfind, -, hi⟩ | ⟨hfind, -, hnone⟩
  · rw [hfind]
    refine Or.inl ⟨?_, _, rfl, ?_⟩
    · rw [h.keeps.eq_some (h.entries_eq hlt hi)]
      exact Option.some_ne_none _
    · exact h.assign le_rfl hlt hi inode (h.inUse hlt hi) (h.ok i).count
  · rw [hfind]
    exact Or.inr ⟨h.keeps.eq_none (KeepsInodes.ne_entries hnone), rfl⟩

/-- `inode_delete` -/
theorem KeepsInodes.delete (h : KeepsInodes k s m) (inodeId : ℕ) :
    ∃ t, s.inodeDelete inodeId = (if fsMaxInodes ≤ inodeId then -1 else 0, t) ∧
      KeepsInodes k t (Function.update m inodeId none) := by
  have hsame : m inodeId = none → KeepsInodes k s (Function.update m inodeId none) := by
    intro hm
    rw [← hm, Function.update_eq_self]
    exact h
  rw [InodeCache.inodeDelete]
  rcases Nat.lt_or_ge inodeId fsMaxInodes with hlt | hle
  case inr =>
    rw [if_pos hle, if_pos hle]
    exact ⟨s, rfl, hsame (h.eq_none_of_le hle)⟩
  rw [if_neg hlt.not_ge, if_neg hlt.not_ge]
  rcases h.lookup hlt with ⟨i, hfind, -, hi⟩ | ⟨hfind, -, hnone⟩
  · rw [hfind]
    refine ⟨_, rfl, h.setSlot le_rfl ⟨iff_of_true rfl rfl, fun hne ↦ absurd rfl hne, k.zero_le⟩ ?_⟩
    exact h.keeps.erase (h.entries_eq hlt hi)
  · rw [hfind]
    exact ⟨s, rfl, hsame (h.keeps.eq_none (KeepsInodes.ne_entries hnone))⟩

/-- `inode_cache_flush` changes no more than the flags. -/
theorem KeepsInodes.flush (h : KeepsInodes k s m) : KeepsInodes k s.inodeCacheFlush m := by
  rw [InodeCache.inodeCacheFlush]
  generalize List.finRange inodeCacheSize = l
  induction l generalizing s with
  | nil => exact h
  | cons i l ih =>
    refine ih ?_
    rw [InodeCache.flushSlot]
    split
    · refine h.setSlot le_rfl ⟨(h.ok i).unused, (h.ok i).valid, (h.ok i).count⟩ ?_
      show Keeps (Function.update s.entries i (s.entries i)) m
      rw [Function.update_eq_self]
      exact h.keeps
    · exact h

/-- **One call** of the cache is a call of the store. -/
theorem KeepsInodes.call {a : InodeCall × InodeResult} (h : KeepsInodes k s m) (hk : k + 1 < 2 ^ 32)
    (hstep : InodeStep s a t) : ∃ m', StoreStep m a m' ∧ KeepsInodes (k + 1) t m' := by
  obtain ⟨call, r⟩ := a
  have hcall : s.call call = (r, t) := hstep
  cases call with
  | read inodeId =>
    rcases h.read hk inodeId with ⟨i, u, hread, -, -, hfetch, hu⟩ | ⟨hread, hm⟩
    · simp only [InodeCache.call, hread, Prod.mk.injEq] at hcall
      obtain ⟨rfl, rfl⟩ := hcall
      exact ⟨_, .read hfetch, hu⟩
    · simp only [InodeCache.call, hread, Prod.mk.injEq] at hcall
      obtain ⟨rfl, rfl⟩ := hcall
      exact ⟨m, .readNull hm, h.mono (Nat.le_succ k)⟩
  | write inodeId data =>
    cases data with
    | none =>
      obtain ⟨rfl, rfl⟩ := Prod.mk.inj hcall
      exact ⟨m, .writeNull m inodeId, h.mono (Nat.le_succ k)⟩
    | some inode =>
      rcases h.write inodeId inode with ⟨hm, u, hwrite, hu⟩ | ⟨hm, hwrite⟩
      · rw [InodeCache.call, hwrite] at hcall
        obtain ⟨rfl, rfl⟩ := Prod.mk.inj hcall
        exact ⟨_, .write hm inode, hu.mono (Nat.le_succ k)⟩
      · rw [InodeCache.call, hwrite] at hcall
        obtain ⟨rfl, rfl⟩ := Prod.mk.inj hcall
        exact ⟨m, .notCached hm inode, h.mono (Nat.le_succ k)⟩
  | addBlock inodeId blockNum =>
    rw [InodeCache.call, InodeCache.inodeAddBlock] at hcall
    rcases h.update hk inodeId (DiskInode.addBlock blockNum) with
      ⟨u, inode, hadd, hfetch, hu⟩ | ⟨hadd, hm⟩
    · rw [hadd] at hcall
      obtain ⟨rfl, rfl⟩ := Prod.mk.inj hcall
      exact ⟨_, .addBlock hfetch blockNum, hu⟩
    · rw [hadd] at hcall
      obtain ⟨rfl, rfl⟩ := Prod.mk.inj hcall
      exact ⟨m, .addBlockNull hm blockNum, h.mono (Nat.le_succ k)⟩
  | removeBlock inodeId blockNum =>
    rw [InodeCache.call, InodeCache.inodeRemoveBlock] at hcall
    rcases h.update hk inodeId (DiskInode.removeBlock blockNum) with
      ⟨u, inode, hremove, hfetch, hu⟩ | ⟨hremove, hm⟩
    · rw [hremove] at hcall
      obtain ⟨rfl, rfl⟩ := Prod.mk.inj hcall
      exact ⟨_, .removeBlock hfetch blockNum, hu⟩
    · rw [hremove] at hcall
      obtain ⟨rfl, rfl⟩ := Prod.mk.inj hcall
      exact ⟨m, .removeBlockNull hm blockNum, h.mono (Nat.le_succ k)⟩
  | delete inodeId =>
    obtain ⟨u, hdelete, hu⟩ := h.delete inodeId
    rw [InodeCache.call, hdelete] at hcall
    obtain ⟨rfl, rfl⟩ := Prod.mk.inj hcall
    exact ⟨_, .delete m inodeId, hu.mono (Nat.le_succ k)⟩
  | flush =>
    obtain ⟨rfl, rfl⟩ := Prod.mk.inj hcall
    exact ⟨m, .flush m, h.flush.mono (Nat.le_succ k)⟩

/-- A cached inode is read with its contents. -/
theorem KeepsInodes.read_eq (h : KeepsInodes k s m) {inode : DiskInode}
    (hm : m inodeId = some inode) : (s.call (.read inodeId)).1 = ⟨0, some inode⟩ := by
  have hlt : inodeId < fsMaxInodes := by
    by_contra hle
    rw [h.eq_none_of_le (not_lt.1 hle)] at hm
    exact absurd hm nofun
  rcases h.lookup hlt with ⟨i, -, hfind, hi⟩ | ⟨-, -, hnone⟩
  · have hdata : inode = (s.cache i).data :=
      Option.some.inj (hm.symm.trans (h.keeps.eq_some (h.entries_eq hlt hi)))
    simp only [InodeCache.call, InodeCache.inodeRead, if_neg hlt.not_ge, hfind, hdata]
    show InodeResult.mk 0 (some (Function.update s.cache i _ i).data) = _
    rw [Function.update_self]
  · rw [h.keeps.eq_none (KeepsInodes.ne_entries hnone)] at hm
    exact absurd hm nofun

end

/-! ### Every run -/

/-- The inode is in some slot. -/
def InodeCache.Cached (s : InodeCache) (inodeId : ℕ) : Prop :=
  inodeId < fsMaxInodes ∧ ∃ i, (s.cache i).inodeId = inodeId

/-- The store has the inodes that are cached. -/
theorem KeepsInodes.cached_iff {k : ℕ} {s : InodeCache} {m : InodeStore} (h : KeepsInodes k s m)
    (inodeId : ℕ) : s.Cached inodeId ↔ m inodeId ≠ none := by
  constructor
  · rintro ⟨hlt, i, hi⟩
    rw [h.keeps.eq_some (h.entries_eq hlt hi)]
    exact Option.some_ne_none _
  · intro hm
    have hlt : inodeId < fsMaxInodes := not_le.1 fun hle ↦ hm (h.eq_none_of_le hle)
    refine ⟨hlt, ?_⟩
    by_contra hnone
    exact hm (h.keeps.eq_none (KeepsInodes.ne_entries fun i hi ↦ hnone ⟨i, hi⟩))

/-- **The inode cache is a keyed store.** After a run of fewer than `2 ^ 32` calls behind
`inode_cache_init`: an inode is in one slot at most; a slot is unused exactly if its `ref_count` is
0; the calls have returned what those of a store return, and for that store, the inodes that it has
are those cached, `inode_write` of one of them succeeds and of any other fails, and `inode_read` of
one of them returns its contents. -/
theorem inodeCache_keyed (s₀ : InodeCache) {calls : List (InodeCall × InodeResult)} {s : InodeCache}
    (hrun : Run InodeStep s₀.inodeCacheInit calls s) (hcalls : calls.length < 2 ^ 32) :
    (∀ i j, (s.cache i).inodeId < fsMaxInodes → (s.cache i).inodeId = (s.cache j).inodeId → i = j) ∧
    (∀ i, (s.cache i).inodeId = noInode ↔ (s.cache i).refCount = 0) ∧
    ∃ m, Run StoreStep (fun _ ↦ none) calls m ∧ ∀ inodeId,
      (s.Cached inodeId ↔ m inodeId ≠ none) ∧
      (∀ inode, (s.inodeWrite inodeId (some inode)).1 = 0 ↔ s.Cached inodeId) ∧
      ∀ inode, m inodeId = some inode → (s.call (.read inodeId)).1 = ⟨0, some inode⟩ := by
  obtain ⟨m, hstore, h⟩ := hrun.simulates StoreStep (R := KeepsInodes) (n := 2 ^ 32 - 1)
    (fun hk h hstep ↦ h.call (by omega) hstep) (keepsInodes_init s₀) (by omega)
  refine ⟨fun i j hlt hij ↦ ?_, fun i ↦ (h.ok i).unused, m, hstore, fun inodeId ↦ ⟨?_, ?_, ?_⟩⟩
  · exact h.keeps.unique i j _ _ _ (h.entries_eq hlt rfl) (h.entries_eq hlt hij.symm)
  · exact h.cached_iff inodeId
  · intro inode
    rw [h.cached_iff]
    rcases h.write inodeId inode with ⟨hm, t, hwrite, -⟩ | ⟨hm, hwrite⟩
    · rw [hwrite]
      exact iff_of_true rfl hm
    · rw [hwrite]
      have hfail : (-1 : ℤ) ≠ 0 := by decide
      exact iff_of_false hfail (not_not.2 hm)
  · exact fun inode hm ↦ h.read_eq hm

/-- An inode of one block, 7. -/
def oneBlockInode : DiskInode where
  inodeId := 5
  type := 1
  size := 0
  permissions := 0
  ownerId := 0
  linkCount := 1
  blockCount := 1
  data := 0
  createdTime := 0
  modifiedTime := 0
  accessedTime := 0
  directBlocks := Function.update (fun _ ↦ noBlock) ⟨0, by decide⟩ 7
  indirectBlock := noBlock

/-- The general theorem on an inode that is loaded, written, and loses its block. -/
theorem inodeCache_keyed_write_remove : ∃ calls s,
    Run InodeStep (InodeCache.inodeCacheInit ⟨fun _ ↦ ⟨0, oneBlockInode, 0, 0⟩⟩) calls s ∧
    calls.map Prod.fst = [.read 5, .write 5 (some oneBlockInode), .removeBlock 5 7] ∧
    (∀ i j, (s.cache i).inodeId < fsMaxInodes → (s.cache i).inodeId = (s.cache j).inodeId → i = j) ∧
    (∀ i, (s.cache i).inodeId = noInode ↔ (s.cache i).refCount = 0) ∧
    ∃ m, Run StoreStep (fun _ ↦ none) calls m ∧ ∀ inodeId,
      (s.Cached inodeId ↔ m inodeId ≠ none) ∧
      (∀ inode, (s.inodeWrite inodeId (some inode)).1 = 0 ↔ s.Cached inodeId) ∧
      ∀ inode, m inodeId = some inode → (s.call (.read inodeId)).1 = ⟨0, some inode⟩ := by
  have hstep : ∀ (s : InodeCache) (a : InodeCall), InodeStep s (a, (s.call a).1) (s.call a).2 :=
    fun _ _ ↦ rfl
  have hrun := ((Run.single (hstep (InodeCache.inodeCacheInit ⟨fun _ ↦ ⟨0, oneBlockInode, 0, 0⟩⟩)
    (.read 5))).snoc (hstep _ (.write 5 (some oneBlockInode)))).snoc
    (hstep _ (.removeBlock 5 7))
  exact ⟨_, _, hrun, rfl, inodeCache_keyed _ hrun (by decide)⟩

end LightNight
