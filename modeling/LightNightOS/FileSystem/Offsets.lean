import LightNightOS.FileSystem.FileData

/-!
# Seeking and reading

A descriptor has an offset. `fs_seek` sets it and `fs_read` adds to it, but `fs_read` does not look
at it: it always copies the beginning of the file. `OffsetLaw` says what a sequence of seeks and
reads is to return, as parts of the content from the position that they share. `RepeatsStart` is the
condition that every part asked for looks like the beginning of the file. The two are equivalent
(`offsets_mean_iff`), and `offset_ignored` is a read behind a seek that returns the wrong bytes.

* `HasContent.seek`, `HasContent.read` — what the two calls return and leave;
* `readsPart_iff` — a read of the beginning has returned the part that is due exactly if the two are
  the same;
* `offsets_mean_iff` — any sequence of seeks and reads of one file.
-/

namespace LightNight

open Transition

variable {σ : Type*} {ops : DataHeap σ}

/-! ### The law and the condition -/

/-- Slot `i` is the one of `fd`, and the file that is open there holds `content`. -/
structure FileSystem.HasContent (ops : DataHeap σ) (s : FileSystem σ) (fd : ℕ) (i : FileSlot)
    (content : List UInt8) : Prop where
  find : (s.findFile fun f ↦ f.fd = fd) = some i
  inodeId_lt : (s.openFiles i).inodeId < fsMaxInodes
  inode : ∃ table, s.inodeTable = some table ∧
    (table (s.openFiles i).inodeId).size = content.length ∧
    (content ≠ [] → (table (s.openFiles i).inodeId).data ≠ 0) ∧
    ∀ k (hk : k < content.length),
      ops.mem s.heap ((table (s.openFiles i).inodeId).data + k) = content[k]

/-- The call has returned this part of the file: its length, and its bytes in the buffer. -/
def ReadsPart (r : FileResult) (part : List UInt8) : Prop :=
  r.ret = part.length ∧ ∃ bytes, r.buffer = some bytes ∧
    ∀ k (hk : k < part.length), bytes k = part[k]

/-- What seeks and reads are to return from position `pos` on. -/
def OffsetLaw (content : List UInt8) : ℕ → List (FileCall × FileResult) → Prop
  | _, [] => True
  | _, (.seek _ offset, _) :: l => OffsetLaw content offset l
  | pos, (.read _ _ size, r) :: l => ReadsPart r ((content.drop pos).take size) ∧
      OffsetLaw content (pos + ((content.drop pos).take size).length) l
  | pos, _ :: l => OffsetLaw content pos l

/-- Every part asked for is the beginning of the file, and its length an `int32_t`. -/
def RepeatsStart (content : List UInt8) : ℕ → List FileCall → Prop
  | _, [] => True
  | _, .seek _ offset :: l => RepeatsStart content offset l
  | pos, .read _ _ size :: l =>
      (content.take size = (content.drop pos).take size ∧ min size content.length < 2 ^ 31) ∧
      RepeatsStart content (pos + ((content.drop pos).take size).length) l
  | pos, _ :: l => RepeatsStart content pos l

/-- A seek within the file, or a read of at least one byte, with the descriptor `fd`. -/
def OnFile (fd length : ℕ) : FileCall → Prop
  | .seek fd' offset => fd' = fd ∧ offset ≤ length
  | .read fd' buffer size => fd' = fd ∧ buffer ≠ none ∧ 0 < size ∧ size < 2 ^ 32
  | _ => False

/-! ### One call -/

namespace FileSystem

variable {s t : FileSystem σ} {fd : ℕ} {i : FileSlot} {content : List UInt8}

/-- Moving the offset leaves the content. -/
theorem HasContent.moveOffset (h : s.HasContent ops fd i content) (offset : ℕ) :
    (s.setFile i { s.openFiles i with offset := offset }).HasContent ops fd i content := by
  have hslot : (s.setFile i { s.openFiles i with offset := offset }).openFiles i =
      { s.openFiles i with offset := offset } := Function.update_self ..
  refine ⟨?_, ?_, ?_⟩
  · rw [← h.find, findFile, findFile]
    congr 1
    funext j
    by_cases hj : j = i
    · rw [hj, hslot]
    · rw [setFile_openFiles, Function.update_of_ne hj]
  · rw [hslot]
    exact h.inodeId_lt
  · rw [hslot]
    exact h.inode

/-- `fs_seek` on an open file. -/
theorem HasContent.seek (h : s.HasContent ops fd i content) (offset : ℕ) :
    ∃ t, s.fsSeek fd offset = (⟨0, none⟩, t) ∧ t.HasContent ops fd i content := by
  rw [fsSeek, h.find]
  exact ⟨_, rfl, h.moveOffset offset⟩

/-- **`fs_read` returns the beginning of the file**, wherever the offset is. -/
theorem HasContent.read (h : s.HasContent ops fd i content) (bytes : ℕ → UInt8) {size : ℕ}
    (hsize : 0 < size) : ∃ r t, s.fsRead ops fd (some bytes) size = some (r, t) ∧
      t.HasContent ops fd i content ∧ r.ret = i32 (min size content.length) ∧
      ∃ buffer, r.buffer = some buffer ∧
        ∀ k (hk : k < (content.take size).length), buffer k = (content.take size)[k] := by
  obtain ⟨table, htable, hlength, hdata, hbytes⟩ := h.inode
  have hmin : (if size < content.length then size else content.length) =
      min size content.length := by
    split <;> omega
  rw [fsRead.eq_def]
  simp only [if_neg hsize.ne', h.find, if_pos h.inodeId_lt, htable, hlength, hmin]
  refine ⟨_, _, rfl, h.moveOffset _, rfl, _, rfl, fun k hk ↦ ?_⟩
  rw [List.length_take] at hk
  have hne : content ≠ [] := List.ne_nil_of_length_pos (by omega)
  rw [if_pos ⟨hdata hne, by omega⟩, loadText, if_pos hk, List.getElem_take]
  exact hbytes k (by omega)

end FileSystem

/-- A read that returned the beginning of the file has returned the part asked for if the two are
the same, and the length is not cut. -/
theorem readsPart_iff {content : List UInt8} {r : FileResult} {pos size : ℕ} (hsize : size < 2 ^ 32)
    (hret : r.ret = i32 (min size content.length)) {buffer : ℕ → UInt8}
    (hbuffer : r.buffer = some buffer)
    (hbytes : ∀ k (hk : k < (content.take size).length), buffer k = (content.take size)[k]) :
    ReadsPart r ((content.drop pos).take size) ↔
      content.take size = (content.drop pos).take size ∧ min size content.length < 2 ^ 31 := by
  have hwide : u32 (min size content.length) = min size content.length := u32_of_lt (by omega)
  rw [i32, hwide] at hret
  constructor
  · rintro ⟨hlength, bytes, heq, hpart⟩
    obtain rfl := Option.some.inj (hbuffer.symm.trans heq)
    rw [hret] at hlength
    split at hlength
    case isFalse => omega
    case isTrue hlt =>
      have hsame : (content.take size).length = ((content.drop pos).take size).length := by
        rw [List.length_take]
        omega
      refine ⟨List.ext_getElem hsame fun k hk hk' ↦ ?_, hlt⟩
      exact (hbytes k hk).symm.trans (hpart k hk')
  · rintro ⟨hpart, hlt⟩
    rw [if_pos hlt] at hret
    rw [← hpart]
    exact ⟨by rw [hret, List.length_take], buffer, hbuffer, hbytes⟩

/-- **When file offsets mean what they say.** Take a descriptor of a file and any sequence of seeks
within the file and of reads with it. Each of these calls returns; and all of them return what the
offset asks for if and only if each part asked for looks like the beginning of the file. -/
theorem offsets_mean_iff {s : FileSystem σ} {fd : ℕ} {i : FileSlot} {content : List UInt8}
    (hfile : s.HasContent ops fd i content) {calls : List (FileCall × FileResult)}
    {t : FileSystem σ} (hrun : Run (FileStep ops) s calls t)
    (hcalls : ∀ a ∈ calls, OnFile fd content.length a.1) :
    (∀ a, OnFile fd content.length a → ∃ r u, FileStep ops t (a, r) u) ∧
      (OffsetLaw content (s.openFiles i).offset calls ↔
        RepeatsStart content (s.openFiles i).offset (calls.map Prod.fst)) := by
  suffices hall : t.HasContent ops fd i content ∧ ∀ pos,
      (OffsetLaw content pos calls ↔ RepeatsStart content pos (calls.map Prod.fst)) by
    refine ⟨fun a ha ↦ ?_, hall.2 _⟩
    cases a with
    | seek fd' offset =>
      obtain ⟨rfl, -⟩ := ha
      obtain ⟨u, hseek, -⟩ := hall.1.seek offset
      exact ⟨_, u, congrArg some hseek⟩
    | read fd' buffer size =>
      obtain ⟨rfl, hbuffer, hpos, -⟩ := ha
      obtain ⟨bytes, rfl⟩ := Option.ne_none_iff_exists'.1 hbuffer
      obtain ⟨r, u, hread, -⟩ := hall.1.read bytes hpos
      exact ⟨r, u, hread⟩
    | _ => exact ha.elim
  -- the content stays the same, so the calls can be compared one by one, at any position
  induction calls generalizing s with
  | nil =>
    obtain rfl := Run.nil_iff.1 hrun
    exact ⟨hfile, fun _ ↦ Iff.rfl⟩
  | cons a l ih =>
    obtain ⟨u, hstep, hrest⟩ := Run.cons_iff.1 hrun
    obtain ⟨call, r⟩ := a
    have ha := hcalls _ List.mem_cons_self
    have hl := fun b hb ↦ hcalls b (List.mem_cons_of_mem _ hb)
    have hcall : s.call ops call = some (r, u) := hstep
    cases call with
    | seek fd' offset =>
      obtain ⟨rfl, -⟩ := ha
      obtain ⟨u', hseek, hfile'⟩ := hfile.seek offset
      obtain ⟨-, rfl⟩ := Prod.mk.inj (Option.some.inj (hcall.symm.trans (congrArg some hseek)))
      obtain ⟨hend, hiff⟩ := ih hfile' hrest hl
      exact ⟨hend, fun _ ↦ hiff offset⟩
    | read fd' buffer size =>
      obtain ⟨rfl, hbuffer, hpos, hsize⟩ := ha
      obtain ⟨bytes, rfl⟩ := Option.ne_none_iff_exists'.1 hbuffer
      obtain ⟨r', u', hread, hfile', hret, buffer, hbuf, hbytes⟩ := hfile.read bytes hpos
      obtain ⟨rfl, rfl⟩ := Prod.mk.inj (Option.some.inj (hcall.symm.trans hread))
      obtain ⟨hend, hiff⟩ := ih hfile' hrest hl
      exact ⟨hend, fun pos ↦ and_congr (readsPart_iff hsize hret hbuf hbytes) (hiff _)⟩
    | _ => exact ha.elim

/-- The content of the file after the short write. -/
theorem shortWrite_content (bytes : ℕ → UInt8) : ∃ s,
    Run (FileStep kernelHeap) (FileSystem.boot (initPage smallMap .zeroed).2) (shortWrite bytes) s ∧
      s.HasContent kernelHeap 1 0 ((List.range 9).map bytes) := by
  obtain ⟨s, hrun, -, hfind, ⟨table, htable, hdata, hsize⟩, hbytes⟩ := shortWrite_run bytes
  have hslot := of_decide_eq_true (FileSystem.findFile_some hfind)
  refine ⟨s, hrun.of_guarded, ?_, hslot.2, table, htable, ?_, fun _ ↦ ?_, fun k hk ↦ ?_⟩
  · -- the slot is the first one of the table
    have hfirst : List.finRange fsMaxOpenFiles = 0 :: (List.finRange 127).map Fin.succ :=
      List.finRange_succ
    have hfd : decide ((s.openFiles 0).fd = 1) = true := decide_eq_true hslot.1
    rw [FileSystem.findFile, hfirst]
    exact List.find?_cons_of_pos (p := fun i ↦ decide ((s.openFiles i).fd = 1)) hfd
  · rw [hsize, List.length_map, List.length_range]
  · rw [hdata]
    decide
  · rw [List.length_map, List.length_range] at hk
    show s.heap.mem _ = _
    rw [hdata, hbytes k hk, List.getElem_map, List.getElem_range]

theorem offsets_mean_shortWrite : ∃ (s t : FileSystem MemoryState) (r : FileResult),
    Run (FileStep kernelHeap) (FileSystem.boot (initPage smallMap .zeroed).2)
      (shortWrite fun _ ↦ 65) s ∧
    FileStep kernelHeap s (.read 1 (some fun _ ↦ 0) 4, r) t ∧
    (∀ a, OnFile 1 9 a → ∃ r u, FileStep kernelHeap t (a, r) u) ∧
      (OffsetLaw (List.replicate 9 65) (s.openFiles 0).offset [(.read 1 (some fun _ ↦ 0) 4, r)] ↔
        RepeatsStart (List.replicate 9 65) (s.openFiles 0).offset
          [.read 1 (some fun _ ↦ 0) 4]) := by
  obtain ⟨s, hrun, hfile⟩ := shortWrite_content fun _ ↦ 65
  obtain ⟨r, t, hread, -⟩ := hfile.read (fun _ ↦ 0) (show 0 < 4 by decide)
  have hcalls : ∀ a ∈ [((.read 1 (some fun _ ↦ 0) 4, r) : FileCall × FileResult)],
      OnFile 1 9 a.1 := by
    intro a ha
    rw [List.mem_singleton.1 ha]
    exact ⟨rfl, Option.some_ne_none _, by decide, by decide⟩
  exact ⟨s, t, r, hrun, hread, offsets_mean_iff hfile (Run.single hread) hcalls⟩

/-- **The offset is ignored.** The file holds the bytes 0 to 8. After a seek to 4, a read of 3 bytes
returns the bytes 0, 1 and 2. -/
theorem offset_ignored : ∃ (s t u : FileSystem MemoryState) (r : FileResult),
    Run (FileStep kernelHeap) (FileSystem.boot (initPage smallMap .zeroed).2)
      (shortWrite fun k ↦ UInt8.ofNat k) s ∧
    s.HasContent kernelHeap 1 0 [0, 1, 2, 3, 4, 5, 6, 7, 8] ∧
    FileStep kernelHeap s (.seek 1 4, ⟨0, none⟩) t ∧
    FileStep kernelHeap t (.read 1 (some fun _ ↦ 255) 3, r) u ∧
    ¬ReadsPart r [4, 5, 6] := by
  obtain ⟨s, hrun, hfile⟩ := shortWrite_content fun k ↦ UInt8.ofNat k
  obtain ⟨t, hseek, hfile'⟩ := hfile.seek 4
  obtain ⟨r, u, hread, -, -, buffer, hbuffer, hbytes⟩ :=
    hfile'.read (fun _ ↦ 255) (show 0 < 3 by decide)
  refine ⟨s, t, u, r, hrun, hfile, congrArg some hseek, hread, ?_⟩
  rintro ⟨-, bytes, heq, hpart⟩
  obtain rfl := Option.some.inj (hbuffer.symm.trans heq)
  -- the first byte is that of the file, not the one at the offset
  have hzero : buffer 0 = 0 := hbytes 0 (by decide)
  have hfour : buffer 0 = 4 := hpart 0 (by decide)
  rw [hzero] at hfour
  exact absurd hfour (by decide)

end LightNight
