import LightNightOS.Shell.History

/-!
# Up and Down

The index that Up and Down move counts from the oldest entry, and -1, the line that is edited, comes
before it. Nothing but these two keys ever sets it, so that behind Enter it is where the last
browsing left it. `recall_iff` says which entry Up shows then, and when this is the one that is
expected.

The line that is edited is saved when Up leaves it, as a string, and shown again when Down comes
back to it. `browsing_iff` says when it is the same line: behind Enter the string in `cmd_buffer`
may be an old command, and Down alone shows a line that nothing has saved.

* `Logged.up`, `Logged.ups` — Up once, and any number of times;
* `recall_iff` — which entry is shown, and when it is the one expected;
* `Browsing.run`, `browsing_iff` — any sequence of Up and Down, and the line at the end of it;
* `oldest_recalled_first`, `down_loses_line` — the inputs on which the two fail.
-/

namespace LightNight

open CharArray Transition

variable {s t u : Shell} {text buffer saved : List UInt8} {lines : List (List UInt8)} {k : ℕ}
  {c : UInt8} {keys : List UInt8}

namespace Shell

/-! ### The index -/

/-- Up goes to the next entry, and stays at the newest one. -/
theorem newIndex_up (h : -1 ≤ s.historyCurrent) (hpos : 0 < s.historyCount) :
    s.newIndex 1 = min (s.historyCurrent + 1) (s.historyCount - 1) := by
  rw [newIndex]
  split_ifs <;> omega

/-- Down goes to the entry before, or to the line that is edited. -/
theorem newIndex_down (h : -1 ≤ s.historyCurrent) (hpos : 0 < s.historyCount) :
    s.newIndex (-1) = min (max (s.historyCurrent - 1) (-1)) (s.historyCount - 1) := by
  have hdown : ¬(-1 : ℤ) = 1 := by decide
  simp only [newIndex, if_neg hdown]
  split_ifs <;> omega

/-- Up and Down, with a history. -/
theorem Logged.recalled (h : s.Logged lines) (hpos : 0 < s.historyCount)
    (hc : c = keyUp ∨ c = keyDown) (hstep : s.Step c t)
    (hbuffer : HoldsString maxCmdLen s.cmdBuffer 0 buffer)
    (hsaved : HoldsString maxCmdLen s.savedCmd 0 saved) :
    t.Logged lines ∧ Recalled s t (recallDirection c) (historyLog lines) buffer saved := by
  obtain ⟨text, cur, hline⟩ := h.line
  have hne : c ≠ newline := by
    rintro rfl
    exact absurd hc (by decide)
  have hnext := h.step hstep
  rw [submitted, if_neg fun hcond ↦ hne hcond.1, List.append_nil] at hnext
  refine ⟨hnext, ?_⟩
  obtain ⟨henter, -⟩ | ⟨-, -, hshow⟩ | ⟨-, -, hidle⟩ := key_cases hline h.active hstep
  · exact absurd henter hne
  · exact h.bounds.historyShow_recalled hpos h.log hbuffer hsaved hshow
  · exact absurd (hidle hc).1 (by omega)

/-! ### Up, some times

From an index on, Up goes to the newest entry one by one. Where the index was before the first Up
depends on the last browsing, and this is what the exact condition is about. -/

/-- Behind at least one Up: which entry is shown. -/
structure ShowsEntry (s : Shell) (lines : List (List UInt8)) (k : ℕ) (t : Shell) : Prop where
  count : t.historyCount = s.historyCount
  current : t.historyCurrent = min (s.historyCurrent + k) (s.historyCount - 1)
  entry : ∃ entry, (historyLog lines)[t.historyCurrent.toNat]? = some entry ∧
    HoldsString maxCmdLen t.cmdBuffer 0 entry

/-- One Up. -/
theorem Logged.up (h : s.Logged lines) (hpos : 0 < s.historyCount) (hstep : s.Step keyUp t) :
    t.Logged lines ∧ ShowsEntry s lines 1 t := by
  obtain ⟨buffer, hbuffer⟩ := exists_holdsString h.bounds.buffer
  obtain ⟨saved, hsaved⟩ := exists_holdsString h.bounds.saved
  obtain ⟨ht, hrecalled⟩ := h.recalled hpos (.inl rfl) hstep hbuffer hsaved
  have hge := h.bounds.current
  have hdirection : recallDirection keyUp = 1 := rfl
  have hindex := newIndex_up hge hpos
  have hcount := h.log.count
  have hshown := hrecalled.shownHolds
  rw [hdirection, shownText, if_neg (by omega)] at hshown
  have hcurrent : t.historyCurrent = s.newIndex 1 := hrecalled.current
  have hin : t.historyCurrent.toNat < (historyLog lines).length := by omega
  refine ⟨ht, hrecalled.count, hcurrent.trans hindex, _, List.getElem?_eq_getElem hin, ?_⟩
  rwa [← hcurrent, List.getD_eq_getElem _ _ hin] at hshown

/-- **Some Ups**, by induction on their number. -/
theorem Logged.ups (h : s.Logged lines) (hpos : 0 < s.historyCount)
    (hrun : Run Step s (List.replicate (k + 1) keyUp) t) :
    t.Logged lines ∧ ShowsEntry s lines (k + 1) t := by
  rw [List.replicate_succ'] at hrun
  obtain ⟨u, hfront, hstep⟩ := Run.snoc_iff.1 hrun
  clear hrun
  induction k generalizing u t with
  | zero =>
    obtain rfl := Run.nil_iff.1 hfront
    exact h.up hpos hstep
  | succ k ih =>
    rw [List.replicate_succ'] at hfront
    obtain ⟨v, hfront', hstep'⟩ := Run.snoc_iff.1 hfront
    obtain ⟨hu, hshows⟩ := ih v hfront' hstep'
    obtain ⟨ht, hnext⟩ := hu.up (by rw [hshows.count]; exact hpos) hstep
    refine ⟨ht, hnext.count.trans hshows.count, ?_, hnext.entry⟩
    rw [hnext.current, hshows.current, hshows.count]
    push_cast
    omega

end Shell

/-- **Which entry Up recalls.** Behind an Enter, with the index where the last browsing left it, Up
pressed `k` times shows the newest entry but `k - 1` if and only if that is the same text as the
entry at the index plus `k`, counted from the oldest, or as the newest one if there are not as
many. -/
theorem recall_iff {s u t : Shell} {keys : List UInt8} {lines : List (List UInt8)} {k : ℕ}
    (hrun : Run Shell.LogStep (s.shellInit, []) (keys ++ [newline]) (u, lines)) (hk : 1 ≤ k)
    (hle : (k : ℤ) ≤ u.historyCount) (hups : Run Shell.Step u (List.replicate k keyUp) t) :
    (∃ entry, (Shell.historyLog lines).reverse[k - 1]? = some entry ∧
      HoldsString maxCmdLen t.cmdBuffer 0 entry) ↔
      (Shell.historyLog lines)[(min (u.historyCurrent + k) (u.historyCount - 1)).toNat]? =
        (Shell.historyLog lines).reverse[k - 1]? := by
  have hlogged : u.Logged lines := Shell.logged_of_run hrun s.logged_shellInit
  obtain ⟨k, rfl⟩ : ∃ k', k = k' + 1 := ⟨k - 1, by omega⟩
  obtain ⟨-, -, hcurrent, entry, hentry, hshown⟩ := hlogged.ups (by omega) hups
  rw [← hcurrent, hentry]
  constructor
  · rintro ⟨entry', hentry', hshown'⟩
    rw [hentry', hshown.unique hshown']
  · exact fun heq ↦ ⟨entry, heq.symm, hshown⟩

/-- Some keys from boot, and Up behind them. -/
theorem Shell.ups_of_foldlM (keys text : List UInt8) (lines : List (List UInt8)) (count : ℤ) (n : ℕ)
    (h : ((keys.foldlM Shell.logKey (Shell.boot.shellInit, [])).bind fun u ↦
      ((List.replicate n keyUp).foldlM Shell.shellProcessInput u.1).bind fun t ↦
      (stringAt maxCmdLen t.cmdBuffer 0).map fun text ↦ (u.2, u.1.historyCount, text)) =
      some (lines, count, text)) :
    ∃ u t, Run Shell.LogStep (Shell.boot.shellInit, []) keys (u, lines) ∧ u.historyCount = count ∧
      Run Shell.Step u (List.replicate n keyUp) t ∧
        stringAt maxCmdLen t.cmdBuffer 0 = some text := by
  obtain ⟨⟨u, lines'⟩, hkeys, h⟩ := Option.bind_eq_some_iff.1 h
  obtain ⟨t, hup, h⟩ := Option.bind_eq_some_iff.1 h
  obtain ⟨text', hread, h⟩ := Option.map_eq_some_iff.1 h
  obtain ⟨rfl, hrest⟩ := Prod.mk.inj h
  obtain ⟨hcount, rfl⟩ := Prod.mk.inj hrest
  exact ⟨u, t, Run.of_foldlM hkeys, hcount, Run.of_foldlM hup, hread⟩

/-- The general theorem behind the commands `a`, `b` and `c`: the second Up shows `b`, whichever end
it is counted from. -/
theorem recall_iff_middle : ∃ u t,
    Run Shell.LogStep (Shell.boot.shellInit, []) ([0x61, newline, 0x62, newline, 0x63] ++ [newline])
      (u, [[0x61], [0x62], [0x63]]) ∧
      Run Shell.Step u (List.replicate 2 keyUp) t ∧ stringAt maxCmdLen t.cmdBuffer 0 = some [0x62] ∧
      ((∃ entry, (Shell.historyLog [[0x61], [0x62], [0x63]]).reverse[2 - 1]? = some entry ∧
        HoldsString maxCmdLen t.cmdBuffer 0 entry) ↔
        (Shell.historyLog [[0x61], [0x62], [0x63]])[
          (min (u.historyCurrent + (2 : ℕ)) (u.historyCount - 1)).toNat]? =
          (Shell.historyLog [[0x61], [0x62], [0x63]]).reverse[2 - 1]?) := by
  obtain ⟨u, t, hrun, hcount, hup, hread⟩ := Shell.ups_of_foldlM
    ([0x61, newline, 0x62, newline, 0x63] ++ [newline]) [0x62] [[0x61], [0x62], [0x63]] 3 2
    (by decide +kernel)
  exact ⟨u, t, hrun, hup, hread, recall_iff hrun (by decide) (by rw [hcount]; decide) hup⟩

/-- Behind the commands `a` and `b` the first Up shows `a`. -/
theorem oldest_recalled_first : ∃ u t,
    Run Shell.LogStep (Shell.boot.shellInit, []) ([0x61, newline, 0x62] ++ [newline])
      (u, [[0x61], [0x62]]) ∧ (1 : ℤ) ≤ u.historyCount ∧
    Run Shell.Step u (List.replicate 1 keyUp) t ∧ stringAt maxCmdLen t.cmdBuffer 0 = some [0x61] ∧
    ¬∃ entry, (Shell.historyLog [[0x61], [0x62]]).reverse[1 - 1]? = some entry ∧
      HoldsString maxCmdLen t.cmdBuffer 0 entry := by
  obtain ⟨u, t, hrun, hcount, hup, hread⟩ := Shell.ups_of_foldlM
    ([0x61, newline, 0x62] ++ [newline]) [0x61] [[0x61], [0x62]] 2 1 (by decide +kernel)
  refine ⟨u, t, hrun, by rw [hcount]; decide, hup, hread, ?_⟩
  rintro ⟨entry, hentry, hholds⟩
  have hnewest : (Shell.historyLog [[0x61], [0x62]]).reverse[1 - 1]? = some [0x62] := by decide
  rw [hnewest, Option.some.injEq] at hentry
  have hstring := hholds.stringAt_eq
  rw [Nat.cast_zero, hread, ← hentry] at hstring
  exact absurd hstring (by decide)

/-! ### Browsing

While only Up and Down are pressed, the line is saved when Up leaves it and shown again when Down
comes back to it. It is the same line again exactly if what was saved is what was on the line. -/

namespace Shell

/-- The line that is edited is the same. -/
def SameLine (s t : Shell) : Prop :=
  t.cmdPos = s.cmdPos ∧ ∀ i : ℕ, (i : ℤ) < s.cmdPos → t.cmdBuffer i = s.cmdBuffer i

/-- When Up and Down keep the line: there is no history; or Up is first, and `cmd_buffer` ends where
the line does; or Down is first, and `saved_cmd` happens to hold the line. -/
def KeepsLine (s : Shell) (keys : List UInt8) : Prop :=
  s.historyCount = 0 ∨
    (keys.head? = some keyUp → s.cmdBuffer s.cmdPos.toNat = 0) ∧
    (keys.head? = some keyDown → HoldsString maxCmdLen s.savedCmd 0 s.line)

/-- Between two keys of browsing: `text` is what is shown when the index comes back. -/
structure Browsing (s : Shell) (lines : List (List UInt8)) (text : List UInt8) (t : Shell) :
    Prop where
  logged : t.Logged lines
  count : t.historyCount = s.historyCount
  saved : HoldsString maxCmdLen t.savedCmd 0 text
  line : t.historyCurrent = -1 → HoldsString maxCmdLen t.cmdBuffer 0 text ∧
    t.HasLine text text.length

/-- **One key of browsing.** -/
theorem Browsing.step (h : Browsing s lines text t) (hpos : 0 < s.historyCount)
    (hc : c = keyUp ∨ c = keyDown) (hstep : t.Step c u) : Browsing s lines text u := by
  obtain ⟨buffer, hbuffer⟩ := exists_holdsString h.logged.bounds.buffer
  obtain ⟨hu, hrecalled⟩ := h.logged.recalled (by rw [h.count]; exact hpos) hc hstep hbuffer h.saved
  have hsaved : t.savedText (recallDirection c) buffer text = text := by
    rw [savedText]
    split
    case isTrue hleave => exact hbuffer.unique (h.line hleave.1).1
    case isFalse => rfl
  refine ⟨hu, hrecalled.count.trans h.count, hsaved ▸ hrecalled.savedHolds, fun hback ↦ ?_⟩
  have hshown : t.shownText (recallDirection c) (historyLog lines) buffer text = text := by
    rw [shownText, if_pos (hrecalled.current.symm.trans hback), hsaved]
  exact ⟨hshown ▸ hrecalled.shownHolds, hshown ▸ hrecalled.line⟩

/-- The first key: Up saves the string in `cmd_buffer`, Down shows the one in `saved_cmd`. -/
theorem Logged.browse (h : s.Logged lines) (hpos : 0 < s.historyCount)
    (hcurrent : s.historyCurrent = -1) (hc : c = keyUp ∨ c = keyDown) (hstep : s.Step c t)
    (hbuffer : HoldsString maxCmdLen s.cmdBuffer 0 buffer)
    (hsaved : HoldsString maxCmdLen s.savedCmd 0 saved) :
    Browsing s lines (if c = keyUp then buffer else saved) t := by
  obtain ⟨ht, hrecalled⟩ := h.recalled hpos hc hstep hbuffer hsaved
  have hge := h.bounds.current
  obtain rfl | rfl := hc
  · have hdirection : recallDirection keyUp = 1 := rfl
    have htext : s.savedText 1 buffer saved = buffer := if_pos ⟨hcurrent, rfl⟩
    have hmoved : t.historyCurrent = s.newIndex 1 := hrecalled.current
    have hindex := newIndex_up hge hpos
    rw [if_pos rfl]
    refine ⟨ht, hrecalled.count, ?_, fun hback ↦ absurd hback (by omega)⟩
    have hholds := hrecalled.savedHolds
    rwa [hdirection, htext] at hholds
  · have hdirection : recallDirection keyDown = -1 := rfl
    have htext : s.savedText (-1) buffer saved = saved := if_neg fun hup ↦ absurd hup.2 (by decide)
    have hindex := newIndex_down hge hpos
    have hshown : s.shownText (-1) (historyLog lines) buffer saved = saved := by
      rw [shownText, if_pos (by omega), htext]
    have hholds := hrecalled.savedHolds
    have hbufferHolds := hrecalled.shownHolds
    have hline := hrecalled.line
    rw [hdirection] at hholds hbufferHolds hline
    rw [htext] at hholds
    rw [hshown] at hbufferHolds hline
    rw [if_neg (by decide)]
    exact ⟨ht, hrecalled.count, hholds, fun _ ↦ ⟨hbufferHolds, hline⟩⟩

/-- **Some keys of browsing.** -/
theorem Browsing.run (h : Browsing s lines text t) (hpos : 0 < s.historyCount)
    (hkeys : ∀ c ∈ keys, c = keyUp ∨ c = keyDown) (hrun : Run Step t keys u) :
    Browsing s lines text u := by
  refine hrun.traced (I := fun as u ↦ (∀ c ∈ as, c = keyUp ∨ c = keyDown) → Browsing s lines text u)
    ?_ (fun _ ↦ h) hkeys
  intro as u c v ih hstep has
  have hfront := ih fun a ha ↦ has a (List.mem_append_left _ ha)
  exact hfront.step hpos (has c (List.mem_append_right as (List.mem_singleton_self c))) hstep

/-- Without a history Up and Down do nothing. -/
theorem Logged.idle (h : s.Logged lines) (hzero : s.historyCount = 0)
    (hkeys : ∀ c ∈ keys, c = keyUp ∨ c = keyDown) (hrun : Run Step s keys t) : t = s := by
  refine hrun.traced (I := fun as t ↦ (∀ c ∈ as, c = keyUp ∨ c = keyDown) → t = s) ?_
    (fun _ ↦ rfl) hkeys
  intro as u c v ih hstep has
  obtain rfl := ih fun a ha ↦ has a (List.mem_append_left _ ha)
  have hc := has c (List.mem_append_right as (List.mem_singleton_self c))
  obtain ⟨text, cur, hline⟩ := h.line
  obtain ⟨rfl, -⟩ | ⟨-, hpos, -⟩ | ⟨-, -, hidle⟩ := key_cases hline h.active hstep
  · exact absurd hc (by decide)
  · omega
  · exact (hidle hc).2

theorem Reached.logged (h : s.Reached) : ∃ lines, s.Logged lines := by
  obtain ⟨keys, hrun⟩ := h
  refine hrun.invariant (I := fun s ↦ ∃ lines, s.Logged lines) ?_ ⟨[], boot.logged_shellInit⟩
  rintro s c t ⟨lines, h⟩ hstep
  exact ⟨_, h.step hstep⟩

/-- A state shows the line of another one if and only if its text is that line. -/
theorem HasLine.sameLine_iff {cur cur' : ℕ} {text' : List UInt8} (h : s.HasLine text cur)
    (h' : t.HasLine text' cur') : SameLine s t ↔ text' = text := by
  rw [SameLine, h.position.pos, h'.position.pos]
  constructor
  · rintro ⟨hlength, hchars⟩
    refine List.ext_getElem (Int.ofNat_inj.1 hlength) fun i hi' hi ↦ ?_
    rw [← h.shows i hi, ← h'.shows i hi', hchars i (Int.ofNat_lt.2 hi)]
  · rintro rfl
    refine ⟨rfl, fun i hi ↦ ?_⟩
    have hi := Int.ofNat_lt.1 hi
    rw [h'.shows i hi, h.shows i hi]

/-- The string in `cmd_buffer` is the line if and only if it ends there. -/
theorem HasLine.buffer_eq_iff {cur : ℕ} (h : s.HasLine text cur)
    (hbuffer : HoldsString maxCmdLen s.cmdBuffer 0 buffer) :
    buffer = text ↔ s.cmdBuffer s.cmdPos.toNat = 0 := by
  rw [h.position.pos, Int.toNat_natCast]
  constructor
  · rintro rfl
    have hzero := hbuffer.zero
    rwa [Nat.zero_add] at hzero
  · intro hzero
    refine hbuffer.unique (HoldsString.of_getElem ?_ ?_ fun j hj ↦ ?_)
    · rw [Nat.zero_add]
      exact h.position.lt
    · rwa [Nat.zero_add]
    · rw [Nat.zero_add, h.shows j hj]
      exact ⟨rfl, fun heq ↦ h.nonzero (heq ▸ List.getElem_mem hj)⟩

end Shell

/-- **When browsing keeps the line that is edited.** From a reachable state in which that line is
shown, Up and Down in any order that comes back to it leave the line as it was if and only if there
is no history, or the first key is Up and `cmd_buffer` is zero behind the line, or the first key is
Down and `saved_cmd` holds the line already. -/
theorem browsing_iff {s t : Shell} {keys : List UInt8} (hs : s.Reached)
    (hcurrent : s.historyCurrent = -1) (hkeys : ∀ c ∈ keys, c = keyUp ∨ c = keyDown)
    (hrun : Run Shell.Step s keys t) (hend : t.historyCurrent = -1) :
    Shell.SameLine s t ↔ s.KeepsLine keys := by
  obtain ⟨lines, hlogged⟩ := hs.logged
  obtain ⟨text, cur, hline⟩ := hlogged.line
  rw [Shell.KeepsLine, hline.line_eq]
  rcases Int.lt_or_eq_of_le hlogged.bounds.history.nonneg with hpos | hzero
  · rw [or_iff_right hpos.ne']
    cases keys with
    | nil =>
      obtain rfl := Run.nil_iff.1 hrun
      exact iff_of_true (hline.sameLine_iff hline |>.2 rfl) ⟨nofun, nofun⟩
    | cons c keys =>
      obtain ⟨buffer, hbuffer⟩ := exists_holdsString hlogged.bounds.buffer
      obtain ⟨saved, hsaved⟩ := exists_holdsString hlogged.bounds.saved
      obtain ⟨u, hfirst, hrest⟩ := Run.cons_iff.1 hrun
      have hc := hkeys c List.mem_cons_self
      have hbrowsing := (hlogged.browse hpos hcurrent hc hfirst hbuffer hsaved).run hpos
        (fun a ha ↦ hkeys a (List.mem_cons_of_mem c ha)) hrest
      rw [hline.sameLine_iff (hbrowsing.line hend).2, List.head?_cons, Option.some.injEq,
        Option.some.injEq]
      obtain rfl | rfl := hc
      · rw [if_pos rfl, hline.buffer_eq_iff hbuffer]
        exact ⟨fun h ↦ ⟨fun _ ↦ h, fun hdown ↦ absurd hdown (by decide)⟩, fun h ↦ h.1 rfl⟩
      · rw [if_neg (by decide)]
        constructor
        · rintro rfl
          exact ⟨fun hup ↦ absurd hup (by decide), fun _ ↦ hsaved⟩
        · exact fun h ↦ hsaved.unique (h.2 rfl)
  · obtain rfl := hlogged.idle hzero.symm hkeys hrun
    exact iff_of_true (hline.sameLine_iff hline |>.2 rfl) (.inl hzero.symm)

/-- Behind the command `a`, with `b` typed, some keys of browsing. -/
theorem Shell.browse_of_foldlM (keys : List UInt8) {i j m n : ℤ}
    (h : ((Shell.typed [0x61, newline, 0x62]).bind fun s ↦
      (keys.foldlM Shell.shellProcessInput s).map fun t ↦
      (s.historyCurrent, s.cmdPos, t.historyCurrent, t.cmdPos)) = some (i, m, j, n)) :
    ∃ s t, s.Reached ∧ Run Shell.Step s keys t ∧ s.historyCurrent = i ∧ s.cmdPos = m ∧
      t.historyCurrent = j ∧ t.cmdPos = n := by
  obtain ⟨s, htyped, h⟩ := Option.bind_eq_some_iff.1 h
  obtain ⟨t, hkeys, h⟩ := Option.map_eq_some_iff.1 h
  obtain ⟨hi, h⟩ := Prod.mk.inj h
  obtain ⟨hm, h⟩ := Prod.mk.inj h
  obtain ⟨hj, hn⟩ := Prod.mk.inj h
  exact ⟨s, t, ⟨_, Run.of_foldlM htyped⟩, Run.of_foldlM hkeys, hi, hm, hj, hn⟩

/-- The general theorem on Up and Down. -/
theorem browsing_iff_upDown :
    ∃ s t, s.Reached ∧ Run Shell.Step s [keyUp, keyDown] t ∧ s.cmdPos = 1 ∧
    (Shell.SameLine s t ↔ s.KeepsLine [keyUp, keyDown]) := by
  obtain ⟨s, t, hs, hrun, hcurrent, hpos, hend, -⟩ := Shell.browse_of_foldlM [keyUp, keyDown]
    (i := -1) (m := 1) (j := -1) (n := 1) (by decide +kernel)
  exact ⟨s, t, hs, hrun, hpos, browsing_iff hs hcurrent (by decide +kernel) hrun hend⟩

/-- Down alone: behind the command `a` the line `b` is gone. -/
theorem down_loses_line : ∃ s t, s.Reached ∧ s.historyCurrent = -1 ∧ s.cmdPos = 1 ∧
    Run Shell.Step s [keyDown] t ∧ t.historyCurrent = -1 ∧ t.cmdPos = 0 ∧ ¬Shell.SameLine s t := by
  obtain ⟨s, t, hs, hrun, hcurrent, hpos, hend, hgone⟩ := Shell.browse_of_foldlM [keyDown]
    (i := -1) (m := 1) (j := -1) (n := 0) (by decide +kernel)
  refine ⟨s, t, hs, hcurrent, hpos, hrun, hend, hgone, fun hsame ↦ ?_⟩
  have hlength := hsame.1
  omega

end LightNight
