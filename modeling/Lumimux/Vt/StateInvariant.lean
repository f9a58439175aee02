import Lumimux.Vt.BufInvariant
import Lumimux.Vt.Ops

/-!
# The invariant of a terminal state

`VtState.Ok rows cols st` is what every reachable state satisfies; the operations of `vt_state.c` keep it.
-/

namespace Lumimux.Vt
open List Option

/-- No byte ends an OSC string. -/
def Inert (t : Bytes) : Prop := ∀ b ∈ t, b ≠ 0x1B ∧ b ≠ 0x07

structure VtState.Ok (rows cols : Nat) (st : VtState) : Prop where
  rows_pos : 0 < rows
  cols_pos : 0 < cols
  primary : BufOk rows cols st.primary
  alt : ∀ b, st.alt = some b → BufOk rows cols b
  scrollback : ∀ b, st.scrollback = some b → BufOk rows cols b
  cursorRow_nonneg : 0 ≤ st.cursorRow
  cursorRow_lt : st.cursorRow < rows
  cursorCol_nonneg : 0 ≤ st.cursorCol
  cursorCol_le : st.cursorCol ≤ cols
  scrollTop_nonneg : 0 ≤ st.scrollTop
  scrollTop_lt : st.scrollTop < st.scrollBot
  scrollBot_le : st.scrollBot ≤ rows
  tabstops_length : st.tabstops.length = cols
  alt_exists : st.alt.isSome = st.modes.altscreen
  active_eq : st.active = if st.modes.altscreen then .alt else .primary
  kitty_depth : st.kittyKbdStack.length ≤ kittyKbdStackMax
  kitty_top : st.kittyKbdStack ≠ [] → st.kittyKbdStack.getLast? = some st.kittyKbdFlags
  cursorShape_le : st.cursorShape ≤ 6
  title_inert : ∀ t, st.title = some t → Inert t
  titleStack_inert : ∀ t, some t ∈ st.titleStack → Inert t

namespace VtState.Ok

variable {rows cols : Nat} {st : VtState}

theorem new (hr : 0 < rows) (hc : 0 < cols) (scrollback : Int) : (VtState.new rows cols scrollback).Ok rows cols where
  rows_pos := hr
  cols_pos := hc
  primary := bufOk_new rows cols _
  alt b h := by cases h
  scrollback b h := by cases h
  cursorRow_nonneg := le_refl _
  cursorRow_lt := Int.natCast_pos.mpr hr
  cursorCol_nonneg := le_refl _
  cursorCol_le := Int.natCast_nonneg cols
  scrollTop_nonneg := le_refl _
  scrollTop_lt := Int.natCast_pos.mpr hr
  scrollBot_le := le_refl _
  tabstops_length := by rw [VtState.new, defaultTabstops, length_map, length_range]
  alt_exists := rfl
  active_eq := rfl
  kitty_depth := Nat.zero_le _
  kitty_top h := absurd rfl h
  cursorShape_le := Nat.zero_le _
  title_inert t h := by cases h
  titleStack_inert t h := by cases h

section
variable (h : st.Ok rows cols)
include h

theorem target {t : Target} {b : VtBuf} (found : st.target t = some b) : BufOk rows cols b := by
  cases t with
  | primary => cases found; exact h.primary
  | alt => exact h.alt b found
  | scrollback => exact h.scrollback b found

theorem buf : BufOk rows cols st.buf := by
  unfold VtState.buf
  cases found : st.target st.active with
  | none => exact h.primary
  | some b => exact h.target found

theorem rows_eq : st.buf.rows = rows := h.buf.rows_eq

theorem cols_eq : st.buf.cols = cols := h.buf.cols_eq

theorem setBuf {b : VtBuf} (shape : BufOk rows cols b) : (st.setBuf b).Ok rows cols := by
  refine { h with primary := ?_, alt := ?_, scrollback := ?_, alt_exists := ?_ }
  · show BufOk rows cols (if st.active = .primary then b else st.primary)
    split
    · exact shape
    · exact h.primary
  · intro b' found
    change (if st.active = .alt then some b else st.alt) = some b' at found
    split at found
    · cases found; exact shape
    · exact h.alt b' found
  · intro b' found
    change (if st.active = .scrollback then some b else st.scrollback) = some b' at found
    split at found
    · cases found; exact shape
    · exact h.scrollback b' found
  · -- the alternate screen is active only when its flag is set
    have active := h.active_eq
    show (if st.active = .alt then some b else st.alt).isSome = st.modes.altscreen
    split
    · rename_i onAlt
      rw [onAlt] at active
      split at active
      · rename_i flag
        exact flag.symm
      · cases active
    · exact h.alt_exists

theorem modifyBuf {f : VtBuf → VtBuf}
    (keeps : ∀ b, BufOk rows cols b → BufOk rows cols (f b)) : (st.modifyBuf f).Ok rows cols :=
  h.setBuf (keeps _ h.buf)

theorem setCursor {row col : Int} (hr : 0 ≤ row ∧ row < rows) (hc : 0 ≤ col ∧ col ≤ cols) :
    VtState.Ok rows cols { st with cursorRow := row, cursorCol := col } :=
  { h with
    cursorRow_nonneg := hr.1, cursorRow_lt := hr.2, cursorCol_nonneg := hc.1, cursorCol_le := hc.2 }

theorem setCol {col : Int} (hc : 0 ≤ col ∧ col ≤ cols) : VtState.Ok rows cols { st with cursorCol := col } :=
  { h with cursorCol_nonneg := hc.1, cursorCol_le := hc.2 }

theorem setRow {row : Int} (hr : 0 ≤ row ∧ row < rows) : VtState.Ok rows cols { st with cursorRow := row } :=
  { h with cursorRow_nonneg := hr.1, cursorRow_lt := hr.2 }

theorem cursorClamp (row col : Int) : (VtState.cursorClamp { st with cursorRow := row, cursorCol := col }).Ok rows cols := by
  have hr := clamp_mem row (Int.natCast_pos.mpr h.rows_pos)
  have hc := clamp_mem col (Int.natCast_pos.mpr h.cols_pos)
  rw [← h.rows_eq] at hr
  rw [← h.cols_eq] at hc
  refine h.setCursor ⟨hr.1, ?_⟩ ⟨hc.1, ?_⟩
  · exact hr.2.trans_le (by rw [h.rows_eq])
  · exact hc.2.le.trans (by rw [h.cols_eq])

theorem cursorSave : st.cursorSave.Ok rows cols := { h with }

theorem cursorRestore : st.cursorRestore.Ok rows cols := by
  have styled : VtState.Ok rows cols { st with style := st.saved.style } := { h with }
  exact styled.cursorClamp st.saved.row st.saved.col

theorem editRow {f : Row → Row} (keeps : ∀ r, RowOk cols r → RowOk cols (f r)) : (st.editRow f).Ok rows cols :=
  h.modifyBuf fun _ shape => shape.modifyRow _ fun r ok => (keeps r ok).markDirty

theorem eraseRange (start stop : Int) (bg : Color) : (st.editRow (·.eraseRange start stop bg)).Ok rows cols :=
  h.editRow fun _ ok => ok.eraseRange start stop bg

theorem clearRows (start stop : Int) (bg : Color) : (st.modifyBuf (·.clearRows start stop bg)).Ok rows cols :=
  h.modifyBuf fun _ shape => shape.clearRows start stop bg

theorem scroll (top bottom count : Int) (bg : Color) : (st.modifyBuf (·.scroll top bottom count bg)).Ok rows cols :=
  h.modifyBuf fun _ shape => shape.scroll top bottom count bg

theorem index : st.index.Ok rows cols := by
  unfold VtState.index
  split
  · exact h.scroll _ _ _ _
  · split
    · have := h.rows_eq
      have := h.cursorRow_nonneg
      exact h.setRow (by omega)
    · exact h

theorem reverseIndex : st.reverseIndex.Ok rows cols := by
  unfold VtState.reverseIndex
  split
  · exact h.scroll _ _ _ _
  · split
    · have := h.cursorRow_lt
      exact h.setRow (by omega)
    · exact h

theorem putcharWrap (width : Nat) : (st.putcharWrap width).Ok rows cols := by
  have := h.cols_eq
  unfold VtState.putcharWrap
  split
  · split
    · refine index (setCol ?_ (by omega))
      exact h.modifyBuf fun _ shape => shape.modifyRow _ fun _ ok => ok
    · refine h.setCol ?_
      split <;> omega
  · exact h

theorem putcharInsert (width : Nat) : (st.putcharInsert width).Ok rows cols := by
  unfold VtState.putcharInsert
  split
  · exact h.modifyBuf fun _ shape => shape.modifyRow _ fun _ ok => ok.shiftRight _ width
  · exact h

end

theorem putcharRow {r : Row} (ok : RowOk cols r) (st : VtState) (cp width : Nat) : RowOk cols (st.putcharRow cp width r) := by
  refine RowOk.markDirty ?_
  split
  · exact (ok.setCell _ _).setCell _ _
  · exact ok.setCell _ _

section
variable (h : st.Ok rows cols)
include h

theorem putcharAdvance (width : Nat) : (st.putcharAdvance width).Ok rows cols := by
  have eq := h.cols_eq
  have pos := h.cols_pos
  have low := h.cursorCol_nonneg
  have moved := advancedCol_mem st.modes.autowrap (show 0 < (st.buf.cols : Int) by omega)
    (show 0 ≤ st.cursorCol + width by omega)
  exact h.setCol ⟨moved.1, moved.2.trans (by omega)⟩

theorem putchar (cp width : Nat) : (st.putchar cp width).Ok rows cols := by
  have ready := (h.putcharWrap width).putcharInsert width
  unfold VtState.putchar
  extract_lets st'
  split
  · exact ready
  · exact putcharAdvance
      (ready.modifyBuf fun _ shape => shape.modifyRow _ fun _ ok => putcharRow ok st' cp width) width

theorem opPrint (cp width : Nat) : (st.opPrint cp width).Ok rows cols := h.putchar _ width

theorem resize {newRows newCols : Nat} (hr : 0 < newRows) (hc : 0 < newCols) :
    (st.resize newRows newCols).Ok newRows newCols := by
  have sized : VtState.Ok newRows newCols
      { st with
        primary := st.primary.resize newRows newCols
        alt := st.alt.map (·.resize newRows newCols)
        scrollback := st.scrollback.map (·.resize newRows newCols)
        tabstops := if newCols ≠ st.buf.cols then defaultTabstops newCols else st.tabstops
        scrollTop := 0
        scrollBot := newRows
        cursorRow := 0
        cursorCol := 0 } :=
    { h with
      rows_pos := hr
      cols_pos := hc
      primary := h.primary.resize newRows newCols
      alt := fun b found => by
        obtain ⟨old, was, rfl⟩ := map_eq_some_iff.mp found
        exact (h.alt old was).resize newRows newCols
      scrollback := fun b found => by
        obtain ⟨old, was, rfl⟩ := map_eq_some_iff.mp found
        exact (h.scrollback old was).resize newRows newCols
      cursorRow_nonneg := le_refl _
      cursorRow_lt := Int.natCast_pos.mpr hr
      cursorCol_nonneg := le_refl _
      cursorCol_le := Int.natCast_nonneg _
      scrollTop_nonneg := le_refl _
      scrollTop_lt := Int.natCast_pos.mpr hr
      scrollBot_le := le_refl _
      tabstops_length := by
        show (if newCols ≠ st.buf.cols then defaultTabstops newCols else st.tabstops).length = newCols
        split
        · rw [defaultTabstops, length_map, length_range]
        · rename_i same
          rw [h.tabstops_length, ← h.cols_eq, not_not.mp same]
      alt_exists := isSome_map.trans h.alt_exists }
  -- the cursor of the old size is clamped into the new one
  exact sized.cursorClamp st.cursorRow st.cursorCol

theorem altscreenEnter : st.altscreenEnter.Ok rows cols := by
  unfold VtState.altscreenEnter
  split
  · exact h
  · have entered : VtState.Ok rows cols
        { st with
          saved := ⟨st.cursorRow, st.cursorCol, st.style⟩
          modes.altscreen := true
          alt := some (st.alt.getD (VtBuf.new st.primary.rows st.primary.cols 0))
          active := .alt
          cursorRow := 0
          cursorCol := 0
          scrollTop := 0
          scrollBot := st.primary.rows } :=
      { h with
        alt := fun b found => by
          cases found
          cases old : st.alt with
          | none =>
            rw [h.primary.rows_eq, h.primary.cols_eq]
            exact bufOk_new rows cols 0
          | some b => exact h.alt b old
        cursorRow_nonneg := le_refl _
        cursorRow_lt := Int.natCast_pos.mpr h.rows_pos
        cursorCol_nonneg := le_refl _
        cursorCol_le := Int.natCast_nonneg _
        scrollTop_nonneg := le_refl _
        scrollTop_lt := by
          rw [h.primary.rows_eq]
          exact Int.natCast_pos.mpr h.rows_pos
        scrollBot_le := by rw [h.primary.rows_eq]
        alt_exists := rfl
        active_eq := rfl }
    exact entered.clearRows 0 st.primary.rows st.style.bg

theorem altCaptured : BufOk rows cols st.altCaptured := by
  unfold VtState.altCaptured
  split
  · rename_i alt _ found
    exact h.primary.pushRows (h.alt alt found) _ _
  · exact h.primary

theorem altscreenLeave : st.altscreenLeave.Ok rows cols := by
  unfold VtState.altscreenLeave
  split
  · exact h
  · have left : VtState.Ok rows cols
        { st with
          modes.altscreen := false
          primary := st.altCaptured
          alt := none
          active := .primary
          scrollTop := 0
          scrollBot := st.altCaptured.rows } :=
      { h with
        primary := h.altCaptured
        alt := fun b found => by cases found
        scrollTop_nonneg := le_refl _
        scrollTop_lt := by
          rw [h.altCaptured.rows_eq]
          exact Int.natCast_pos.mpr h.rows_pos
        scrollBot_le := by rw [h.altCaptured.rows_eq]
        alt_exists := rfl
        active_eq := rfl }
    exact left.cursorRestore

theorem kittyPush (flags : Nat) : (st.kittyPush flags).Ok rows cols := by
  have depth := h.kitty_depth
  refine { h with kitty_depth := ?_, kitty_top := fun _ => getLast?_concat }
  have max : kittyKbdStackMax = 16 := rfl
  simp only [VtState.kittyPush, length_append, length_singleton]
  split
  · rw [length_drop]
    omega
  · omega

theorem kittyPop (count : Nat) : (st.kittyPop count).Ok rows cols := by
  refine { h with kitty_depth := ?_, kitty_top := ?_ }
  · exact (length_take_le' _ _).trans h.kitty_depth
  · intro nonempty
    obtain ⟨top, found⟩ := ne_none_iff_exists'.mp (mt List.getLast?_eq_none_iff.mp nonempty)
    have flags : (st.kittyPop count).kittyKbdFlags = (st.kittyPop count).kittyKbdStack.getLast?.getD 0 := rfl
    rw [flags, found, getD_some]

theorem kittySet (flags mode : Nat) : (st.kittySet flags mode).Ok rows cols := by
  refine { h with kitty_depth := ?_, kitty_top := ?_ }
  · exact (length_set).trans_le h.kitty_depth
  · intro nonempty
    have length : 0 < st.kittyKbdStack.length := by
      rcases Nat.eq_zero_or_pos st.kittyKbdStack.length with zero | pos
      · exact absurd (by simp [VtState.kittySet, length_eq_zero_iff.mp zero]) nonempty
      · exact pos
    simp only [VtState.kittySet, getLast?_eq_getElem?, length_set]
    rw [getElem?_set_self (by omega)]

theorem tabWrite (col : Int) (stop : Bool) : (st.tabWrite col stop).Ok rows cols := by
  unfold VtState.tabWrite
  split
  · exact { h with tabstops_length := length_set.trans h.tabstops_length }
  · exact h

theorem tabReset : st.tabReset.Ok rows cols :=
  { h with
    tabstops_length := by
      rw [VtState.tabReset, defaultTabstops, length_map, length_range, h.cols_eq] }

theorem tabClearAll : st.tabClearAll.Ok rows cols :=
  { h with tabstops_length := by rw [VtState.tabClearAll, length_replicate, h.cols_eq] }

theorem tabNext_mem (col : Int) : 0 ≤ st.tabNext col ∧ st.tabNext col ≤ cols := by
  have eq := h.cols_eq
  have pos := h.cols_pos
  unfold VtState.tabNext
  split
  · rename_i i found
    have := mem_range.mp (mem_of_find?_eq_some found)
    omega
  · omega

end

theorem tabPrev_mem {col : Int} (high : col ≤ cols) : 0 ≤ st.tabPrev col ∧ st.tabPrev col ≤ cols := by
  unfold VtState.tabPrev
  split
  · rename_i i found
    have := mem_range.mp (mem_reverse.mp (mem_of_find?_eq_some found))
    omega
  · omega

theorem tabPrev_iterate_mem (n : Nat) {col : Int} (low : 0 ≤ col) (high : col ≤ cols) :
    0 ≤ (st.tabPrev)^[n] col ∧ (st.tabPrev)^[n] col ≤ cols := by
  induction n generalizing col with
  | zero => exact ⟨low, high⟩
  | succ n ih =>
    rw [Function.iterate_succ_apply]
    obtain ⟨low', high'⟩ := tabPrev_mem high
    exact ih low' high'

theorem titlePop (h : st.Ok rows cols) : st.titlePop.Ok rows cols := by
  unfold VtState.titlePop
  split
  · exact h
  · rename_i saved top
    exact
      { h with
        title_inert := fun t found => h.titleStack_inert t (mem_of_getLast? (found ▸ top))
        titleStack_inert := fun t member => h.titleStack_inert t (mem_of_mem_dropLast member) }

theorem titlePush (h : st.Ok rows cols) : st.titlePush.Ok rows cols := by
  unfold VtState.titlePush
  split
  · exact h
  · refine { h with titleStack_inert := fun t member => ?_ }
    rcases mem_append.mp member with old | new
    · exact h.titleStack_inert t old
    · exact h.title_inert t (mem_singleton.mp new).symm

theorem reply (h : st.Ok rows cols) (data : Bytes) : (st.reply data).Ok rows cols := by
  unfold VtState.reply
  split
  · exact { h with }
  · exact h

end VtState.Ok

end Lumimux.Vt
