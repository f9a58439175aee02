import Lumimux.Vt.Emulator

/-!
# Terminals that look and react alike

`VtState.Twin x y`: two terminals agree on what the picture depends on, now and after any output.
-/

namespace Lumimux.Vt
open Lib List

/-- Buffers with the same cells, whatever their flags. -/
@[mk_iff]
structure VtBuf.Twin (b b' : VtBuf) : Prop where
  rows : b.rows = b'.rows
  cols : b.cols = b'.cols
  cells : b.grid.map Row.cells = b'.grid.map Row.cells

/-- What a buffer shows. -/
def VtBuf.picture (b : VtBuf) : Nat × Nat × List (List Cell) := (b.rows, b.cols, b.grid.map Row.cells)

def RowTwin (f : Row → Row) : Prop := ∀ r r' : Row, r.cells = r'.cells → (f r).cells = (f r').cells

namespace RowTwin

theorem eraseRange (start stop : Int) (bg : Color) : RowTwin (·.eraseRange start stop bg) := by
  intro r r' same
  simp only [Row.eraseRange, same]

theorem shiftRight (start : Int) (count : Nat) : RowTwin (·.shiftRight start count) := by
  intro r r' same
  simp only [Row.shiftRight, same]

theorem shiftLeft (start : Int) (count : Nat) : RowTwin (·.shiftLeft start count) := by
  intro r r' same
  simp only [Row.shiftLeft, same]

theorem setCell (col : Nat) (c : Cell) : RowTwin (·.setCell col c) := by
  intro r r' same
  simp only [Row.setCell, same]

theorem markDirty : RowTwin Row.markDirty := fun _ _ same => same

theorem wrapped : RowTwin fun r => { r with wrapped := true } := fun _ _ same => same

theorem comp {f g : Row → Row} (hg : RowTwin g) (hf : RowTwin f) : RowTwin fun r => g (f r) :=
  fun r r' same => hg _ _ (hf r r' same)

theorem map_modify {f : Row → Row} (hf : RowTwin f) (n : Nat) {grid grid' : List Row}
    (same : grid.map Row.cells = grid'.map Row.cells) : (grid.modify n f).map Row.cells = (grid'.modify n f).map Row.cells := by
  -- an edit of rows that reads only cells is an edit of cells
  have lift : ∀ rows : List Row, (rows.modify n f).map Row.cells =
      (rows.map Row.cells).modify n fun cells => (f ⟨cells, false, false⟩).cells := by
    intro rows
    apply ext_getElem?
    intro i
    simp only [getElem?_map, getElem?_modify]
    cases rows[i]? with
    | none => simp
    | some r =>
      simp only [Option.map_some, Option.map_eq_map, Option.some.injEq]
      split
      · exact hf r _ rfl
      · rfl
  rw [lift, lift, same]

end RowTwin

namespace VtBuf.Twin

variable {b b' : VtBuf}

theorem refl (b : VtBuf) : b.Twin b := ⟨rfl, rfl, rfl⟩

theorem modifyRow (h : b.Twin b') (n : Int) {f : Row → Row} (hf : RowTwin f) : (b.modifyRow n f).Twin (b'.modifyRow n f) := by
  simp only [VtBuf.modifyRow, h.rows]
  split
  · exact h
  · exact ⟨rfl, h.cols, hf.map_modify _ h.cells⟩

theorem ringPush (b : VtBuf) (r : Row) : (b.ringPush r).Twin b := by
  unfold VtBuf.ringPush
  split
  · exact refl b
  · exact ⟨rfl, rfl, rfl⟩

theorem iff_picture : b.Twin b' ↔ b.picture = b'.picture := by
  simp only [twin_iff, picture, Prod.mk.injEq]

theorem trans {b''} (h : b.Twin b') (h' : b'.Twin b'') : b.Twin b'' :=
  iff_picture.mpr ((iff_picture.mp h).trans (iff_picture.mp h'))

theorem symm (h : b.Twin b') : b'.Twin b := iff_picture.mpr (iff_picture.mp h).symm

theorem ringPush_foldl (rows : List Row) (b : VtBuf) : (rows.foldl VtBuf.ringPush b).Twin b := by
  induction rows generalizing b with
  | nil => exact refl b
  | cons r rest ih => exact (ih (b.ringPush r)).trans (ringPush b r)

theorem pushRows (b src : VtBuf) (start count : Int) : (b.pushRows src start count).Twin b := by
  unfold VtBuf.pushRows
  extract_lets start n copied
  have pushed := ringPush_foldl copied b
  split
  · exact refl b
  · split
    · exact refl b
    · exact ⟨pushed.rows, pushed.cols, pushed.cells⟩

theorem cells_dirtyRows (top bottom : Nat) (grid : List Row) :
    (dirtyRows top bottom grid).map Row.cells = grid.map Row.cells := by
  apply ext_getElem
  · simp [dirtyRows]
  · intro i h₁ h₂
    simp only [dirtyRows, getElem_map, getElem_mapIdx]
    split <;> rfl

theorem scroll (h : b.Twin b') (top bottom count : Int) (bg : Color) :
    (b.scroll top bottom count bg).Twin (b'.scroll top bottom count bg) := by
  obtain ⟨rows, cols, grid, ring, ringCap, ringLen, ringHead, scrollGen⟩ := b
  obtain ⟨rows', cols', grid', ring', ringCap', ringLen', ringHead', scrollGen'⟩ := b'
  obtain ⟨rfl, rfl, cells⟩ := h
  dsimp only at cells
  dsimp only [VtBuf.scroll]
  generalize (if top < 0 then 0 else top) = t
  generalize (if bottom > rows then (rows : Int) else bottom) = b
  split
  · exact ⟨rfl, rfl, cells⟩
  · split
    · have pushed := fun grid ring ringCap ringLen ringHead scrollGen l =>
        ringPush_foldl l ⟨rows, cols, grid, ring, ringCap, ringLen, ringHead, scrollGen⟩
      refine ⟨?_, ?_, ?_⟩
      · split
        · rw [(pushed ..).rows, (pushed ..).rows]
        · rfl
      · split
        · rw [(pushed ..).cols, (pushed ..).cols]
        · rfl
      · simp only [cells_dirtyRows, scrolledUp, map_append, map_take, map_drop, map_replicate,
          cells]
    · refine ⟨rfl, rfl, ?_⟩
      simp only [cells_dirtyRows, scrolledDown, map_append, map_take, map_drop, map_replicate,
        cells]

theorem clearRows (h : b.Twin b') (start stop : Int) (bg : Color) :
    (b.clearRows start stop bg).Twin (b'.clearRows start stop bg) := by
  refine ⟨h.rows, h.cols, ?_⟩
  have lift : ∀ rows : List Row,
      (rows.mapIdx fun i r => if start ≤ i ∧ i < stop then
        (⟨r.cells.map fun _ => Cell.erase bg, false, true⟩ : Row) else r).map Row.cells =
      (rows.map Row.cells).mapIdx fun i cells =>
        if start ≤ i ∧ i < stop then cells.map fun _ => Cell.erase bg else cells := by
    intro rows
    apply ext_getElem
    · simp
    · intro i h₁ h₂
      simp only [getElem_map, getElem_mapIdx]
      split <;> rfl
  simp only [VtBuf.clearRows, lift, h.cells]

theorem getD {o o'} (h : Option.Rel VtBuf.Twin o o') (default : b.Twin b') : (o.getD b).Twin (o'.getD b') := by
  cases h with
  | some same => exact same
  | none => exact default

theorem option_iff {o o'} : Option.Rel VtBuf.Twin o o' ↔ o.map picture = o'.map picture := by
  cases o <;> cases o' <;> simp [iff_picture]

end VtBuf.Twin

/-- Two terminals that agree on all that the picture depends on. The scratch target of the
scrollback viewer counts only while it is shown. -/
@[mk_iff]
structure VtState.Twin (x y : VtState) : Prop where
  primary : x.primary.Twin y.primary
  alt : Option.Rel VtBuf.Twin x.alt y.alt
  scrollback : x.active = .scrollback → Option.Rel VtBuf.Twin x.scrollback y.scrollback
  active : x.active = y.active
  cursorRow : x.cursorRow = y.cursorRow
  cursorCol : x.cursorCol = y.cursorCol
  saved : x.saved = y.saved
  scrollTop : x.scrollTop = y.scrollTop
  scrollBot : x.scrollBot = y.scrollBot
  autowrap : x.modes.autowrap = y.modes.autowrap
  origin : x.modes.origin = y.modes.origin
  insert : x.modes.insert = y.modes.insert
  altscreen : x.modes.altscreen = y.modes.altscreen
  style : x.style = y.style
  charset : x.charset = y.charset
  g0Set : x.g0Set = y.g0Set
  g1Set : x.g1Set = y.g1Set
  tabstops : x.tabstops = y.tabstops

def VtState.picture (x : VtState) :=
  (x.primary.picture, x.alt.map VtBuf.picture, (if x.active = .scrollback then x.scrollback.map VtBuf.picture else none),
    x.active, x.cursorRow, x.cursorCol, x.saved, x.scrollTop, x.scrollBot, x.modes.autowrap, x.modes.origin, x.modes.insert,
    x.modes.altscreen, x.style, x.charset, x.g0Set, x.g1Set, x.tabstops)

def VtState.onAlt (st : VtState) : VtState :=
  { st.cursorSave with
    modes.altscreen := true
    alt := some (st.alt.getD (VtBuf.new st.primary.rows st.primary.cols 0))
    active := .alt
    cursorRow := 0
    cursorCol := 0
    scrollTop := 0
    scrollBot := st.primary.rows }

theorem VtState.altscreenEnter_eq (st : VtState) : st.altscreenEnter = if st.modes.altscreen then st
      else st.onAlt.modifyBuf (·.clearRows 0 st.primary.rows st.style.bg) := by
  unfold VtState.altscreenEnter
  split <;> rfl

namespace VtState.Twin

variable {x y z : VtState}

theorem iff_picture : x.Twin y ↔ x.picture = y.picture := by
  simp only [twin_iff, picture, Prod.mk.injEq, VtBuf.Twin.iff_picture, VtBuf.Twin.option_iff]
  by_cases same : x.active = y.active
  · rw [same]
    split <;> simp [*]
  · simp [same]

theorem refl (x : VtState) : x.Twin x := iff_picture.mpr rfl

section
variable (h : x.Twin y)
include h

theorem symm : y.Twin x := iff_picture.mpr (iff_picture.mp h).symm

theorem trans (h' : y.Twin z) : x.Twin z := iff_picture.mpr ((iff_picture.mp h).trans (iff_picture.mp h'))

theorem buf : x.buf.Twin y.buf := by
  unfold VtState.buf
  rw [← h.active]
  cases shown : x.active with
  | primary => exact h.primary
  | alt => exact VtBuf.Twin.getD h.alt h.primary
  | scrollback => exact VtBuf.Twin.getD (h.scrollback shown) h.primary

theorem setBuf {b b'} (same : b.Twin b') : (x.setBuf b).Twin (y.setBuf b') := by
  refine { h with primary := ?_, alt := ?_, scrollback := ?_ }
  · simp only [VtState.setBuf, h.active]
    split
    · exact same
    · exact h.primary
  · simp only [VtState.setBuf, h.active]
    split
    · exact .some same
    · exact h.alt
  · intro shown
    change x.active = .scrollback at shown
    simp only [VtState.setBuf, ← h.active]
    rw [if_pos shown, if_pos shown]
    exact .some same

theorem modifyBuf {f : VtBuf → VtBuf} (hf : ∀ b b' : VtBuf, b.Twin b' → (f b).Twin (f b')) :
    (x.modifyBuf f).Twin (y.modifyBuf f) := h.setBuf (hf _ _ h.buf)

theorem editRow {f : Row → Row} (hf : RowTwin f) : (x.editRow f).Twin (y.editRow f) := by
  simp only [VtState.editRow, h.cursorRow]
  exact h.modifyBuf fun b b' same => same.modifyRow _ (RowTwin.markDirty.comp hf)

theorem cursorClamp : x.cursorClamp.Twin y.cursorClamp :=
  { h with
    cursorRow := by simp only [VtState.cursorClamp, h.cursorRow, h.buf.rows]
    cursorCol := by simp only [VtState.cursorClamp, h.cursorCol, h.buf.cols] }

theorem cursorSave : x.cursorSave.Twin y.cursorSave :=
  { h with saved := by simp only [VtState.cursorSave, h.cursorRow, h.cursorCol, h.style] }

theorem cursorRestore : x.cursorRestore.Twin y.cursorRestore := by
  refine cursorClamp { h with cursorRow := ?_, cursorCol := ?_, style := ?_ }
  · exact congrArg SavedCursor.row h.saved
  · exact congrArg SavedCursor.col h.saved
  · exact congrArg SavedCursor.style h.saved

theorem onAlt : x.onAlt.Twin y.onAlt := by
  have fresh : (VtBuf.new x.primary.rows x.primary.cols 0).Twin (VtBuf.new y.primary.rows y.primary.cols 0) := by
    rw [h.primary.rows, h.primary.cols]
    exact VtBuf.Twin.refl _
  exact
    { h.cursorSave with
      alt := .some (VtBuf.Twin.getD h.alt fresh)
      scrollback := fun shown => by cases shown
      active := rfl
      cursorRow := rfl
      cursorCol := rfl
      scrollTop := rfl
      scrollBot := congrArg Int.ofNat h.primary.rows
      altscreen := rfl }

theorem altscreenEnter : x.altscreenEnter.Twin y.altscreenEnter := by
  simp only [VtState.altscreenEnter_eq, h.altscreen, h.primary.rows, h.style]
  split
  · exact h
  · exact h.onAlt.modifyBuf fun b b' same => same.clearRows ..

theorem altCaptured : x.altCaptured.Twin y.altCaptured := by
  have hidden : ∀ st : VtState, st.altCaptured.Twin st.primary := by
    intro st
    unfold VtState.altCaptured
    split
    · exact VtBuf.Twin.pushRows ..
    · exact VtBuf.Twin.refl _
  exact (hidden x).trans (h.primary.trans (hidden y).symm)

theorem altscreenLeave : x.altscreenLeave.Twin y.altscreenLeave := by
  simp only [VtState.altscreenLeave, h.altscreen]
  split
  · exact h
  · exact cursorRestore
      { h with
        primary := h.altCaptured
        alt := .none
        scrollback := fun shown => by cases shown
        active := rfl
        scrollTop := rfl
        scrollBot := congrArg Int.ofNat h.altCaptured.rows
        altscreen := rfl }

theorem scroll (top bottom count : Int) :
    (x.modifyBuf (·.scroll top bottom count x.style.bg)).Twin (y.modifyBuf (·.scroll top bottom count y.style.bg)) := by
  rw [h.style]
  exact h.modifyBuf fun b b' same => same.scroll ..

theorem index : x.index.Twin y.index := by
  simp only [VtState.index, h.cursorRow, h.scrollTop, h.scrollBot, h.buf.rows]
  split
  · exact h.scroll ..
  · split
    · exact { h with cursorRow := rfl, scrollTop := rfl, scrollBot := rfl }
    · exact h

theorem reverseIndex : x.reverseIndex.Twin y.reverseIndex := by
  simp only [VtState.reverseIndex, h.cursorRow, h.scrollTop, h.scrollBot]
  split
  · exact h.scroll ..
  · split
    · exact { h with cursorRow := rfl, scrollTop := rfl, scrollBot := rfl }
    · exact h

theorem putcharWrap (width : Nat) : (x.putcharWrap width).Twin (y.putcharWrap width) := by
  have wrapped := h.modifyBuf fun b b' same => same.modifyRow x.cursorRow RowTwin.wrapped
  simp only [VtState.putcharWrap, h.cursorCol, h.buf.cols, h.autowrap]
  split
  · split
    · rw [h.cursorRow] at wrapped ⊢
      exact index { wrapped with cursorCol := rfl }
    · exact { h with cursorCol := rfl }
  · exact h

theorem putcharInsert (width : Nat) : (x.putcharInsert width).Twin (y.putcharInsert width) := by
  simp only [VtState.putcharInsert, h.insert, h.cursorRow, h.cursorCol]
  split
  · exact h.modifyBuf fun b b' same => same.modifyRow _ (RowTwin.shiftRight _ _)
  · exact h

end

theorem rowTwin_putcharRow (st : VtState) (cp width : Nat) : RowTwin (st.putcharRow cp width) := by
  unfold VtState.putcharRow
  refine RowTwin.markDirty.comp ?_
  split
  · exact (RowTwin.setCell _ _).comp (RowTwin.setCell _ _)
  · exact RowTwin.setCell _ _

section
variable (h : x.Twin y)
include h

theorem putcharRow (cp width : Nat) : x.putcharRow cp width = y.putcharRow cp width := by
  funext r
  simp only [VtState.putcharRow, h.cursorCol, h.style, h.buf.cols]

theorem putcharAdvance (width : Nat) : (x.putcharAdvance width).Twin (y.putcharAdvance width) :=
  { h with cursorCol := by simp only [VtState.putcharAdvance, h.cursorCol, h.autowrap, h.buf.cols] }

theorem putchar (cp width : Nat) : (x.putchar cp width).Twin (y.putchar cp width) := by
  have ready := (h.putcharWrap width).putcharInsert width
  simp only [VtState.putchar, ready.cursorRow, ready.cursorCol, ready.buf.rows, ready.buf.cols, ready.putcharRow]
  split
  · exact ready
  · exact putcharAdvance (ready.modifyBuf fun b b' same => same.modifyRow _ (rowTwin_putcharRow _ _ _)) width

theorem tabReset : x.tabReset.Twin y.tabReset :=
  { h with tabstops := by simp only [VtState.tabReset, h.buf.cols] }

theorem tabClearAll : x.tabClearAll.Twin y.tabClearAll :=
  { h with tabstops := by simp only [VtState.tabClearAll, h.buf.cols] }

theorem tabWrite (col : Int) (stop : Bool) : (x.tabWrite col stop).Twin (y.tabWrite col stop) := by
  simp only [VtState.tabWrite, h.buf.cols, h.tabstops]
  split
  · exact { h with tabstops := rfl }
  · exact h

theorem tabNext : x.tabNext = y.tabNext := by
  funext col
  simp only [VtState.tabNext, h.buf.cols, h.tabstops]

theorem tabPrev : x.tabPrev = y.tabPrev := by
  funext col
  simp only [VtState.tabPrev, h.tabstops]

theorem opPrint (cp width : Nat) : (x.opPrint cp width).Twin (y.opPrint cp width) := by
  simp only [VtState.opPrint, h.charset, h.g0Set, h.g1Set]
  exact h.putchar _ _

theorem opExecute (c : UInt8) : (x.opExecute c).Twin (y.opExecute c) := by
  simp only [VtState.opExecute, h.cursorCol, h.tabNext]
  split
  · split
    · exact { h with cursorCol := rfl }
    · exact h
  · exact { h with cursorCol := rfl }
  · exact h.index
  · exact h.index
  · exact h.index
  · exact { h with cursorCol := rfl }
  · exact { h with charset := rfl, cursorCol := rfl }
  · exact { h with charset := rfl, cursorCol := rfl }
  · exact h

end

end VtState.Twin

end Lumimux.Vt
