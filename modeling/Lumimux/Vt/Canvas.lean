import Lumimux.Lib.ListEdit
import Lumimux.Vt.BufInvariant
import Lumimux.Vt.Emulator

/-!
# Painting a screen

`Canvas` describes a state while it is painted: its cells, cursor and style, and that all else is as in a base state.
-/

namespace Lumimux.Vt
open Lib List

def VtState.screen (st : VtState) : List (List Cell) := st.buf.grid.map Row.cells

def VtState.frame (st : VtState) : VtState :=
  { st.setBuf (VtBuf.new 0 0 0) with cursorRow := 0, cursorCol := 0, style := {} }

theorem VtState.buf_setBuf (st : VtState) (b : VtBuf) : (st.setBuf b).buf = b := by
  cases active : st.active <;> simp [VtState.buf, VtState.target, VtState.setBuf, active]

theorem VtState.setBuf_setBuf (st : VtState) (b b' : VtBuf) : (st.setBuf b).setBuf b' = st.setBuf b' := by
  simp only [VtState.setBuf]
  congr 1 <;> split_ifs <;> rfl

theorem VtState.frame_setBuf (st : VtState) (b : VtBuf) : (st.setBuf b).frame = st.frame := by
  rw [VtState.frame, VtState.setBuf_setBuf]
  rfl

def glyphCells (cp : Nat) (s : Style) (width : Nat) : List Cell :=
  ⟨cp, s, width⟩ :: replicate (width - 1) Cell.continuation

def writeGlyph (col : Nat) (c : Cell) (cells : List Cell) : List Cell :=
  if c.width = 2 then (cells.set col c).set (col + 1) Cell.continuation else cells.set col c

theorem length_writeGlyph (col : Nat) (c : Cell) (cells : List Cell) : (writeGlyph col c cells).length = cells.length := by
  unfold writeGlyph
  split
  · rw [length_set, length_set]
  · rw [length_set]

theorem writeGlyph_middle (done rest : List Cell) {under cp width} (s : Style) (one_or_two : width = 1 ∨ width = 2)
    (covered : under.length = width) :
    writeGlyph done.length ⟨cp, s, width⟩ (done ++ (under ++ rest)) = done ++ (glyphCells cp s width ++ rest) := by
  rcases one_or_two with rfl | rfl
  · obtain ⟨a, rfl⟩ := length_eq_one_iff.mp covered
    exact set_middle done a rest _
  · obtain ⟨a, b, rfl⟩ := length_eq_two.mp covered
    have first := set_middle done a (b :: rest) ⟨cp, s, 2⟩
    have second := set_middle (done ++ [⟨cp, s, 2⟩]) b rest Cell.continuation
    rw [length_append, length_singleton, append_assoc, append_assoc] at second
    rw [writeGlyph, if_pos rfl, show [a, b] ++ rest = a :: b :: rest from rfl, first]
    exact second

theorem VtState.putcharRow_cells {st : VtState} {col width : Nat} (at_col : st.cursorCol = col)
    (fits : col + width ≤ st.buf.cols) (cp : Nat) (r : Row) :
    (st.putcharRow cp width r).cells = writeGlyph col ⟨cp, st.style, width⟩ r.cells := by
  simp only [VtState.putcharRow, Row.markDirty, at_col, Int.toNat_natCast, writeGlyph]
  by_cases wide : width = 2
  · rw [if_pos ⟨wide, by omega⟩, if_pos wide]
    rfl
  · rw [if_neg fun both => wide both.1, if_neg wide]
    rfl

@[mk_iff] structure VtState.OnGrid (st : VtState) : Prop where
  row_low : 0 ≤ st.cursorRow
  row_high : st.cursorRow < st.buf.rows
  col_low : 0 ≤ st.cursorCol

theorem VtState.putchar_fits {st : VtState} {width : Nat} (insert : st.modes.insert = false) (onGrid : st.OnGrid)
    (fits : st.cursorCol + width ≤ st.buf.cols) (pos : 0 < width) (cp : Nat) : st.putchar cp width =
      { st.setBuf (st.buf.modifyRow st.cursorRow (st.putcharRow cp width)) with
        cursorCol := VtState.advancedCol st.modes.autowrap st.buf.cols (st.cursorCol + width) } := by
  have wrap : st.putcharWrap width = st := by
    rw [VtState.putcharWrap, if_neg (by omega)]
  have shift : st.putcharInsert width = st := by
    simp [VtState.putcharInsert, insert]
  have inside : ¬ (st.cursorRow < 0 ∨ st.buf.rows ≤ st.cursorRow ∨ st.cursorCol < 0 ∨ st.buf.cols ≤ st.cursorCol) := by
    obtain ⟨row_low, row_high, col_low⟩ := onGrid
    omega
  rw [VtState.putchar, wrap, shift, if_neg inside, VtState.modifyBuf, VtState.putcharAdvance, VtState.buf_setBuf,
    VtBuf.cols_modifyRow]
  rfl

/-- A state that is being painted. -/
structure Canvas (base : VtState) (rows cols : Nat) (cells : List (List Cell)) (row col : Nat) (style : Style)
    (st : VtState) : Prop where
  frame : st.frame = base.frame
  shape : BufOk rows cols st.buf
  screen : st.screen = cells
  row : st.cursorRow = row
  col : st.cursorCol = col
  style : st.style = style

structure Paintable (base : VtState) : Prop where
  autowrap : base.modes.autowrap = true
  insert : base.modes.insert = false
  origin : base.modes.origin = false
  charset : base.charset = 0
  g0Set : base.g0Set = 0

namespace Canvas

variable {base st : VtState} {rows cols row col : Nat} {cells : List (List Cell)} {style : Style}

section
variable (h : Canvas base rows cols cells row col style st)
include h

theorem modes : st.modes = base.modes :=
  (congrArg VtState.modes h.frame :)

theorem sgr (params : List Int) :
    Canvas base rows cols cells row col (csiSgr params style) (st.apply (.csi params 0 0x6D)) where
  frame := h.frame
  shape := h.shape
  screen := h.screen
  row := h.row
  col := h.col
  style := by
    show csiSgr params st.style = _
    rw [h.style]

theorem cup (paintable : Paintable base) {r c} (hr : r < rows) (hc : c < cols) :
    Canvas base rows cols cells r c style (st.apply (.csi [((r + 1 : Nat) : Int), ((c + 1 : Nat) : Int)] 0 0x48)) := by
  have origin : st.modes.origin = false := by rw [h.modes, paintable.origin]
  have addressed : st.addressedRow (r + 1) = r := by
    simp [VtState.addressedRow, origin]
  have moved : st.apply (.csi [((r + 1 : Nat) : Int), ((c + 1 : Nat) : Int)] 0 0x48) =
      { st with cursorRow := r, cursorCol := c } := by
    show VtState.cursorClamp { st with cursorRow := st.addressedRow (r + 1), cursorCol := ((c + 1 : Nat) : Int) - 1 } = _
    have row' : VtState.clamp (r : Int) st.buf.rows = r :=
      VtState.clamp_of_mem (Int.natCast_nonneg r) (by rw [h.shape.rows_eq]; exact_mod_cast hr)
    have col' : VtState.clamp (((c + 1 : Nat) : Int) - 1) st.buf.cols = c := by
      rw [show ((c + 1 : Nat) : Int) - 1 = c by omega]
      exact VtState.clamp_of_mem (Int.natCast_nonneg c) (by rw [h.shape.cols_eq]; exact_mod_cast hc)
    rw [addressed, VtState.cursorClamp]
    exact congrArg₂ (fun a b : Int => { st with cursorRow := a, cursorCol := b }) row' col'
  rw [moved]
  exact ⟨h.frame, h.shape, h.screen, rfl, rfl, h.style⟩

end

theorem print (paintable : Paintable base) {above below : List (List Cell)} {done under rest : List Cell}
    (h : Canvas base rows cols (above ++ (done ++ (under ++ rest)) :: below) above.length done.length style st)
    (cp : Nat) {width : Nat} (one_or_two : width = 1 ∨ width = 2) (covered : under.length = width) :
    Canvas base rows cols (above ++ (done ++ (glyphCells cp style width ++ rest)) :: below) above.length
      (done.length + width) style (st.apply (.print cp width)) := by
  -- the row and the columns under the character lie inside the grid
  have in_row : above.length < st.buf.rows := by
    have length := congrArg List.length h.screen
    rw [VtState.screen, length_map, h.shape.grid_length, length_append, length_cons] at length
    rw [h.shape.rows_eq]
    omega
  have fits : done.length + width ≤ st.buf.cols := by
    have member : done ++ (under ++ rest) ∈ st.screen := by
      rw [h.screen]
      simp
    obtain ⟨r, isRow, same⟩ := mem_map.mp member
    have length := h.shape.grid_rows r isRow
    rw [RowOk, same, length_append, length_append] at length
    rw [h.shape.cols_eq]
    omega
  have charset : st.charset = 0 := (congrArg VtState.charset h.frame :).trans paintable.charset
  have g0Set : st.g0Set = 0 := (congrArg VtState.g0Set h.frame :).trans paintable.g0Set
  have autowrap : st.modes.autowrap = true := by rw [h.modes, paintable.autowrap]
  have insert : st.modes.insert = false := by rw [h.modes, paintable.insert]
  have written := VtState.putcharRow_cells h.col fits cp
  have translated : st.apply (.print cp width) = st.putchar cp width := by
    show st.opPrint cp width = _
    simp [VtState.opPrint, charset, g0Set]
  have onGrid : st.OnGrid := by
    have row := h.row
    have col := h.col
    constructor <;> omega
  have edit : st.buf.modifyRow st.cursorRow (st.putcharRow cp width) =
      { st.buf with grid := st.buf.grid.modify above.length (st.putcharRow cp width) } := by
    rw [VtBuf.modifyRow, h.row, if_neg (by omega), Int.toNat_natCast]
  have moved : VtState.advancedCol st.modes.autowrap st.buf.cols (st.cursorCol + width) =
      ((done.length + width : Nat) : Int) := by
    rw [autowrap, VtState.advancedCol_of_le (by rw [h.col]; omega), h.col, Nat.cast_add]
  rw [translated, VtState.putchar_fits insert onGrid (by rw [h.col]; omega) (by omega), edit, moved]
  exact {
    frame := (VtState.frame_setBuf st _).trans h.frame
    shape := by
      show BufOk rows cols (VtState.buf (st.setBuf _))
      rw [VtState.buf_setBuf]
      refine h.shape.setGrid (by rw [length_modify]; exact h.shape.grid_length) fun r member => ?_
      obtain ⟨i, bound, rfl⟩ := getElem_of_mem member
      rw [getElem_modify]
      split
      · rw [RowOk, written, length_writeGlyph]
        exact h.shape.grid_rows _ (getElem_mem _)
      · exact h.shape.grid_rows _ (getElem_mem _)
    screen := by
      show (VtState.buf (st.setBuf _)).grid.map Row.cells = _
      rw [VtState.buf_setBuf]
      show (st.buf.grid.modify above.length (st.putcharRow cp width)).map Row.cells = _
      rw [map_modify written, show st.buf.grid.map Row.cells = st.screen from rfl, h.screen, modify_middle, h.style,
        writeGlyph_middle done rest style one_or_two covered]
    row := h.row
    col := rfl
    style := h.style }

end Canvas

end Lumimux.Vt
