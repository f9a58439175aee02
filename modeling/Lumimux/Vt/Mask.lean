import Lumimux.Vt.Canvas
import Lumimux.Vt.Lockstep

/-!
# Twins but for some columns behind the cursor

`Masked n x y`: twins once `n` columns from the cursor on are wiped.
-/

namespace Lumimux.Vt
open Lib Utf8 List

def VtState.wipe (n : Int) (st : VtState) : VtState :=
  if n ≤ 0 then st
  else st.modifyBuf (·.modifyRow st.cursorRow (·.eraseRange st.cursorCol (st.cursorCol + n) .default))

def Masked (n : Int) (x y : VtState) : Prop := (x.wipe n).Twin (y.wipe n)

def RowWithin (start stop : Int) (f : Row → Row) : Prop :=
  ∀ r : Row, (f r).cells.length = r.cells.length ∧
    ∀ i : Nat, ¬ (start ≤ i ∧ i < stop) → (f r).cells[i]? = r.cells[i]?

theorem VtBuf.modifyRow_modifyRow (b : VtBuf) (row : Int) (f g : Row → Row) :
    (b.modifyRow row f).modifyRow row g = b.modifyRow row fun r => g (f r) := by
  by_cases outside : row < 0 ∨ b.rows ≤ row
  · simp only [VtBuf.modifyRow, if_pos outside]
  · simp only [VtBuf.modifyRow, if_neg outside, modify_modify_eq]
    rfl

theorem VtBuf.twin_modifyRow (b : VtBuf) (row : Int) {f g : Row → Row} (same : ∀ r, (f r).cells = (g r).cells) :
    (b.modifyRow row f).Twin (b.modifyRow row g) := by
  unfold VtBuf.modifyRow
  split
  · exact VtBuf.Twin.refl b
  · refine ⟨rfl, rfl, ?_⟩
    apply ext_getElem?
    intro i
    simp only [getElem?_map, getElem?_modify]
    cases b.grid[i]? with
    | none => rfl
    | some r =>
      simp only [Option.map_some, Option.map_eq_map, Option.some.injEq]
      split
      · exact same r
      · rfl

theorem RowWithin.erased {start stop : Int} {f : Row → Row} (h : RowWithin start stop f) (r : Row) :
    ((f r).eraseRange start stop .default).cells = (r.eraseRange start stop .default).cells := by
  obtain ⟨length, outside⟩ := h r
  simp only [Row.eraseRange]
  apply ext_getElem?
  intro i
  simp only [getElem?_mapIdx]
  by_cases inside : start ≤ i ∧ i < stop
  · simp only [if_pos inside]
    by_cases bound : i < r.cells.length
    · rw [getElem?_eq_getElem bound, getElem?_eq_getElem (by rw [length]; exact bound)]
      rfl
    · rw [getElem?_eq_none (by omega), getElem?_eq_none (by omega)]
  · simp only [if_neg inside, outside i inside]

theorem rowWithin_eraseRange {start stop low high : Int} (starts : low ≤ start) (stops : stop ≤ high) (bg : Color) :
    RowWithin low high (·.eraseRange start stop bg) := by
  intro r
  refine ⟨length_mapIdx, fun i outside => ?_⟩
  simp only [Row.eraseRange, getElem?_mapIdx]
  have elsewhere : ¬ (start ≤ i ∧ i < stop) := fun inside => outside ⟨by omega, by omega⟩
  simp only [if_neg elsewhere, Option.map_id_fun', id]

namespace VtState

variable {n : Int}

theorem wipe_pos (pos : 0 < n) (st : VtState) :
    st.wipe n = st.setBuf (st.buf.modifyRow st.cursorRow (·.eraseRange st.cursorCol (st.cursorCol + n) .default)) := by
  rw [wipe, if_neg (not_le.mpr pos)]
  rfl

theorem wipe_nonpos (empty : n ≤ 0) (st : VtState) : st.wipe n = st := if_pos empty

theorem wipe_frame (n : Int) (st : VtState) :
    (st.wipe n).cursorRow = st.cursorRow ∧ (st.wipe n).cursorCol = st.cursorCol ∧ (st.wipe n).modes = st.modes ∧
      (st.wipe n).style = st.style ∧ (st.wipe n).buf.rows = st.buf.rows ∧ (st.wipe n).buf.cols = st.buf.cols := by
  rcases le_or_gt n 0 with empty | pos
  · rw [wipe_nonpos empty]
    exact ⟨rfl, rfl, rfl, rfl, rfl, rfl⟩
  · rw [wipe_pos pos, buf_setBuf, VtBuf.rows_modifyRow, VtBuf.cols_modifyRow]
    exact ⟨rfl, rfl, rfl, rfl, rfl, rfl⟩

theorem wipe_editRow (pos : 0 < n) (st : VtState) (f : Row → Row) : (st.setBuf (st.buf.modifyRow st.cursorRow f)).wipe n =
      st.setBuf (st.buf.modifyRow st.cursorRow
        fun r => (f r).eraseRange st.cursorCol (st.cursorCol + n) .default) := by
  rw [wipe_pos pos, buf_setBuf, setBuf_setBuf]
  exact congrArg st.setBuf (VtBuf.modifyRow_modifyRow ..)

theorem OnGrid.wipe {st : VtState} (h : st.OnGrid) (n : Int) : (st.wipe n).OnGrid := by
  obtain ⟨row, col, -, -, rows, -⟩ := st.wipe_frame n
  exact ⟨row ▸ h.row_low, row ▸ rows ▸ h.row_high, col ▸ h.col_low⟩

end VtState

namespace Masked

variable {n m : Int} {x y z : VtState}

theorem symm (h : Masked n x y) : Masked n y x := VtState.Twin.symm h

theorem trans (h : Masked n x y) (h' : Masked n y z) : Masked n x z := VtState.Twin.trans h h'

theorem frame (h : Masked n x y) : x.cursorRow = y.cursorRow ∧ x.cursorCol = y.cursorCol ∧ x.modes.insert = y.modes.insert ∧
      x.buf.rows = y.buf.rows ∧ x.buf.cols = y.buf.cols := by
  obtain ⟨row, col, modes, -, rows, cols⟩ := x.wipe_frame n
  obtain ⟨row', col', modes', -, rows', cols'⟩ := y.wipe_frame n
  refine ⟨?_, ?_, ?_, ?_, ?_⟩
  · rw [← row, ← row', VtState.Twin.cursorRow h]
  · rw [← col, ← col', VtState.Twin.cursorCol h]
  · rw [← modes, ← modes', VtState.Twin.insert h]
  · rw [← rows, ← rows', (VtState.Twin.buf h).rows]
  · rw [← cols, ← cols', (VtState.Twin.buf h).cols]

theorem onGrid (h : Masked n x y) (onGrid : x.OnGrid) : y.OnGrid := by
  obtain ⟨row, col, -, rows, -⟩ := h.frame
  exact ⟨row ▸ onGrid.row_low, row ▸ rows ▸ onGrid.row_high, col ▸ onGrid.col_low⟩

theorem twin (h : Masked n x y) (empty : n ≤ 0) : x.Twin y := by
  unfold Masked at h
  rwa [VtState.wipe_nonpos empty, VtState.wipe_nonpos empty] at h

theorem of_twin (h : x.Twin y) : Masked n x y := by
  rcases le_or_gt n 0 with empty | pos
  · rw [Masked, VtState.wipe_nonpos empty, VtState.wipe_nonpos empty]
    exact h
  · rw [Masked, VtState.wipe_pos pos, VtState.wipe_pos pos, h.cursorRow, h.cursorCol]
    exact h.setBuf (h.buf.modifyRow _ (RowTwin.eraseRange _ _ _))

theorem editRow (pos : 0 < n) {f : Row → Row} (within : RowWithin x.cursorCol (x.cursorCol + n) f) :
    Masked n (x.modifyBuf (·.modifyRow x.cursorRow f)) x := by
  show ((x.setBuf _).wipe n).Twin _
  rw [VtState.wipe_editRow pos, VtState.wipe_pos pos]
  exact (VtState.Twin.refl x).setBuf (x.buf.twin_modifyRow _ fun r => within.erased r)

theorem mono (h : Masked n x y) (le : n ≤ m) : Masked m x y := by
  rcases le_or_gt n 0 with empty | pos
  · exact of_twin (h.twin empty)
  · have covered : ∀ st : VtState, Masked m (st.wipe n) st := by
      intro st
      rw [VtState.wipe_pos pos]
      exact editRow (by omega) (rowWithin_eraseRange le_rfl (by omega) .default)
    exact (covered x).symm.trans ((of_twin h).trans (covered y))

end Masked

theorem erased_writeGlyph {col : Nat} {start : Int} (starts : start = col) (n : Int) {c : Cell}
    (one_or_two : c.width = 1 ∨ c.width = 2) (r : Row) :
    (Row.eraseRange ⟨writeGlyph col c r.cells, r.wrapped, r.dirty⟩ (start + c.width) (start + n) .default).cells =
      writeGlyph col c (r.eraseRange start (start + n) .default).cells := by
  simp only [Row.eraseRange, starts]
  apply ext_getElem?
  intro i
  rcases one_or_two with width | width
  · simp only [writeGlyph, width, OfNat.one_ne_ofNat, if_false, getElem?_mapIdx, getElem?_set,
      length_mapIdx]
    by_cases here : col = i
    · grind
    · grind
  · simp only [writeGlyph, width, if_true, getElem?_mapIdx, getElem?_set, length_mapIdx,
      length_set]
    by_cases here : col = i
    · grind
    · by_cases next : col + 1 = i
      · grind
      · grind

/-- A character is written at the cursor without a wrap or a shift. -/
structure VtState.Fits (st : VtState) (width : Nat) : Prop where
  onGrid : st.OnGrid
  insert : st.modes.insert = false
  one_or_two : width = 1 ∨ width = 2
  room : st.cursorCol + width ≤ st.buf.cols

namespace VtState.Fits

variable {st : VtState} {width : Nat}

theorem putchar (h : st.Fits width) (cp : Nat) : st.putchar cp width =
      { st.setBuf (st.buf.modifyRow st.cursorRow (st.putcharRow cp width)) with
        cursorCol := advancedCol st.modes.autowrap st.buf.cols (st.cursorCol + width) } :=
  VtState.putchar_fits h.insert h.onGrid h.room (by have := h.one_or_two; omega) cp

theorem wipe (h : st.Fits width) (n : Int) : (st.wipe n).Fits width := by
  obtain ⟨-, col, modes, -, -, cols⟩ := st.wipe_frame n
  exact ⟨h.onGrid.wipe n, modes ▸ h.insert, h.one_or_two, by rw [col, cols]; exact h.room⟩

theorem erased (h : st.Fits width) (cp : Nat) (n : Int) (r : Row) :
    ((st.putcharRow cp width r).eraseRange (st.cursorCol + width) (st.cursorCol + n) .default).cells =
      (st.putcharRow cp width (r.eraseRange st.cursorCol (st.cursorCol + n) .default)).cells := by
  have col : st.cursorCol = st.cursorCol.toNat := (Int.toNat_of_nonneg h.onGrid.col_low).symm
  have fits : st.cursorCol.toNat + width ≤ st.buf.cols := by
    have room := h.room
    omega
  have written := putcharRow_cells col fits cp
  rw [written]
  have behind := erased_writeGlyph col n (c := ⟨cp, st.style, width⟩) h.one_or_two r
  rw [← behind]
  simp only [Row.eraseRange, written]

theorem wipe_putchar (h : st.Fits width) (cp : Nat) {n : Int} (inside : st.cursorCol + n ≤ st.buf.cols) :
    ((st.putchar cp width).wipe (n - width)).Twin ((st.wipe n).putchar cp width) := by
  obtain ⟨row, col, modes, style, -, cols⟩ := st.wipe_frame n
  rcases le_or_gt n 0 with empty | pos
  · rw [wipe_nonpos empty, wipe_nonpos (by omega)]
    exact Twin.refl _
  have same : (st.wipe n).putcharRow cp width = st.putcharRow cp width := by
    funext r
    simp only [putcharRow, col, style, cols]
  have right : (st.wipe n).putchar cp width =
      { st.setBuf (st.buf.modifyRow st.cursorRow fun r =>
          st.putcharRow cp width (r.eraseRange st.cursorCol (st.cursorCol + n) .default)) with
        cursorCol := advancedCol st.modes.autowrap st.buf.cols (st.cursorCol + width) } := by
    rw [(h.wipe n).putchar, same, row, col, modes, cols, wipe_pos pos, buf_setBuf, setBuf_setBuf,
      VtBuf.modifyRow_modifyRow]
  rw [right, h.putchar]
  rcases le_or_gt (n - width) 0 with covered | left
  · rw [wipe_nonpos covered]
    refine { (Twin.refl st).setBuf (st.buf.twin_modifyRow _ fun r => ?_) with cursorCol := rfl }
    rw [← h.erased cp n r]
    have nothing := rowWithin_eraseRange (le_refl (st.cursorCol + width)) (le_refl (st.cursorCol + n)) .default
      (st.putcharRow cp width r)
    exact (ext_getElem? fun i => nothing.2 i (by omega)).symm
  · have moved : advancedCol st.modes.autowrap st.buf.cols (st.cursorCol + width) = st.cursorCol + width := by
      have room : st.cursorCol + width < st.buf.cols := by omega
      simp only [advancedCol]
      rw [if_neg (by omega), if_neg (by omega)]
    have wiped : VtState.wipe (n - width)
        { st.setBuf (st.buf.modifyRow st.cursorRow (st.putcharRow cp width)) with cursorCol := st.cursorCol + width } =
        { st.setBuf (st.buf.modifyRow st.cursorRow fun r =>
            (st.putcharRow cp width r).eraseRange (st.cursorCol + width) (st.cursorCol + n) .default) with
          cursorCol := st.cursorCol + width } := by
      rw [wipe_pos left]
      show { (st.setBuf _).setBuf ((st.setBuf _).buf.modifyRow st.cursorRow _) with
        cursorCol := st.cursorCol + width } = _
      rw [buf_setBuf, setBuf_setBuf, VtBuf.modifyRow_modifyRow]
      simp only [show st.cursorCol + width + (n - width) = st.cursorCol + n by omega]
    rw [moved, wiped]
    exact { (Twin.refl st).setBuf (st.buf.twin_modifyRow _ fun r => h.erased cp n r) with cursorCol := rfl }

end VtState.Fits

namespace Masked

variable {n : Int} {x y : VtState} {width : Nat}

theorem fits (h : Masked n x y) (fits : x.Fits width) : y.Fits width := by
  obtain ⟨-, col, insert, -, cols⟩ := h.frame
  exact ⟨h.onGrid fits.onGrid, insert ▸ fits.insert, fits.one_or_two, col ▸ cols ▸ fits.room⟩

theorem putchar (h : Masked n x y) (fits : x.Fits width) (inside : x.cursorCol + n ≤ x.buf.cols) (cp : Nat) :
    Masked (n - width) (x.putchar cp width) (y.putchar cp width) := by
  obtain ⟨-, col, -, -, cols⟩ := h.frame
  have left := fits.wipe_putchar cp inside
  have right := (h.fits fits).wipe_putchar cp (n := n) (by rw [← col, ← cols]; exact inside)
  exact left.trans ((VtState.Twin.putchar h cp width).trans right.symm)

theorem opPrint (h : Masked n x y) (fits : x.Fits width) (inside : x.cursorCol + n ≤ x.buf.cols) (cp : Nat) :
    Masked (n - width) (x.opPrint cp width) (y.opPrint cp width) := by
  -- the character set is no part of what the mask hides
  have unhidden : ∀ st : VtState, (st.wipe n).charset = st.charset ∧ (st.wipe n).g0Set = st.g0Set ∧
      (st.wipe n).g1Set = st.g1Set := by
    intro st
    unfold VtState.wipe
    split <;> exact ⟨rfl, rfl, rfl⟩
  obtain ⟨charset, g0Set, g1Set⟩ := unhidden x
  obtain ⟨charset', g0Set', g1Set'⟩ := unhidden y
  have sameCharset : x.charset = y.charset := by rw [← charset, ← charset', VtState.Twin.charset h]
  have sameG0 : x.g0Set = y.g0Set := by rw [← g0Set, ← g0Set', VtState.Twin.g0Set h]
  have sameG1 : x.g1Set = y.g1Set := by rw [← g1Set, ← g1Set', VtState.Twin.g1Set h]
  simp only [VtState.opPrint, sameCharset, sameG0, sameG1]
  exact h.putchar fits inside _

end Masked

structure VtState.Advanced (k : Int) (st st' : VtState) : Prop where
  onGrid : st'.OnGrid
  insert : st'.modes.insert = st.modes.insert
  row : st'.cursorRow = st.cursorRow
  cols : st'.buf.cols = st.buf.cols
  col_le : st'.cursorCol ≤ st.cursorCol + k
  col_eq : st.cursorCol + k < st.buf.cols → st'.cursorCol = st.cursorCol + k

theorem VtState.Advanced.trans {j k : Int} {x y z : VtState} (h : x.Advanced j y) (h' : y.Advanced k z) (right : 0 ≤ k) :
    x.Advanced (j + k) z where
  onGrid := h'.onGrid
  insert := h'.insert.trans h.insert
  row := h'.row.trans h.row
  cols := h'.cols.trans h.cols
  col_le := by
    have := h.col_le
    have := h'.col_le
    omega
  col_eq inside := by
    have first := h.col_eq (by omega)
    have second := h'.col_eq (by rw [h.cols, first]; omega)
    rw [second, first]
    omega

theorem VtState.Fits.advanced {st : VtState} {width : Nat} (h : st.Fits width) (cp : Nat) :
    st.Advanced width (st.opPrint cp width) := by
  obtain ⟨row_low, row_high, col_low⟩ := h.onGrid
  have room := h.room
  have wide := h.one_or_two
  rw [VtState.opPrint, h.putchar]
  exact {
    onGrid := {
      row_low := row_low
      row_high := by
        show st.cursorRow < (VtState.buf (st.setBuf _)).rows
        rw [VtState.buf_setBuf, VtBuf.rows_modifyRow]
        exact row_high
      col_low := (VtState.advancedCol_mem _ (by omega) (by omega)).1 }
    insert := rfl
    row := rfl
    cols := by
      show (VtState.buf (st.setBuf _)).cols = _
      rw [VtState.buf_setBuf, VtBuf.cols_modifyRow]
    col_le := by
      show VtState.advancedCol _ _ _ ≤ _
      simp only [VtState.advancedCol]
      split_ifs <;> omega
    col_eq := fun inside => by
      show VtState.advancedCol _ _ _ = _
      simp only [VtState.advancedCol]
      rw [if_neg (by omega), if_neg (by omega)] }

def Prints (w : WidthTable) (cp : Nat) : Prop := Scalar cp ∧ 0 < runeWidth w cp

def columns (w : WidthTable) (text : List Nat) : Int := (text.map (runeWidth w)).sum

variable {w : WidthTable} {text : List Nat}

theorem columns_nonneg (prints : ∀ cp ∈ text, Prints w cp) : 0 ≤ columns w text := by
  refine sum_nonneg fun width member => ?_
  obtain ⟨cp, inText, rfl⟩ := mem_map.mp member
  exact (prints cp inText).2.le

theorem emitPrint_of_prints {cp : Nat} (prints : Prints w cp) : emitPrint w cp = .print cp (runeWidth w cp).toNat := by
  rw [emitPrint, if_neg (by have := prints.2; omega)]

theorem Prints.printable {cp : Nat} (prints : Prints w cp) : Printable cp :=
  have plain := printable_of_runeWidth_pos prints.2
  ⟨prints.1, plain.1, plain.2⟩

theorem Masked.printText {n : Int} {x y : VtState} (h : Masked n x y) (prints : ∀ cp ∈ text, Prints w cp)
    (onGrid : x.OnGrid) (insert : x.modes.insert = false) (inside : x.cursorCol + n ≤ x.buf.cols)
    (room : x.cursorCol + columns w text ≤ x.buf.cols) :
    Masked (n - columns w text) ((text.map (emitPrint w)).foldl VtState.apply x)
        ((text.map (emitPrint w)).foldl VtState.apply y) ∧
      x.Advanced (columns w text) ((text.map (emitPrint w)).foldl VtState.apply x) := by
  induction text generalizing n x y with
  | nil =>
    have none : columns w [] = 0 := rfl
    rw [none, sub_zero]
    exact ⟨h, onGrid, rfl, rfl, rfl, (add_zero _).ge, fun _ => (add_zero _).symm⟩
  | cons cp rest ih =>
    have later : ∀ c ∈ rest, Prints w c := fun c member => prints c (mem_cons_of_mem _ member)
    have this := prints cp mem_cons_self
    have pos := this.2
    have atMost := runeWidth_le_two w cp
    have behind := columns_nonneg later
    have split : columns w (cp :: rest) = runeWidth w cp + columns w rest := by
      simp only [columns, map_cons, sum_cons]
    have width : ((runeWidth w cp).toNat : Int) = runeWidth w cp := Int.toNat_of_nonneg pos.le
    have fits : x.Fits (runeWidth w cp).toNat := ⟨onGrid, insert, by omega, by omega⟩
    have advanced := fits.advanced cp
    have masked := h.opPrint fits inside cp
    rw [width] at advanced masked
    have moved := advanced.col_le
    obtain ⟨maskedRest, advancedRest⟩ := ih masked later advanced.onGrid (advanced.insert.trans insert)
      (by rw [advanced.cols]; omega) (by rw [advanced.cols]; omega)
    rw [map_cons, foldl_cons, foldl_cons, emitPrint_of_prints this, split]
    refine ⟨?_, advanced.trans advancedRest behind⟩
    rw [show n - (runeWidth w cp + columns w rest) = n - runeWidth w cp - columns w rest by omega]
    exact maskedRest

end Lumimux.Vt
