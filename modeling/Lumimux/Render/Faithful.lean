import Lumimux.Lib.Run
import Lumimux.Render.Frames

/-!
# The terminal follows the frames

`InStep`: the terminal shows the last frame and the renderer knows it.
-/

namespace Lumimux.Librender
open Lib Utf8 Vt List

structure Frame where
  cells : List Cell
  cursorRow : Nat
  cursorCol : Nat
  cursorVis : Int := 1

def flatRow (cells : List Cell) (cols r : Nat) : List Cell := (cells.drop (r * cols)).take cols

def Frame.row (f : Frame) (cols i : Nat) : List Cell := flatRow f.cells cols i

/-- Rows of whole glyphs, and the cursor on the screen. -/
@[mk_iff] structure Frame.WellFormed (w : WidthTable) (rows cols : Nat) (f : Frame) : Prop where
  row : ∀ i < rows, RowOk w cols (f.row cols i)
  cursorRow : f.cursorRow < rows
  cursorCol : f.cursorCol < cols

/-- No cell is predicted. -/
def Frame.Real (f : Frame) : Prop := ∀ c ∈ f.cells, c.style.attrs.predicted = false

structure Console where
  render : Render
  term : Term
  frame : Frame

namespace Console

variable (w : WidthTable) (remains : Remains)

def full (c : Console) (f : Frame) : Console :=
  let done := renderCellsFull c.render f.cells c.render.rows c.render.cols f.cursorRow f.cursorCol f.cursorVis
  { render := done.1, term := Term.feed w remains c.term (c.render.bytes done.2), frame := f }

def diffFlags (c : Console) (rowDirty : Option (List Bool)) (f : Frame) : Console :=
  let done := renderCellsDiff c.render f.cells c.render.rows c.render.cols f.cursorRow f.cursorCol f.cursorVis rowDirty
  { render := done.1, term := Term.feed w remains c.term (c.render.bytes done.2), frame := f }

def diff (c : Console) (f : Frame) : Console := c.diffFlags w remains none f

/-- **The terminal shows the last frame**, cell for cell, and its cursor is where the frame asks for it. -/
structure Faithful (c : Console) : Prop where
  cells : ∀ row < c.term.rows, ∀ col < c.term.cols, display.Shown (c.term.screen row) (cellAt (c.frame.row c.term.cols row)) col
  cursor : c.term.row = c.frame.cursorRow ∧ c.term.col = c.frame.cursorCol

/-- Terminal and renderer have one size. -/
structure Fits (c : Console) : Prop where
  txl : c.render.txl = none
  rows : c.render.rows = c.term.rows
  cols : c.render.cols = c.term.cols

structure Settled (P : Nat → (Nat → Cell) → List Cell → Prop) (c : Console) : Prop where
  fits : c.Fits
  lines : ∀ i < c.term.rows, P i (c.term.screen i) (rowAt c.render.shadow i)
  cursorRow : c.term.row = c.frame.cursorRow
  cursorCol : c.term.col = c.frame.cursorCol
  penRow : c.render.pen.row = c.frame.cursorRow
  penCol : c.render.pen.col = c.frame.cursorCol
  style : c.term.style = c.render.pen.style
  sgr : c.render.pen.style.attrs.Sgr

structure InStep (c : Console) : Prop
    extends Settled (fun i line ss => LineShown c.term.cols line (cellAt (c.frame.row c.term.cols i)) (cellAt ss)) c where
  wellFormed : c.frame.WellFormed w c.term.rows c.term.cols

variable {w remains} {c : Console} {f : Frame}

theorem Faithful.width (faithful : c.Faithful) {row col} (inRows : row < c.term.rows) (inCols : col < c.term.cols) :
    (c.term.screen row col).width = (cellAt (c.frame.row c.term.cols row) col).width :=
  (faithful.cells row inRows col inCols).width

theorem InStep.faithful (inStep : c.InStep w) : c.Faithful :=
  ⟨fun row inRows => (inStep.lines row inRows).shown, inStep.cursorRow, inStep.cursorCol⟩

end Console

theorem length_frameRows (cells : List Cell) (cols rows rcols : Nat) : (frameRows cells cols rows rcols).length = rows := by
  rw [frameRows, length_map, length_range]

theorem rowAt_frameRows (f : Frame) {rows cols i} (inside : i < rows) :
    rowAt (frameRows f.cells cols rows cols) i = f.row cols i := by
  rw [rowAt, frameRows, getD_eq_getElem _ _ (by rw [length_map, length_range]; exact inside), getElem_map,
    getElem_range]
  rfl

theorem shadowClear_clear (rows cols i : Nat) : ∀ s ∈ rowAt (shadowClear rows cols) i, s = Cell.clear := by
  intro s member
  by_cases inside : i < rows
  · rw [rowAt, shadowClear, getD_replicate _ inside] at member
    exact eq_of_mem_replicate member
  · rw [rowAt, shadowClear, getD_eq_default _ _ (by rw [length_replicate]; omega)] at member
    cases member

variable {w : WidthTable} {remains : Remains} {t₀ : Term} {d : Draw}

section
variable (tracked : Tracked w remains t₀ d)
include tracked

theorem resetSgr_tracked : Tracked w remains t₀ d.resetSgr ∧ d.resetSgr.screen w remains t₀ = d.screen w remains t₀ := by
  have after : d.resetSgr.term w remains t₀ = { d.term w remains t₀ with style := {} } := by
    rw [term_of_out w remains t₀ rfl]
    rfl
  refine ⟨⟨?_, ?_, ?_, ⟨rfl, rfl⟩, plain_emit tracked trivial⟩, ?_⟩
  · rw [after]
    exact tracked.row
  · rw [after]
    exact tracked.col
  · rw [after]
    rfl
  · rw [Draw.screen, after]
    rfl

theorem cursorVis_tracked (vis : Int) :
    Tracked w remains t₀ (d.cursorVis vis) ∧ (d.cursorVis vis).screen w remains t₀ = d.screen w remains t₀ := by
  unfold Draw.cursorVis
  split
  · exact ⟨tracked, rfl⟩
  · exact still_tracked tracked rfl trivial (fun _ => rfl) rfl rfl rfl

end

namespace Console

variable {c : Console} {f : Frame}

theorem Settled.of_tracked {P : Nat → (Nat → Cell) → List Cell → Prop} (fits : c.Fits)
    (tracked : Tracked w remains c.term d) (penRow : d.pen.row = f.cursorRow) (penCol : d.pen.col = f.cursorCol) {shadow}
    (lines : ∀ i < c.term.rows, P i (d.screen w remains c.term i) (rowAt shadow i)) : Settled P
      { render := { c.render with shadow := shadow, pen := d.pen }
        term := Term.feed w remains c.term (c.render.bytes d.out)
        frame := f } := by
  have term : Term.feed w remains c.term (c.render.bytes d.out) = d.term w remains c.term := by
    rw [Render.bytes, fits.txl, feed_outs w remains _ tracked.plain]
    rfl
  obtain ⟨rows, cols⟩ := term_size w remains c.term d
  rw [term]
  refine ⟨⟨fits.txl, fits.rows.trans rows.symm, fits.cols.trans cols.symm⟩, ?_, ?_, ?_, penRow, penCol, tracked.style, tracked.sgr⟩
  · intro i inside
    exact lines i (by rw [← rows]; exact inside)
  · have row := tracked.row
    dsimp only
    omega
  · have col := tracked.col
    dsimp only
    omega

theorem Settled.inStep {rows cols}
    (settled : Settled (fun i line ss => LineShown cols line (cellAt (c.frame.row cols i)) (cellAt ss)) c)
    (wellFormed : c.frame.WellFormed w rows cols) (sameRows : c.render.rows = rows) (sameCols : c.render.cols = cols) :
    c.InStep w := by
  obtain rfl : c.term.rows = rows := settled.fits.rows.symm.trans sameRows
  obtain rfl : c.term.cols = cols := settled.fits.cols.symm.trans sameCols
  exact ⟨settled, wellFormed⟩

/-- The end of either entry point, once the cursor is in its place. -/
theorem Settled.close {P : Nat → (Nat → Cell) → List Cell → Prop} (fits : c.Fits)
    (tracked : Tracked w remains c.term d) (penRow : d.pen.row = f.cursorRow) (penCol : d.pen.col = f.cursorCol) {shadow}
    (lines : ∀ i < c.term.rows, P i (d.screen w remains c.term i) (rowAt shadow i)) : Settled P
      { render := { c.render with shadow := shadow, pen := ((d.cursorVis f.cursorVis).emit .syncEnd).pen }
        term := Term.feed w remains c.term (c.render.bytes ((d.cursorVis f.cursorVis).emit .syncEnd).out)
        frame := f } := by
  obtain ⟨visTracked, visScreen⟩ := cursorVis_tracked tracked f.cursorVis
  obtain ⟨endTracked, endScreen⟩ := still_tracked visTracked (e := (d.cursorVis f.cursorVis).emit .syncEnd) rfl trivial
    (fun _ => rfl) rfl rfl rfl
  have pen := cursorVis_pen d f.cursorVis
  refine Settled.of_tracked fits endTracked ((congrArg Pen.row pen).trans penRow) ((congrArg Pen.col pen).trans penCol) ?_
  rw [endScreen, visScreen]
  exact lines

theorem frameRows_drawn {draw : Nat → List Cell → List Cell → Draw → Draw × List Cell} {shadow}
    {P : Nat → (Nat → Cell) → List Cell → Prop} (fits : c.Fits)
    (round : ∀ i < c.term.rows, ∀ e, Tracked w remains c.term e → e.screen w remains c.term i = d.screen w remains c.term i →
      Round w remains c.term i (e.screen w remains c.term) (P i) (draw i (f.row c.term.cols i) (rowAt shadow i) e))
    (tracked : Tracked w remains c.term d) :
    let drawn := eachRow draw 0
      (frameRows f.cells c.render.cols (min c.render.rows c.render.rows) (min c.render.cols c.render.cols)) shadow d
    Tracked w remains c.term drawn.1 ∧
      ∀ i < c.term.rows, P i (drawn.1.screen w remains c.term i) (rowAt drawn.2 i) := by
  rw [min_self, min_self, fits.rows, fits.cols]
  have drawn := @eachRow_drawn w remains c.term 0 d draw (frameRows f.cells c.term.cols c.term.rows c.term.cols) shadow P
  simp only [length_frameRows, Nat.zero_add] at drawn
  have ⟨tracked, lines, _⟩ := drawn (fun i inside => by rw [rowAt_frameRows f inside]; exact round i inside) tracked
  exact ⟨tracked, lines⟩

theorem start_tracked (w : WidthTable) (remains : Remains) (t₀ : Term) (pen : Pen) :
    let d := (({ pen := pen : Draw }.emit .syncBegin).resetSgr.emit .clear)
    let d := { d with pen := { d.pen with row := 0, col := 0 } }
    Tracked w remains t₀ d ∧ d.screen w remains t₀ = fun _ _ => Cell.clear := by
  refine ⟨⟨rfl, rfl, rfl, ⟨rfl, rfl⟩, ?_⟩, rfl⟩
  intro o member
  simp only [Draw.emit, Draw.resetSgr, nil_append, cons_append, mem_cons, not_mem_nil, or_false] at member
  rcases member with rfl | rfl | rfl <;> trivial

/-- `render_cells_full` draws every row cleanly. -/
def FullClean (c : Console) (f : Frame) : Prop := ∀ i < c.term.rows, CleanFull c.render.hasBce (f.row c.term.cols i)

theorem full_inStep (fits : c.Fits) (wellFormed : f.WellFormed w c.term.rows c.term.cols) (clean : c.FullClean f) :
    (c.full w remains f).InStep w := by
  refine Settled.inStep ?_ wellFormed fits.rows fits.cols
  obtain ⟨startTracked, startScreen⟩ := start_tracked w remains c.term c.render.pen
  unfold full renderCellsFull
  dsimp only at startTracked startScreen ⊢
  generalize ({ ((({ pen := c.render.pen : Draw }.emit .syncBegin).resetSgr).emit .clear) with
    pen := { ((({ pen := c.render.pen : Draw }.emit .syncBegin).resetSgr).emit .clear).pen with row := 0, col := 0 } } : Draw) =
    start at startTracked startScreen ⊢
  obtain ⟨tracked, lines⟩ := @frameRows_drawn w remains start c f (fun row => fullRow c.render.hasBce row)
    (shadowClear c.render.rows c.render.cols)
    (fun i line ss => LineShown c.term.cols line (cellAt (f.row c.term.cols i)) (cellAt ss)) fits
    (by
      intro i inside e tracked screen
      rw [startScreen] at screen
      have drawn := fullRow_drawn (wellFormed.row i inside) (clean i inside) inside
        (shadowClear_clear c.render.rows c.render.cols i) screen tracked rfl
      exact ⟨drawn.tracked, drawn.lineShown, drawn.others⟩)
    startTracked
  rw [show fullRows c.render.hasBce 0 = fullRows c.render.hasBce (0 : Nat) from rfl, fullRows_eq]
  generalize eachRow (fun row => fullRow c.render.hasBce row) 0 _ _ start = drawn at tracked lines ⊢
  obtain ⟨resetTracked, resetScreen⟩ := resetSgr_tracked tracked
  obtain ⟨movedTracked, movedScreen⟩ := cup_tracked resetTracked wellFormed.cursorRow wellFormed.cursorCol
    (e := { drawn.1.resetSgr.emit (.cup f.cursorRow f.cursorCol) with
      pen := { drawn.1.resetSgr.pen with row := f.cursorRow, col := f.cursorCol } }) rfl rfl
  refine Settled.close fits movedTracked rfl rfl ?_
  rw [movedScreen, resetScreen]
  exact lines

/-- The rows that the flags let through are drawn cleanly over the ones before, and the others are as before. -/
def DiffClean (c : Console) (rowDirty : Option (List Bool)) (f : Frame) : Prop :=
  ∀ i < c.term.rows, if flagged rowDirty i then
    CleanDiff c.render.hasBce (f.row c.term.cols i) (c.frame.row c.term.cols i) (rowAt c.render.shadow i) ∧
      SameMarks c.render.hasBce (f.row c.term.cols i) (rowAt c.render.shadow i)
  else f.row c.term.cols i = c.frame.row c.term.cols i

theorem diffFlags_settled {P Q : Nat → (Nat → Cell) → List Cell → Prop} (settled : c.Settled Q)
    (wellFormed : f.WellFormed w c.term.rows c.term.cols) {rowDirty : Option (List Bool)}
    (round : ∀ i < c.term.rows, ∀ e : Draw, Tracked w remains c.term e → e.screen w remains c.term i = c.term.screen i →
      Round w remains c.term i (e.screen w remains c.term) (P i)
        (flaggedRow c.render.hasBce rowDirty i (f.row c.term.cols i) (rowAt c.render.shadow i) e)) :
    (c.diffFlags w remains rowDirty f).Settled P := by
  have startTracked : Tracked w remains c.term { pen := c.render.pen } := by
    refine ⟨?_, ?_, settled.style, settled.sgr, fun o none => absurd none (not_mem_nil)⟩
    · exact (congrArg Int.ofNat settled.cursorRow).trans settled.penRow.symm
    · exact (congrArg Int.ofNat settled.cursorCol).trans settled.penCol.symm
  obtain ⟨tracked, lines⟩ := frameRows_drawn settled.fits round startTracked
  unfold diffFlags renderCellsDiff
  dsimp only
  rw [diffRows_eq]
  generalize eachRow (flaggedRow c.render.hasBce rowDirty) 0 _ c.render.shadow { pen := c.render.pen } = drawn at tracked lines ⊢
  split
  · rename_i still
    exact Settled.of_tracked settled.fits tracked still.2.1 still.2.2.1 lines
  · obtain ⟨opened, openedEq⟩ : ∃ e, e = if !drawn.1.opened then drawn.1.emit .syncBegin else drawn.1.resetSgr := ⟨_, rfl⟩
    have openTracked : Tracked w remains c.term opened ∧ opened.screen w remains c.term = drawn.1.screen w remains c.term := by
      rw [openedEq]
      split
      · exact still_tracked tracked rfl trivial (fun _ => rfl) rfl rfl rfl
      · exact resetSgr_tracked tracked
    rw [← openedEq]
    obtain ⟨movedTracked, movedScreen⟩ := moveTo_tracked openTracked.1 wellFormed.cursorRow wellFormed.cursorCol
    have pen := moveTo_pen opened f.cursorRow f.cursorCol
    refine Settled.close settled.fits movedTracked (congrArg Pen.row pen) (congrArg Pen.col pen) ?_
    rw [movedScreen, openTracked.2]
    exact lines

section
variable (w : WidthTable) (remains : Remains) (c : Console) (rowDirty : Option (List Bool)) (f : Frame)

theorem diffFlags_frame : (c.diffFlags w remains rowDirty f).frame = f := rfl

theorem diffFlags_size :
    (c.diffFlags w remains rowDirty f).render.rows = c.render.rows ∧
      (c.diffFlags w remains rowDirty f).render.cols = c.render.cols := by
  unfold diffFlags renderCellsDiff
  dsimp only
  split <;> exact ⟨rfl, rfl⟩

end

theorem diffFlags_inStep (inStep : c.InStep w) (wellFormed : f.WellFormed w c.term.rows c.term.cols) {rowDirty}
    (clean : c.DiffClean rowDirty f) : (c.diffFlags w remains rowDirty f).InStep w := by
  obtain ⟨rows, cols⟩ := diffFlags_size w remains c rowDirty f
  refine Settled.inStep ?_ wellFormed (rows.trans inStep.fits.rows) (cols.trans inStep.fits.cols)
  refine diffFlags_settled inStep.toSettled wellFormed fun i inside e tracked screen => ?_
  have line := inStep.lines i inside
  rw [← screen] at line
  have here := clean i inside
  unfold flaggedRow
  split at here
  · rename_i drawn
    rw [if_pos drawn]
    have done := diffRow_drawn (wellFormed.row i inside) (inStep.wellFormed.row i inside) here.1 here.2 inside tracked line
    exact ⟨done.tracked, done.lineShown, done.others⟩
  · rename_i passed
    rw [if_neg passed]
    refine ⟨tracked, ?_, fun _ _ => rfl⟩
    rw [diffFlags_frame, here]
    exact line

end Console

def RealRow (cs : List Cell) : Prop := ∀ c ∈ cs, c.style.attrs.predicted = false

section
variable {cs ss : List Cell}

theorem realRow_append {xs ys} : RealRow (xs ++ ys) ↔ RealRow xs ∧ RealRow ys := by
  simp only [RealRow, mem_append, or_imp, forall_and]

theorem realRow_cellAt (real : RealRow cs) (q : Nat) : (cellAt cs q).style.attrs.predicted = false := by
  by_cases inside : q < cs.length
  · exact real _ (cellAt_mem inside)
  · rw [cellAt_behind (by omega)]
    rfl

theorem realRow_replicate (n : Nat) (bg : Color) : RealRow (shadowSetEl n bg) := by
  intro c member
  rw [eq_of_mem_replicate member]
  rfl

theorem realRow_picked (real : RealRow cs) (shadow : RealRow ss) {f : Cell × Cell → Cell} (picks : ∀ p, f p = p.1 ∨ f p = p.2)
    (n : Nat) {rest} (after : RealRow rest) : RealRow (((pairUp cs ss).take n).map f ++ rest) := by
  refine realRow_append.mpr ⟨fun c member => ?_, after⟩
  obtain ⟨p, inside, rfl⟩ := mem_map.mp member
  obtain ⟨q, low, rfl⟩ := mem_iff_getElem.mp (mem_of_mem_take inside)
  have shape := @getElem?_pairUp cs ss q (by rwa [length_pairUp] at low)
  rw [getElem?_eq_getElem low, Option.some.injEq] at shape
  rcases picks (pairUp cs ss)[q] with first | second
  · rw [first, shape]
    exact realRow_cellAt real q
  · rw [second, shape]
    exact realRow_cellAt shadow q

theorem fullShadow_picks (p : Cell × Cell) : fullShadow p = p.1 ∨ fullShadow p = p.2 := by
  unfold fullShadow
  split
  · exact .inr rfl
  · exact .inl rfl

theorem diffShadow_picks (p : Cell × Cell) : diffShadow p = p.1 ∨ diffShadow p = p.2 := by
  unfold diffShadow
  split
  · exact .inr rfl
  · exact .inl rfl

theorem realRow_drop (shadow : RealRow ss) (n : Nat) : RealRow (ss.drop n) := fun c member => shadow c (mem_of_mem_drop member)

theorem fullRow_real (real : RealRow cs) (shadow : RealRow ss) (hasBce : Bool) (row : Int) (d : Draw) :
    RealRow (fullRow hasBce row cs ss d).2 := by
  unfold fullRow
  split
  · dsimp only
    rw [fullCells_shadow, ← take_length (l := pairUp cs ss)]
    exact realRow_picked real shadow fullShadow_picks _ (realRow_drop shadow _)
  · dsimp only
    rw [fullCells_shadow]
    exact realRow_picked real shadow fullShadow_picks _ (realRow_append.mpr ⟨realRow_replicate _ _, realRow_drop shadow _⟩)

theorem diffRow_real (real : RealRow cs) (shadow : RealRow ss) (hasBce : Bool) (row : Int) (d : Draw) :
    RealRow (diffRow hasBce row cs ss d).2 := by
  unfold diffRow
  dsimp only
  split
  · split
    · exact shadow
    · rw [diffScan_shadow, ← take_length (l := pairUp cs ss)]
      exact realRow_picked real shadow diffShadow_picks _ (realRow_drop shadow _)
  · dsimp only
    rw [diffScan_shadow]
    exact realRow_picked real shadow diffShadow_picks _ (realRow_append.mpr ⟨realRow_replicate _ _, realRow_drop shadow _⟩)

end

theorem eachRow_real {draw : Nat → List Cell → List Cell → Draw → Draw × List Cell}
    (round : ∀ row cs ss d, RealRow cs → RealRow ss → RealRow (draw row cs ss d).2) {frame shadow}
    (real : ∀ cs ∈ frame, RealRow cs) (old : ∀ ss ∈ shadow, RealRow ss) (row : Nat) (d : Draw) :
    ∀ ss ∈ (eachRow draw row frame shadow d).2, RealRow ss := by
  induction frame generalizing row shadow d with
  | nil => exact old
  | cons cs frame ih =>
    have head : RealRow (shadow.headD []) := by
      cases shadow with
      | nil => exact fun c none => absurd none not_mem_nil
      | cons ss shadow => exact old ss mem_cons_self
    have first := round row cs (shadow.headD []) d (real cs mem_cons_self) head
    have rest := ih (fun cs member => real cs (mem_cons_of_mem _ member)) (fun ss member => old ss (mem_of_mem_tail member))
      (row + 1) (draw row cs (shadow.headD []) d).1
    rw [eachRow]
    intro ss member
    rcases mem_cons.mp member with rfl | later
    · exact first
    · exact rest ss later

theorem realRow_of_frame {f : Frame} (real : f.Real) (cols rows rcols : Nat) :
    ∀ cs ∈ frameRows f.cells cols rows rcols, RealRow cs := by
  intro cs member
  obtain ⟨i, -, rfl⟩ := mem_map.mp member
  exact fun c inside => real c (mem_of_mem_drop (mem_of_mem_take inside))

theorem sameMarks_of_real {hasBce cs ss} (real : RealRow cs) (shadow : RealRow ss) : SameMarks hasBce cs ss := by
  intro q _ same _
  simp only [unchanged, cellEq, decide_eq_true_eq] at same
  have plain := same.2.1
  have first := realRow_cellAt real q
  have second := realRow_cellAt shadow q
  have marked : ∀ c : Cell, c.style.attrs.predicted = false → (drawStyle c).attrs = { c.style.attrs with predicted := false } := by
    intro c none
    rw [drawStyle, none]
    simp only [Bool.or_false]
  rw [marked _ first, marked _ second, plain]

namespace Console

variable {w : WidthTable} {c : Console} {f : Frame}

/-- The shadow has no predicted cell. -/
def Real (c : Console) : Prop := ∀ ss ∈ c.render.shadow, RealRow ss

theorem full_real (w : WidthTable) (remains : Remains) (real : f.Real) : (c.full w remains f).Real := by
  have cleared : ∀ ss ∈ shadowClear c.render.rows c.render.cols, RealRow ss := by
    intro ss member s inside
    rw [eq_of_mem_replicate member] at inside
    rw [eq_of_mem_replicate inside]
    rfl
  have loop := eachRow_real (fun row cs ss d real shadow => fullRow_real real shadow c.render.hasBce row d)
    (realRow_of_frame real c.render.cols (min c.render.rows c.render.rows) (min c.render.cols c.render.cols)) cleared 0
  simp only [← fullRows_eq] at loop
  exact fun ss member => loop _ ss member

theorem flaggedRow_real (hasBce : Bool) (rowDirty : Option (List Bool)) (row : Nat) (cs ss : List Cell) (d : Draw)
    (real : RealRow cs) (shadow : RealRow ss) : RealRow (flaggedRow hasBce rowDirty row cs ss d).2 := by
  unfold flaggedRow
  split
  · exact diffRow_real real shadow hasBce row d
  · exact shadow

theorem diffFlags_real (w : WidthTable) (remains : Remains) (shadow : c.Real) (real : f.Real) (rowDirty : Option (List Bool)) :
    (c.diffFlags w remains rowDirty f).Real := by
  have loop := eachRow_real (flaggedRow_real c.render.hasBce rowDirty)
    (realRow_of_frame real c.render.cols (min c.render.rows c.render.rows) (min c.render.cols c.render.cols)) shadow 0
    { pen := c.render.pen }
  rw [← diffRows_eq] at loop
  unfold diffFlags renderCellsDiff
  dsimp only
  split <;> exact loop

/-- `render_cells_diff` draws every row cleanly. -/
def Clean (c : Console) (f : Frame) : Prop := ∀ i < c.term.rows,
  CleanDiff c.render.hasBce (f.row c.term.cols i) (c.frame.row c.term.cols i) (rowAt c.render.shadow i)

theorem Clean.diffClean (clean : c.Clean f) (shadow : c.Real) (real : f.Real) : c.DiffClean none f := by
  intro i inside
  refine ⟨clean i inside, sameMarks_of_real ?_ ?_⟩
  · exact fun cell member => real cell (mem_of_mem_drop (mem_of_mem_take member))
  · by_cases low : i < c.render.shadow.length
    · rw [rowAt, getD_eq_getElem _ _ low]
      exact shadow _ (getElem_mem low)
    · rw [rowAt, getD_eq_default _ _ (by omega)]
      exact fun s none => absurd none not_mem_nil

structure Following (w : WidthTable) (rows cols : Nat) (c : Console) : Prop where
  inStep : c.InStep w
  rows : c.render.rows = rows
  cols : c.render.cols = cols

theorem Following.fitted {rows cols} (following : c.Following w rows cols) (wellFormed : f.WellFormed w rows cols) :
    f.WellFormed w c.term.rows c.term.cols := by
  rw [← following.inStep.fits.rows, ← following.inStep.fits.cols, following.rows, following.cols]
  exact wellFormed

theorem Following.diffFlags {rows cols} (remains : Remains) (following : c.Following w rows cols)
    (wellFormed : f.WellFormed w rows cols) {rowDirty} (clean : c.DiffClean rowDirty f) :
    (c.diffFlags w remains rowDirty f).Following w rows cols := by
  have size := diffFlags_size w remains c rowDirty f
  exact ⟨diffFlags_inStep following.inStep (following.fitted wellFormed) clean, size.1.trans following.rows,
    size.2.trans following.cols⟩

theorem run_following {remains first later} (fits : c.Fits)
    (wellFormed : ∀ f ∈ first :: later, f.WellFormed w c.term.rows c.term.cols) (opens : c.FullClean first)
    (clean : Along (diff w remains) (fun c f => c.DiffClean none f) (c.full w remains first) later) :
    (later.foldl (diff w remains) (c.full w remains first)).Following w c.term.rows c.term.cols := by
  have start : (c.full w remains first).Following w c.term.rows c.term.cols :=
    ⟨full_inStep fits (wellFormed first mem_cons_self) opens, fits.rows, fits.cols⟩
  have each : Along (diff w remains) (fun _ f => f.WellFormed w c.term.rows c.term.cols) (c.full w remains first) later :=
    along_of_forall fun f member => wellFormed f (mem_cons_of_mem _ member)
  exact Along.invariant (fun console f following step => following.diffFlags remains step.2 step.1) start (clean.and each)

/-- **Differential rendering is faithful** as long as each frame is drawn cleanly: the terminal shows every
frame, whatever it leaves of the glyphs that are cut in two. -/
theorem run_faithful {w : WidthTable} {remains : Remains} {c : Console} {first : Frame} {later : List Frame} (fits : c.Fits)
    (wellFormed : ∀ f ∈ first :: later, f.WellFormed w c.term.rows c.term.cols ∧ f.Real) (opens : c.FullClean first)
    (clean : Along (diff w remains) Clean (c.full w remains first) later) (n : Nat) :
    ((later.take n).foldl (diff w remains) (c.full w remains first)).Faithful := by
  have real : (c.full w remains first).Real := full_real w remains (wellFormed first mem_cons_self).2
  have each : Along (diff w remains) (fun _ f => f.Real) (c.full w remains first) later :=
    along_of_forall fun f member => (wellFormed f (mem_cons_of_mem _ member)).2
  have cleanly : Along (diff w remains) (fun c f => c.DiffClean none f) (c.full w remains first) later :=
    Along.gives (I := Real) (fun console f shadow step => diffFlags_real w remains shadow step.2 none)
      (fun console f shadow step => step.1.diffClean shadow step.2) real (clean.and each)
  rw [← take_append_drop n later] at cleanly
  refine (run_following fits (fun f member => ?_) opens cleanly.of_append).inStep.faithful
  rcases mem_cons.mp member with rfl | inside
  · exact (wellFormed _ mem_cons_self).1
  · exact (wellFormed f (mem_cons_of_mem _ (mem_of_mem_take inside))).1

end Console

def lineFrame (cells : List Cell) : Frame := ⟨cells, 0, 0, 1⟩

def narrow (codepoint : Nat) : Cell := ⟨codepoint, {}, 1⟩

def wide (codepoint : Nat) : List Cell := [⟨codepoint, {}, 2⟩, Cell.continuation]

def lineConsole (cols : Nat) : Console := ⟨Render.new 1 cols none, { rows := 1, cols := cols }, lineFrame []⟩

instance decidableFullClean (c : Console) (f : Frame) : Decidable (c.FullClean f) := by
  unfold Console.FullClean
  infer_instance

instance decidableClean (c : Console) (f : Frame) : Decidable (c.Clean f) := by
  unfold Console.Clean
  infer_instance

instance decidableWellFormed (w : WidthTable) (rows cols : Nat) (f : Frame) : Decidable (f.WellFormed w rows cols) :=
  decidable_of_iff' _ (Frame.wellFormed_iff w rows cols f)

instance decidableReal (f : Frame) : Decidable f.Real := by
  unfold Frame.Real
  infer_instance

theorem letter_faithful :
    (([lineFrame ([narrow 0x61, narrow 0x63] ++ wide 0x6F22)].take 1).foldl (Console.diff latestTable .keep)
      ((lineConsole 4).full latestTable .keep (lineFrame ([narrow 0x61, narrow 0x62] ++ wide 0x6F22)))).Faithful :=
  Console.run_faithful ⟨rfl, rfl, rfl⟩ (by decide +kernel) (by decide +kernel) (by decide +kernel) 1

def lettersFrame : Frame := lineFrame [narrow 0x78, narrow 0x79, narrow 0x63, narrow 0x7A, narrow 0x77]

def wideGlyphsFrame : Frame := lineFrame (wide 0x6F22 ++ narrow 0x63 :: wide 0x6F22)

def displacedLetter : Console := ((lineConsole 5).full latestTable .keep lettersFrame).diff latestTable .keep wideGlyphsFrame

theorem letter_displaced :
    (∀ f ∈ [lettersFrame, wideGlyphsFrame], f.WellFormed latestTable 1 5 ∧ f.Real) ∧ ¬ displacedLetter.Faithful := by
  refine ⟨by decide +kernel, fun faithful => ?_⟩
  have inRows : 0 < displacedLetter.term.rows := by decide +kernel
  have inCols : 1 < displacedLetter.term.cols := by decide +kernel
  have differs : (displacedLetter.term.screen 0 1).width ≠
      (cellAt (displacedLetter.frame.row displacedLetter.term.cols 0) 1).width := by
    decide +kernel
  exact differs (faithful.width inRows inCols)

end Lumimux.Librender
