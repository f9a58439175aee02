import Lumimux.Render.DirtyRows

/-!
# Predicted cells

A predicted cell is drawn dim, but `cell_eq` does not compare the mark. `Watched` keeps with what dimness each cell
was last written; nothing of the renderer reads it.
-/

namespace Lumimux.Librender
open Lib Utf8 Vt List

/-- The cell without its mark. -/
def unmark (c : Cell) : Cell := { c with style := { c.style with attrs := { c.style.attrs with predicted := false } } }

/-- The frames differ only in which cells are predicted. -/
def Frame.OnlyMarks (f g : Frame) : Prop := f.cells.map unmark = g.cells.map unmark
  deriving Decidable

/-- The dimness with which `emit_cell` writes the cell. -/
def drawnDim (c : Cell) : Bool := (drawStyle c).attrs.dim

/-- The cell as it looks once it was written with that dimness. -/
def dimmed (dim : Bool) (c : Cell) : Cell :=
  { c with style := { c.style with attrs := { c.style.attrs with dim := dim, predicted := false } } }

/-- `render_cells_diff` writes the cell: it changed, it stands in a gap that is overdrawn, or it is erased with EL. -/
def rewritten (hasBce : Bool) (cs ss : List Cell) (q : Nat) : Bool := (writes (scanned hasBce cs ss)).getD q true

/-- Each visible cell that `render_cells_diff` does not write was last written (`dims`) as dim as it is now. -/
def Restyled (hasBce : Bool) (cs ss : List Cell) (dims : Nat → Bool) : Prop :=
  ∀ q < cs.length, (cellAt cs q).width ≠ 0 → rewritten hasBce cs ss q = false → dims q = drawnDim (cellAt cs q)

/-- What a row looks like behind `render_cells_diff`. -/
def mixed (hasBce : Bool) (cs ss : List Cell) (dims : Nat → Bool) (q : Nat) : Cell :=
  if rewritten hasBce cs ss q then cellAt cs q else dimmed (dims q) (cellAt cs q)

/-- The dimness with which each cell of a row was last written, behind `render_cells_diff`. -/
def redim (hasBce : Bool) (cs ss : List Cell) (dims : Nat → Bool) (q : Nat) : Bool :=
  if rewritten hasBce cs ss q then drawnDim (cellAt cs q) else dims q

theorem drawStyle_dimmed (c : Cell) : (drawStyle (dimmed (drawnDim c) c)).attrs = (drawStyle c).attrs := by
  simp only [drawStyle, dimmed, drawnDim, Bool.or_false]

theorem drawnDim_none {c : Cell} (none : c.style.attrs = {}) : drawnDim c = false := by
  rw [drawnDim, drawStyle, none]
  rfl

theorem dimmed_none {c : Cell} (none : c.style.attrs = {}) : (dimmed false c).style.attrs = {} := by
  rw [dimmed, none]

theorem shows_dimmed_iff {t c : Cell} : Shows t (dimmed (drawnDim c) c) ↔ Shows t c := by
  constructor
  · intro shows
    refine ⟨shows.codepoint, shows.width, shows.attrs.trans (drawStyle_dimmed c), shows.bg, ?_⟩
    rcases shows.fg with fg | ⟨blank, none⟩
    · exact .inl fg
    · refine .inr ⟨blank, attrs_of_drawStyle ?_⟩
      rw [← drawStyle_dimmed, drawStyle, none]
      rfl
  · intro shows
    refine ⟨shows.codepoint, shows.width, shows.attrs.trans (drawStyle_dimmed c).symm, shows.bg, ?_⟩
    rcases shows.fg with fg | ⟨blank, none⟩
    · exact .inl fg
    · refine .inr ⟨blank, ?_⟩
      rw [drawnDim_none none]
      exact dimmed_none none

/-- `cell_eq` compares all but the mark. -/
theorem dimmed_of_unchanged {c s : Cell} (same : unchanged (c, s) = true) (dim : Bool) : dimmed dim c = dimmed dim s := by
  simp only [unchanged, cellEq, decide_eq_true_eq] at same
  obtain ⟨codepoint, attrs, width, fg, bg⟩ := same
  have looks := congrArg (fun attrs : Attrs => { attrs with dim := dim }) attrs
  dsimp only at looks
  unfold dimmed
  dsimp only
  rw [codepoint, width, fg, bg, looks]

theorem shown_congr {line F G : Nat → Cell} {q} (width : (G q).width = (F q).width)
    (looks : (F q).width ≠ 0 → Shows (line q) (F q) → Shows (line q) (G q)) (shown : display.Shown line F q) :
    display.Shown line G q := by
  by_cases second : (F q).width = 0
  · exact (Display.shown_second (width.trans second)).mpr ((Display.shown_second second).mp shown)
  · exact (Display.shown_first (by rwa [← width] at second)).mpr (looks second ((Display.shown_first second).mp shown))

variable {w : WidthTable} {remains : Remains} {t₀ : Term} {row : Nat} {d : Draw} {cs old ss : List Cell} {hasBce : Bool}
  {dims : Nat → Bool}

/-- The line shows the row with the dimness of each cell as it was last written, and so does the shadow. -/
def DimShown (cols : Nat) (line : Nat → Cell) (dims : Nat → Bool) (cs ss : List Cell) : Prop :=
  LineShown cols line (fun q => dimmed (dims q) (cellAt cs q)) fun q => dimmed (dims q) (cellAt ss q)

theorem LineShown.dimShown {cols line} (shown : LineShown cols line (cellAt cs) (cellAt ss)) :
    DimShown cols line (fun q => drawnDim (cellAt cs q)) cs ss := by
  refine ⟨fun q inside => shown_congr rfl (fun _ => shows_dimmed_iff.mpr) (shown.shown q inside), fun q inside visible => ?_⟩
  -- the cell and its shadow look the same, so they are as dim as each other
  have cell := (Display.shown_first visible).mp (shown.shown q inside)
  have shadow := shown.shadow q inside visible
  have alike : drawnDim (cellAt cs q) = drawnDim (cellAt ss q) := congrArg Attrs.dim (cell.attrs.symm.trans shadow.attrs)
  show Shows (line q) (dimmed (drawnDim (cellAt cs q)) (cellAt ss q))
  rw [alike]
  exact shows_dimmed_iff.mpr shadow

theorem width_mixed (q : Nat) : (mixed hasBce cs ss dims q).width = (cellAt cs q).width := by
  unfold mixed
  split <;> rfl

theorem shows_mixed_iff {t : Cell} {q} : Shows t (mixed hasBce cs ss dims q) ↔
    Shows t (dimmed (redim hasBce cs ss dims q) (cellAt cs q)) := by
  unfold mixed redim
  split
  · exact shows_dimmed_iff.symm
  · exact Iff.rfl

theorem rewritten_erased {run} (use : useEl hasBce cs (pairUp cs ss) = some run) {q} (low : run.1 ≤ q) :
    rewritten hasBce cs ss q = true := by
  have part : (scanned hasBce cs ss).length ≤ run.1 := by
    simp only [scanned, use]
    exact length_take_le _ _
  exact getD_eq_default _ _ (by rw [length_writes]; omega)

theorem mixed_setting (ok : RowOk w t₀.cols cs) (settable : Settable cs) {F' line : Nat → Cell} (whole : display.Whole F')
    (before : ∀ q < t₀.cols, display.Shown line F' q) : Setting w t₀.cols (mixed hasBce cs ss dims) F' line := by
  have plain := ok.setting settable whole before
  refine ⟨⟨?_, fun q => ?_⟩, plain.old, plain.before, fun q second => ?_, fun q inside visible => ?_⟩
  · show (mixed hasBce cs ss dims 0).width ≠ 0
    rw [width_mixed]
    exact ok.first
  · show (mixed hasBce cs ss dims q).width = 2 ↔ (mixed hasBce cs ss dims (q + 1)).width = 0
    rw [width_mixed, width_mixed]
    exact plain.pairs q
  · rw [width_mixed] at second
    exact plain.room q second
  · rw [width_mixed] at visible
    have glyph := plain.glyphs q inside visible
    unfold mixed
    split
    · exact glyph
    · exact ⟨glyph.scalar, glyph.width, glyph.attrs⟩

theorem diffRow_mixed (ok : RowOk w t₀.cols cs) (oldOk : RowOk w t₀.cols old) (clean : CleanDiff hasBce cs old ss)
    (inRows : row < t₀.rows) (tracked : Tracked w remains t₀ d)
    (before : DimShown t₀.cols (d.screen w remains t₀ row) dims old ss) :
    RowDone w remains t₀ row (mixed hasBce cs ss dims) (d.screen w remains t₀) (diffRow hasBce row cs ss d).1 := by
  have whole : display.Whole fun q => dimmed (dims q) (cellAt old q) := ⟨oldOk.whole.first, oldOk.whole.pairs⟩
  have setting := @mixed_setting w t₀ cs ss hasBce dims ok clean.settable _ _ whole before.shown
  have agrees : Agrees (mixed hasBce cs ss dims) (fun q => dimmed (dims q) (cellAt old q)) (d.screen w remains t₀ row)
      (writes (scanned hasBce cs ss)) (scanned hasBce cs ss) 0 := by
    intro q p here
    obtain ⟨rfl, inside⟩ := getElem?_scanned here
    have low := (List.getElem?_eq_some_iff.mp here).1
    have length : q < (writes (scanned hasBce cs ss)).length := by rwa [length_writes]
    have flag : rewritten hasBce cs ss q = (writes (scanned hasBce cs ss)).getD q false := by
      rw [rewritten, getD_eq_getElem _ _ length, getD_eq_getElem _ _ length]
    rw [Nat.zero_add, ← flag]
    split
    · rename_i written
      rw [mixed, if_pos written]
    · rename_i passed
      rw [flag] at passed
      have same := unchanged_of_unwritten here (Bool.not_eq_true _ ▸ passed)
      rw [← flag] at passed
      unfold Keeps
      rw [mixed, if_neg passed]
      intro visible
      -- the shadow describes the terminal up to the mark, and so does a cell that `cell_eq` finds equal to it
      have first := clean.halves q low same visible
      refine ⟨first, ?_⟩
      rw [dimmed_of_unchanged same]
      exact before.shadow q (by rw [← ok.length]; exact inside) first
  refine diffRow_done setting inRows ok.length agrees clean.tight (fun run use q low inside => ?_) tracked rfl
  rw [mixed, if_pos (rewritten_erased use low)]
  exact ok.erased (trailEl_of_useEl use) (clean.erases run use) q low inside

theorem diffRow_dimShown (ok : RowOk w t₀.cols cs) (oldOk : RowOk w t₀.cols old) (clean : CleanDiff hasBce cs old ss)
    (inRows : row < t₀.rows) (tracked : Tracked w remains t₀ d)
    (before : DimShown t₀.cols (d.screen w remains t₀ row) dims old ss) :
    DimShown t₀.cols ((diffRow hasBce row cs ss d).1.screen w remains t₀ row) (redim hasBce cs ss dims) cs
      (diffRow hasBce row cs ss d).2 := by
  have done := diffRow_mixed ok oldOk clean inRows tracked before
  have shown : ∀ q < t₀.cols, display.Shown ((diffRow hasBce row cs ss d).1.screen w remains t₀ row)
      (fun q => dimmed (redim hasBce cs ss dims q) (cellAt cs q)) q :=
    fun q inside => shown_congr (width_mixed q).symm (fun _ => shows_mixed_iff.mp) (done.shown q inside)
  refine ⟨shown, fun q inside visible => ?_⟩
  have cell := (Display.shown_first visible).mp (shown q inside)
  refine diffRow_shadow (P := fun s => Shows _ (dimmed (redim hasBce cs ss dims q) s)) (by rw [ok.length]; exact inside)
    (fun low => ?_) fun run use low => ?_
  · unfold diffShadow
    split
    · rename_i same
      rwa [← dimmed_of_unchanged same]
    · exact cell
  · have erased := (ok.erased (trailEl_of_useEl use) (clean.erases run use) q low inside).2
    have none := attrs_of_drawStyle erased.attrs.symm
    have dim : redim hasBce cs ss dims q = false := by rw [redim, if_pos (rewritten_erased use low), drawnDim_none none]
    rw [dim] at cell ⊢
    exact stands_space (c := dimmed false (cellAt cs q)) (s := dimmed false (Cell.erase run.2))
      ⟨erased.codepoint.symm, dimmed_none none⟩ ⟨rfl, rfl⟩ erased.width.symm erased.bg.symm _ cell

/-- A console, and the dimness with which each cell was last written. -/
structure Watched extends Console where
  dims : Nat → Nat → Bool

namespace Watched

variable (w : WidthTable) (remains : Remains)

def full (c : Console) (f : Frame) : Watched :=
  { c.full w remains f with dims := fun i q => drawnDim (cellAt (f.row c.term.cols i) q) }

def diff (s : Watched) (f : Frame) : Watched :=
  { s.toConsole.diff w remains f with
    dims := fun i => redim s.render.hasBce (f.row s.term.cols i) (rowAt s.render.shadow i) (s.dims i) }

/-- The terminal shows the last frame up to the dimness, which is the one of `dims`. -/
structure Following (rows cols : Nat) (s : Watched) : Prop where
  settled : s.toConsole.Settled fun i line ss => DimShown cols line (s.dims i) (s.frame.row cols i) ss
  wellFormed : s.frame.WellFormed w rows cols
  rows : s.render.rows = rows
  cols : s.render.cols = cols

variable {w remains} {s : Watched} {c : Console} {f : Frame} {rows cols : Nat}

theorem Following.size (following : s.Following w rows cols) : s.term.rows = rows ∧ s.term.cols = cols :=
  ⟨following.settled.fits.rows.symm.trans following.rows, following.settled.fits.cols.symm.trans following.cols⟩

theorem full_following (fits : c.Fits) (wellFormed : f.WellFormed w c.term.rows c.term.cols) (clean : c.FullClean f) :
    (full w remains c f).Following w c.term.rows c.term.cols := by
  have inStep : (c.full w remains f).InStep w := Console.full_inStep fits wellFormed clean
  have cols : (c.full w remains f).term.cols = c.term.cols := inStep.fits.cols.symm.trans fits.cols
  refine ⟨{ inStep.toSettled with lines := fun i inside => ?_ }, wellFormed, fits.rows, fits.cols⟩
  have line := inStep.lines i inside
  rw [cols] at line
  exact line.dimShown

theorem Following.diff (following : s.Following w rows cols) (wellFormed : f.WellFormed w rows cols) (clean : s.toConsole.Clean f) :
    (s.diff w remains f).Following w rows cols := by
  have size := Console.diffFlags_size w remains s.toConsole none f
  refine ⟨?_, wellFormed, size.1.trans following.rows, size.2.trans following.cols⟩
  obtain ⟨rfl, rfl⟩ := following.size
  refine Console.diffFlags_settled following.settled wellFormed fun i inside d tracked screen => ?_
  have before := following.settled.lines i inside
  rw [← screen] at before
  have ok := wellFormed.row i inside
  have oldOk := following.wellFormed.row i inside
  have done := diffRow_mixed ok oldOk (clean i inside) inside tracked before
  exact ⟨done.tracked, diffRow_dimShown ok oldOk (clean i inside) inside tracked before, done.others⟩

theorem run_following {first : Frame} {later : List Frame} (fits : c.Fits)
    (wellFormed : ∀ f ∈ first :: later, f.WellFormed w c.term.rows c.term.cols) (opens : c.FullClean first)
    (clean : Along (Watched.diff w remains) (fun s f => s.toConsole.Clean f) (full w remains c first) later) :
    (later.foldl (Watched.diff w remains) (full w remains c first)).Following w c.term.rows c.term.cols := by
  have each : Along (Watched.diff w remains) (fun _ f => f.WellFormed w c.term.rows c.term.cols) (full w remains c first) later :=
    along_of_forall fun f member => wellFormed f (mem_cons_of_mem _ member)
  exact Along.invariant (fun watched f following step => following.diff step.2 step.1)
    (full_following fits (wellFormed first mem_cons_self) opens) (clean.and each)

/-- The screen is the one of `render_cells_full` exactly if each visible cell was last written as dim as it is. -/
theorem Following.sameScreen_iff (following : s.Following w rows cols) {whole : Console} (drawn : whole.InStep w)
    (frame : whole.frame = s.frame) (size : whole.term.rows = rows ∧ whole.term.cols = cols) : SameScreen s.term whole.term ↔
      ∀ i < rows, ∀ q < cols, (cellAt (s.frame.row cols i) q).width ≠ 0 →
        s.dims i q = drawnDim (cellAt (s.frame.row cols i) q) := by
  obtain ⟨termRows, termCols⟩ := following.size
  have line : ∀ i < rows, DimShown cols (s.term.screen i) (s.dims i) (s.frame.row cols i) (rowAt s.render.shadow i) :=
    fun i inside => following.settled.lines i (by rw [termRows]; exact inside)
  have full : ∀ i < rows, ∀ q < cols, display.Shown (whole.term.screen i) (cellAt (s.frame.row cols i)) q := by
    intro i inside
    have shown := (drawn.lines i (by rw [size.1]; exact inside)).shown
    rwa [frame, size.2] at shown
  constructor
  · intro same i inside q inCols visible
    have alike := (same.cells i (by rw [termRows]; exact inside) q (by rw [termCols]; exact inCols)).attrs
    have left : (s.term.screen i q).style.attrs.dim = (s.dims i q || false) :=
      congrArg Attrs.dim ((Display.shown_first visible).mp ((line i inside).shown q inCols)).attrs
    have right := congrArg Attrs.dim ((Display.shown_first visible).mp (full i inside q inCols)).attrs
    rw [Bool.or_false] at left
    exact left.symm.trans ((congrArg Attrs.dim alike).trans right)
  · intro dims
    refine ⟨fun i inRows q inCols => ?_, ?_⟩
    · rw [termRows] at inRows
      rw [termCols] at inCols
      refine alike_of_shown (following.wellFormed.row i inRows).whole inCols (fun p inside => ?_) (full i inRows)
      refine shown_congr (F := fun q => dimmed (s.dims i q) (cellAt (s.frame.row cols i) q)) rfl (fun visible shows => ?_)
        ((line i inRows).shown p inside)
      rw [dims i inRows p inside visible] at shows
      exact shows_dimmed_iff.mp shows
    · rw [following.settled.cursorRow, following.settled.cursorCol, drawn.cursorRow, drawn.cursorCol, frame]
      exact ⟨rfl, rfl⟩

theorem restyled_iff {cs ss : List Cell} {hasBce dims} : Restyled hasBce cs ss dims ↔
    ∀ q < cs.length, (cellAt cs q).width ≠ 0 → redim hasBce cs ss dims q = drawnDim (cellAt cs q) := by
  unfold Restyled redim
  refine forall₃_congr fun q inside visible => ?_
  split
  · rename_i written
    exact ⟨fun _ => rfl, fun _ passed => absurd (written.symm.trans passed) (by decide)⟩
  · rename_i passed
    exact ⟨fun kept => kept (Bool.not_eq_true _ ▸ passed), fun kept _ => kept⟩

/-- **Predicted cells are restyled** where they are written or look the same: behind any run of frames that are drawn
cleanly, the next frame, whatever its marks, is shown as if it were drawn whole exactly if each visible cell that
`render_cells_diff` does not write was last written as dim as it is now. -/
theorem run_marks_iff {w : WidthTable} {remains : Remains} {c : Console} {last : Watched} {first f : Frame} {later : List Frame}
    (fits : c.Fits) (wellFormed : ∀ g ∈ first :: (later ++ [f]), g.WellFormed w c.term.rows c.term.cols)
    (opens : c.FullClean first)
    (clean : Along (Watched.diff w remains) (fun s g => s.toConsole.Clean g) (full w remains c first) (later ++ [f]))
    (reached : last = later.foldl (Watched.diff w remains) (full w remains c first)) (whole : last.FullClean f) :
    SameScreen (last.toConsole.diff w remains f).term (last.toConsole.full w remains f).term ↔
      ∀ i < last.term.rows, Restyled last.render.hasBce (f.row last.term.cols i) (rowAt last.render.shadow i) (last.dims i) := by
  have before : last.Following w c.term.rows c.term.cols := by
    rw [reached]
    refine run_following fits (fun g member => wellFormed g ?_) opens clean.of_append
    rcases mem_cons.mp member with rfl | inside
    · exact mem_cons_self
    · exact mem_cons_of_mem _ (mem_append_left _ inside)
  have after : (last.diff w remains f).Following w c.term.rows c.term.cols := by
    have run := run_following fits wellFormed opens clean
    rwa [foldl_append, ← reached] at run
  obtain ⟨rows, cols⟩ := before.size
  have ok : f.WellFormed w last.term.rows last.term.cols := by
    rw [rows, cols]
    exact wellFormed f (mem_cons_of_mem _ (mem_append_right _ mem_cons_self))
  have drawn : (last.toConsole.full w remains f).InStep w := Console.full_inStep before.settled.fits ok whole
  have size : (last.toConsole.full w remains f).term.rows = c.term.rows ∧ (last.toConsole.full w remains f).term.cols = c.term.cols :=
    ⟨drawn.fits.rows.symm.trans before.rows, drawn.fits.cols.symm.trans before.cols⟩
  refine (after.sameScreen_iff drawn rfl size).trans ?_
  rw [rows]
  refine forall₂_congr fun i inside => ?_
  rw [restyled_iff, (ok.row i (by rw [rows]; exact inside)).length, ← cols]
  exact Iff.rfl

end Watched

instance decidableRestyled (hasBce : Bool) (cs ss : List Cell) (dims : Nat → Bool) : Decidable (Restyled hasBce cs ss dims) := by
  unfold Restyled
  infer_instance

def markedFrame (predicted : Bool) : Frame := lineFrame [⟨0x61, { attrs := { predicted := predicted } }, 1⟩, narrow 0x62]

def unmarkedConsole : Console := (lineConsole 2).full latestTable .keep (markedFrame false)

theorem letter_confirmed :
    SameScreen ((unmarkedConsole.diff latestTable .keep (markedFrame true)).diff latestTable .keep (markedFrame false)).term
      ((unmarkedConsole.diff latestTable .keep (markedFrame true)).full latestTable .keep (markedFrame false)).term := by
  have fits : (lineConsole 2).Fits := ⟨rfl, rfl, rfl⟩
  have shown := @Watched.run_marks_iff latestTable .keep (lineConsole 2) _ (markedFrame false) (markedFrame false)
    [markedFrame true] fits (by decide +kernel) (by decide +kernel) (by decide +kernel) rfl (by decide +kernel)
  exact shown.mpr (by decide +kernel)

theorem letter_not_dimmed : (∀ predicted ∈ [false, true], (markedFrame predicted).WellFormed latestTable 1 2) ∧
      (markedFrame false).OnlyMarks (markedFrame true) ∧
      ¬ SameScreen (unmarkedConsole.diff latestTable .keep (markedFrame true)).term
        (unmarkedConsole.full latestTable .keep (markedFrame true)).term := by
  refine ⟨by decide +kernel, by decide +kernel, fun same => ?_⟩
  exact absurd (same.cells 0 (by decide +kernel) 0 (by decide +kernel)).attrs (by decide +kernel)

end Lumimux.Librender
