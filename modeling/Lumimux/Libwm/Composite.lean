import Mathlib.Data.PNat.Basic
import Lumimux.Libwm.Desk
import Lumimux.Vt.Dirty

/-!
# The cached composite

`wm_composite` keeps the screen of the last repaint unless a call asked for a new one or a shown row is flagged.
-/

namespace Lumimux.Libwm

open Lib Utf8 Vt List

section Steps

variable {F : Type} [Arith F] (w : WidthTable)

theorem wmComposite_painted {wm : Wm F} {vts : List Emu} (due : repaints wm vts = true) (wild : Wild F) (theme : Theme) :
    wmComposite w wild theme wm vts =
      ({ wm with screen := paint w wild theme wm vts, compositeNeeded := false }, clearFlags wm vts) := by
  rw [wmComposite, due]
  rfl

theorem wmComposite_kept {wm : Wm F} {vts : List Emu} (due : repaints wm vts = false) (wild : Wild F) (theme : Theme) :
    wmComposite w wild theme wm vts = (wm, vts) := by
  rw [wmComposite, due]
  rfl

end Steps

section Looks

variable {F : Type}

def shownCursor (vt : VtState) : Option (Int × Int) := if vt.modes.cursorVis then some (vt.cursorRow, vt.cursorCol) else none

/-- Painting the window shows the same with either terminal. -/
structure Window.Alike (win : Window F) (vt vt' : VtState) : Prop where
  row : ∀ r ∈ intRange 0 win.h, VtState.rowCells vt r = VtState.rowCells vt' r
  cursor : win.focused = true ∨ shownCursor vt = shownCursor vt'

def LooksAlike (wm : Wm F) (vts vts' : List Emu) : Prop :=
  ∀ win ∈ wm.windows, win.minimized = false → Option.Rel win.Alike (win.terminal vts) (win.terminal vts')

theorem drawContent_congr {win : Window F} {vt vt' : VtState} (alike : win.Alike vt vt') (wild : Wild F) (s : Screen) :
    drawContent wild s win vt = drawContent wild s win vt' := by
  have rows : contentRows win vt = contentRows win vt' := by
    refine filterMap_congr fun r member => ?_
    rw [alike.row r member]
  rw [drawContent, rows, ← drawContent]

/-- A row that is as long as the window is wide is drawn from its own cells. -/
theorem drawRow_wide {win : Window F} {cells : List Cell} (wide : win.w ≤ cells.length) (wild wild' : Wild F) (s : Screen)
    (r : Int) : drawRow wild s win r cells = drawRow wild' s win r cells := by
  refine foldl_ext _ _ _ fun t c member => ?_
  obtain ⟨low, high⟩ := mem_intRange.mp (mem_filter.mp member).1
  have inside : c.toNat < cells.length := by omega
  simp only [getElem?_eq_getElem inside, Option.getD_some]

theorem drawContent_wide {win : Window F} {vt : VtState} (shape : ∀ r cells, VtState.rowCells vt r = some cells →
    win.w ≤ cells.length) (wild wild' : Wild F) (s : Screen) : drawContent wild s win vt = drawContent wild' s win vt := by
  refine foldl_ext _ _ _ fun t row member => ?_
  obtain ⟨r, -, found⟩ := mem_filterMap.mp member
  obtain ⟨cells, isRow, rfl⟩ := Option.map_eq_some_iff.mp found
  exact drawRow_wide (shape r cells isRow) wild wild' t r

theorem drawCursor_congr {win : Window F} {vt vt' : VtState} (alike : win.Alike vt vt') (s : Screen) :
    drawCursor s win vt = drawCursor s win vt' := by
  unfold drawCursor
  rcases alike.cursor with focused | same
  · rw [focused]
    rfl
  · unfold shownCursor at same
    cases visible : vt.modes.cursorVis <;> cases visible' : vt'.modes.cursorVis <;> simp_all

variable [Arith F] (w : WidthTable)

theorem paint_windows {wild wild' : Wild F} {theme : Theme} {wm : Wm F} {vts vts' : List Emu}
    (each : ∀ win ∈ wm.windows, win.minimized = false → ∀ s,
      drawWindow w wild theme vts s win = drawWindow w wild' theme vts' s win) :
    paint w wild theme wm vts = paint w wild' theme wm vts' := by
  have windows : wm.paintOrder.foldl (drawWindow w wild theme vts) (screenClear wm.rows wm.cols) =
      wm.paintOrder.foldl (drawWindow w wild' theme vts') (screenClear wm.rows wm.cols) := by
    refine foldl_ext _ _ _ fun s win member => ?_
    obtain ⟨inside, shown⟩ := mem_filter.mp ((perm_insertionSort _ _).mem_iff.mp member)
    exact each win inside (by simpa using shown) s
  rw [paint, windows, ← paint]

theorem paint_congr {wm : Wm F} {vts vts' : List Emu} (alike : LooksAlike wm vts vts') (wild : Wild F) (theme : Theme) :
    paint w wild theme wm vts = paint w wild theme wm vts' := by
  refine paint_windows w fun win member shown s => ?_
  have terminals := alike win member shown
  unfold drawWindow
  generalize win.terminal vts = one at terminals ⊢
  generalize win.terminal vts' = two at terminals ⊢
  cases terminals with
  | none => rfl
  | some looks =>
    dsimp only
    rw [drawContent_congr looks, drawCursor_congr looks]

theorem rowCells_length {rows cols : Nat} {e : Emu} (ok : e.Ok rows cols) {r : Int} {cells : List Cell}
    (found : VtState.rowCells e.vt r = some cells) : cells.length = e.vt.buf.cols := by
  obtain ⟨row, there, rfl⟩ := Option.map_eq_some_iff.mp found
  unfold VtBuf.row? at there
  split at there
  · cases there
  · rw [ok.vt.cols_eq]
    exact ok.vt.buf.grid_rows row (mem_of_getElem? there)

/-- No cell from behind a row is painted when no shown window is wider than its terminal. -/
theorem paint_wide {wm : Wm F} {vts : List Emu} (ok : ∀ e ∈ vts, ∃ rows cols, e.Ok rows cols)
    (wide : Desk.Wide ⟨wm, vts, none⟩) (wild wild' : Wild F) (theme : Theme) :
    paint w wild theme wm vts = paint w wild' theme wm vts := by
  refine paint_windows w fun win member shown s => ?_
  unfold drawWindow
  cases found : win.terminal vts with
  | none => rfl
  | some vt =>
    obtain ⟨i, -, inside⟩ := Option.bind_eq_some_iff.mp found
    obtain ⟨e, there, rfl⟩ := Option.map_eq_some_iff.mp inside
    obtain ⟨rows, cols, shape⟩ := ok e (mem_of_getElem? there)
    dsimp only
    rw [drawContent_wide (fun r cells isRow => ?_) wild wild']
    rw [rowCells_length shape isRow]
    exact wide win member shown _ found

end Looks

namespace Wm

variable {F : Type}

structure SameView (wm wm' : Wm F) : Prop where
  windows : wm'.windows = wm.windows
  rows : wm'.rows = wm.rows
  cols : wm'.cols = wm.cols
  label : wm'.sizeLabel = wm.sizeLabel
  screen : wm'.screen = wm.screen
  needed : wm'.compositeNeeded = wm.compositeNeeded

theorem SameView.refl (wm : Wm F) : wm.SameView wm := ⟨rfl, rfl, rfl, rfl, rfl, rfl⟩

theorem SameView.paint [Arith F] {wm wm' : Wm F} (same : wm.SameView wm') (w : WidthTable) (wild : Wild F) (theme : Theme)
    (vts : List Emu) : Libwm.paint w wild theme wm' vts = Libwm.paint w wild theme wm vts := by
  unfold Libwm.paint paintOrder
  rw [same.windows, same.rows, same.cols, same.label]

def Arranged (wm : Wm F) : Prop := wm.wmArrangeGrid.1.windows = wm.windows

def Flagged (wm : Wm F) : Call F → Prop
  | .arrangeGrid => wm.compositeNeeded = true ∨ wm.Arranged
  | .mouseRelease => wm.compositeNeeded = true ∨ wm.sizeLabel = none
  | _ => True

theorem onWindow_view (wm : Wm F) (id : UInt32) (f : Window F → Window F) :
    (wm.onWindow id f).compositeNeeded = true ∨ wm.SameView (wm.onWindow id f) := by
  unfold onWindow
  split
  · exact .inl rfl
  · exact .inr (.refl wm)

theorem call_view [Arith F] (wm : Wm F) {c} (flagged : wm.Flagged c) :
    (wm.call c).compositeNeeded = true ∨ wm.SameView (wm.call c) := by
  cases c with
  | add id vt x y width height =>
    rw [call, wmAdd]
    split
    · exact .inr (.refl wm)
    · split
      · exact .inr (.refl wm)
      · exact .inl rfl
  | remove id =>
    rw [call, wmRemove]
    split
    · exact .inr (.refl wm)
    · exact .inl rfl
  | forgetVt vt =>
    rw [call, wmForgetVt]
    by_cases used : wm.windows.any (·.vt = some vt) = true
    · exact .inl (if_pos used)
    · have same : (wm.windows.map fun win => if win.vt = some vt then { win with vt := none } else win) = wm.windows := by
        refine (map_congr_left fun win member => ?_).trans (map_id wm.windows)
        exact if_neg fun has => used (any_eq_true.mpr ⟨win, member, decide_eq_true has⟩)
      have label : sizeLabel { wm with windows := wm.windows.map _ } = wm.sizeLabel :=
        congrArg (fun wins => sizeLabel { wm with windows := wins }) same
      exact .inr ⟨same, rfl, rfl, label, rfl, if_neg used⟩
  | focus | resize | invalidate => exact .inl rfl
  | raise id =>
    rw [call, wmRaise]
    split
    · exact .inl rfl
    · exact .inr (.refl wm)
  | move id | setTitle id | setFlags id | setTheme id | setScroll id | minimize id | unminimize id =>
      exact onWindow_view wm id _
  | toggleMaximize id =>
    rw [call, wmToggleMaximize]
    split
    · exact .inr (.refl wm)
    · split
      · exact onWindow_view wm id _
      · exact onWindow_view wm id _
  | arrangeGrid =>
    have frame : wm.wmArrangeGrid.1 = { wm with windows := wm.wmArrangeGrid.1.windows } := by
      unfold wmArrangeGrid
      dsimp only
      split <;> rfl
    rw [call, frame]
    rcases flagged with due | arranged
    · exact .inl due
    · rw [arranged]
      exact .inr (.refl wm)
  | mousePress row col =>
    rw [call, wmMousePress]
    split
    · exact .inr (.refl wm)
    · dsimp only
      split <;> exact .inl rfl
  | mouseDrag row col =>
    rw [call, wmMouseDrag]
    split
    · exact .inr (.refl wm)
    · rename_i gone _
      have label : wm.sizeLabel = none := by
        rw [sizeLabel, gone]
        exact ite_self none
      exact .inr ⟨rfl, rfl, rfl, label.symm, rfl, rfl⟩
    · dsimp only
      split
      · exact .inr (.refl wm)
      · exact onWindow_view wm _ _
    · dsimp only
      split
      · exact .inr (.refl wm)
      · exact onWindow_view wm _ _
    · dsimp only
      split
      · exact .inr (.refl wm)
      · exact onWindow_view wm _ _
  | mouseRelease =>
    rw [call, wmMouseRelease]
    split
    · exact .inr (.refl wm)
    · rcases flagged with due | label
      · exact .inl due
      · exact .inr ⟨rfl, rfl, rfl, label.symm, rfl, rfl⟩

end Wm

structure Washed (e e' : Emu) : Prop where
  cells : ∀ r, VtState.rowCells e.vt r = VtState.rowCells e'.vt r
  cursor : shownCursor e.vt = shownCursor e'.vt
  ok : ∀ rows cols, e.Ok rows cols → e'.Ok rows cols

theorem Washed.refl (e : Emu) : Washed e e := ⟨fun _ => rfl, rfl, fun _ _ ok => ok⟩

theorem Washed.trans {e e' e''} (one : Washed e e') (two : Washed e' e'') : Washed e e'' where
  cells r := (one.cells r).trans (two.cells r)
  cursor := one.cursor.trans two.cursor
  ok rows cols ok := two.ok rows cols (one.ok rows cols ok)

theorem washed_seen (h : Int) (e : Emu) : Washed e { e with vt := seen h e.vt } where
  cells r := by
    rw [VtState.rowCells, VtState.rowCells, seen, VtState.modifyBuf, VtState.buf_setBuf, VtBuf.row?, VtBuf.row?]
    split
    · rfl
    · rw [getElem?_mapIdx, Option.map_map]
      refine congrFun (congrArg Option.map (funext fun row => ?_)) _
      rw [Function.comp_apply]
      split <;> rfl
  cursor := rfl
  ok rows cols ok := by
    refine ⟨ok.vt.setBuf (ok.vt.buf.setGrid ?_ ?_), ok.osc⟩
    · rw [length_mapIdx]
      exact ok.vt.buf.grid_length
    · intro r member
      obtain ⟨i, inside, rfl⟩ := mem_mapIdx.mp member
      have shape := ok.vt.buf.grid_rows _ (getElem_mem inside)
      split <;> exact shape

theorem clearFlags_washed {F : Type} (wm : Wm F) (vts : List Emu) : List.Forall₂ Washed vts (clearFlags wm vts) := by
  refine foldlRecOn (motive := List.Forall₂ Washed vts) wm.paintOrder _ (forall₂_same.mpr fun e _ => .refl e) ?_
  intro cleared washed win _
  split
  · exact washed
  · exact forall₂_modify washed (fun e e' one => one.trans (washed_seen win.h e')) _

def Since (e e' : Emu) : Prop := ∃ rows cols, e.Ok rows cols ∧ e'.Ok rows cols ∧ e.vt.Marks e'.vt

theorem Since.refl {rows cols e} (ok : e.Ok rows cols) : Since e e := ⟨rows, cols, ok, ok, .refl e.vt⟩

theorem Since.feed {e e'} (since : Since e e') (w : WidthTable) (bytes : Bytes) : Since e (e'.feed w bytes) := by
  obtain ⟨rows, cols, was, now, marks⟩ := since
  exact ⟨rows, cols, was, now.feed w bytes, marks.trans (feed_marks now w bytes)⟩

namespace Desk

variable {F : Type}

/-- A new manager and new terminals of the sizes and history lengths given. -/
def start (F : Type) (rows cols : Nat) (sizes : List (ℕ+ × ℕ+ × Int)) : Desk F :=
  ⟨wmNew F rows cols, sizes.map fun size => Emu.new size.1 size.2.1 size.2.2, none⟩

/-- Since the last repaint the theme is the same, no unfocused cursor that is shown has moved and no terminal that is shown
has left the alternate screen. -/
def Unmoved (s : Desk F) (theme : Theme) (was : Theme × List Emu) : Prop :=
  was.1 = theme ∧ ∀ win ∈ s.wm.windows, win.minimized = false → ∀ old ∈ win.terminal was.2, ∀ new ∈ win.terminal s.vts,
    (win.focused = true ∨ shownCursor old = shownCursor new) ∧ (old.active = .alt → new.active = .alt)
  deriving Decidable

/-- The step tells the next composite of what it changes, and a composite draws no window that is wider than its terminal
and keeps no screen over a change that no flag tells of. -/
def Covered (s : Desk F) : DeskOp F → Prop
  | .call c => s.wm.Flagged c
  | .feed _ _ => True
  | .composite theme _ => s.Wide ∧ (repaints s.wm s.vts = true ∨ ∀ was ∈ s.painted, s.Unmoved theme was)

structure Held [Arith F] (w : WidthTable) (s : Desk F) : Prop where
  ok : ∀ e ∈ s.vts, ∃ rows cols, e.Ok rows cols
  kept : s.wm.compositeNeeded = true ∨
    ∃ was, s.painted = some was ∧ (∀ wild, s.wm.screen = paint w wild was.1 s.wm was.2) ∧
      List.Forall₂ Since was.2 s.vts

theorem plain_of_not_dirty {wm : Wm F} {vts : List Emu} (clean : anyVtDirty wm vts = false) {win : Window F}
    (member : win ∈ wm.windows) (shown : win.minimized = false) {vt : VtState} (found : win.terminal vts = some vt) {r : Int}
    (inside : r ∈ intRange 0 win.h) (row : Row) (there : vt.buf.row? r = some row) : row.dirty = false := by
  have none := any_eq_false.mp clean win member
  rw [shown, found, Bool.not_false, Bool.true_and] at none
  have unflagged := any_eq_false.mp (Bool.eq_false_of_not_eq_true none) r inside
  rw [there] at unflagged
  exact Bool.eq_false_of_not_eq_true unflagged

theorem looksAlike {s : Desk F} {theme : Theme} {was : Theme × List Emu} (clean : anyVtDirty s.wm s.vts = false)
    (since : List.Forall₂ Since was.2 s.vts) (unmoved : s.Unmoved theme was) : LooksAlike s.wm was.2 s.vts := by
  intro win member shown
  cases handle : win.vt with
  | none =>
    rw [Window.terminal, Window.terminal, handle]
    exact .none
  | some i =>
    have terminal : ∀ vts : List Emu, win.terminal vts = (vts[i]?).map Emu.vt := by
      intro vts
      rw [Window.terminal, handle, Option.bind_some]
    have alike := unmoved.2 win member shown
    have plain := @plain_of_not_dirty F s.wm s.vts clean win member shown
    have pair := getElem?_of_forall₂ since i
    rw [terminal, terminal] at *
    generalize was.2[i]? = old at pair alike ⊢
    generalize s.vts[i]? = new at pair alike plain ⊢
    cases pair with
    | none => exact .none
    | some both =>
      obtain ⟨rows, cols, okOld, okNew, marks⟩ := both
      obtain ⟨cursor, still⟩ := alike _ rfl _ rfl
      refine .some ⟨fun r inside => ?_, cursor⟩
      exact marks.cells okOld.vt okNew.vt still (mem_intRange.mp inside).1 (plain rfl inside)

variable [Arith F] (w : WidthTable)

theorem Held.screen {w : WidthTable} {s : Desk F} (held : s.Held w) {theme : Theme} {wild : Wild F}
    (covered : s.Covered (.composite theme wild)) (wild' : Wild F) :
    (wmComposite w wild theme s.wm s.vts).1.screen = paint w wild' theme s.wm s.vts := by
  obtain ⟨wide, covered⟩ := covered
  cases due : repaints s.wm s.vts with
  | true =>
    rw [wmComposite_painted w due]
    exact paint_wide w held.ok wide wild wild' theme
  | false =>
    rw [wmComposite_kept w due]
    obtain ⟨notNeeded, clean⟩ := Bool.or_eq_false_iff.mp due
    rcases held.kept with needed | ⟨was, painted, screen, since⟩
    · rw [notNeeded] at needed
      cases needed
    · rcases covered with again | unmoved
      · rw [due] at again
        cases again
      · have still := unmoved was painted
        rw [screen wild', still.1]
        exact paint_congr w (looksAlike clean since still) wild' theme

theorem paint_clearFlags (wild : Wild F) (theme : Theme) (wm : Wm F) (vts : List Emu) :
    paint w wild theme wm vts = paint w wild theme wm (clearFlags wm vts) := by
  refine paint_congr w (fun win _ _ => ?_) wild theme
  cases handle : win.vt with
  | none =>
    rw [Window.terminal, Window.terminal, handle]
    exact .none
  | some i =>
    rw [Window.terminal, Window.terminal, handle, Option.bind_some, Option.bind_some]
    have pair := getElem?_of_forall₂ (clearFlags_washed wm vts) i
    generalize vts[i]? = old at pair ⊢
    generalize (clearFlags wm vts)[i]? = new at pair ⊢
    cases pair with
    | none => exact .none
    | some washed => exact .some ⟨fun r _ => washed.cells r, .inr washed.cursor⟩

theorem Held.step {s : Desk F} (held : s.Held w) {op : DeskOp F} (covered : s.Covered op) :
    (s.step keepSizes w op).Held w := by
  obtain ⟨ok, kept⟩ := held
  cases op with
  | call c =>
    refine ⟨ok, ?_⟩
    show (s.wm.call c).compositeNeeded = true ∨ _
    rcases s.wm.call_view covered with needed | same
    · exact .inl needed
    · rcases kept with needed | ⟨was, painted, screen, since⟩
      · exact .inl (same.needed.trans needed)
      · refine .inr ⟨was, painted, fun wild => ?_, since⟩
        exact same.screen.trans ((screen wild).trans (same.paint w wild _ _).symm)
  | feed i bytes =>
    constructor
    · refine forall_mem_modify ok (fun e shape => ?_) i
      obtain ⟨rows, cols, shape⟩ := shape
      exact ⟨rows, cols, shape.feed w bytes⟩
    · rcases kept with needed | ⟨was, painted, screen, since⟩
      · exact .inl needed
      · exact .inr ⟨was, painted, screen, forall₂_modify since (fun e e' one => one.feed w bytes) i⟩
  | composite theme wild =>
    cases due : repaints s.wm s.vts with
    | false =>
      rw [Desk.step, wmComposite_kept w due, due]
      exact ⟨ok, kept⟩
    | true =>
      have fresh : ∀ e ∈ clearFlags s.wm s.vts, ∃ rows cols, e.Ok rows cols := by
        refine forall_mem_of_forall₂ (fun e e' washed shape => ?_) (clearFlags_washed s.wm s.vts) ok
        obtain ⟨rows, cols, shape⟩ := shape
        exact ⟨rows, cols, washed.ok rows cols shape⟩
      rw [Desk.step, wmComposite_painted w due, due]
      refine ⟨fresh, .inr ⟨_, rfl, fun wild' => ?_, forall₂_same.mpr fun e member => ?_⟩⟩
      · -- nothing from behind a row was painted, so the screen is the same whatever is there
        exact (paint_wide w ok covered.1 wild wild' theme).trans (paint_clearFlags w wild' theme s.wm s.vts)
      · obtain ⟨rows, cols, shape⟩ := fresh e member
        exact .refl shape

/-- **A cached composite is a full repaint**, in every run in which the grid is arranged and the size label is taken away
only when a repaint is due, no shown window is wider than its terminal at a composite, and no screen is kept over a change
that no flag tells of. -/
theorem run_cached {F : Type} [Arith F] {w : WidthTable} {rows cols : Nat} {sizes : List (ℕ+ × ℕ+ × Int)}
    {earlier later : List (DeskOp F)} {theme : Theme} {wild : Wild F}
    (covered : Along (step keepSizes w) Covered (start F rows cols sizes) (earlier ++ .composite theme wild :: later))
    (wild' : Wild F) :
    let s := earlier.foldl (step keepSizes w) (start F rows cols sizes)
    (wmComposite w wild theme s.wm s.vts).1.screen = (wmComposite w wild' theme s.wm.wmInvalidate s.vts).1.screen := by
  intro s
  have fresh : (start F rows cols sizes).Held w := by
    refine ⟨fun e member => ?_, .inl rfl⟩
    obtain ⟨size, -, rfl⟩ := mem_map.mp member
    exact ⟨size.1, size.2.1, .new size.1.pos size.2.1.pos size.2.2⟩
  have held : s.Held w := Along.invariant (fun desk op held => held.step w) fresh covered.of_append
  have here : s.Covered (.composite theme wild) := covered.later.1
  rw [held.screen here wild']
  rfl

def noWild : Wild Int := fun _ _ _ => Cell.clear

/-- A window of 6 columns on a terminal as large as the screen, arranged and painted, then fed and painted again. -/
def oneWindow : List (DeskOp Int) :=
  [.call (.add 1 (some 0) 2 2 6 2), .call .arrangeGrid, .composite Theme.ascii noWild, .feed 0 [0x61, 0x62],
    .composite Theme.ascii noWild]

theorem oneWindow_cached :
    let s := oneWindow.foldl (step keepSizes latestTable) (start Int 6 12 [(6, 12, 0)])
    repaints s.wm s.vts = false ∧
      (wmComposite latestTable noWild Theme.ascii s.wm s.vts).1.screen =
        (wmComposite latestTable noWild Theme.ascii s.wm.wmInvalidate s.vts).1.screen := by
  refine ⟨by decide +kernel, @run_cached Int _ latestTable 6 12 [(6, 12, 0)] oneWindow [] Theme.ascii noWild ?_ noWild⟩
  exact ⟨trivial, .inl rfl, ⟨by decide +kernel, .inl (by decide +kernel)⟩, trivial,
    ⟨by decide +kernel, .inl (by decide +kernel)⟩, ⟨by decide +kernel, .inr (by decide +kernel)⟩, trivial⟩

theorem arranged_not_painted :
    let s := [DeskOp.call (.add 1 (some 0) 2 2 6 2), .composite Theme.ascii noWild, .call .arrangeGrid].foldl
      (step keepSizes latestTable) (start Int 6 12 [(6, 12, 0)])
    s.Wide ∧ (wmComposite latestTable noWild Theme.ascii s.wm s.vts).1.screen ≠
      (wmComposite latestTable noWild Theme.ascii s.wm.wmInvalidate s.vts).1.screen := by
  decide +kernel

end Desk

end Lumimux.Libwm
