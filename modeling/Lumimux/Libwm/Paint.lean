import Mathlib.Data.List.Sort
import Lumimux.Lib.Grid
import Lumimux.Libwm.Windows
import Lumimux.Vt.Emulator

/-!
# The compositor

`paint` is the screen of the windows back to front: a shadow, a frame with its parts, and the cells of the terminal;
`composite` repaints only when the state asks for it or a row is flagged.
-/

namespace Lumimux.Libwm

open Lib Utf8 Vt

/-- The composite: cells row after row. -/
structure Screen where
  rows : Nat
  cols : Nat
  cells : List Cell
  deriving DecidableEq, Repr

/-- The index of a cell on the screen. -/
def Screen.cell? (s : Screen) (row col : Int) : Option Nat :=
  if row < 0 ∨ row ≥ s.rows ∨ col < 0 ∨ col ≥ s.cols then none else some (row.toNat * s.cols + col.toNat)

/-- Changes a cell, if it is on the screen. -/
def Screen.onCell (s : Screen) (row col : Int) (f : Cell → Cell) : Screen :=
  match s.cell? row col with
  | none => s
  | some i => { s with cells := s.cells.modify i f }

def glyphWidth (w : WidthTable) (cp : Nat) : Nat := if runeWidth w cp < 1 then 1 else (runeWidth w cp).toNat

/-- A glyph, and the half behind a wide one. -/
def screenPut (w : WidthTable) (s : Screen) (row col : Int) (cp : Nat) (fg bg : Color) (attrs : Attrs) : Screen :=
  match s.cell? row col with
  | none => s
  | some _ =>
    let s := s.onCell row col fun _ => ⟨cp, ⟨attrs, fg, bg⟩, glyphWidth w cp⟩
    if glyphWidth w cp = 2 then s.onCell row (col + 1) fun _ => ⟨0, ⟨attrs, fg, bg⟩, 0⟩ else s

/-- The loop of `screen_puts`. -/
def putsLoop (w : WidthTable) (row : Int) (fg bg : Color) (attrs : Attrs) (stop : Int) :
    Nat → Screen → Int → Bytes → Screen
  | 0, s, _, _ => s
  | fuel + 1, s, c, str =>
    if str = [] ∨ c ≥ stop then s
    else
      let (cp, len) := utf8Decode (str.take 4)
      if c + glyphWidth w cp > stop then s
      else putsLoop w row fg bg attrs stop fuel (screenPut w s row c cp fg bg attrs) (c + glyphWidth w cp) (str.drop len)

def screenPuts (w : WidthTable) (s : Screen) (row col : Int) (str : Bytes) (fg bg : Color) (attrs : Attrs)
    (maxw : Int) : Screen := putsLoop w row fg bg attrs (col + maxw) str.length s col str

/-- The loop of `str_display_width`. -/
def widthLoop (w : WidthTable) (maxcols : Int) : Nat → Int → Bytes → Int
  | 0, cols, _ => cols
  | fuel + 1, cols, str =>
    if str = [] ∨ cols ≥ maxcols then cols
    else
      let (cp, len) := utf8Decode (str.take 4)
      if cols + glyphWidth w cp > maxcols then cols else widthLoop w maxcols fuel (cols + glyphWidth w cp) (str.drop len)

def strDisplayWidth (w : WidthTable) (str : Bytes) (maxcols : Int) : Int := widthLoop w maxcols str.length 0 str

def screenClear (rows cols : Nat) : Screen := ⟨rows, cols, List.replicate (rows * cols) Cell.clear⟩

section Frames

variable {F : Type} [Arith F] (w : WidthTable)

def bold : Attrs := { bold := true }

/-- Glyphs right of and below a window. -/
def drawShadow (s : Screen) (win : Window F) (theme : Theme) : Screen :=
  let fx := win.x - 1
  let fy := win.y - 1
  let fw := win.w + 2
  let fh := win.h + 2
  let edge (right bottom : Nat) : Screen :=
    let s := (intRange (fy + 1) (fy + fh)).foldl
      (fun s r => screenPut w s r (fx + fw) right theme.shadowFg theme.shadowBg {}) s
    (intRange (fx + 1) (fx + fw + 1)).foldl
      (fun s c => screenPut w s (fy + fh) c bottom theme.shadowFg theme.shadowBg {}) s
  match theme.shadow with
  | .none => s
  | .half => edge 0x2584 0x2580
  | .shade => edge 0x2591 0x2591

def winScrollLock : UInt32 := 1
def winInputLock : UInt32 := 2
def winDead : UInt32 := 4

def Window.has (win : Window F) (flag : UInt32) : Bool := win.flags &&& flag != 0

def Window.borderFg (win : Window F) (theme : Theme) : Color := if win.focused then theme.focusFg else theme.unfocusFg
def Window.borderBg (win : Window F) (theme : Theme) : Color := if win.focused then theme.focusBg else theme.unfocusBg

/-- The focus mark and the title, cut to the room left. -/
def drawTitle (s : Screen) (win : Window F) (theme : Theme) (nicons nbtns : Int) : Screen :=
  let fy := win.y - 1
  let fw := win.w + 2
  let bbg := win.borderBg theme
  let start := win.x - 1 + 1
  let s := screenPut w s fy start (if win.focused then 0x263C else 0x20) theme.indicatorFg bbg bold
  let start := start + 1
  if win.title = [] then s
  else
    let tfg := if win.focused then theme.titleFocusFg else theme.titleIdleFg
    let avail := max (fw - nbtns - 2 - nicons) 0
    let twidth := strDisplayWidth w win.title avail
    let s := screenPuts w s fy start theme.titleL tfg bbg bold 1
    let s := screenPuts w s fy (start + 1) win.title tfg bbg bold twidth
    screenPuts w s fy (start + 1 + twidth) theme.titleR tfg bbg bold 1

def drawButton (s : Screen) (win : Window F) (theme : Theme) (col : Int) (glyph : Nat) (fg : Color) : Screen :=
  let fy := win.y - 1
  let s := screenPut w s fy col 0x5B (win.borderFg theme) (win.borderBg theme) bold
  let s := screenPut w s fy (col + 1) glyph fg (win.borderBg theme) bold
  screenPut w s fy (col + 2) 0x5D (win.borderFg theme) (win.borderBg theme) bold

/-- The buttons in the top border. -/
def drawButtons (s : Screen) (win : Window F) (theme : Theme) : Screen :=
  let fx := win.x - 1
  let fw := win.w + 2
  if fw ≥ 12 then
    let mx := fx + fw - 10
    let s := drawButton w s win theme mx 0x5F theme.toolFg
    let s := drawButton w s win theme (mx + 3) (if win.maximized then 0x3D else 0x2B) theme.toolFg
    drawButton w s win theme (mx + 6) 0x78 theme.closeFg
  else if fw ≥ 6 then drawButton w s win theme (fx + fw - 4) 0x78 theme.closeFg
  else s

/-- The texts for the flags that are set. -/
def Window.icons (win : Window F) (theme : Theme) : List Bytes :=
  (if win.has winDead then [theme.iconDead] else []) ++
    (if win.has winScrollLock then [theme.iconScrollLock] else []) ++
    (if win.has winInputLock then [theme.iconInputLock] else [])

def drawIcons (s : Screen) (win : Window F) (theme : Theme) (nbtns : Int) : Screen :=
  let fx := win.x - 1
  let icons := win.icons theme
  let icol := max (fx + (win.w + 2) - nbtns - 1 - icons.length) (fx + 1)
  let sfg := if win.focused then theme.statusFocusFg else theme.statusIdleFg
  (icons.foldl (fun (at_ : Screen × Int) icon =>
    (screenPuts w at_.1 (win.y - 1) at_.2 icon sfg (win.borderBg theme) bold 1, at_.2 + 1)) (s, icol)).1

/-- The scrollbar's thumb: start and length. -/
def thumb (pos len : F) (inner : Int) : Int × Int :=
  let cells := Arith.toInt (Arith.add (Arith.mul len (Arith.ofInt inner)) Arith.half)
  let cells := if cells < 1 then 1 else cells
  let cells := if cells > inner then inner else cells
  let start := Arith.toInt (Arith.add (Arith.mul pos (Arith.ofInt (inner - cells))) Arith.half)
  let start := if start < 0 then 0 else start
  (if start + cells > inner then inner - cells else start, cells)

def drawScrollbar (s : Screen) (win : Window F) (theme : Theme) : Screen :=
  if Arith.lt (Arith.ofInt 0) win.scrollLen ∧ win.h > 0 ∧ theme.scrollTrack ≠ [] then
    let col := win.x - 1 + (win.w + 2) - 1
    let top := win.y - 1 + 1
    let sbg := win.borderBg theme
    let tfg := if win.focused then theme.titleFocusFg else theme.titleIdleFg
    let arrows := win.h ≥ 4
    let s := if arrows then screenPuts w s top col theme.scrollUp tfg sbg {} 1 else s
    let s := if arrows then screenPuts w s (top + win.h - 1) col theme.scrollDown tfg sbg {} 1 else s
    let innerTop := if arrows then top + 1 else top
    let inner := if arrows then win.h - 2 else win.h
    if inner > 0 then
      let (start, cells) := thumb win.scrollPos win.scrollLen inner
      (intRange 0 inner).foldl (fun s r =>
        if start ≤ r ∧ r < start + cells then screenPuts w s (innerTop + r) col theme.scrollThumb theme.selFg sbg bold 1
        else screenPuts w s (innerTop + r) col theme.scrollTrack (win.borderFg theme) sbg {} 1) s
    else s
  else s

/-- The border with its parts. -/
def drawFrame (s : Screen) (win : Window F) (theme : Theme) : Screen :=
  let fx := win.x - 1
  let fy := win.y - 1
  let fw := win.w + 2
  let fh := win.h + 2
  let put (s : Screen) (r c : Int) (glyph : Bytes) : Screen :=
    screenPuts w s r c glyph (win.borderFg theme) (win.borderBg theme) {} 1
  let s := put s fy fx theme.border.tl
  let s := (intRange (fx + 1) (fx + fw - 1)).foldl (fun s c => put s fy c theme.border.t) s
  let s := put s fy (fx + fw - 1) theme.border.tr
  let nicons : Int := (win.icons theme).length
  let nbtns : Int := if fw ≥ 12 then 9 else 3
  let s := drawTitle w s win theme nicons nbtns
  let s := drawButtons w s win theme
  let s := drawIcons w s win theme nbtns
  let s := (intRange (fy + 1) (fy + fh - 1)).foldl
    (fun s r => put (put s r fx theme.border.l) r (fx + fw - 1) theme.border.r) s
  let s := drawScrollbar w s win theme
  let s := put s (fy + fh - 1) fx theme.border.bl
  let s := (intRange (fx + 1) (fx + fw - 1)).foldl (fun s c => put s (fy + fh - 1) c theme.border.b) s
  put s (fy + fh - 1) (fx + fw - 1) theme.border.br

end Frames

def VtState.rowCells (vt : VtState) (r : Int) : Option (List Cell) := (vt.buf.row? r).map Row.cells

section Contents

variable {F : Type}

/-- What `draw_content` finds in memory behind the end of a row: anything. -/
abbrev Wild (F : Type) := Window F → Int → Int → Cell

/-- The columns of a row that `draw_content` reads: it goes over the width of the window, not of the terminal, and skips
those that are not on the screen. -/
def rowReads (rows cols : Nat) (win : Window F) (r : Int) : List Int :=
  (intRange 0 win.w).filter fun c => (Screen.cell? ⟨rows, cols, []⟩ (win.y + r) (win.x + c)).isSome

/-- A row of the terminal, clipped to the screen. -/
def drawRow (wild : Wild F) (s : Screen) (win : Window F) (r : Int) (cells : List Cell) : Screen :=
  (rowReads s.rows s.cols win r).foldl (fun s c =>
    s.onCell (win.y + r) (win.x + c) fun _ =>
      let cell := cells[c.toNat]?.getD (wild win r c)
      { cell with style.attrs.predicted := false }) s

/-- The rows of the window that the terminal has. -/
def contentRows (win : Window F) (vt : VtState) : List (Int × List Cell) :=
  (intRange 0 win.h).filterMap fun r => (VtState.rowCells vt r).map (r, ·)

/-- The rows of the terminal. -/
def drawContent (wild : Wild F) (s : Screen) (win : Window F) (vt : VtState) : Screen :=
  (contentRows win vt).foldl (fun s row => drawRow wild s win row.1 row.2) s

/-- The flags of the rows that were drawn are cleared. -/
def seen (h : Int) (vt : VtState) : VtState :=
  vt.modifyBuf fun b => { b with grid := b.grid.mapIdx fun i r => if (i : Int) < h then { r with dirty := false } else r }

/-- The cursor of an unfocused window. -/
def drawCursor (s : Screen) (win : Window F) (vt : VtState) : Screen :=
  if !win.focused && vt.modes.cursorVis then
    s.onCell (win.y + vt.cursorRow) (win.x + vt.cursorCol) fun c =>
      { c with style.attrs.reverse := !c.style.attrs.reverse }
  else s

end Contents

section Composite

variable {F : Type} [Arith F] (w : WidthTable)

def Window.terminal (win : Window F) (vts : List Emu) : Option VtState := win.vt.bind fun i => (vts[i]?).map Emu.vt

/-- A window with its shadow and contents. -/
def drawWindow (wild : Wild F) (theme : Theme) (vts : List Emu) (s : Screen) (win : Window F) : Screen :=
  let wt := win.winTheme.getD theme
  let s := drawFrame w (drawShadow w s win wt) win wt
  match win.terminal vts with
  | none => s
  | some vt => drawCursor (drawContent wild s win vt) win vt

/-- The shown windows, back to front. -/
def Wm.paintOrder (wm : Wm F) : List (Window F) := (wm.windows.filter (!·.minimized)).insertionSort (·.z ≤ ·.z)

/-- The size shown while a window is resized. -/
def Wm.sizeLabel (wm : Wm F) : Option (Int × Int × Bytes × Int) :=
  if wm.drag = .resizing then
    match wm.wmFind wm.dragId with
    | none => none
    | some dw =>
      if dw.w ≥ 5 ∧ dw.h ≥ 1 then
        let label := decimal dw.w.toNat ++ ascii "x" ++ decimal dw.h.toNat
        let len : Int := min label.length dw.w
        some (dw.y + dw.h / 2, dw.x + (dw.w - len) / 2, label, len)
      else none
  else none

def drawLabel (s : Screen) : Option (Int × Int × Bytes × Int) → Screen
  | none => s
  | some (row, col, label, len) => screenPuts w s row col label (.indexed 15) (.indexed 0) bold len

/-- A full repaint. -/
def paint (wild : Wild F) (theme : Theme) (wm : Wm F) (vts : List Emu) : List Cell :=
  (drawLabel w (wm.paintOrder.foldl (drawWindow w wild theme vts) (screenClear wm.rows wm.cols)) wm.sizeLabel).cells

/-- A shown row is flagged. -/
def anyVtDirty (wm : Wm F) (vts : List Emu) : Bool :=
  wm.windows.any fun win =>
    !win.minimized &&
      match win.terminal vts with
      | none => false
      | some vt => (intRange 0 win.h).any fun r => ((vt.buf.row? r).map Row.dirty).getD false

def clearFlags (wm : Wm F) (vts : List Emu) : List Emu :=
  wm.paintOrder.foldl (fun vts win =>
    match win.vt with
    | none => vts
    | some i => vts.modify i fun e => { e with vt := seen win.h e.vt }) vts

def repaints (wm : Wm F) (vts : List Emu) : Bool := wm.compositeNeeded || anyVtDirty wm vts

/-- Repaints only if it has to. -/
def wmComposite (wild : Wild F) (theme : Theme) (wm : Wm F) (vts : List Emu) : Wm F × List Emu :=
  if !repaints wm vts then (wm, vts)
  else ({ wm with screen := paint w wild theme wm vts, compositeNeeded := false }, clearFlags wm vts)

end Composite

end Lumimux.Libwm
