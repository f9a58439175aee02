import Lumimux.Lib.Keyed
import Lumimux.Utf8.Codec
import Lumimux.Vt.Cell

/-!
# The window manager

`libwm/wm.c`: the windows with their order, focus and geometry, and the drags of the mouse.
-/

namespace Lumimux.Libwm

open Lib Utf8 Vt

/-- The arithmetic of `float`, as the code uses it. -/
class Arith (F : Type) where
  ofInt : Int → F
  half : F
  add : F → F → F
  mul : F → F → F
  div : F → F → F
  lt : F → F → Bool
  eq : F → F → Bool
  toInt : F → Int

/-- Whole numbers, for concrete runs. -/
instance : Arith Int where
  ofInt n := n
  half := 0
  add := (· + ·)
  mul := (· * ·)
  div := (· / ·)
  lt a b := a < b
  eq a b := a = b
  toInt n := n

inductive Shadow
  | none
  | half
  | shade
  deriving DecidableEq, Repr

structure Border where
  tl : Bytes
  t : Bytes
  tr : Bytes
  l : Bytes
  r : Bytes
  bl : Bytes
  b : Bytes
  br : Bytes
  deriving DecidableEq, Repr

structure Theme where
  border : Border
  titleL : Bytes
  titleR : Bytes
  iconScrollLock : Bytes
  iconInputLock : Bytes
  iconDead : Bytes
  scrollUp : Bytes
  scrollDown : Bytes
  /-- empty also for a null pointer -/
  scrollTrack : Bytes
  scrollThumb : Bytes
  selFg : Color
  focusFg : Color
  focusBg : Color
  unfocusFg : Color
  unfocusBg : Color
  titleFocusFg : Color
  titleIdleFg : Color
  closeFg : Color
  toolFg : Color
  statusFocusFg : Color
  statusIdleFg : Color
  indicatorFg : Color
  shadow : Shadow
  shadowFg : Color
  shadowBg : Color
  deriving DecidableEq, Repr

def Theme.ascii : Theme where
  border := ⟨[0x2B], [0x2D], [0x2B], [0x7C], [0x7C], [0x2B], [0x2D], [0x2B]⟩
  titleL := [0x20]
  titleR := [0x20]
  iconScrollLock := [0x53]
  iconInputLock := [0x49]
  iconDead := [0x58]
  scrollUp := [0x5E]
  scrollDown := [0x76]
  scrollTrack := [0x2E]
  scrollThumb := [0x23]
  selFg := .indexed 0
  focusFg := .indexed 15
  focusBg := .indexed 4
  unfocusFg := .indexed 8
  unfocusBg := .indexed 4
  titleFocusFg := .indexed 15
  titleIdleFg := .indexed 8
  closeFg := .indexed 0
  toolFg := .indexed 15
  statusFocusFg := .indexed 15
  statusIdleFg := .indexed 8
  indicatorFg := .indexed 15
  shadow := .none
  shadowFg := .default
  shadowBg := .default

structure Window (F : Type) where
  id : UInt32
  x : Int
  y : Int
  w : Int
  h : Int
  z : Int
  focused : Bool
  minimized : Bool
  maximized : Bool
  savedX : Int
  savedY : Int
  savedW : Int
  savedH : Int
  flags : UInt32
  scrollPos : F
  scrollLen : F
  winTheme : Option Theme
  /-- the handle of the terminal, none for a null pointer -/
  vt : Option Nat
  title : Bytes

inductive Drag
  | idle
  | moving
  | resizing
  | scrolling
  deriving DecidableEq, Repr

inductive Hit
  | none
  | content
  | title
  | border
  | close
  | minimize
  | maximize
  | scrollbar
  deriving DecidableEq, Repr

structure Wm (F : Type) where
  windows : List (Window F)
  rows : Nat
  cols : Nat
  screen : List Cell
  nextZ : Int
  compositeNeeded : Bool
  drag : Drag
  dragId : UInt32
  anchorRow : Int
  anchorCol : Int
  origX : Int
  origY : Int
  origW : Int
  origH : Int
  edgeLeft : Bool
  edgeTop : Bool

def wmMaxWindows : Nat := 32
def wmTitleMax : Nat := 128
def wmMinWidth : Int := 4
def wmMinHeight : Int := 2

def Cell.zero : Cell := ⟨0, {}, 0⟩

def wmNew (F : Type) (rows cols : Nat) : Wm F :=
  ⟨[], rows, cols, List.replicate (rows * cols) Cell.zero, 0, true, .idle, 0, 0, 0, 0, 0, 0, 0, false, false⟩

section

variable {F : Type}

def unitClamp [Arith F] (v : F) : F :=
  let v := if Arith.lt v (Arith.ofInt 0) then Arith.ofInt 0 else v
  if Arith.lt (Arith.ofInt 1) v then Arith.ofInt 1 else v

def Window.restored (win : Window F) : Window F :=
  { win with x := win.savedX, y := win.savedY, w := win.savedW, h := win.savedH, maximized := false }

def Window.framed (win : Window F) (row col : Int) : Bool :=
  win.y - 1 ≤ row && row < win.y - 1 + (win.h + 2) && win.x - 1 ≤ col && col < win.x - 1 + (win.w + 2)

def Window.areaAt [Arith F] (win : Window F) (row col : Int) : Hit :=
  let fx := win.x - 1
  let fy := win.y - 1
  let fw := win.w + 2
  let fh := win.h + 2
  let mx := fx + fw - 10
  if row = fy ∧ fw ≥ 12 ∧ mx ≤ col ∧ col ≤ mx + 2 then .minimize
  else if row = fy ∧ fw ≥ 12 ∧ mx + 3 ≤ col ∧ col ≤ mx + 5 then .maximize
  else if row = fy ∧ fw ≥ 12 ∧ mx + 6 ≤ col ∧ col ≤ mx + 8 then .close
  else if row = fy ∧ ¬ fw ≥ 12 ∧ fw ≥ 6 ∧ fx + fw - 4 ≤ col ∧ col ≤ fx + fw - 2 then .close
  else if row = fy then .title
  else if Arith.lt (Arith.ofInt 0) win.scrollLen ∧ col = fx + fw - 1 ∧ fy < row ∧ row < fy + fh - 1 then .scrollbar
  else if win.y ≤ row ∧ row < win.y + win.h ∧ win.x ≤ col ∧ col < win.x + win.w then .content
  else .border

end

namespace Wm

variable {F : Type}

def wmResize (wm : Wm F) (rows cols : Nat) : Wm F :=
  { wm with screen := List.replicate (rows * cols) Cell.zero, rows := rows, cols := cols, compositeNeeded := true }

def wmFind (wm : Wm F) (id : UInt32) : Option (Window F) := wm.windows.find? (·.id = id)

def setWindow (wm : Wm F) (id : UInt32) (f : Window F → Window F) : Wm F :=
  match wm.windows.findIdx? (·.id = id) with
  | none => wm
  | some i => { wm with windows := wm.windows.modify i f }

def onWindow (wm : Wm F) (id : UInt32) (f : Window F → Window F) : Wm F :=
  if (wm.wmFind id).isSome then { wm.setWindow id f with compositeNeeded := true } else wm

def wmAdd [Arith F] (wm : Wm F) (id : UInt32) (vt : Option Nat) (x y w h : Int) : Wm F × Bool :=
  if wm.windows.length ≥ wmMaxWindows then (wm, false)
  else if (wm.wmFind id).isSome then (wm, false)
  else
    let win : Window F :=
      ⟨id, x, y, w, h, wm.nextZ, false, false, false, 0, 0, 0, 0, 0, Arith.ofInt 0, Arith.ofInt 0, none, vt, []⟩
    ({ wm with windows := wm.windows ++ [win], nextZ := wm.nextZ + 1, compositeNeeded := true }, true)

def wmRemove (wm : Wm F) (id : UInt32) : Wm F :=
  match wm.windows.findIdx? (·.id = id) with
  | none => wm
  | some i => { wm with windows := swapRemove wm.windows i, compositeNeeded := true }

def wmForgetVt (wm : Wm F) (vt : Nat) : Wm F :=
  { wm with
    windows := wm.windows.map fun win => if win.vt = some vt then { win with vt := none } else win
    compositeNeeded := if wm.windows.any (·.vt = some vt) then true else wm.compositeNeeded }

def wmRaise (wm : Wm F) (id : UInt32) : Wm F :=
  if (wm.wmFind id).isSome then
    { wm.setWindow id (fun win => { win with z := wm.nextZ }) with nextZ := wm.nextZ + 1, compositeNeeded := true }
  else wm

def wmFocus (wm : Wm F) (id : UInt32) : Wm F :=
  let focused : Wm F := { wm with windows := wm.windows.map fun win => { win with focused := win.id = id } }
  { focused.wmRaise id with compositeNeeded := true }

def wmMove (wm : Wm F) (id : UInt32) (x y : Int) : Wm F := wm.onWindow id fun win => { win with x := x, y := y }

def wmSetTitle (wm : Wm F) (id : UInt32) (title : Bytes) : Wm F :=
  wm.onWindow id fun win => { win with title := title.take (utf8Trunc title wmTitleMax) }

def wmSetFlags (wm : Wm F) (id flags : UInt32) : Wm F := wm.onWindow id fun win => { win with flags := flags }

def wmSetTheme (wm : Wm F) (id : UInt32) (t : Option Theme) : Wm F := wm.onWindow id fun win => { win with winTheme := t }

def wmSetScroll [Arith F] (wm : Wm F) (id : UInt32) (pos len : F) : Wm F :=
  wm.onWindow id fun win => { win with scrollPos := unitClamp pos, scrollLen := unitClamp len }

def wmScrollPosFromRow [Arith F] (wm : Wm F) (id : UInt32) (row : Int) : F :=
  match wm.wmFind id with
  | none => Arith.ofInt 0
  | some win =>
    let top := if win.h ≥ 4 then win.y + 1 else win.y
    let inner := if win.h ≥ 4 then win.h - 2 else win.h
    if inner ≤ 0 then Arith.ofInt 0 else Arith.div (Arith.ofInt (row - top)) (Arith.ofInt (inner - 1))

def wmMinimize (wm : Wm F) (id : UInt32) : Wm F := wm.onWindow id fun win => { win with minimized := true }
def wmUnminimize (wm : Wm F) (id : UInt32) : Wm F := wm.onWindow id fun win => { win with minimized := false }

def filling (wm : Wm F) (win : Window F) : Window F :=
  { win with
    savedX := win.x, savedY := win.y, savedW := win.w, savedH := win.h
    x := 1, y := 1, w := wm.cols - 2, h := wm.rows - 2, maximized := true }

def wmToggleMaximize (wm : Wm F) (id : UInt32) : Wm F × Bool :=
  match wm.wmFind id with
  | none => (wm, false)
  | some win =>
    if win.maximized then (wm.onWindow id Window.restored, false) else (wm.onWindow id wm.filling, true)

def wmInvalidate (wm : Wm F) : Wm F := { wm with compositeNeeded := true }

def topmostAt (wm : Wm F) (row col : Int) : Option (Window F) :=
  let better (best : Option (Window F)) (win : Window F) : Option (Window F) :=
    if win.minimized then best
    else if win.framed row col && win.z > (best.map Window.z).getD (-1) then some win
    else best
  wm.windows.foldl better none

def wmHitTest [Arith F] (wm : Wm F) (row col : Int) : Option (UInt32 × Hit) :=
  (wm.topmostAt row col).map fun win => (win.id, win.areaAt row col)

def wmMousePress [Arith F] (wm : Wm F) (row col : Int) : Wm F × Option (UInt32 × Hit) × Drag :=
  match wm.wmHitTest row col with
  | none => (wm, none, .idle)
  | some (id, area) =>
    let wm := wm.wmFocus id
    let start (drag : Drag) (win : Window F) : Wm F :=
      { wm with drag := drag, dragId := id, anchorRow := row, anchorCol := col, origX := win.x, origY := win.y }
    match area, wm.wmFind id with
    | .title, some win => (start .moving win, some (id, area), .moving)
    | .border, some win =>
      ({ start .resizing win with
          origW := win.w, origH := win.h, edgeLeft := col < win.x, edgeTop := row < win.y },
        some (id, area), .resizing)
    | .scrollbar, some _ =>
      ({ wm with drag := .scrolling, dragId := id, anchorRow := row, anchorCol := col }, some (id, area), .scrolling)
    | _, _ => (wm, some (id, area), .idle)

def dragged (edge : Bool) (orig size pos delta minimum : Int) : Int × Int :=
  let new := if edge then size - delta else size + delta
  let at_ := if edge then orig + delta else pos
  if new < minimum then (if edge then at_ - (minimum - new) else at_, minimum) else (at_, new)

def wmMouseDrag [Arith F] (wm : Wm F) (row col : Int) : Wm F × Bool :=
  match wm.drag, wm.wmFind wm.dragId with
  | .idle, _ => (wm, false)
  | _, none => ({ wm with drag := .idle }, false)
  | .moving, some win =>
    let x := wm.origX + (col - wm.anchorCol)
    let y := wm.origY + (row - wm.anchorRow)
    if x = win.x ∧ y = win.y then (wm, false) else (wm.onWindow wm.dragId fun win => { win with x := x, y := y }, true)
  | .resizing, some win =>
    let (x, w) := dragged wm.edgeLeft wm.origX wm.origW win.x (col - wm.anchorCol) wmMinWidth
    let (y, h) := dragged wm.edgeTop wm.origY wm.origH win.y (row - wm.anchorRow) wmMinHeight
    if w = win.w ∧ h = win.h ∧ x = win.x ∧ y = win.y then (wm, false)
    else (wm.onWindow wm.dragId fun win => { win with x := x, y := y, w := w, h := h }, true)
  | .scrolling, some win =>
    let pos := unitClamp (wm.wmScrollPosFromRow wm.dragId row)
    if Arith.eq pos win.scrollPos then (wm, false)
    else (wm.onWindow wm.dragId fun win => { win with scrollPos := pos }, true)

def wmMouseRelease (wm : Wm F) : Wm F × Option (UInt32 × Bool) :=
  if wm.drag = .idle then (wm, none) else ({ wm with drag := .idle }, some (wm.dragId, wm.drag = .resizing))

def gridCols (n : Nat) : Nat := ((List.range (n + 1)).find? fun g => 1 ≤ g ∧ n ≤ g * g).getD 1

def gridPlace (wm : Wm F) (n i : Nat) (win : Window F) : Window F :=
  let gcols := gridCols n
  let grows := (n + gcols - 1) / gcols
  let cellW := wm.cols / gcols
  let cellH := wm.rows / grows
  let extraW := wm.cols - cellW * gcols
  let extraH := wm.rows - cellH * grows
  let gr := i / gcols
  let gc := i % gcols
  let w : Int := cellW + (if gc < extraW then 1 else 0) - 2
  let h : Int := cellH + (if gr < extraH then 1 else 0) - 2
  { win with
    x := gc * cellW + min gc extraW + 1
    y := gr * cellH + min gr extraH + 1
    w := max w wmMinWidth
    h := max h wmMinHeight
    maximized := false }

def placeAll (wm : Wm F) (n : Nat) : Nat → List (Window F) → List (Window F)
  | _, [] => []
  | i, win :: rest =>
    if win.minimized then win :: placeAll wm n i rest else wm.gridPlace n i win :: placeAll wm n (i + 1) rest

def wmArrangeGrid (wm : Wm F) : Wm F × Bool :=
  let n := (wm.windows.filter (!·.minimized)).length
  if n = 0 then (wm, false) else ({ wm with windows := wm.placeAll n 0 wm.windows }, true)

end Wm

end Lumimux.Libwm
