import Mathlib.Data.List.DropRight
import Lumimux.Vt.Dump

/-!
# The differential renderer (`librender/render.c`)

`render_cells_full` draws a frame, `render_cells_diff` what differs from the shadow.
-/

namespace Lumimux.Librender
open Lib Utf8 Vt

inductive Out where
  | syncBegin
  | syncEnd
  | cup (row col : Int)
  | cursorVis (shown : Bool)
  | clear
  | reset
  | sgr (codes : List Nat)
  | el
  | text (codepoint : Nat)
  deriving DecidableEq, Repr

inductive Cap where
  | cnorm
  | civis
  | clear
  | sgr0
  deriving DecidableEq, Repr

structure Txl where
  /-- `txl_cup`; empty if it fails. -/
  cup : Int → Int → Bytes
  str : Cap → Option Bytes
  hasBce : Bool

def fmtInt (n : Int) : Bytes := decimal n.toNat

def emitCap (txl : Option Txl) (cap : Cap) (fallback : Bytes) : Bytes :=
  (txl.bind fun txl => txl.str cap).getD fallback

def cupText (txl : Option Txl) (row col : Int) : Bytes :=
  let text := (txl.map fun txl => txl.cup row col).getD []
  if text ≠ [] then text else ascii "\x1b[" ++ (fmtInt (row + 1) ++ 0x3B :: (fmtInt (col + 1) ++ ascii "H"))

def joined : List Nat → Bytes
  | [] => []
  | n :: rest => decimal n ++ separated rest

def glyphText (codepoint : Nat) : Bytes := if utf8Encode codepoint = [] then [0x20] else utf8Encode codepoint

def Out.bytes (txl : Option Txl) : Out → Bytes
  | .syncBegin => ascii "\x1b[?2026h"
  | .syncEnd => ascii "\x1b[?2026l"
  | .cup row col => cupText txl row col
  | .cursorVis true => emitCap txl .cnorm (ascii "\x1b[?25h")
  | .cursorVis false => emitCap txl .civis (ascii "\x1b[?25l")
  | .clear => emitCap txl .clear (ascii "\x1b[H\x1b[2J")
  | .reset => emitCap txl .sgr0 (ascii "\x1b[0m")
  | .sgr codes => ascii "\x1b[" ++ (joined codes ++ ascii "m")
  | .el => ascii "\x1b[K"
  | .text codepoint => glyphText codepoint

/-- The cursor and style the renderer thinks the terminal has. -/
structure Pen where
  row : Int := 0
  col : Int := 0
  vis : Int := -1
  style : Style := {}
  deriving DecidableEq, Repr

/-- The pen, and what was written. -/
structure Draw where
  pen : Pen
  opened : Bool := false
  out : List Out := []
  deriving DecidableEq, Repr

namespace Draw

def emit (d : Draw) (o : Out) : Draw := { d with out := d.out ++ [o] }

def moveTo (d : Draw) (row col : Int) : Draw :=
  if d.pen.row ≠ row ∨ d.pen.col ≠ col then { d.emit (.cup row col) with pen := { d.pen with row := row, col := col } }
  else d

def cursorVis (d : Draw) (vis : Int) : Draw :=
  if vis = d.pen.vis then d else { d.emit (.cursorVis (vis ≠ 0)) with pen := { d.pen with vis := vis } }

def resetSgr (d : Draw) : Draw := { d.emit .reset with pen := { d.pen with style := {} } }

end Draw

def attrsRemoved (a b : Attrs) : Bool :=
  (a.bold && !b.bold) || (a.underline && !b.underline) || (a.reverse && !b.reverse) || (a.italic && !b.italic)
    || (a.blink && !b.blink) || (a.undercurl && !b.undercurl) || (a.dim && !b.dim) || (a.hidden && !b.hidden)
    || (a.strike && !b.strike) || (a.predicted && !b.predicted)

def mustReset (cur new : Style) : Bool :=
  attrsRemoved cur.attrs new.attrs || (cur.fg ≠ .default && new.fg = .default) || (cur.bg ≠ .default && new.bg = .default)

def addedAttrs (cur new : Attrs) : List Nat :=
  (if new.bold && !cur.bold then [1] else []) ++ (if new.dim && !cur.dim then [2] else [])
    ++ (if new.italic && !cur.italic then [3] else []) ++ (if new.underline && !cur.underline then [4] else [])
    ++ (if new.blink && !cur.blink then [5] else []) ++ (if new.reverse && !cur.reverse then [7] else [])
    ++ (if new.hidden && !cur.hidden then [8] else []) ++ (if new.strike && !cur.strike then [9] else [])

def changedColor (base : Nat) (cur new : Color) : List Nat :=
  if new = cur then [] else if new = .default then [base + 9] else colorCodes base new

def sgrChange (cur new : Style) : List Nat :=
  let base : Style := if mustReset cur new then {} else cur
  (if mustReset cur new then [0] else []) ++
    (addedAttrs base.attrs new.attrs ++ (changedColor 30 base.fg new.fg ++ changedColor 40 base.bg new.bg))

def drawStyle (c : Cell) : Style :=
  { c.style with attrs := { c.style.attrs with predicted := false, dim := c.style.attrs.dim || c.style.attrs.predicted } }

namespace Draw

/-- Changes to the style, if it is another one. -/
def emitSgr (d : Draw) (s : Style) : Draw :=
  if s = d.pen.style then d else { d.emit (.sgr (sgrChange d.pen.style s)) with pen := { d.pen with style := s } }

def emitCell (d : Draw) (c : Cell) : Draw :=
  if c.width = 0 then d
  else
    let d := (d.emitSgr (drawStyle c)).emit (.text c.codepoint)
    { d with pen := { d.pen with col := d.pen.col + c.width } }

def eraseTail (d : Draw) (row start : Int) (bg : Color) : Draw := ((d.emitSgr { bg := bg }).moveTo row start).emit .el

end Draw

def cellEq (a b : Cell) : Bool :=
  a.codepoint = b.codepoint ∧ { a.style.attrs with predicted := false } = { b.style.attrs with predicted := false } ∧
    a.width = b.width ∧ a.style.fg = b.style.fg ∧ a.style.bg = b.style.bg

def spaceLike (c : Cell) : Bool := (c.codepoint = space ∨ c.codepoint = 0) ∧ c.style.attrs = {}

/-- The run of blanks at the end that EL can erase. -/
def findTrailEl (cs : List Cell) : Option (Nat × Color) :=
  match cs.reverse with
  | [] => none
  | last :: _ =>
    let run := cs.reverse.takeWhile fun c => spaceLike c && c.style.bg = last.style.bg
    if run = [] ∨ last.style.bg = .default ∨ run.length < 3 then none
    else some (cs.length - run.length, last.style.bg)

def cellIsBlank (c : Cell) : Bool := spaceLike c ∧ c.style.fg = .default ∧ c.style.bg = .default

/-- The renderer with its shadow. -/
structure Render where
  rows : Nat
  cols : Nat
  shadow : List (List Cell)
  txl : Option Txl
  hasBce : Bool
  pen : Pen

def shadowClear (rows cols : Nat) : List (List Cell) := List.replicate rows (List.replicate cols Cell.clear)

def Render.new (rows cols : Nat) (txl : Option Txl) : Render :=
  { rows := rows, cols := cols, shadow := shadowClear rows cols, txl := txl
    hasBce := (txl.map Txl.hasBce).getD true, pen := {} }

def trailEl (hasBce : Bool) (cs : List Cell) : Option (Nat × Color) := if hasBce then findTrailEl cs else none

def pairUp : List Cell → List Cell → List (Cell × Cell)
  | [], _ => []
  | c :: cs, [] => (c, Cell.clear) :: pairUp cs []
  | c :: cs, s :: ss => (c, s) :: pairUp cs ss

def shadowSetEl (n : Nat) (bg : Color) : List Cell := List.replicate n (Cell.erase bg)

def frameRows (cells : List Cell) (cols rrows rcols : Nat) : List (List Cell) :=
  (List.range rrows).map fun row => (cells.drop (row * cols)).take rcols

def fullCells (row : Int) : Int → List (Cell × Cell) → Draw → Draw × List Cell
  | _, [], d => (d, [])
  | col, (c, s) :: rest, d =>
    if cellIsBlank c then
      let done := fullCells row (col + 1) rest d
      (done.1, s :: done.2)
    else
      let done := fullCells row (col + 1) rest ((d.moveTo row col).emitCell c)
      (done.1, c :: done.2)

def fullRow (hasBce : Bool) (row : Int) (cs ss : List Cell) (d : Draw) : Draw × List Cell :=
  match trailEl hasBce cs with
  | none =>
    let done := fullCells row 0 (pairUp cs ss) d
    (done.1, done.2 ++ ss.drop cs.length)
  | some (start, bg) =>
    let done := fullCells row 0 ((pairUp cs ss).take start) d
    (done.1.eraseTail row start bg, done.2 ++ (shadowSetEl (cs.length - start) bg ++ ss.drop cs.length))

def fullRows (hasBce : Bool) : Int → List (List Cell) → List (List Cell) → Draw → Draw × List (List Cell)
  | _, [], shadow, d => (d, shadow)
  | row, cs :: frame, shadow, d =>
    let first := fullRow hasBce row cs (shadow.headD []) d
    let rest := fullRows hasBce (row + 1) frame shadow.tail first.1
    (rest.1, first.2 :: rest.2)

/-- Draws a whole frame. -/
def renderCellsFull (r : Render) (cells : List Cell) (rows cols : Nat) (cursorRow cursorCol cursorVis : Int) :
    Render × List Out :=
  let frame := frameRows cells cols (min rows r.rows) (min cols r.cols)
  let d := (({ pen := r.pen : Draw }.emit .syncBegin).resetSgr.emit .clear)
  let d := { d with pen := { d.pen with row := 0, col := 0 } }
  let drawn := fullRows r.hasBce 0 frame (shadowClear r.rows r.cols) d
  let d := drawn.1.resetSgr.emit (.cup cursorRow cursorCol)
  let d := { d with pen := { d.pen with row := cursorRow, col := cursorCol } }
  let d := (d.cursorVis cursorVis).emit .syncEnd
  ({ r with shadow := drawn.2, pen := d.pen }, d.out)

def unchanged (p : Cell × Cell) : Bool := cellEq p.1 p.2

def overdrawMax : Nat := 6

def diffCells (row : Int) : Nat → Int → List (Cell × Cell) → Draw → Draw × List Cell
  | _, _, [], d => (d, [])
  | skip + 1, col, (_, s) :: rest, d =>
    let done := diffCells row skip (col + 1) rest d
    (done.1, s :: done.2)
  | 0, col, (c, s) :: rest, d =>
    if cellEq c s then
      let gap := 1 + (rest.takeWhile unchanged).length
      if rest.dropWhile unchanged ≠ [] ∧ gap ≤ overdrawMax then
        let done := diffCells row 0 (col + 1) rest (d.emitCell c)
        (done.1, s :: done.2)
      else
        let done := diffCells row (gap - 1) (col + 1) rest d
        (done.1, s :: done.2)
    else
      let done := diffCells row 0 (col + 1) rest ((d.moveTo row col).emitCell c)
      (done.1, c :: done.2)

def useEl (hasBce : Bool) (cs : List Cell) (ps : List (Cell × Cell)) : Option (Nat × Color) :=
  match trailEl hasBce cs with
  | none => none
  | some (start, bg) =>
    if (ps.drop start).any fun p => p.2.codepoint ≠ space || p.2.style ≠ { bg := bg } then some (start, bg) else none

def Draw.open (d : Draw) : Draw := if d.opened then d else { d.emit .syncBegin with opened := true }

def diffScan (row : Int) (ps : List (Cell × Cell)) (d : Draw) : Draw × List Cell :=
  let before := ps.takeWhile unchanged
  let range := (ps.dropWhile unchanged).rdropWhile unchanged
  let after := ps.drop (before.length + range.length)
  if range = [] then (d, ps.map Prod.snd)
  else
    let done := diffCells row 0 before.length range (d.moveTo row before.length)
    (done.1, before.map Prod.snd ++ (done.2 ++ after.map Prod.snd))

def diffRow (hasBce : Bool) (row : Int) (cs ss : List Cell) (d : Draw) : Draw × List Cell :=
  let ps := pairUp cs ss
  match useEl hasBce cs ps with
  | none =>
    if ps.all unchanged then (d, ss)
    else
      let done := diffScan row ps d.open
      (done.1, done.2 ++ ss.drop cs.length)
  | some (start, bg) =>
    let done := diffScan row (ps.take start) d.open
    (done.1.eraseTail row start bg, done.2 ++ (shadowSetEl (cs.length - start) bg ++ ss.drop cs.length))

def diffRows (hasBce : Bool) (rowDirty : Option (List Bool)) :
    Nat → List (List Cell) → List (List Cell) → Draw → Draw × List (List Cell)
  | _, [], shadow, d => (d, shadow)
  | row, cs :: frame, shadow, d =>
    let dirty := (rowDirty.map fun flags => flags.getD row false).getD true
    let first := if dirty then diffRow hasBce row cs (shadow.headD []) d else (d, shadow.headD [])
    let rest := diffRows hasBce rowDirty (row + 1) frame shadow.tail first.1
    (rest.1, first.2 :: rest.2)

/-- Draws what differs from the shadow. -/
def renderCellsDiff (r : Render) (cells : List Cell) (rows cols : Nat) (cursorRow cursorCol cursorVis : Int)
    (rowDirty : Option (List Bool)) : Render × List Out :=
  let frame := frameRows cells cols (min rows r.rows) (min cols r.cols)
  let drawn := diffRows r.hasBce rowDirty 0 frame r.shadow { pen := r.pen }
  let d := drawn.1
  if !d.opened ∧ d.pen.row = cursorRow ∧ d.pen.col = cursorCol ∧ cursorVis = d.pen.vis then
    ({ r with shadow := drawn.2, pen := d.pen }, d.out)
  else
    let d := if !d.opened then d.emit .syncBegin else d.resetSgr
    let d := ((d.moveTo cursorRow cursorCol).cursorVis cursorVis).emit .syncEnd
    ({ r with shadow := drawn.2, pen := d.pen }, d.out)

def Render.bytes (r : Render) (out : List Out) : Bytes := out.flatMap (Out.bytes r.txl)

end Lumimux.Librender
