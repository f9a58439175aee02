import Lumimux.Vt.Cell

/-!
# The grid buffer and its scrollback ring (`libvt/vt_buf.c`)

The grid is a list of rows, the ring a list of optional rows.
-/

namespace Lumimux.Vt

structure Row where
  cells : List Cell
  wrapped : Bool := false
  dirty : Bool := false
  deriving DecidableEq, Repr

/-- A grid of rows over a ring of scrollback. -/
structure VtBuf where
  rows : Nat
  cols : Nat
  grid : List Row
  ring : List (Option Row)
  ringCap : Nat
  ringLen : Nat
  ringHead : Nat
  scrollGen : UInt32
  deriving DecidableEq, Repr

def rowAlloc (cols : Nat) : Row := ⟨List.replicate cols Cell.clear, false, false⟩

def rowAllocBg (cols : Nat) (bg : Color) : Row := ⟨List.replicate cols (Cell.erase bg), false, false⟩

def rowResize (oldCols newCols : Nat) (r : Row) : Row :=
  { r with
    cells := (r.cells ++ List.replicate (newCols - oldCols) Cell.clear).take newCols
    dirty := true }

def Row.eraseRange (r : Row) (start stop : Int) (bg : Color) : Row :=
  { r with
    cells := r.cells.mapIdx fun i c => if start ≤ i ∧ i < stop then Cell.erase bg else c }

def Row.shiftRight (r : Row) (start : Int) (count : Nat) : Row :=
  { r with
    cells := r.cells.mapIdx fun i c => if start + count ≤ i then r.cells.getD (i - count) c else c }

def Row.shiftLeft (r : Row) (start : Int) (count : Nat) : Row :=
  { r with
    cells := r.cells.mapIdx fun i c =>
      if start ≤ i ∧ i + count < r.cells.length then r.cells.getD (i + count) c else c }

def Row.setCell (r : Row) (col : Nat) (c : Cell) : Row := { r with cells := r.cells.set col c }

def Row.markDirty (r : Row) : Row := { r with dirty := true }

def VtBuf.new (rows cols scrollback : Nat) : VtBuf where
  rows := rows
  cols := cols
  grid := List.replicate rows (rowAlloc cols)
  ring := List.replicate scrollback none
  ringCap := scrollback
  ringLen := 0
  ringHead := 0
  scrollGen := 0

def VtBuf.resize (buf : VtBuf) (rows cols : Nat) : VtBuf :=
  let grow (r : Row) : Row := if cols ≠ buf.cols then rowResize buf.cols cols r else r
  { buf with
    grid := (buf.grid.take rows).map grow ++ List.replicate (rows - buf.rows) (rowAlloc cols)
    ring := buf.ring.map (Option.map grow)
    rows := rows
    cols := cols }

def VtBuf.row? (buf : VtBuf) (row : Int) : Option Row :=
  if row < 0 ∨ buf.rows ≤ row then none else buf.grid[row.toNat]?

def VtBuf.modifyRow (buf : VtBuf) (row : Int) (f : Row → Row) : VtBuf :=
  if row < 0 ∨ buf.rows ≤ row then buf else { buf with grid := buf.grid.modify row.toNat f }

def VtBuf.ringPush (buf : VtBuf) (r : Row) : VtBuf :=
  if buf.ringCap = 0 then buf
  else
    { buf with
      ring := buf.ring.set buf.ringHead (some r)
      ringHead := (buf.ringHead + 1) % buf.ringCap
      ringLen := if buf.ringLen < buf.ringCap then buf.ringLen + 1 else buf.ringLen }

def dirtyRows (top bottom : Nat) (grid : List Row) : List Row :=
  grid.mapIdx fun i r => if top ≤ i ∧ i < bottom then r.markDirty else r

def scrolledUp (grid : List Row) (top bottom count : Nat) (blank : Row) : List Row :=
  grid.take top ++ ((grid.drop (top + count)).take (bottom - top - count)
    ++ (List.replicate count blank ++ grid.drop bottom))

def scrolledDown (grid : List Row) (top bottom count : Nat) (blank : Row) : List Row :=
  grid.take top ++ (List.replicate count blank
    ++ ((grid.drop top).take (bottom - top - count) ++ grid.drop bottom))

/-- Scrolls the rows from `top` to `bottom`. -/
def VtBuf.scroll (buf : VtBuf) (top bottom count : Int) (bg : Color) : VtBuf :=
  let top := if top < 0 then 0 else top
  let bottom := if bottom > buf.rows then (buf.rows : Int) else bottom
  if top ≥ bottom ∨ count = 0 then buf
  else
    let t := top.toNat
    let b := bottom.toNat
    let n := min count.natAbs (b - t)
    let blank := rowAllocBg buf.cols bg
    let buf := { buf with scrollGen := buf.scrollGen + 1 }
    if count > 0 then
      -- only rows that leave at the top of the screen become history
      let leaving := (buf.grid.drop t).take n
      let pushed := if t = 0 then leaving.foldl VtBuf.ringPush buf else buf
      { pushed with grid := dirtyRows t b (scrolledUp buf.grid t b n blank) }
    else { buf with grid := dirtyRows t b (scrolledDown buf.grid t b n blank) }

def VtBuf.clearRows (buf : VtBuf) (start stop : Int) (bg : Color) : VtBuf :=
  { buf with
    grid := buf.grid.mapIdx fun i r =>
      if start ≤ i ∧ i < stop then ⟨r.cells.map fun _ => Cell.erase bg, false, true⟩ else r }

def pushedRow (dstCols srcCols : Nat) (r : Row) : Row :=
  ⟨(r.cells.take (min srcCols dstCols)) ++ List.replicate (dstCols - min srcCols dstCols) Cell.clear,
    false, true⟩

def VtBuf.pushRows (dst src : VtBuf) (start count : Int) : VtBuf :=
  if dst.ringCap = 0 ∨ count ≤ 0 then dst
  else
    let start := if start < 0 then 0 else start
    let n := if start + count > src.rows then src.rows - start else count
    if n ≤ 0 then dst
    else
      let copied := ((src.grid.drop start.toNat).take n.toNat).map (pushedRow dst.cols src.cols)
      { copied.foldl VtBuf.ringPush dst with scrollGen := dst.scrollGen + 1 }

def VtBuf.historyRow (buf : VtBuf) (line : Int) : Option Row :=
  if line < 0 then none
  else if line < buf.ringLen then
    let idx := (buf.ringHead + -(buf.ringLen - line) + buf.ringCap) % buf.ringCap
    (buf.ring[idx.toNat]?).join
  else if line - buf.ringLen < buf.rows then buf.grid[(line - buf.ringLen).toNat]?
  else none

def copiedRow (dst src : VtBuf) (line : Option Row) (r : Row) : Row :=
  let copied (j : Nat) : Cell :=
    match line with
    | none => Cell.clear
    | some sr => if j < min src.cols dst.cols then sr.cells.getD j Cell.clear else Cell.clear
  { r with
    cells := r.cells.mapIdx fun j c => if j < dst.cols then copied j else c
    dirty := true }

def VtBuf.copyScrollback (dst src : VtBuf) (dstRow srcOffset : Int) : Nat → VtBuf
  | 0 => dst
  | count + 1 =>
    if dstRow < 0 ∨ dst.rows ≤ dstRow then dst
    else
      (dst.modifyRow dstRow (copiedRow dst src (src.historyRow srcOffset))).copyScrollback src (dstRow + 1)
        (srcOffset + 1) count

theorem VtBuf.rows_modifyRow (b : VtBuf) (row : Int) (f : Row → Row) : (b.modifyRow row f).rows = b.rows := by
  unfold VtBuf.modifyRow
  split <;> rfl

theorem VtBuf.cols_modifyRow (b : VtBuf) (row : Int) (f : Row → Row) : (b.modifyRow row f).cols = b.cols := by
  unfold VtBuf.modifyRow
  split <;> rfl

end Lumimux.Vt
