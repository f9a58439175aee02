import Lumimux.Lib.Grid
import Lumimux.Tile.Tile

/-!
# The separator map (`libtile/tile_composite.c`)

One line for each split in a map of the screen, off which the glyphs are read.
-/

namespace Lumimux.Libtile
open Lib

structure SepFlags where
  h : Bool := false
  v : Bool := false
  focused : Bool := false
  deriving DecidableEq, Repr

def SepFlags.marked (f : SepFlags) : Bool := f.h || f.v

def SepFlags.mark (dir : SplitDir) (focused : Bool) (f : SepFlags) : SepFlags :=
  { h := f.h || dir = .h, v := f.v || dir = .v, focused := f.focused || focused }

def subtreeHasFocused (focusedId : Nat) : TileNode → Bool
  | .leaf pane => pane.windowId = focusedId
  | .branch _ a b => subtreeHasFocused focusedId a || subtreeHasFocused focusedId b

def separatorLine (rows cols : Int) (split : Split) (first : Rect) : List (Int × Int) :=
  match split.dir with
  | .v =>
    let pos := first.x + first.w
    if 0 ≤ pos ∧ pos < cols then
      (intRange split.rect.y (min (split.rect.y + split.rect.h) rows)).map fun i => (i, pos)
    else []
  | .h =>
    let pos := first.y + first.h
    if 0 ≤ pos ∧ pos < rows then
      (intRange split.rect.x (min (split.rect.x + split.rect.w) cols)).map fun i => (pos, i)
    else []

def markCell (cols : Int) (dir : SplitDir) (focused : Bool) (smap : List SepFlags) (cell : Int × Int) : List SepFlags :=
  smap.modify (cell.1 * cols + cell.2).toNat (SepFlags.mark dir focused)

/-- Marks the line of each split. -/
def markSeparators (rows cols : Int) (focusedId : Nat) : List SepFlags → TileNode → List SepFlags
  | smap, .leaf _ => smap
  | smap, .branch split a b =>
    let focused := subtreeHasFocused focusedId a && subtreeHasFocused focusedId b
    let focused := if !focused then subtreeHasFocused focusedId a || subtreeHasFocused focusedId b else focused
    let smap := (separatorLine rows cols split (nodeRect a)).foldl (markCell cols split.dir focused) smap
    markSeparators rows cols focusedId (markSeparators rows cols focusedId smap a) b

def blankMap (rows cols : Int) : List SepFlags := List.replicate (rows * cols).toNat {}

def flagsAt (cols : Int) (smap : List SepFlags) (r c : Int) : SepFlags := smap.getD (r * cols + c).toNat {}

end Lumimux.Libtile
