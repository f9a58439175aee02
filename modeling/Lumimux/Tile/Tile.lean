import Lumimux.Lib.Tree

/-!
# The split-pane tree (`libtile/tile.c`)

A binary tree of splits with the panes at its leaves. A pointer to a node is its place in the tree.
-/

namespace Lumimux.Libtile
open Lib

structure Rect where
  x : Int := 0
  y : Int := 0
  w : Int := 0
  h : Int := 0
  deriving DecidableEq, Repr

inductive SplitDir where
  | h
  | v
  deriving DecidableEq, Repr

def Rect.extent (rect : Rect) : SplitDir → Int
  | .h => rect.h
  | .v => rect.w

structure Pane where
  windowId : Nat
  vt : Option Nat := none
  rect : Rect := {}
  deriving DecidableEq, Repr

def Pane.Splits (pane : Pane) (dir : SplitDir) : Prop := 3 ≤ pane.rect.extent dir
  deriving Decidable

structure Split where
  dir : SplitDir
  splitPos : Int
  rect : Rect := {}
  deriving DecidableEq, Repr

abbrev TileNode := Tree Split Pane

def nodeRect : TileNode → Rect
  | .leaf pane => pane.rect
  | .branch split _ _ => split.rect

/-- The tree with its screen and focus. -/
structure Tile where
  root : TileNode
  rows : Int
  cols : Int
  focusedId : Nat := 0
  paneCount : Int := 1
  deriving DecidableEq, Repr

def nodeFind (windowId : Nat) : TileNode → Option Place
  | .leaf pane => if pane.windowId = windowId then some [] else none
  | .branch _ a b =>
    match nodeFind windowId a with
    | some place => some (.a :: place)
    | none => (nodeFind windowId b).map (.b :: ·)

def isLeafOf (windowId : Nat) : TileNode → Bool
  | .leaf pane => pane.windowId = windowId
  | .branch .. => false

/-- The branch above the leaf of an id, searched from the root. -/
def nodeFindLeafParent (windowId : Nat) : TileNode → Option Place
  | .leaf _ => none
  | .branch _ a b =>
    if isLeafOf windowId a then some []
    else if isLeafOf windowId b then some []
    else
      match nodeFindLeafParent windowId a with
      | some place => some (.a :: place)
      | none => (nodeFindLeafParent windowId b).map (.b :: ·)

/-- Where a split puts its separator. -/
def splitMid (size splitPos : Int) : Int :=
  let mid := (size * splitPos).tdiv 256
  let mid := if mid < 1 then 1 else mid
  if mid > size - 2 then size - 2 else mid

/-- Gives every node its rectangle. -/
def tileLayout : TileNode → Rect → TileNode
  | .leaf pane, rect => .leaf { pane with rect := rect }
  | .branch split a b, rect =>
    match split.dir with
    | .v =>
      let mid := splitMid rect.w split.splitPos
      .branch { split with rect := rect }
        (tileLayout a { rect with w := mid })
        (tileLayout b { rect with x := rect.x + mid + 1, w := rect.w - mid - 1 })
    | .h =>
      let mid := splitMid rect.h split.splitPos
      .branch { split with rect := rect }
        (tileLayout a { rect with h := mid })
        (tileLayout b { rect with y := rect.y + mid + 1, h := rect.h - mid - 1 })

namespace Tile

def relayout (t : Tile) : Tile := { t with root := tileLayout t.root { w := t.cols, h := t.rows } }

def new (rows cols : Int) : Tile := relayout { root := .leaf { windowId := 0 }, rows := rows, cols := cols }

def importTree (t : Tile) (root : TileNode) : Tile := relayout { t with root := root, paneCount := root.leaves.length }

def focus (t : Tile) (paneId : Nat) : Tile :=
  if (nodeFind paneId t.root).isSome then { t with focusedId := paneId } else t

def splicePlace (parent : Option Place) (target : Place) : Place :=
  match parent with
  | some parent => if parent ++ [.a] = target then parent ++ [.a] else parent ++ [.b]
  | none => []

def split (t : Tile) (paneId : Nat) (dir : SplitDir) (newId : Nat) (newVt : Option Nat) : Tile × Bool :=
  match nodeFind paneId t.root with
  | none => (t, false)
  | some target =>
    match t.root.get? target with
    | some (.leaf pane) =>
      if pane.Splits dir then
        let newBranch : TileNode := .branch { dir := dir, splitPos := 128 } (.leaf pane) (.leaf { windowId := newId, vt := newVt })
        let place := splicePlace (nodeFindLeafParent paneId t.root) target
        (relayout { t with root := t.root.replace place newBranch, paneCount := t.paneCount + 1 }, true)
      else (t, false)
    | _ => (t, false)

def close (t : Tile) (paneId : Nat) : Tile × Bool :=
  if t.paneCount ≤ 1 then (t, false)
  else
    match nodeFindLeafParent paneId t.root with
    | none => (t, false)
    | some parent =>
      match t.root.get? parent with
      | some (.branch _ a b) =>
        let sibling := if isLeafOf paneId a then b else a
        let focusedId := if t.focusedId = paneId then (sibling.leaves.head?.elim t.focusedId Pane.windowId) else t.focusedId
        (relayout { t with
          root := t.root.replace parent sibling, focusedId := focusedId, paneCount := t.paneCount - 1 }, true)
      | _ => (t, false)

def setWindow (t : Tile) (paneId windowId : Nat) (vt : Option Nat) : Tile × Bool :=
  match nodeFind paneId t.root with
  | none => (t, false)
  | some target =>
    match t.root.get? target with
    | some (.leaf pane) =>
      ({ t with root := t.root.replace target (.leaf { pane with windowId := windowId, vt := vt }) }, true)
    | _ => (t, false)

def resizeWalk (root : TileNode) (dir : SplitDir) (side : Side) : List Side → Option Place
  | [] => none
  | here :: up =>
    match root.get? up.reverse with
    | some (.branch split _ _) => if split.dir = dir ∧ here = side then some up.reverse else resizeWalk root dir side up
    | _ => none

def resizeSplit (t : Tile) (paneId : Nat) (dir : SplitDir) (side : Side) : Option Place :=
  match nodeFind paneId t.root with
  | none => none
  | some [] => none
  | some leaf =>
    match nodeFindLeafParent paneId t.root with
    | none => none
    | some parent =>
      match t.root.get? parent with
      | some (.branch split _ _) =>
        if split.dir = dir ∧ parent ++ [side] = leaf then some parent
        else resizeWalk t.root dir side parent.reverse
      | _ => none

def movedPos (splitPos dim : Int) (side : Side) (delta : Int) : Int :=
  let pos := match side with
    | .a => splitPos + (delta * 256).tdiv dim
    | .b => splitPos - (delta * 256).tdiv dim
  let pos := if pos < (256 : Int).tdiv dim then (256 : Int).tdiv dim else pos
  let pos := if pos > 256 - (256 : Int).tdiv dim then 256 - (256 : Int).tdiv dim else pos
  let pos := if pos < 1 then 1 else pos
  if pos > 254 then 254 else pos

def wantDir (dr : Int) : SplitDir := if dr ≠ 0 then .h else .v

def wantSide (dr dc : Int) : Side := if dr > 0 ∨ dc > 0 then .a else .b

def moved (split : Split) (dir : SplitDir) (side : Side) (delta : Int) : Split :=
  { split with splitPos := movedPos split.splitPos (split.rect.extent dir) side delta }

def resizePane (t : Tile) (paneId : Nat) (dr dc delta : Int) : Tile × Bool :=
  if delta = 0 then (t, false)
  else
    match resizeSplit t paneId (wantDir dr) (wantSide dr dc) with
    | none => (t, false)
    | some place =>
      match t.root.get? place with
      | some (.branch split a b) =>
        if split.rect.extent (wantDir dr) ≤ 0 then (t, false)
        else
          let moved := moved split (wantDir dr) (wantSide dr dc) delta
          (relayout { t with root := t.root.replace place (.branch moved a b) }, true)
      | _ => (t, false)

end Tile

inductive Call where
  | split (paneId : Nat) (dir : SplitDir) (newId : Nat) (newVt : Option Nat)
  | close (paneId : Nat)
  | setWindow (paneId windowId : Nat) (vt : Option Nat)
  | resizePane (paneId : Nat) (dr dc delta : Int)
  deriving DecidableEq, Repr

def Tile.call (t : Tile) : Call → Tile × Bool
  | .split paneId dir newId newVt => t.split paneId dir newId newVt
  | .close paneId => t.close paneId
  | .setWindow paneId windowId vt => t.setWindow paneId windowId vt
  | .resizePane paneId dr dc delta => t.resizePane paneId dr dc delta

def Tile.step (t : Tile) (c : Call) : Tile := (t.call c).1

end Lumimux.Libtile
