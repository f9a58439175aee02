import Lumimux.Lib.Scan
import Lumimux.Lib.Lines

/-!
# The layout file of a session (`libsessdir/sessdir_layout.c`)

A layout is saved as `KEY=value` lines, the third of which has the generation.
-/

namespace Lumimux.Sessdir
open Lib

def printInt (n : Int) : Bytes := if n < 0 then 45 :: decimal n.natAbs else decimal n.natAbs

def longToInt (v : Int) : Int := Int.bmod v 4294967296

inductive LayoutTree where
  | leaf (winNum : Int)
  | split (vertical : Bool) (splitPos : Int) (a b : LayoutTree)
  deriving DecidableEq, Repr

def LayoutTree.winNums : LayoutTree → List Int
  | .leaf winNum => [winNum]
  | .split _ _ a b => a.winNums ++ b.winNums

def treeSerialize : LayoutTree → Bytes
  | .leaf winNum => printInt winNum
  | .split vertical splitPos a b =>
    (if vertical then 118 else 104) :: (printInt splitPos ++ 32 :: (treeSerialize a ++ 32 :: treeSerialize b))

structure ScreenLayout where
  focus : Int
  root : Option LayoutTree
  fits : ∀ tree, root = some tree → (treeSerialize tree).length < 4095

def layoutMaxWins : Nat := 32

structure TurboWin where
  x : Int
  y : Int
  w : Int
  h : Int
  deriving DecidableEq, Repr

structure TurboLayout where
  focus : Int
  wins : List (Option TurboWin)
  deriving DecidableEq, Repr

def ScreenLayout.make (focus : Int) : Option LayoutTree → Option ScreenLayout
  | none => some ⟨focus, none, nofun⟩
  | some tree =>
    if fits : (treeSerialize tree).length < 4095 then
      some ⟨focus, some tree, fun _ same => Option.some.inj same ▸ fits⟩
    else none

def layoutVersion : Nat := 2

def kvText (key value : Bytes) : Bytes := key ++ 61 :: (value ++ [newline])

def kvQuoted (key value : Bytes) : Bytes := kvText key (34 :: (value ++ [34]))

def layoutHeader (mode : Bytes) (gen : UInt64) : Bytes :=
  kvText (ascii "MODE") mode ++ (kvText (ascii "VERSION") (decimal layoutVersion) ++ kvText (ascii "GEN") (decimal gen.toNat))

def focusText (focus : Int) : Bytes := if focus ≥ 0 then kvText (ascii "FOCUS") (printInt focus) else []

def winText (win : TurboWin) (i : Nat) : Bytes :=
  kvQuoted (ascii "WIN_" ++ decimal i)
    (printInt win.x ++ 32 :: (printInt win.y ++ 32 :: (printInt win.w ++ 32 :: printInt win.h)))

def turboText (gen : UInt64) (layout : TurboLayout) : Bytes :=
  layoutHeader (ascii "turbo") gen ++ (focusText layout.focus ++
    (layout.wins.zipIdx.map fun (win, i) => (win.map (winText · i)).getD []).flatten)

def screenText (gen : UInt64) (layout : ScreenLayout) : Bytes :=
  layoutHeader (ascii "screen") gen ++ (focusText layout.focus ++
    (layout.root.map fun tree => kvQuoted (ascii "TREE") (treeSerialize tree)).getD [])

def unescapeQuoted : Bytes → Bytes
  | [] => []
  | 34 :: _ => []
  | 92 :: c :: rest =>
    if c = 92 ∨ c = 34 ∨ c = 36 ∨ c = 96 then c :: unescapeQuoted rest else 92 :: unescapeQuoted (c :: rest)
  | b :: rest => b :: unescapeQuoted rest

def kvValue : Bytes → Bytes
  | 34 :: rest =>
    let quoted := if 34 ∈ rest then rest.takeWhile (· ≠ 34) else rest.takeWhile (· ≠ newline)
    unescapeQuoted (quoted.take 4095)
  | rest => (rest.takeWhile (· ≠ newline)).take 4095

def kvParseCb (text : Bytes) : Option (Bytes × Bytes) :=
  let line := text.dropWhile fun b => b = newline ∨ b = 13
  let key := line.takeWhile (· ≠ 61)
  if line.head? = some 35 ∨ line.head? = some 59 then none
  else if 61 ∉ line ∨ newline ∈ key then none
  else if key = [] ∨ key.length ≥ 256 then none
  else some (key, kvValue (line.drop (key.length + 1)))

def kvParseLoop : Nat → Bytes → List (Bytes × Bytes)
  | 0, _ => []
  | n + 1, text =>
    if text = [] then []
    else (kvParseCb text).toList ++ kvParseLoop n ((text.dropWhile (· ≠ newline)).drop 1)

def maxKv : Nat := 64

/-- The lines `KEY=value` of a file. -/
def kvParse (data : Bytes) : List (Bytes × Bytes) := (kvParseLoop (data.length + 1) data).take maxKv

def kvGet (kv : List (Bytes × Bytes)) (key : Bytes) : Option Bytes :=
  (kv.find? (·.1 = key)).map (·.2)

def layoutRead (file : Option Bytes) : Option Bytes := file.map (·.takeWhile (· ≠ 0))

def layoutGeneration (file : Option Bytes) : UInt64 :=
  match layoutRead file with
  | none => 0
  | some data =>
    match kvGet (kvParse data) (ascii "GEN") with
    | none => 0
    | some value => ((scanUnsigned value).map (·.1)).getD 0

/-- Reads a tree in preorder. -/
def treeParse : Nat → Bytes → Option (LayoutTree × Bytes)
  | 0, _ => none
  | n + 1, text =>
    let p := text.dropWhile (· = 32)
    match p with
    | [] => none
    | c :: rest =>
      if c = 118 ∨ c = 104 then do
        let (pos, rest) ← scanSigned rest
        let (a, rest) ← treeParse n rest
        let (b, rest) ← treeParse n rest
        return (.split (c = 118) (longToInt pos) a b, rest)
      else (scanSigned p).map fun (v, rest) => (.leaf (longToInt v), rest)

def kvVersionOk (kv : List (Bytes × Bytes)) : Bool :=
  match kvGet kv (ascii "VERSION") with
  | none => false
  | some value => ((scanSigned value).map (·.1)).getD 0 = layoutVersion

def layoutLoadScreen (file : Option Bytes) : Option (Int × LayoutTree) := do
  let data ← layoutRead file
  let kv := kvParse data
  if kvVersionOk kv ∧ kvGet kv (ascii "MODE") = some (ascii "screen") then
    let focus := match kvGet kv (ascii "FOCUS") with
      | none => -1
      | some value => longToInt (((scanSigned value).map (·.1)).getD 0)
    let value ← kvGet kv (ascii "TREE")
    let (root, _) ← treeParse (value.length + 1) value
    return (focus, root)
  else none

def scanInt (text : Bytes) : Option (Int × Bytes) := (scanSigned text).map fun p => (longToInt p.1, p.2)

def scanWin (value : Bytes) : Option TurboWin := do
  let (x, rest) ← scanInt value
  let (y, rest) ← scanInt rest
  let (w, rest) ← scanInt rest
  let (h, _) ← scanInt rest
  return { x := x, y := y, w := w, h := h }

def countWins (i n : Nat) : List (Option TurboWin) → Nat
  | [] => n
  | win :: wins => countWins (i + 1) (if win.isSome ∧ i ≥ n then i + 1 else n) wins

def layoutLoadTurbo (file : Option Bytes) : Option TurboLayout := do
  let data ← layoutRead file
  let kv := kvParse data
  if kvVersionOk kv ∧ kvGet kv (ascii "MODE") = some (ascii "turbo") then
    let focus := match kvGet kv (ascii "FOCUS") with
      | none => -1
      | some value => longToInt (((scanSigned value).map (·.1)).getD 0)
    let slots := (List.range layoutMaxWins).map fun i => (kvGet kv (ascii "WIN_" ++ decimal i)).bind scanWin
    return { focus := focus, wins := slots.take (countWins 0 0 slots) }
  else none

end Lumimux.Sessdir
