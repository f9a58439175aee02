import Mathlib.Data.List.DropRight
import Mathlib.Data.Nat.Size
import Lumimux.Lib.Scan

/-!
# Taskbar templates (`libtaskbar/taskbar.c`)

A template is read piece by piece; the text of a piece is looked up, computed or expanded from a part of the template.
-/

namespace Lumimux.Taskbar
open Lib List Option

abbrev Text := Bytes

def maxRecurse : Nat := 8

inductive Func
  | firstword | lastword | word | words | strip | truncate | left | right | center | fill | shell
  deriving DecidableEq

def funcTable : List (Text × Func) :=
  [(ascii "firstword", .firstword), (ascii "lastword", .lastword), (ascii "word", .word), (ascii "words", .words),
    (ascii "strip", .strip), (ascii "truncate", .truncate), (ascii "left", .left), (ascii "right", .right),
    (ascii "center", .center), (ascii "fill", .fill), (ascii "shell", .shell)]

def readInt (p : Text) : Int × Text := ((scanSigned p).getD (0, p)).map (·.bmod 4294967296) id

def splitNumArg (args : Text) : Int × Text :=
  let (n, text) := readInt args
  (n, if text[0]? = some 0x2C then text.drop 1 else text)

def isBlank (c : UInt8) : Bool := c = 0x20 || c = 0x09

def wordsOf (text : Text) : List Text := (text.splitOnP isBlank).filter (· ≠ [])

def shellOutput (output : Text) : Text :=
  ((output.take 255).rdropWhile fun c => c = 0x0A || c = 0x0D).takeWhile (· ≠ 0)

structure World where
  vars : Text → Option Text
  shellAllow : List Text
  fnmatch : Text → Text → Bool
  popen : Text → Option Text

def World.shellAllowed (w : World) (cmd : Text) : Bool := w.shellAllow.any fun pat => w.fnmatch pat cmd

def World.callFunc (w : World) (f : Func) (args : Text) : Text × List Text :=
  let n := (splitNumArg args).1.toNat
  let text := (splitNumArg args).2
  let blanks (k : Nat) : Text := replicate k 0x20
  match f with
  | .firstword => ((wordsOf args).head?.getD [], [])
  | .lastword => ((wordsOf args).getLast?.getD [], [])
  | .word => (if n < 1 then [] else (wordsOf text)[n - 1]?.getD [], [])
  | .words => (decimal (wordsOf args).length, [])
  | .strip => ([0x20].intercalate (wordsOf args), [])
  | .truncate => (text.take n, [])
  | .left => (text.take n ++ blanks (n - text.length), [])
  | .right => (blanks (n - text.length) ++ text.take n, [])
  | .center =>
    let lpad := (n - text.length) / 2
    (blanks lpad ++ text.take n ++ blanks (n - text.length - lpad), [])
  | .fill => ([0x01], [])
  | .shell => if w.shellAllowed args then (shellOutput ((w.popen args).getD []), [args]) else ([], [])

inductive Modifier
  | plain
  | default (text : Text)
  | slice (offset : Int) (length : Option Int)
  | trimPrefix (longest : Bool) (pat : Text)
  | trimSuffix (longest : Bool) (pat : Text)

inductive Piece
  | char (c : UInt8)
  | nothing
  | braced (name : Text) (modifier : Modifier)
  | call (name args : Text)
  | bare (name : Text)

def isNameChar (c : UInt8) : Bool :=
  isDigit c || (0x41 ≤ c && c ≤ 0x5A) || (0x61 ≤ c && c ≤ 0x7A) || c = 0x2D || c = 0x5F

def scanClose (opening closing : UInt8) : (depth : Nat) → Text → Text × Text
  | _, [] => ([], [])
  | depth, c :: p =>
    let depth := if c = opening then depth + 1 else if c = closing then depth - 1 else depth
    if depth = 0 then ([], c :: p) else (scanClose opening closing depth p).map (c :: ·) id

def closeBrace (p : Text) : Text := (p.dropWhile (· ≠ 0x7D)).drop 1

def readModifier (p : Text) : Modifier × Text :=
  let numberAt (p : Text) : Bool := p[0]? = some 0x3A && p[1]?.any isDigit
  let longest := p[1]? = p[0]?
  let pat := (p.drop (if longest then 2 else 1)).takeWhile (· ≠ 0x7D)
  if p[0]? = some 0x7D then (.plain, p.drop 1)
  else if p[0]? = some 0x3A ∧ p[1]? = some 0x2D then
    (scanClose 0x7B 0x7D 1 (p.drop 2)).map .default (·.drop 1)
  else if numberAt p then
    let (offset, p) := readInt (p.drop 1)
    if numberAt p then (readInt (p.drop 1)).map (fun length => .slice offset (some length)) closeBrace
    else (.slice offset none, closeBrace p)
  else if p[0]? = some 0x23 then (.trimPrefix longest pat, closeBrace p)
  else if p[0]? = some 0x25 then (.trimSuffix longest pat, closeBrace p)
  else (.plain, closeBrace p)

def readBraced (p : Text) : Piece × Text :=
  let name := p.takeWhile isNameChar
  let p := p.dropWhile isNameChar
  if name = [] then (.nothing, closeBrace p) else (readModifier p).map (.braced name) id

def readCall (p : Text) : Piece × Text :=
  let inName (c : UInt8) : Bool := !isBlank c && c ≠ 0x29 && c ≠ 0x2C
  (scanClose 0x28 0x29 1 ((p.dropWhile inName).dropWhile isBlank)).map (.call (p.takeWhile inName)) (·.drop 1)

def readPiece (c : UInt8) (p : Text) : Piece × Text :=
  if c ≠ 0x24 then (.char c, p)
  else if p[0]? = some 0x24 then (.char c, p.drop 1)
  else if p[0]? = some 0x7B then readBraced (p.drop 1)
  else if p[0]? = some 0x28 then readCall (p.drop 1)
  else if p[0]?.any isNameChar then (.bare (p.takeWhile isNameChar), p.dropWhile isNameChar)
  else (.char c, p)

def pieces : (skip : Nat) → Text → List Piece
  | _, [] => []
  | skip + 1, _ :: p => pieces skip p
  | 0, c :: p => (readPiece c p).1 :: pieces (p.length - (readPiece c p).2.length) p

structure Emit where
  pos : Nat
  cap : Nat
  len : Nat
  deriving DecidableEq

def Emit.need (e : Emit) : Nat := if e.pos + e.len ≥ e.cap then e.cap * 2 else e.cap

def emitAll : (pos cap : Nat) → (lens : List Nat) → List Emit
  | _, _, [] => []
  | pos, cap, len :: lens => ⟨pos, cap, len⟩ :: emitAll (pos + len) (Emit.need ⟨pos, cap, len⟩) lens

/-- What an expansion does: the texts it writes, the functions it calls with their depth, the commands it runs, the
emissions into the output buffers, and for each slice of a value its end and the length of the value. -/
structure Run where
  strings : List Text := []
  calls : List (Nat × Func) := []
  commands : List Text := []
  emits : List Emit := []
  slices : List (Nat × Nat) := []

def sliceOffset (offset : Int) (val : Text) : Nat := min offset.toNat val.length

/-- The length `taskbar_arena_strndup` is given. The sum is one of ints: when it overflows, the length is not cut. -/
def sliceLength (offset : Int) (length : Option Int) (val : Text) : Nat :=
  let rest := val.length - sliceOffset offset val
  length.elim rest fun length =>
    if (sliceOffset offset val + length.toNat : Int).bmod 4294967296 > val.length then rest else length.toNat

def slice (offset : Int) (length : Option Int) (val : Text) : Text :=
  (val.drop (sliceOffset offset val)).take (sliceLength offset length val)

def prefixLengths (longest : Bool) (val : Text) : List Nat :=
  let lengths := (range val.length).map (· + 1)
  if longest then lengths.reverse else lengths

def trimPrefix (w : World) (longest : Bool) (pat val : Text) : Text :=
  ((prefixLengths longest val).find? fun i => w.fnmatch pat (val.take i)).elim val (val.drop ·)

def suffixFound (w : World) (longest : Bool) (pat val : Text) : Option Nat :=
  let starts := range val.length
  (if longest then starts else starts.reverse).find? fun i => w.fnmatch pat (val.drop i)

def trimSuffix (w : World) (longest : Bool) (pat val : Text) : Text :=
  (suffixFound w longest pat val).elim val (val.take ·)

/-- Expanding a piece on text values, with `inner` for what is expanded inside of it. What the code does when it reads a
string of the arena that has moved, copies from behind a value or writes behind the output buffer is no matter of texts:
`World.outcome` excludes that. -/
def Piece.eval (w : World) (depth : Nat) (inner : Text → Run) : Piece → Run
  | .char c => { strings := [[c]] }
  | .nothing => { strings := [[]] }
  | .bare name => { strings := (w.vars name).toList }
  | .braced name modifier =>
    let val := (w.vars name).getD []
    match modifier with
    | .plain => { strings := [val] }
    | .default text =>
      if val = [] then { inner text with strings := [(inner text).strings.flatten] } else { strings := [val] }
    | .slice offset length =>
      { strings := [slice offset length val]
        slices := [(sliceOffset offset val + sliceLength offset length val, val.length)] }
    | .trimPrefix longest pat => { strings := [trimPrefix w longest pat val] }
    | .trimSuffix longest pat => { strings := [trimSuffix w longest pat val] }
  | .call name args =>
    let r := inner args
    match (funcTable.find? (·.1 = name)).map (·.2) with
    | none => { r with strings := [[]] }
    | some f =>
      let result := w.callFunc f r.strings.flatten
      { r with strings := [result.1], calls := r.calls ++ [(depth, f)], commands := r.commands ++ result.2 }

def World.expand (w : World) : (levels : Nat) → Text → Run
  | 0, _ => {}
  | levels + 1, fmt =>
    let runs := (pieces 0 fmt).map (·.eval w (maxRecurse - levels) (w.expand levels))
    { strings := runs.flatMap Run.strings
      calls := runs.flatMap Run.calls
      commands := runs.flatMap Run.commands
      slices := runs.flatMap Run.slices
      -- the last one is the terminator
      emits := runs.flatMap Run.emits ++ emitAll 0 256 ((runs.flatMap Run.strings).map List.length ++ [0]) }

def World.taskbar (w : World) (format : Text) : Run := w.expand (maxRecurse + 1) format

section
variable {w : World} {depth : Nat} {inner : Text → Run}

/-- The variable that a piece looks up. -/
def Piece.reads : Piece → Text → Prop
  | .bare name, n | .braced name _, n => name = n
  | _, _ => False

def Piece.whole : Piece → Prop
  | .bare _ | .braced _ .plain | .braced _ (.default _) => True
  | _ => False

end

def hostile : World :=
  { vars := fun name => if name = ascii "x" then some (ascii "$(shell rm)") else none
    shellAllow := [ascii "date"]
    fnmatch := fun pat text => pat = text
    popen := fun _ => none }

/-- The size of the output buffer when `pos` bytes have been written, each inside of it. -/
def room (pos : Nat) : Nat := 256 * 2 ^ (pos / 256).size

/-- Texts of these lengths, written from `pos` on, never need more than one doubling. -/
def FitFrom : (pos : Nat) → (lens : List Nat) → Prop
  | _, [] => True
  | pos, len :: lens => pos + len < 2 * room pos ∧ FitFrom (pos + len) lens

section
variable {w : World} {fits : Text → Prop}

/-- The template a piece expands on its own meets `fits`: the arguments of a call, the default of an unset variable. -/
def Piece.Inner (w : World) (fits : Text → Prop) : Piece → Prop
  | .braced name (.default text) => (w.vars name).getD [] = [] → fits text
  | .call _ args => fits args
  | _ => True

/-- In the template, and in every one that is expanded inside of it, each text is short enough for where it is written. -/
def World.Fits (w : World) : (levels : Nat) → Text → Prop
  | 0, _ => True
  | levels + 1, fmt =>
    FitFrom 0 ((w.expand (levels + 1) fmt).strings.map List.length) ∧
      ∀ piece ∈ pieces 0 fmt, piece.Inner w (w.Fits levels)

end

end Lumimux.Taskbar
