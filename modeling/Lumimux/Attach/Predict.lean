import Lumimux.Vt.Emulator

/-!
# Speculative local echo (`cmd/attach/predict.c`)

A typed character is written behind the cursor, marked and remembered.
-/

namespace Lumimux.Attach
open Vt Utf8

def predictRingSize : Nat := 128

structure PredEntry where
  cp : Nat
  row : Int
  col : Int
  width : Int
  deriving DecidableEq, Repr

structure Predict where
  pending : List PredEntry := []
  echoOff : Bool := false
  deriving DecidableEq, Repr

def modifyCell (vt : VtState) (row col : Int) (f : Cell → Cell) : VtState :=
  if col < 0 ∨ vt.buf.cols ≤ col then vt
  else vt.modifyBuf (·.modifyRow row fun r => { r with cells := r.cells.modify col.toNat f })

def unmarked (c : Cell) : Cell := { c with style.attrs.predicted := false }

def canPredict (pr : Predict) (vt : VtState) : Bool :=
  !pr.echoOff && !vt.modes.altscreen && vt.modes.cursorVis && !vt.modes.insert

def pendingWidth (pending : List PredEntry) : Int := (pending.map PredEntry.width).sum

def predictCol (pr : Predict) (vt : VtState) : Int := vt.cursorCol + pendingWidth pr.pending

def drawPrediction (vt : VtState) (cp : Nat) (col width : Int) : VtState :=
  let style := { vt.style with attrs.predicted := true }
  let drawn := modifyCell vt vt.cursorRow col fun _ => ⟨cp, style, (width % 256).toNat⟩
  let drawn := if width = 2 ∧ col + 1 < vt.buf.cols then
      modifyCell drawn vt.cursorRow (col + 1) fun _ => Cell.continuation
    else drawn
  drawn.modifyBuf (·.modifyRow vt.cursorRow Row.markDirty)

def predictKey (pr : Predict) (vt : VtState) (cp : Nat) (width : Int) : Predict × VtState :=
  let col := predictCol pr vt
  if canPredict pr vt = false ∨ cp < 0x20 ∨ cp = 0x7F ∨ pr.pending.length ≥ predictRingSize - 1 ∨
      col + width > vt.buf.cols then (pr, vt)
  else
    let recorded := { pr with pending := pr.pending ++ [⟨cp, vt.cursorRow, col, width⟩] }
    if vt.cursorRow < 0 ∨ vt.buf.rows ≤ vt.cursorRow ∨ col < 0 ∨ vt.buf.cols ≤ col then (recorded, vt)
    else (recorded, drawPrediction vt cp col width)

def unmark (vt : VtState) (ent : PredEntry) : VtState := modifyCell vt ent.row ent.col unmarked

def rollbackAll (pr : Predict) (vt : VtState) : Predict × VtState :=
  ({ pr with pending := [] }, pr.pending.foldl unmark vt)

def predictConfirm (pr : Predict) (vt : VtState) : Bytes → Predict × VtState
  | [] => (pr, vt)
  | c :: rest =>
    match pr.pending with
    | [] => (pr, vt)
    | ent :: later =>
      if c < 0x20 ∨ c = 0x7F ∨ c &&& 0xC0 = 0x80 then predictConfirm pr vt rest
      else if c < 0x80 ∧ ent.cp = c.toNat then predictConfirm { pr with pending := later } (unmark vt ent) rest
      else rollbackAll pr vt

structure Session where
  emu : Emu
  pred : Predict := {}
  plain : Emu
  deriving DecidableEq, Repr

inductive Event where
  | key (cp : Nat) (width : Int)
  | output (data : Bytes)
  deriving DecidableEq, Repr

def Session.start (emu : Emu) (echoOff : Bool) : Session := { emu := emu, pred := { echoOff := echoOff }, plain := emu }

def Session.step (w : WidthTable) (s : Session) : Event → Session
  | .key cp width =>
    { s with pred := (predictKey s.pred s.emu.vt cp width).1, emu.vt := (predictKey s.pred s.emu.vt cp width).2 }
  | .output data =>
    let confirmed := predictConfirm s.pred s.emu.vt data
    { emu := { s.emu with vt := confirmed.2 }.feed w data, pred := confirmed.1, plain := s.plain.feed w data }

def shown (vt : VtState) : List (List Cell) := vt.buf.grid.map fun r => r.cells.map unmarked

/-- With nothing pending the window shows what the unpredicted copy shows. -/
def Session.NoTrace (s : Session) : Prop := s.pred.pending = [] → shown s.emu.vt = shown s.plain.vt
  deriving Decidable

end Lumimux.Attach
