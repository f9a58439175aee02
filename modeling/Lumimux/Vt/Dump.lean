import Lumimux.Utf8.Codec
import Lumimux.Vt.Ops

/-!
# The screen dump (`dump_sgr` and `vt_state_dump` in `libvt/vt_state.c`)

A dump is the list of chunks handed to the emit callback; the loops thread the `sgr_active` flag.
-/

namespace Lumimux.Vt
open Lib Utf8

def attrCodes (a : Attrs) : List Nat :=
  (if a.bold then [1] else []) ++ (if a.dim then [2] else []) ++ (if a.italic then [3] else [])
    ++ (if a.underline then [4] else []) ++ (if a.blink then [5] else []) ++ (if a.reverse then [7] else [])
    ++ (if a.hidden then [8] else []) ++ (if a.strike then [9] else [])

def colorCodes (base : Nat) : Color → List Nat
  | .default => []
  | .indexed index =>
    if index.toNat < 8 then [base + index.toNat]
    else if index.toNat < 16 then [base + 60 + (index.toNat - 8)]
    else [base + 8, 5, index.toNat]
  | .rgb r g b => [base + 8, 2, r.toNat, g.toNat, b.toNat]

def sgrCodes (s : Style) : List Nat := attrCodes s.attrs ++ (colorCodes 30 s.fg ++ colorCodes 40 s.bg)

def separated (codes : List Nat) : Bytes := codes.flatMap fun n => 0x3B :: decimal n

def dumpSgr (s : Style) : Bytes := ascii "\x1b[0" ++ separated (sgrCodes s) ++ ascii "m"

def cupBytes (row col : Nat) : Bytes :=
  ascii "\x1b[" ++ decimal row ++ ascii ";" ++ decimal col ++ ascii "H"

def dumpStyle (row col : Nat) (active : Bool) (s : Style) : List Bytes × Bool :=
  if s ≠ {} then ([dumpSgr s], true)
  else if active ∨ col = 0 ∨ row = 0 then ([ascii "\x1b[0m"], false)
  else ([], active)

def dumpCells (row : Nat) : Nat → Bool → List Cell → List Bytes × Bool
  | _, active, [] => ([], active)
  | col, active, c :: rest =>
    if c.width = 0 then dumpCells row (col + 1) active rest
    else
      let (style, active) := dumpStyle row col active c.style
      let text := utf8Encode c.codepoint
      let (more, active) := dumpCells row (col + 1) active rest
      (style ++ ((if text = [] then [] else [text]) ++ more), active)

def dumpRows : Nat → Bool → List Row → List Bytes
  | _, _, [] => []
  | row, active, r :: rest =>
    let (cells, active) := dumpCells row 0 active r.cells
    cupBytes (row + 1) 1 :: (cells ++ dumpRows (row + 1) active rest)

def dumpTitle (title : Option Bytes) : List Bytes :=
  match title with
  | none => []
  | some t =>
    let tbuf := ascii "\x1b]2;" ++ t ++ ascii "\x1b\\"
    if t ≠ [] ∧ tbuf.length < 256 then [tbuf] else []

def dumpTail (st : VtState) : List Bytes :=
  [ascii "\x1b[0m", cupBytes (st.cursorRow + 1).toNat (st.cursorCol + 1).toNat,
    if st.modes.cursorVis then ascii "\x1b[?25h" else ascii "\x1b[?25l"]
  ++ (if st.cursorShape > 0 then [ascii "\x1b[" ++ decimal st.cursorShape ++ ascii " q"] else [])
  ++ [ascii "\x1b[=" ++ decimal st.kittyKbdFlags ++ ascii "u"]
  ++ (if st.modifyOtherKeys ≠ 0 then [ascii "\x1b[>4;" ++ decimal st.modifyOtherKeys ++ ascii "m"] else [])

/-- The chunks that redraw a terminal. -/
def vtStateDump (st : VtState) : List Bytes :=
  [ascii "\x1b[0m\x1b[2J\x1b[H", if st.modes.altscreen then ascii "\x1b[?1049h" else ascii "\x1b[?1049l"]
  ++ dumpTitle st.title ++ dumpRows 0 false st.buf.grid ++ dumpTail st

end Lumimux.Vt
