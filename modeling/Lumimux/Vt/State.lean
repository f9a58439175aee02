import Lumimux.Lib.Decimal
import Lumimux.Vt.Buf

/-!
# The terminal emulation state (`libvt/vt_state.c`)

`buf` is the render target `active` selects. Positions are integers, since they are computed before they are clamped;
replies are the bytes written so far.
-/

namespace Lumimux.Vt

/-- The buffers output can go to. -/
inductive Target
  | primary
  | alt
  | scrollback
  deriving DecidableEq, Repr

structure Modes where
  autowrap : Bool := false
  cursorVis : Bool := false
  origin : Bool := false
  insert : Bool := false
  altscreen : Bool := false
  bracketpaste : Bool := false
  decckm : Bool := false
  deckpam : Bool := false
  mouse : Bool := false
  deriving DecidableEq, Repr

def Modes.initial : Modes := { autowrap := true, cursorVis := true }

/-- What DECSC saves. -/
structure SavedCursor where
  row : Int := 0
  col : Int := 0
  style : Style := {}
  deriving DecidableEq, Repr

/-- A terminal: buffers, cursor, pen and modes. -/
structure VtState where
  primary : VtBuf
  alt : Option VtBuf := none
  scrollback : Option VtBuf := none
  active : Target := .primary
  cursorRow : Int := 0
  cursorCol : Int := 0
  saved : SavedCursor := {}
  scrollTop : Int := 0
  scrollBot : Int
  modes : Modes := .initial
  captureAltScroll : Bool := false
  style : Style := {}
  cursorShape : Nat := 0
  charset : Nat := 0
  g0Set : Nat := 0
  g1Set : Nat := 0
  tabstops : List Bool
  replyFd : Option Nat := none
  replies : Bytes := []
  mouseMode : Nat := 0
  kittyKbdFlags : Nat := 0
  kittyKbdStack : List Nat := []
  modifyOtherKeys : Nat := 0
  termFg : Option Bytes := none
  termBg : Option Bytes := none
  title : Option Bytes := none
  titleStack : List (Option Bytes) := []
  deriving DecidableEq, Repr

def kittyKbdStackMax : Nat := 16

def titleStackMax : Nat := 16

def defaultTabstops (cols : Nat) : List Bool := (List.range cols).map fun i => i % 8 == 0

/-- A terminal of this size, at its initial state. -/
def VtState.new (rows cols : Nat) (scrollback : Int) : VtState where
  primary := VtBuf.new rows cols (if scrollback < 0 then 2000 else scrollback.toNat)
  scrollBot := rows
  tabstops := defaultTabstops cols

namespace VtState

/-- The buffer of a target, if it is allocated. -/
def target (st : VtState) : Target → Option VtBuf
  | .primary => some st.primary
  | .alt => st.alt
  | .scrollback => st.scrollback

/-- The render target. -/
def buf (st : VtState) : VtBuf := (st.target st.active).getD st.primary

def setBuf (st : VtState) (b : VtBuf) : VtState :=
  { st with
    primary := if st.active = .primary then b else st.primary
    alt := if st.active = .alt then some b else st.alt
    scrollback := if st.active = .scrollback then some b else st.scrollback }

def modifyBuf (st : VtState) (f : VtBuf → VtBuf) : VtState := st.setBuf (f st.buf)

def setTarget (st : VtState) (tgt : Target) : VtState :=
  if (st.target tgt).isSome then { st with active := tgt } else st

/-- The nearest place below `bound`, from 0 on. -/
def clamp (x bound : Int) : Int :=
  let x := if x < 0 then 0 else x
  if x ≥ bound then bound - 1 else x

def cursorClamp (st : VtState) : VtState :=
  { st with
    cursorRow := clamp st.cursorRow st.buf.rows
    cursorCol := clamp st.cursorCol st.buf.cols }

def cursorSave (st : VtState) : VtState :=
  { st with saved := ⟨st.cursorRow, st.cursorCol, st.style⟩ }

def cursorRestore (st : VtState) : VtState :=
  cursorClamp
    { st with cursorRow := st.saved.row, cursorCol := st.saved.col, style := st.saved.style }

/-- Every buffer gets the new size, the margins are reset. -/
def resize (st : VtState) (rows cols : Nat) : VtState :=
  let oldCols := st.buf.cols
  cursorClamp
    { st with
      primary := st.primary.resize rows cols
      alt := st.alt.map (·.resize rows cols)
      scrollback := st.scrollback.map (·.resize rows cols)
      tabstops := if cols ≠ oldCols then defaultTabstops cols else st.tabstops
      scrollTop := 0
      scrollBot := rows }

/-- Switches to a cleared alternate screen. -/
def altscreenEnter (st : VtState) : VtState :=
  if st.modes.altscreen then st
  else
    let st := { st.cursorSave with modes.altscreen := true }
    let rows := st.primary.rows
    let cols := st.primary.cols
    let st := { st with alt := some (st.alt.getD (VtBuf.new rows cols 0)) }
    let st := (st.setTarget .alt).modifyBuf (·.clearRows 0 rows st.style.bg)
    { st with cursorRow := 0, cursorCol := 0, scrollTop := 0, scrollBot := rows }

def rowHasText (r : Row) : Bool := r.cells.any fun c => c.codepoint != space && c.codepoint != 0

/-- The rows up to the last one with text. -/
def altContentRows (b : VtBuf) : Nat :=
  b.grid.length - (b.grid.reverse.takeWhile fun r => !rowHasText r).length

/-- The primary buffer, with the rows that are to be kept. -/
def altCaptured (st : VtState) : VtBuf :=
  match st.captureAltScroll, st.alt with
  | true, some alt => st.primary.pushRows alt 0 (altContentRows alt)
  | _, _ => st.primary

/-- Back to the primary screen. -/
def altscreenLeave (st : VtState) : VtState :=
  if !st.modes.altscreen then st
  else
    let st := { st with modes.altscreen := false, primary := st.altCaptured, alt := none }
    let st := st.setTarget .primary
    cursorRestore { st with scrollTop := 0, scrollBot := st.buf.rows }

/-- A line down, scrolling at the bottom margin. -/
def index (st : VtState) : VtState :=
  if st.cursorRow = st.scrollBot - 1 then
    st.modifyBuf (·.scroll st.scrollTop st.scrollBot 1 st.style.bg)
  else if st.cursorRow < st.buf.rows - 1 then { st with cursorRow := st.cursorRow + 1 }
  else st

/-- A line up, scrolling at the top margin. -/
def reverseIndex (st : VtState) : VtState :=
  if st.cursorRow = st.scrollTop then
    st.modifyBuf (·.scroll st.scrollTop st.scrollBot (-1) st.style.bg)
  else if st.cursorRow > 0 then { st with cursorRow := st.cursorRow - 1 }
  else st

/-- A character that does not fit wraps, if it may. -/
def putcharWrap (st : VtState) (width : Nat) : VtState :=
  if st.cursorCol + width > st.buf.cols then
    if st.modes.autowrap then
      let st := st.modifyBuf (·.modifyRow st.cursorRow fun r => { r with wrapped := true })
      index { st with cursorCol := 0 }
    else
      -- park at the last column the glyph fits in
      { st with cursorCol := if st.buf.cols > width then (st.buf.cols : Int) - width else 0 }
  else st

/-- Insert mode shifts the row. -/
def putcharInsert (st : VtState) (width : Nat) : VtState :=
  if st.modes.insert then
    st.modifyBuf (·.modifyRow st.cursorRow fun r => r.shiftRight st.cursorCol width)
  else st

/-- The row with the character at the cursor. -/
def putcharRow (st : VtState) (cp width : Nat) (r : Row) : Row :=
  let col := st.cursorCol.toNat
  let r := r.setCell col ⟨cp, st.style, width⟩
  let r := if width = 2 ∧ col + 1 < st.buf.cols then r.setCell (col + 1) Cell.continuation else r
  r.markDirty

/-- The column after a character. -/
def advancedCol (autowrap : Bool) (cols col : Int) : Int :=
  let col := if col > cols then cols else col
  if autowrap = false ∧ col ≥ cols then cols - 1 else col

def putcharAdvance (st : VtState) (width : Nat) : VtState :=
  { st with cursorCol := advancedCol st.modes.autowrap st.buf.cols (st.cursorCol + width) }

/-- Prints a character at the cursor. -/
def putchar (st : VtState) (cp width : Nat) : VtState :=
  let st := (st.putcharWrap width).putcharInsert width
  -- `vt_buf_cell` refuses a position outside the grid
  if st.cursorRow < 0 ∨ st.buf.rows ≤ st.cursorRow ∨ st.cursorCol < 0 ∨ st.buf.cols ≤ st.cursorCol then st
  else
    (st.modifyBuf (·.modifyRow st.cursorRow (st.putcharRow cp width))).putcharAdvance width

def tabReset (st : VtState) : VtState := { st with tabstops := defaultTabstops st.buf.cols }

def tabClearAll (st : VtState) : VtState :=
  { st with tabstops := List.replicate st.buf.cols false }

/-- Sets a tab stop, if the column exists. -/
def tabWrite (st : VtState) (col : Int) (stop : Bool) : VtState :=
  if 0 ≤ col ∧ col < st.buf.cols then { st with tabstops := st.tabstops.set col.toNat stop } else st

def tabSet (st : VtState) (col : Int) : VtState := st.tabWrite col true

def tabClear (st : VtState) (col : Int) : VtState := st.tabWrite col false

/-- The next tab stop, or the last column. -/
def tabNext (st : VtState) (col : Int) : Int :=
  match (List.range st.buf.cols).find? fun (i : Nat) => decide (col + 1 ≤ i) && st.tabstops.getD i false with
  | some i => i
  | none => st.buf.cols - 1

def tabPrev (st : VtState) (col : Int) : Int :=
  match (List.range col.toNat).reverse.find? fun i => st.tabstops.getD i false with
  | some i => i
  | none => 0

/-- The stack of keyboard flags; the oldest falls out. -/
def kittyPush (st : VtState) (flags : Nat) : VtState :=
  let stack := if st.kittyKbdStack.length = kittyKbdStackMax then st.kittyKbdStack.drop 1
    else st.kittyKbdStack
  { st with kittyKbdStack := stack ++ [flags], kittyKbdFlags := flags }

def kittyPop (st : VtState) (count : Nat) : VtState :=
  let count := if count < 1 then 1 else count
  let stack := st.kittyKbdStack.take (st.kittyKbdStack.length - count)
  { st with kittyKbdStack := stack, kittyKbdFlags := stack.getLast?.getD 0 }

def kittySet (st : VtState) (flags mode : Nat) : VtState :=
  let cur := st.kittyKbdFlags
  let cur := if mode = 3 then cur ^^^ (cur &&& flags) else if mode = 2 then cur ||| flags else flags
  { st with
    kittyKbdFlags := cur
    kittyKbdStack := st.kittyKbdStack.set (st.kittyKbdStack.length - 1) cur }

def titlePush (st : VtState) : VtState :=
  if st.titleStack.length ≥ titleStackMax then st
  else { st with titleStack := st.titleStack ++ [st.title] }

def titlePop (st : VtState) : VtState :=
  match st.titleStack.getLast? with
  | none => st
  | some saved => { st with titleStack := st.titleStack.dropLast, title := saved }

/-- Bytes sent back to the program. -/
def reply (st : VtState) (data : Bytes) : VtState :=
  if st.replyFd.isSome then { st with replies := st.replies ++ data } else st

theorem clamp_mem (x : Int) {bound} (h : 0 < bound) : 0 ≤ clamp x bound ∧ clamp x bound < bound := by
  simp only [clamp]
  split_ifs <;> omega

theorem clamp_of_mem {x bound} (low : 0 ≤ x) (high : x < bound) : clamp x bound = x := by
  simp only [clamp]
  rw [if_neg (not_lt.mpr low), if_neg (not_le.mpr high)]

theorem advancedCol_mem (autowrap : Bool) {cols col} (pos : 0 < cols) (low : 0 ≤ col) :
    0 ≤ advancedCol autowrap cols col ∧ advancedCol autowrap cols col ≤ cols := by
  simp only [advancedCol]
  split_ifs <;> omega

theorem advancedCol_of_le {cols col} (fits : col ≤ cols) : advancedCol true cols col = col := by
  simp only [advancedCol]
  rw [if_neg (by simp), if_neg (not_lt.mpr fits)]

end VtState

end Lumimux.Vt
