import Lumimux.Vt.Sgr
import Lumimux.Vt.State

/-!
# The operations behind the parser (`libvt/vt_ops.c`)

One function for each entry of the operation table; `op_csi` is split in the order of its tests.
-/

namespace Lumimux.Vt
open Lib

def paramOr (params : List Int) (idx dflt : Nat) : Nat :=
  match params[idx]? with
  | some n => if n ≥ 0 then n.toNat else dflt
  | none => dflt

def decLineDrawing : List Nat :=
  [0x00A0, 0x25C6, 0x2592, 0x2409, 0x240C, 0x240D, 0x240A, 0x00B0,
   0x00B1, 0x2424, 0x240B, 0x2518, 0x2510, 0x250C, 0x2514, 0x253C,
   0x23BA, 0x23BB, 0x2500, 0x23BC, 0x23BD, 0x251C, 0x2524, 0x2534,
   0x252C, 0x2502, 0x2264, 0x2265, 0x03C0, 0x2260, 0x00A3, 0x00B7]

namespace VtState

def opPrint (st : VtState) (cp width : Nat) : VtState :=
  let activeSet := if st.charset = 0 then st.g0Set else st.g1Set
  let cp := if activeSet = 1 ∧ 0x5F ≤ cp ∧ cp ≤ 0x7E then decLineDrawing.getD (cp - 0x5F) cp else cp
  st.putchar cp width

def opExecute (st : VtState) (c : UInt8) : VtState :=
  match c with
  | 0x08 => if st.cursorCol > 0 then { st with cursorCol := st.cursorCol - 1 } else st
  | 0x09 => { st with cursorCol := st.tabNext st.cursorCol }
  | 0x0A => st.index
  | 0x0B => st.index
  | 0x0C => st.index
  | 0x0D => { st with cursorCol := 0 }
  | 0x0E => { st with charset := 1 }
  | 0x0F => { st with charset := 0 }
  | _ => st

def editRow (st : VtState) (f : Row → Row) : VtState :=
  st.modifyBuf (·.modifyRow st.cursorRow fun r => (f r).markDirty)

def csiEraseDisplay (st : VtState) (mode : Nat) : VtState :=
  let rows := st.buf.rows
  let cols := st.buf.cols
  let bg := st.style.bg
  match mode with
  | 0 =>
    (st.editRow (·.eraseRange st.cursorCol cols bg)).modifyBuf (·.clearRows (st.cursorRow + 1) rows bg)
  | 1 =>
    (st.modifyBuf (·.clearRows 0 st.cursorRow bg)).editRow (·.eraseRange 0 (st.cursorCol + 1) bg)
  | 2 => st.modifyBuf (·.clearRows 0 rows bg)
  | 3 => st.modifyBuf (·.clearRows 0 rows bg)
  | _ => st

def csiEraseLine (st : VtState) (mode : Nat) : VtState :=
  let cols := st.buf.cols
  let bg := st.style.bg
  match mode with
  | 0 => st.editRow (·.eraseRange st.cursorCol cols bg)
  | 1 => st.editRow (·.eraseRange 0 (st.cursorCol + 1) bg)
  | 2 => st.editRow (·.eraseRange 0 cols bg)
  | _ => st

def scrollFromCursor (st : VtState) (count : Int) : VtState :=
  if st.cursorRow < st.scrollTop ∨ st.cursorRow ≥ st.scrollBot then st
  else st.modifyBuf (·.scroll st.cursorRow st.scrollBot count st.style.bg)

def csiInsertLines (st : VtState) (count : Nat) : VtState := st.scrollFromCursor (-count)

def csiDeleteLines (st : VtState) (count : Nat) : VtState := st.scrollFromCursor count

def charCount (st : VtState) (count : Nat) : Nat :=
  if (count : Int) > st.buf.cols - st.cursorCol then (st.buf.cols - st.cursorCol).toNat else count

def csiInsertChars (st : VtState) (count : Nat) : VtState :=
  let count := st.charCount count
  st.editRow fun r =>
    (r.shiftRight st.cursorCol count).eraseRange st.cursorCol (st.cursorCol + count) st.style.bg

def csiDeleteChars (st : VtState) (count : Nat) : VtState :=
  let count := st.charCount count
  st.editRow fun r =>
    (r.shiftLeft st.cursorCol count).eraseRange (st.buf.cols - count) st.buf.cols st.style.bg

def csiEraseChars (st : VtState) (count : Nat) : VtState :=
  let count := st.charCount count
  st.editRow (·.eraseRange st.cursorCol (st.cursorCol + count) st.style.bg)

def decset (st : VtState) (n : Nat) : VtState :=
  match n with
  | 1 => { st with modes.decckm := true }
  | 6 => { st with modes.origin := true, cursorRow := st.scrollTop, cursorCol := 0 }
  | 7 => { st with modes.autowrap := true }
  | 25 => { st with modes.cursorVis := true }
  | 47 => st.altscreenEnter
  | 1047 => st.altscreenEnter
  | 1049 => st.altscreenEnter
  | 1000 => { st with mouseMode := n, modes.mouse := true }
  | 1002 => { st with mouseMode := n, modes.mouse := true }
  | 1003 => { st with mouseMode := n, modes.mouse := true }
  | 2004 => { st with modes.bracketpaste := true }
  | _ => st

def decrst (st : VtState) (n : Nat) : VtState :=
  match n with
  | 1 => { st with modes.decckm := false }
  | 6 => { st with modes.origin := false, cursorRow := 0, cursorCol := 0 }
  | 7 => { st with modes.autowrap := false }
  | 25 => { st with modes.cursorVis := false }
  | 47 => st.altscreenLeave
  | 1047 => st.altscreenLeave
  | 1049 => st.altscreenLeave
  | 1000 => { st with mouseMode := 0, modes.mouse := false }
  | 1002 => { st with mouseMode := 0, modes.mouse := false }
  | 1003 => { st with mouseMode := 0, modes.mouse := false }
  | 2004 => { st with modes.bracketpaste := false }
  | _ => st

def opCsiPrivate (st : VtState) (params : List Int) (final : UInt8) : VtState :=
  let n := paramOr params 0 0
  match final with
  | 0x68 => st.decset n
  | 0x6C => st.decrst n
  | 0x75 => st.reply (ascii "\x1b[?" ++ decimal st.kittyKbdFlags ++ ascii "u")
  | 0x6D =>
    if n = 4 then st.reply (ascii "\x1b[>4;" ++ decimal st.modifyOtherKeys ++ ascii "m") else st
  | _ => st

def addressedRow (st : VtState) (n : Nat) : Int :=
  if st.modes.origin then
    let row := st.scrollTop + n - 1
    if row ≥ st.scrollBot then st.scrollBot - 1 else row
  else n - 1

def setScrollRegion (st : VtState) (n m : Nat) : VtState :=
  let n := if n < 1 then 1 else n
  let m := if m > st.buf.rows then st.buf.rows else m
  let st := if n < m then { st with scrollTop := (n : Int) - 1, scrollBot := m } else st
  { st with cursorRow := 0, cursorCol := 0 }

def cursorUp (st : VtState) (n : Nat) : VtState :=
  { st with cursorRow := if st.cursorRow - n < 0 then 0 else st.cursorRow - n }

def cursorDown (st : VtState) (n : Nat) : VtState :=
  let row := st.cursorRow + n
  { st with cursorRow := if row ≥ st.buf.rows then st.buf.rows - 1 else row }

def cursorForward (st : VtState) (n : Nat) : VtState :=
  let col := st.cursorCol + n
  { st with cursorCol := if col ≥ st.buf.cols then st.buf.cols - 1 else col }

def cursorBack (st : VtState) (n : Nat) : VtState :=
  { st with cursorCol := if st.cursorCol - n < 0 then 0 else st.cursorCol - n }

def deviceStatus (st : VtState) (n : Nat) : VtState :=
  if n = 6 then
    st.reply (ascii "\x1b[" ++ decimal (st.cursorRow + 1).toNat ++ ascii ";"
      ++ decimal (st.cursorCol + 1).toNat ++ ascii "R")
  else if n = 5 then st.reply (ascii "\x1b[0n")
  else st

def opCsiPlain (st : VtState) (params : List Int) (final : UInt8) : VtState :=
  let n := paramOr params 0 1
  match final with
  | 0x41 => st.cursorUp n  -- CUU
  | 0x42 => st.cursorDown n  -- CUD
  | 0x43 => st.cursorForward n  -- CUF
  | 0x44 => st.cursorBack n  -- CUB
  | 0x45 => { st.cursorDown n with cursorCol := 0 }  -- CNL
  | 0x46 => { st.cursorUp n with cursorCol := 0 }  -- CPL
  | 0x47 => cursorClamp { st with cursorCol := (n : Int) - 1 }  -- CHA
  | 0x48 => cursorClamp  -- CUP
      { st with cursorRow := st.addressedRow n, cursorCol := (paramOr params 1 1 : Int) - 1 }
  | 0x66 => cursorClamp  -- HVP
      { st with cursorRow := st.addressedRow n, cursorCol := (paramOr params 1 1 : Int) - 1 }
  | 0x4A => st.csiEraseDisplay (paramOr params 0 0)  -- ED
  | 0x4B => st.csiEraseLine (paramOr params 0 0)  -- EL
  | 0x4C => st.csiInsertLines n  -- IL
  | 0x4D => st.csiDeleteLines n  -- DL
  | 0x50 => st.csiDeleteChars n  -- DCH
  | 0x53 => st.modifyBuf (·.scroll st.scrollTop st.scrollBot n st.style.bg)  -- SU
  | 0x54 => st.modifyBuf (·.scroll st.scrollTop st.scrollBot (-n) st.style.bg)  -- SD
  | 0x58 => st.csiEraseChars n  -- ECH
  | 0x40 => st.csiInsertChars n  -- ICH
  | 0x63 => if paramOr params 0 0 = 0 then st.reply (ascii "\x1b[?1;2c") else st  -- DA
  | 0x6E => st.deviceStatus (paramOr params 0 0)  -- DSR
  | 0x64 => cursorClamp { st with cursorRow := st.addressedRow n }  -- VPA
  | 0x68 => if paramOr params 0 0 = 4 then { st with modes.insert := true } else st  -- SM
  | 0x6C => if paramOr params 0 0 = 4 then { st with modes.insert := false } else st  -- RM
  | 0x6D => { st with style := csiSgr params st.style }  -- SGR
  | 0x72 => st.setScrollRegion n (paramOr params 1 st.buf.rows)  -- DECSTBM
  | 0x73 => st.cursorSave  -- SCOSC
  | 0x75 => st.cursorRestore  -- SCORC
  | 0x67 =>  -- TBC
    if paramOr params 0 0 = 0 then st.tabClear st.cursorCol
    else if paramOr params 0 0 = 3 then st.tabClearAll
    else st
  | 0x74 =>  -- XTWINOPS
    if paramOr params 0 0 = 22 then st.titlePush
    else if paramOr params 0 0 = 23 then st.titlePop
    else st
  | 0x5A => { st with cursorCol := (st.tabPrev)^[n] st.cursorCol }  -- CBT
  | _ => st

/-- A control sequence. -/
def opCsi (st : VtState) (params : List Int) (intermed final : UInt8) : VtState :=
  if intermed = 0x3F then st.opCsiPrivate params final
  else if intermed = 0x20 ∧ final = 0x71 then
    -- DECSCUSR
    let n := paramOr params 0 0
    if n ≤ 6 then { st with cursorShape := n } else st
  else if intermed = 0x3E ∧ final = 0x75 then st.kittyPush (paramOr params 0 0)
  else if intermed = 0x3C ∧ final = 0x75 then st.kittyPop (paramOr params 0 1)
  else if intermed = 0x3D ∧ final = 0x75 then st.kittySet (paramOr params 0 0) (paramOr params 1 1)
  else if intermed = 0x3E ∧ final = 0x6D then
    if paramOr params 0 0 = 4 then { st with modifyOtherKeys := paramOr params 1 0 } else st
  else if intermed ≠ 0 then st
  else st.opCsiPlain params final

/-- RIS. -/
def fullReset (st : VtState) : VtState :=
  let st := st.altscreenLeave
  let st :=
    { st with
      modes := .initial
      style := {}
      charset := 0
      g0Set := 0
      g1Set := 0
      scrollTop := 0
      scrollBot := st.buf.rows
      cursorRow := 0
      cursorCol := 0
      kittyKbdFlags := 0
      kittyKbdStack := []
      modifyOtherKeys := 0 }
  st.tabReset.csiEraseDisplay 2

def opEsc (st : VtState) (intermed final : UInt8) : VtState :=
  if intermed = 0 then
    match final with
    | 0x37 => st.cursorSave  -- DECSC
    | 0x38 => st.cursorRestore  -- DECRC
    | 0x44 => st.index  -- IND
    | 0x45 => index { st with cursorCol := 0 }  -- NEL
    | 0x48 => st.tabSet st.cursorCol  -- HTS
    | 0x4D => st.reverseIndex  -- RI
    | 0x3D => { st with modes.deckpam := true }  -- DECKPAM
    | 0x3E => { st with modes.deckpam := false }  -- DECKPNM
    | 0x63 => st.fullReset  -- RIS
    | _ => st
  else if intermed = 0x28 then
    if final = 0x42 then { st with g0Set := 0 }
    else if final = 0x30 then { st with g0Set := 1 }
    else st
  else if intermed = 0x29 then
    if final = 0x42 then { st with g1Set := 0 }
    else if final = 0x30 then { st with g1Set := 1 }
    else st
  else st

def oscColorReply (st : VtState) (num : Nat) : VtState :=
  match if num = 10 then st.termFg else st.termBg with
  | none => st
  | some spec =>
    let rep := ascii "\x1b]" ++ decimal num ++ ascii ";" ++ spec ++ ascii "\x1b\\"
    if rep.length < 96 then st.reply rep else st

def oscNumber (digits : Bytes) : Option Nat :=
  if digits.all fun b => decide (0x30 ≤ b ∧ b ≤ 0x39) then some (digits.foldl (readDigit none) 0)
  else none

def opOsc (st : VtState) (data : Bytes) : VtState :=
  if data.contains 0x3B then
    let text := (data.dropWhile (· != 0x3B)).drop 1
    match oscNumber (data.takeWhile (· != 0x3B)) with
    | some 0 => { st with title := some text }
    | some 2 => { st with title := some text }
    | some 10 => if text = [0x3F] then st.oscColorReply 10 else st
    | some 11 => if text = [0x3F] then st.oscColorReply 11 else st
    | _ => st
  else st

end VtState

end Lumimux.Vt
