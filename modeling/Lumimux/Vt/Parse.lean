import Lumimux.Utf8.Codec
import Lumimux.Utf8.RuneWidth

/-!
# The escape sequence parser (`libvt/vt_parse.c`)

Where the source calls back, `processByte` returns the calls as `VtAction`s.
-/

namespace Lumimux.Vt
open Utf8

inductive ParseState
  | ground
  | escape
  | escapeIntermed
  | csiEntry
  | csiParam
  | csiIntermed
  | csiIgnore
  | oscString
  | dcsPassthru
  deriving DecidableEq, Repr

/-- A call of the parser. -/
inductive VtAction
  | print (cp width : Nat)
  | execute (c : UInt8)
  | csi (params : List Int) (intermed final : UInt8)
  | esc (intermed final : UInt8)
  | osc (data : Bytes)
  | dcs (introducer : UInt8) (data : Bytes)
  deriving DecidableEq, Repr

structure StrBuf where
  data : Bytes := []
  cap : Nat := 0
  deriving DecidableEq, Repr

structure VtParse where
  state : ParseState := .ground
  params : List Int := []
  curParam : Nat := 0
  hasDigit : Bool := false
  intermed : UInt8 := 0
  osc : StrBuf := {}
  dcs : StrBuf := {}
  dcsIntroducer : UInt8 := 0
  utf8Buf : Bytes := []
  utf8Need : Nat := 0
  deriving DecidableEq, Repr

def vtMaxParams : Nat := 16

def vtOscInit : Nat := 256
def vtOscMax : Nat := 256 * 1024

def vtDcsInit : Nat := 4096
def vtDcsMax : Nat := 16 * 1024 * 1024

def StrBuf.append (init max reserve : Nat) (b : StrBuf) (c : UInt8) : StrBuf :=
  if b.data.length + reserve ≥ max then b
  else
    let grown := if b.cap = 0 then init else b.cap * 2
    { data := b.data ++ [c]
      cap := if b.data.length + reserve ≥ b.cap then min grown max else b.cap }

def oscAppend : StrBuf → UInt8 → StrBuf := StrBuf.append vtOscInit vtOscMax 1

def dcsAppend : StrBuf → UInt8 → StrBuf := StrBuf.append vtDcsInit vtDcsMax 0

def VtParse.reset (p : VtParse) : VtParse := { osc.cap := p.osc.cap, dcs.cap := p.dcs.cap }

def csiReset (p : VtParse) : VtParse :=
  { p with params := [], curParam := 0, hasDigit := false, intermed := 0 }

def csiFinishParam (p : VtParse) : VtParse :=
  { p with
    params := if p.params.length < vtMaxParams then
        p.params ++ [if p.hasDigit then (p.curParam : Int) else -1]
      else p.params
    curParam := 0
    hasDigit := false }

def emitPrint (w : WidthTable) (cp : Nat) : VtAction :=
  .print cp (if runeWidth w cp < 0 then 1 else (runeWidth w cp).toNat)

def emitCsi (p : VtParse) (final : UInt8) : VtAction := .csi p.params p.intermed final

def emitOsc (p : VtParse) : VtParse × List VtAction :=
  let data := p.osc.data.take (utf8Trunc p.osc.data (p.osc.data.length + 1))
  ({ p with osc.data := data }, [.osc data])

def emitDcs (p : VtParse) : VtParse × List VtAction :=
  ({ p with dcs.data := [] },
    if p.dcs.data.length > 0 then [.dcs p.dcsIntroducer p.dcs.data] else [])

def utf8Cancel (p : VtParse) : VtParse := { p with utf8Need := 0, utf8Buf := [] }

def groundByte (w : WidthTable) (p : VtParse) (c : UInt8) : VtParse × List VtAction :=
  if c < 0x20 then (p, [.execute c])
  else if c = 0x7F then (p, [])
  else if c < 0x80 then (p, [emitPrint w c.toNat])
  else
    match leadByte c with
    | some (need, _) => ({ p with utf8Buf := [c], utf8Need := need }, [])
    | none => (utf8Cancel p, [emitPrint w runeError])

def processGround (w : WidthTable) (p : VtParse) (c : UInt8) : VtParse × List VtAction :=
  if p.utf8Need > 0 then
    if c &&& 0xC0 = 0x80 then
      let buf := p.utf8Buf ++ [c]
      if buf.length ≥ p.utf8Need then (utf8Cancel p, [emitPrint w (utf8Decode buf).1])
      else ({ p with utf8Buf := buf }, [])
    else
      -- broken sequence: a replacement character, then the byte on its own
      let (p, actions) := groundByte w (utf8Cancel p) c
      (p, emitPrint w runeError :: actions)
  else groundByte w p c

def processEscape (p : VtParse) (c : UInt8) : VtParse × List VtAction :=
  if c = 0x5B then ({ csiReset p with state := .csiEntry }, [])
  else if c = 0x5D then ({ p with osc.data := [], state := .oscString }, [])
  else if c = 0x50 ∨ c = 0x58 ∨ c = 0x5E ∨ c = 0x5F then
    ({ p with dcsIntroducer := c, dcs.data := [], state := .dcsPassthru }, [])
  else if 0x20 ≤ c ∧ c ≤ 0x2F then ({ p with intermed := c, state := .escapeIntermed }, [])
  else if 0x30 ≤ c ∧ c ≤ 0x7E then ({ p with state := .ground }, [.esc p.intermed c])
  else ({ p with state := .ground }, [])

def processEscapeIntermed (p : VtParse) (c : UInt8) : VtParse × List VtAction :=
  if 0x20 ≤ c ∧ c ≤ 0x2F then ({ p with intermed := c }, [])
  else if 0x30 ≤ c ∧ c ≤ 0x7E then ({ p with state := .ground }, [.esc p.intermed c])
  else ({ p with state := .ground }, [])

def finishCsi (p : VtParse) (c : UInt8) : VtParse × List VtAction :=
  let p := csiFinishParam p
  ({ p with state := .ground }, [emitCsi p c])

def processCsiEntry (p : VtParse) (c : UInt8) : VtParse × List VtAction :=
  if 0x30 ≤ c ∧ c ≤ 0x39 then
    ({ p with curParam := c.toNat - 0x30, hasDigit := true, state := .csiParam }, [])
  else if c = 0x3B then ({ csiFinishParam p with state := .csiParam }, [])
  else if 0x3C ≤ c ∧ c ≤ 0x3F then ({ p with intermed := c, state := .csiParam }, [])
  else if 0x20 ≤ c ∧ c ≤ 0x2F then ({ p with intermed := c, state := .csiIntermed }, [])
  else if 0x40 ≤ c ∧ c ≤ 0x7E then finishCsi p c
  else ({ p with state := .ground }, [])

def processCsiParam (p : VtParse) (c : UInt8) : VtParse × List VtAction :=
  if 0x30 ≤ c ∧ c ≤ 0x39 then
    ({ p with
      curParam := if p.curParam < 65535 then p.curParam * 10 + (c.toNat - 0x30) else p.curParam
      hasDigit := true }, [])
  else if c = 0x3B then (csiFinishParam p, [])
  else if 0x20 ≤ c ∧ c ≤ 0x2F then ({ csiFinishParam p with intermed := c, state := .csiIntermed }, [])
  else if 0x40 ≤ c ∧ c ≤ 0x7E then finishCsi p c
  else if 0x3C ≤ c ∧ c ≤ 0x3F then ({ p with state := .csiIgnore }, [])
  else ({ p with state := .ground }, [])

def processCsiIntermed (p : VtParse) (c : UInt8) : VtParse × List VtAction :=
  if 0x20 ≤ c ∧ c ≤ 0x2F then (p, [])
  else if 0x40 ≤ c ∧ c ≤ 0x7E then ({ p with state := .ground }, [emitCsi p c])
  else ({ p with state := .csiIgnore }, [])

def processCsiIgnore (p : VtParse) (c : UInt8) : VtParse × List VtAction :=
  (if 0x40 ≤ c ∧ c ≤ 0x7E then { p with state := .ground } else p, [])

def processOsc (p : VtParse) (c : UInt8) : VtParse × List VtAction :=
  if c = 0x07 then
    let (p, actions) := emitOsc p
    ({ p with state := .ground }, actions)
  else ({ p with osc := oscAppend p.osc c }, [])

def processEsc (p : VtParse) : VtParse × List VtAction :=
  let (p, actions) :=
    match p.state with
    | .dcsPassthru => emitDcs p
    | .oscString => emitOsc p
    | _ => (p, [])
  ({ utf8Cancel p with state := .escape, intermed := 0 }, actions)

/-- One byte through the state machine. -/
def processByte (w : WidthTable) (p : VtParse) (c : UInt8) : VtParse × List VtAction :=
  if c = 0x1B then processEsc p
  else if p.state ≠ .ground ∧ p.state ≠ .oscString ∧ 0x07 ≤ c ∧ c ≤ 0x0D then (p, [.execute c])
  else
    match p.state with
    | .ground => processGround w p c
    | .escape => processEscape p c
    | .escapeIntermed => processEscapeIntermed p c
    | .csiEntry => processCsiEntry p c
    | .csiParam => processCsiParam p c
    | .csiIntermed => processCsiIntermed p c
    | .csiIgnore => processCsiIgnore p c
    | .dcsPassthru => ({ p with dcs := dcsAppend p.dcs c }, [])
    | .oscString => processOsc p c

end Lumimux.Vt
