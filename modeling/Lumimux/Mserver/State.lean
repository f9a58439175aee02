import Lumimux.Attr.Store
import Lumimux.Ipc.LumiMsg
import Lumimux.Vt.Dump
import Lumimux.Vt.Emulator

/-!
# The micro-server's state (`cmd/mserver/mserver.c`)

One window, its attribute store and eight client slots. What the system decides is an `Env` of oracles; `tick` counts
the questions.
-/

namespace Lumimux.Mserver
open Attr Ipc Lib Utf8 Vt

def mclientMax : Nat := 8

abbrev Slot := Fin mclientMax

theorem mclientMax_pos : 0 < mclientMax := by decide

theorem one_lt_mclientMax : 1 < mclientMax := by decide

inductive Role
  | write
  | view
  deriving DecidableEq, Repr

def Role.code : Role → UInt8
  | write => 0
  | view => 1

def attachFView : UInt8 := 0x01
def attachFSizeObserve : UInt8 := 0x02
def attachFToken : UInt8 := 0x08
def attachFInject : UInt8 := 0x10

def hasFlag (flags bit : UInt8) : Bool := flags &&& bit != 0

structure ClientName where
  bytes : Bytes
  fits : bytes.length < 64
  deriving DecidableEq, Repr

def ClientName.empty : ClientName := ⟨[], by decide⟩

structure Mclient where
  fd : Option Nat := none
  outq : Bytes := []
  outqOff : Nat := 0
  outqCap : Nat := 0
  hiwater : Bool := false
  paused : Bool := false
  stallSince : Nat := 0
  role : Role := .write
  flags : UInt8 := 0
  clientId : Nat := 0
  rows : Nat := 0
  cols : Nat := 0
  cellPw : Nat := 0
  cellPh : Nat := 0
  name : ClientName := .empty
  lastDeny : Nat := 0
  ready : Bool := false
  inq : Bytes := []
  inqCap : Nat := 0
  inrun : Bool := false
  queued : List Bytes := []
  handed : Bytes := []
  levels : List Nat := []
  deriving DecidableEq, Repr

def Mclient.live (mc : Mclient) : Bool := mc.fd.isSome

def Mclient.pending (mc : Mclient) : Nat := mc.outq.length - mc.outqOff

inductive IoResult
  | accepted (n : Nat)
  | again
  | failed
  deriving DecidableEq, Repr

structure Env where
  send : Nat → IoResult
  ptyWrite : Nat → IoResult
  now : Nat → Nat
  alloc : Nat → Bool
  multiWriter : Nat → Bool
  ptyFlags : Nat → Option UInt8
  widths : WidthTable
  outqHardLimit : Nat := 4 * 2 ^ 20
  stallSecs : Nat := 10
  outqHighWater : Nat := 2 ^ 20
  outqLowWater : Nat := 256 * 1024

/-- The server's globals. Two fields only log what happened: `ptyOut` the calls of `write_to_pty` (the
client served and the bytes the PTY took), `promoted` the flags of each client that `role_reassign` picked. -/
structure Server where
  clients : Slot → Mclient := fun _ => {}
  window : Emu
  attrs : AttrStore := {}
  ptyOut : List (Slot × Bytes) := []
  promoted : Bytes := []
  masterRead : Bool := true
  eventDepth : Nat := 0
  lastPtyFlags : Option UInt8 := none
  stopped : Bool := false
  tick : Nat := 0

namespace Server

def setClient (s : Server) (i : Slot) (mc : Mclient) : Server :=
  { s with clients := Function.update s.clients i mc }

def modifyClient (s : Server) (i : Slot) (f : Mclient → Mclient) : Server := s.setClient i (f (s.clients i))

def setTick (s : Server) (tick : Nat) : Server := { s with tick := tick }

def live (s : Server) (i : Slot) : Bool := (s.clients i).live

def liveSlots (s : Server) : List Slot := (List.finRange mclientMax).filter s.live

def forLive (s : Server) (body : Server → Slot → Server) : Server :=
  (List.finRange mclientMax).foldl (fun s i => if s.live i then body s i else s) s

def ptyWriteLoop (env : Env) : Nat → Nat → Bytes → Nat × Bytes
  | 0, tick, _ => (tick, [])
  | _, tick, [] => (tick, [])
  | rounds + 1, tick, data@(_ :: _) =>
    match env.ptyWrite tick with
    | .accepted n =>
      let (tick, taken) := ptyWriteLoop env rounds (tick + 1) (data.drop (n + 1))
      (tick, data.take (n + 1) ++ taken)
    | .again => (tick + 1, [])
    | .failed => (tick + 1, [])

def writeToPty (env : Env) (s : Server) (i : Slot) (data : Bytes) : Server :=
  let (tick, taken) := ptyWriteLoop env data.length s.tick data
  { s with tick := tick, ptyOut := s.ptyOut ++ [(i, taken)] }

def resetQueue (mc : Mclient) : Mclient :=
  { mc with outq := [], outqOff := 0, outqCap := 0, hiwater := false, stallSince := 0 }

def resetInq (mc : Mclient) : Mclient := { mc with inq := [], inqCap := 0, inrun := false }

def updateMasterInterest (s : Server) : Server :=
  let blocked := s.liveSlots.filter fun i => (s.clients i).paused || (s.clients i).hiwater
  { s with masterRead := !(decide (0 < s.liveSlots.length) && blocked.length == s.liveSlots.length) }

def sizeVote (acc : Nat × Nat × Nat × Nat) (mc : Mclient) : Nat × Nat × Nat × Nat :=
  let (rows, cols, cellPw, cellPh) := acc
  if hasFlag mc.flags attachFSizeObserve then acc
  else if mc.rows = 0 ∨ mc.cols = 0 then acc
  else
    let rows := if rows = 0 ∨ mc.rows < rows then mc.rows else rows
    let cols := if cols = 0 ∨ mc.cols < cols then mc.cols else cols
    if cellPw = 0 ∧ mc.cellPw > 0 then (rows, cols, mc.cellPw, mc.cellPh) else (rows, cols, cellPw, cellPh)

def resizeToFit (s : Server) : Server :=
  let (rows, cols, _, _) := s.liveSlots.foldl (fun acc i => sizeVote acc (s.clients i)) (0, 0, 0, 0)
  if rows > 0 ∧ cols > 0 then { s with window.vt := s.window.vt.resize rows cols } else s

/-- What `mclient_alloc` sets in the slot it takes; the queues were freed by the last disconnect. -/
def opened (fd : Nat) (mc : Mclient) : Mclient :=
  { mc with
    fd := some fd
    role := .write
    flags := 0
    clientId := 0
    rows := 0
    cols := 0
    name := .empty
    lastDeny := 0
    ready := false
    queued := []
    handed := []
    levels := [] }

/-- `mclient_alloc`: the first free slot. -/
def alloc (s : Server) (fd : Nat) : Option (Server × Slot) :=
  ((List.finRange mclientMax).find? fun i => !s.live i).map fun i => (s.modifyClient i (opened fd), i)

end Server

end Lumimux.Mserver
