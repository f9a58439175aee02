import Lumimux.Mserver.State

/-!
# Queues, notifications and disconnects (`cmd/mserver/mserver.c`)

Sending can drop a client, a drop notifies the others and may hand the keyboard on, and either can drop another one.
-/

namespace Lumimux.Mserver
open Attr Ipc Lib

inductive EventKind
  | join
  | leave
  | role
  deriving DecidableEq, Repr

def EventKind.code : EventKind → UInt8
  | join => 1
  | leave => 2
  | role => 3

namespace Server

abbrev Drop := Server → Slot → Server

def sendLoop (env : Env) : Nat → Nat → Nat → Nat × Nat × Bool
  | 0, tick, _ => (tick, 0, false)
  | _, tick, 0 => (tick, 0, false)
  | rounds + 1, tick, pending + 1 =>
    match env.send tick with
    | .accepted n =>
      let taken := min (n + 1) (pending + 1)
      let (tick, more, failed) := sendLoop env rounds (tick + 1) (pending + 1 - taken)
      (tick, taken + more, failed)
    | .again => (tick + 1, 0, false)
    | .failed => (tick + 1, 0, true)

def advance (taken : Nat) (mc : Mclient) : Mclient :=
  { mc with
    outqOff := mc.outqOff + taken
    handed := mc.handed ++ (mc.outq.drop mc.outqOff).take taken
    levels := mc.levels ++ [mc.pending - taken] }

def drained (mc : Mclient) : Mclient :=
  if mc.outqOff = mc.outq.length then { mc with outq := [], outqOff := 0 } else mc

def stallClock (env : Env) (tick before : Nat) (mc : Mclient) : Nat × Mclient :=
  if mc.pending < before ∨ mc.pending = 0 then (tick, { mc with stallSince := 0 })
  else if mc.stallSince = 0 then (tick + 1, { mc with stallSince := env.now tick })
  else (tick, mc)

def unthrottle (env : Env) (s : Server) (i : Slot) : Server :=
  if (s.clients i).hiwater = true ∧ (s.clients i).pending ≤ env.outqLowWater then
    (s.modifyClient i fun mc => { mc with hiwater := false }).updateMasterInterest
  else s

def settle (env : Env) (s : Server) (i : Slot) (before : Nat) : Server :=
  let clock := stallClock env s.tick before (drained (s.clients i))
  ((s.setClient i clock.2).setTick clock.1).unthrottle env i

/-- Sends what the socket takes. -/
def flush (env : Env) (drop : Drop) (s : Server) (i : Slot) : Server :=
  if s.live i = false then s
  else
    let before := (s.clients i).pending
    let sent := sendLoop env before s.tick before
    let s := (s.modifyClient i (advance sent.2.1)).setTick sent.1
    if sent.2.2 then drop s i else s.settle env i before

def stalled (env : Env) (s : Server) (i : Slot) : Bool :=
  (s.clients i).stallSince != 0 &&
    decide ((env.now s.tick : Int) - (s.clients i).stallSince ≥ env.stallSecs)

def stallTick (s : Server) (i : Slot) : Server :=
  if (s.clients i).stallSince = 0 then s else s.setTick (s.tick + 1)

def doubleUntil (need : Nat) : Nat → Nat → Nat
  | 0, cap => cap
  | rounds + 1, cap => if cap < need then doubleUntil need rounds (cap * 2) else cap

def grownCap (start cap need : Nat) : Nat := doubleUntil need need (if cap = 0 then start else cap)

def reclaim (mc : Mclient) : Mclient := { mc with outq := mc.outq.drop mc.outqOff, outqOff := 0 }

def throttle (env : Env) (s : Server) (i : Slot) : Server :=
  if (s.clients i).hiwater = false ∧ (s.clients i).pending ≥ env.outqHighWater then
    (s.modifyClient i fun mc => { mc with hiwater := true }).updateMasterInterest
  else s

def append (frame : Bytes) (mc : Mclient) : Mclient :=
  { mc with
    outq := mc.outq ++ frame
    queued := mc.queued ++ [frame]
    levels := mc.levels ++ [mc.pending + frame.length] }

def pushFrame (env : Env) (drop : Drop) (s : Server) (i : Slot) (frame : Bytes) : Server :=
  ((s.modifyClient i (append frame)).throttle env i).flush env drop i

def queueFrame (env : Env) (drop : Drop) (s : Server) (i : Slot) (frame : Bytes) : Server :=
  let s := s.modifyClient i reclaim
  let mc := s.clients i
  if mc.outq.length + frame.length ≤ mc.outqCap then s.pushFrame env drop i frame
  else if env.alloc s.tick then
    ((s.setClient i { mc with outqCap := grownCap 8192 mc.outqCap (mc.outq.length + frame.length) }).setTick
      (s.tick + 1)).pushFrame env drop i frame
  else drop (s.setTick (s.tick + 1)) i

/-- Queues a frame; a full or stalled queue drops the client. -/
def enqueue (env : Env) (drop : Drop) (s : Server) (i : Slot) (type : MsgType) (payload : Bytes) : Server :=
  if s.live i = false then s
  else if (s.clients i).pending + (ipcHdrSize + payload.length) > env.outqHardLimit then drop s i
  else if s.stalled env i then drop (s.stallTick i) i
  else (s.stallTick i).queueFrame env drop i (ipcMsgFrame type payload)

def eventPayload (mc : Mclient) (kind : EventKind) : Bytes := kind.code :: (be32 mc.clientId ++ mc.name.bytes)

def clientEvent (env : Env) (drop : Drop) (s : Server) (about : Slot) (kind : EventKind) : Server :=
  if s.eventDepth ≠ 0 then s
  else
    let payload := eventPayload (s.clients about) kind
    let s := { s with eventDepth := s.eventDepth + 1 }
    let s := s.forLive fun s i =>
      if i = about ∨ (s.clients i).ready = false then s else s.enqueue env drop i .clientEvent payload
    { s with eventDepth := s.eventDepth - 1 }

def announceRole (env : Env) (drop : Drop) (s : Server) (i : Slot) (role : Role) : Server :=
  let s := s.modifyClient i fun mc => { mc with role := role }
  let s := s.enqueue env drop i .roleChange [role.code]
  s.clientEvent env drop i .role

def logPromoted (s : Server) (flags : UInt8) : Server := { s with promoted := s.promoted ++ [flags] }

/-- Hands the keyboard on when nobody holds it. -/
def roleReassign (env : Env) (drop : Drop) (s : Server) : Server :=
  if s.liveSlots.any fun i => (s.clients i).role == .write then s
  else
    match s.liveSlots.find? fun i => !hasFlag (s.clients i).flags attachFView with
    | some cand => (s.logPromoted (s.clients cand).flags).announceRole env drop cand .write
    | none => s

def resetClient (mc : Mclient) : Mclient :=
  { resetInq (resetQueue mc) with paused := false, rows := 0, cols := 0, role := .view }

def closed (s : Server) (i : Slot) : Server :=
  { s.modifyClient i fun mc => resetClient { mc with fd := none } with
    attrs := s.attrs.txnRollbackClient (s.clients i).fd }

def disconnectWith (env : Env) (drop : Drop) (s : Server) (i : Slot) : Server :=
  let s := if s.live i then (s.clientEvent env drop i .leave).closed i else s.modifyClient i resetClient
  (s.updateMasterInterest.roleReassign env drop).resizeToFit

def disconnectDepth (env : Env) : Nat → Drop
  | 0 => fun s _ => s
  | depth + 1 => disconnectWith env (disconnectDepth env depth)

/-- Drops a client and tells the others. -/
def disconnect (env : Env) : Drop := disconnectDepth env (mclientMax + 1)

def broadcast (env : Env) (s : Server) (type : MsgType) (payload : Bytes) : Server :=
  s.forLive fun s i => s.enqueue env (disconnect env) i type payload

end Server

end Lumimux.Mserver
