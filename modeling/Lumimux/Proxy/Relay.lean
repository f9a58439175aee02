import Lumimux.Ipc.Msg
import Lumimux.Lib.Run
import Lumimux.Lib.Slots
import Lumimux.Proxy.Broker

/-!
# The relay between a client and the mservers (`cmd/proxy/proxy.c`)

The event loop holds, for each socket, the address of the element of `pconns` that was filled for it.
-/

namespace Lumimux.Relay
open Ipc Lib
open Proxy (pconnMax)

structure Pconn where
  fd : Nat := 0
  t : Option Nat := none
  id : UInt32 := 0
  rows : UInt16 := 0
  cols : UInt16 := 0
  title : Bytes := []
  deriving DecidableEq, Repr

structure Watch where
  fd : Nat
  arg : Nat
  deriving DecidableEq, Repr

structure Proxy where
  pconns : Slots Pconn := ⟨fun _ => {}, 0⟩
  loop : Option (List Watch) := none
  openedFor : Nat → Option UInt32 := fun _ => none

structure ProxyMsg where
  windowId : UInt32
  type : MsgType
  payload : Bytes
  deriving DecidableEq, Repr

abbrev Wire := Nat → Option (MsgType × Bytes)

def ioxFdAdd (fd arg : Nat) (room : Bool) (watches : List Watch) : List Watch :=
  if room then watches ++ [⟨fd, arg⟩] else watches

def ioxFdRemove (fd : Nat) (watches : List Watch) : List Watch := watches.eraseP (·.fd = fd)

namespace Proxy

def watches (s : Proxy) : List Watch := s.loop.getD []

def pconnFindById (s : Proxy) (id : UInt32) : Option Pconn := lookup Pconn.id s.pconns.live id

def windows (s : Proxy) : List UInt32 := s.pconns.live.map (·.id)

def pconnAdd (s : Proxy) (id : UInt32) (fd : Nat) (title : Option Bytes) (rows cols : UInt16) (room : Bool) : Proxy :=
  if s.pconns.count ≥ pconnMax then s
  else
    { pconns := s.pconns.push ⟨fd, some fd, id, rows, cols, (title.getD []).take 127⟩
      loop := s.loop.map (ioxFdAdd fd s.pconns.count room)
      openedFor := Function.update s.openedFor fd (some id) }

def pconnRemove (s : Proxy) (id : UInt32) : Proxy :=
  match s.pconns.live.findIdx? (fun pc => pc.id = id) with
  | none => s
  | some i =>
    { s with
      pconns := s.pconns.vacate i fun pc => { pc with t := none }
      loop := s.loop.map (ioxFdRemove (s.pconns.slot i).fd) }

def attachMserver (s : Proxy) (id : UInt32) (fd : Nat) (title : Option Bytes) (rows cols : UInt16)
    (room : Bool) : Proxy :=
  if (s.pconnFindById id).isSome then s else s.pconnAdd id fd title rows cols room

def createLoop (s : Proxy) (room : Nat → Bool) : Proxy :=
  match s.loop with
  | some _ => s
  | none =>
    { s with
      loop := some ((List.range s.pconns.count).foldl
        (fun watches i => ioxFdAdd (s.pconns.slot i).fd i (room i) watches) []) }

end Proxy

structure Handled where
  state : Proxy
  source : Option Nat
  sent : List ProxyMsg

def winRemoved (id : UInt32) : ProxyMsg := ⟨0, .proxyWinRemoved, be32 id.toNat⟩

namespace Proxy

def onMserverRead (s : Proxy) (arg : Nat) (wire : Wire) : Handled :=
  let pc := s.pconns.slot arg
  match pc.t with
  | none => ⟨s, none, []⟩
  | some t =>
    match wire t with
    | none => ⟨s.pconnRemove pc.id, some t, [winRemoved pc.id]⟩
    | some (type, buf) => ⟨s, some t, [⟨pc.id, type, buf⟩]⟩

def onReady (s : Proxy) (fd : Nat) (wire : Wire) : Handled :=
  match lookup Watch.fd s.watches fd with
  | none => ⟨s, none, []⟩
  | some w => s.onMserverRead w.arg wire

end Proxy

inductive Event where
  | attach (id : UInt32) (fd : Nat) (title : Option Bytes) (rows cols : UInt16) (room : Bool)
  | remove (id : UInt32)
  | createLoop (room : Nat → Bool)
  | ready (fd : Nat) (wire : Wire)

def Proxy.step (s : Proxy) : Event → Proxy
  | .attach id fd title rows cols room => s.attachMserver id fd title rows cols room
  | .remove id => s.pconnRemove id
  | .createLoop room => s.createLoop room
  | .ready fd wire => (s.onReady fd wire).state

def Proxy.run (s : Proxy) (events : List Event) : Proxy := events.foldl Proxy.step s

/-- A new socket has a number that no live record has. -/
def FreshFd (s : Proxy) : Event → Prop
  | .attach _ fd _ _ _ _ => ∀ pc ∈ s.pconns.live, pc.fd ≠ fd
  | _ => True

/-- A new record takes a place that no watch points to. -/
def PlaceFree (s : Proxy) : Event → Prop
  | .attach id _ _ _ _ _ => id ∈ s.windows ∨ ∀ w ∈ s.watches, w.arg ≠ s.pconns.count
  | _ => True

instance (s : Proxy) (e : Event) : Decidable (FreshFd s e) := by
  cases e <;> unfold FreshFd <;> infer_instance

instance (s : Proxy) (e : Event) : Decidable (PlaceFree s e) := by
  cases e <;> unfold PlaceFree <;> infer_instance

end Lumimux.Relay
