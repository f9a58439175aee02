import Lumimux.Sessdir.Access
import Lumimux.Sessdir.Control

/-!
# A broker child (`cmd/proxy/proxy.c`, `cmd/net-proxy/net_proxy.c`)

One child serves one connection: it checks the access list, waits for an approval if that says `ask`, and attaches with
the role granted.
-/

namespace Lumimux.Proxy
open Sessdir

def pconnMax : Nat := 64

def flagsFor (granted : AccessRole) : UInt8 := if granted = .view then 0x01 else 0

structure Pconn where
  id : UInt32
  flags : UInt8
  deriving DecidableEq, Repr

inductive Carrier where
  | unix
  | netchan
  deriving DecidableEq, Repr

inductive Phase where
  /-- decided, not yet in the roster -/
  | admitted
  /-- a pending entry is in the roster, the mailbox has not been read -/
  | registered
  /-- in the loop that waits for an answer -/
  | waiting
  | serving
  | gone
  deriving DecidableEq, Repr

/-- A child and what it reads of the session directory: the access list, the mailbox and the mservers. -/
structure Child (Acl : Type) where
  carrier : Carrier
  clientId : UInt32
  acl : Acl
  control : Option Bytes
  servers : List UInt32
  phase : Phase
  pending : Bool
  decRole : AccessRole
  attachFlags : UInt8
  lastGranted : AccessRole
  lastSeq : UInt64 := 0
  conns : List Pconn := []
  /-- the answer the child has acted on -/
  answer : Option CtlVerb := none
  /-- what the list granted at the last wakeup handled, or at admission -/
  decided : AccessRole
  deriving DecidableEq, Repr

def addConn (flags : UInt8) (conns : List Pconn) (id : UInt32) : List Pconn :=
  if conns.any (·.id = id) ∨ conns.length ≥ pconnMax then conns else conns ++ [⟨id, flags⟩]

variable {Acl : Type}

namespace Child

def listed (s : Child Acl) : List UInt32 := s.servers.take pconnMax

def leave (s : Child Acl) : Child Acl := { s with phase := .gone, conns := [] }

def attachAll (s : Child Acl) : Child Acl :=
  let conns := s.listed.foldl (addConn s.attachFlags) []
  if s.carrier = .unix ∧ conns = [] then s.leave else { s with phase := .serving, conns := conns }

def pendingVerb (s : Child Acl) : Option CtlVerb := do
  let ctl ← ctlRead s.control
  if ctl.seq ≤ s.lastSeq ∨ ctl.target ≠ s.clientId.toUInt64 then none else some ctl.verb

def noteSeq (s : Child Acl) : Child Acl :=
  match ctlRead s.control with
  | some ctl => if ctl.seq ≤ s.lastSeq then s else { s with lastSeq := ctl.seq }
  | none => s

def pendingAnswer (s : Child Acl) : Child Acl :=
  match s.pendingVerb with
  | some .approve =>
    attachAll { s.noteSeq with
      answer := some .approve
      attachFlags := flagsFor s.decRole
      lastGranted := s.decRole }
  | some .reject => leave { s.noteSeq with answer := some .reject }
  | _ => s.noteSeq

def broadcastRoleRequest (s : Child Acl) (flags : UInt8) : Child Acl :=
  { s with conns := s.conns.map fun c => { c with flags := flags } }

def recheckAcl (check : Acl → AccessDecision) (s : Child Acl) : Child Acl :=
  let granted := (check s.acl).role
  if granted = s.lastGranted then s
  else
    let s := { s with lastGranted := granted }
    if granted = .deny then s.leave
    else broadcastRoleRequest { s with attachFlags := flagsFor granted } (flagsFor granted)

def reconcile (s : Child Acl) : Child Acl :=
  let added := s.listed.foldl (addConn s.attachFlags) s.conns
  { s with conns := added.filter fun c => c.id ∈ s.listed }

def onWatch (check : Acl → AccessDecision) (s : Child Acl) : Child Acl :=
  if (s.recheckAcl check).phase = .gone then s.recheckAcl check else (s.recheckAcl check).reconcile

def onWakeup (check : Acl → AccessDecision) (s : Child Acl) : Child Acl :=
  let noted := { s with decided := (check s.acl).role }
  match s.phase, s.carrier with
  | .waiting, .unix => noted.pendingAnswer
  | .waiting, .netchan =>
    if noted.pendingAnswer.phase = .serving then noted.pendingAnswer.onWatch check else noted.pendingAnswer
  | .serving, _ => noted.onWatch check
  | _, _ => s

def onTick (s : Child Acl) : Child Acl :=
  match s.phase, s.carrier with
  | .waiting, .netchan => s.pendingAnswer
  | _, _ => s

def advance (s : Child Acl) : Child Acl :=
  match s.phase with
  | .admitted => if s.pending then { s with phase := .registered } else s.attachAll
  | .registered => { s with phase := .waiting, lastSeq := ((ctlRead s.control).map Ctl.seq).getD 0 }
  | _ => s

end Child

structure Session (Acl : Type) where
  acl : Acl
  control : Option Bytes
  servers : List UInt32
  /-- whether someone is attached who could answer -/
  approver : Bool

def admission (check : Acl → AccessDecision) (carrier : Carrier) (clientId : UInt32) (dir : Session Acl) : Child Acl :=
  let dec := check dir.acl
  let pending := dec.ask && dir.approver
  let granted := if dec.ask && !dir.approver then .deny else dec.role
  { carrier := carrier
    clientId := clientId
    acl := dir.acl
    control := dir.control
    servers := dir.servers
    phase := if pending = false ∧ granted = .deny then .gone else .admitted
    pending := pending
    decRole := dec.role
    attachFlags := flagsFor granted
    lastGranted := granted
    decided := granted }

/-- What can happen in the life of a connection: the owner edits the list or posts a message, mservers
come and go, the child goes on, is woken or passes its loop, or the connection ends. -/
inductive Event (Acl : Type) where
  | edit (acl : Acl)
  | post (verb : CtlVerb) (target actor : UInt64) (name : Bytes)
  | servers (pids : List UInt32)
  | advance
  | wakeup
  | tick
  | leave
  deriving DecidableEq, Repr

def Child.step (check : Acl → AccessDecision) (s : Child Acl) : Event Acl → Child Acl
  | .edit acl => { s with acl := acl }
  | .post verb target actor name => { s with control := some (ctlPost s.control verb target actor name) }
  | .servers pids => { s with servers := pids }
  | .advance => s.advance
  | .wakeup => s.onWakeup check
  | .tick => s.onTick
  | .leave => s.leave

def Child.run (check : Acl → AccessDecision) (s : Child Acl) (events : List (Event Acl)) : Child Acl :=
  events.foldl (Child.step check) s

end Lumimux.Proxy
