import Lumimux.Mserver.Clients

/-!
# The event handlers (`cmd/mserver/mserver.c`)

`Server.step` is one turn of the event loop; a `Step` pairs an event with the system's answers.
-/

namespace Lumimux.Mserver
open Attr Ipc Lib Vt

namespace Server

/-- The loop of `role_for` over the other writers. -/
def demoteOthers (env : Env) (s : Server) (i : Slot) : Server :=
  s.forLive fun s o =>
    if o = i ∨ (s.clients o).role ≠ .write then s else s.announceRole env (disconnect env) o .view

/-- Somebody else holds WRITE. -/
def otherWriter (s : Server) (i : Slot) : Bool :=
  s.liveSlots.any fun o => decide (o ≠ i) && (s.clients o).role == .write

/-- The role a client gets that asks with these flags. -/
def roleFor (env : Env) (s : Server) (i : Slot) (asked : UInt8) : Server × Role :=
  if hasFlag asked attachFView then (s, .view)
  else if hasFlag asked attachFInject then (s, .view)
  else if hasFlag asked attachFToken then (s.demoteOthers env i, .write)
  else
    let multi := env.multiWriter s.tick
    let s := { s with tick := s.tick + 1 }
    (s, if multi then .write else if s.otherWriter i then .view else .write)

/-- The messages that change something. -/
def msgMutates : MsgType → Bool
  | .input => true
  | .inputBegin => true
  | .inputEnd => true
  | .kill => true
  | .flowCtrl => true
  | .attrSet => true
  | .attrDelete => true
  | .attrTxnCommit => true
  | .termColors => true
  | _ => false

def msgIsInput : MsgType → Bool
  | .input => true
  | .inputBegin => true
  | .inputEnd => true
  | _ => false

/-- An error reply, at most one a second. -/
def deny (env : Env) (s : Server) (i : Slot) (why : String) : Server :=
  let now := env.now s.tick
  let s := { s with tick := s.tick + 1 }
  if now = (s.clients i).lastDeny then s
  else
    (s.modifyClient i fun mc => { mc with lastDeny := now }).enqueue env (disconnect env) i .error (ascii why)

def inrunHardLimit : Nat := 4 * 2 ^ 20

/-- Adds to an open run; too long a run drops the client. -/
def inqAppend (env : Env) (s : Server) (i : Slot) (data : Bytes) : Server :=
  let mc := s.clients i
  let len := mc.inq.length + data.length
  if len > inrunHardLimit then s.disconnect env i
  else if len > mc.inqCap then
    let s' := { s with tick := s.tick + 1 }
    if env.alloc s.tick then
      s'.setClient i { mc with inq := mc.inq ++ data, inqCap := grownCap 4096 mc.inqCap len }
    else s'.disconnect env i
  else s.setClient i { mc with inq := mc.inq ++ data }

def replayBufsz : Nat := 32768

/-- The dump in pieces of the buffer's size. -/
def replayChunks : Nat → Bytes → List Bytes
  | 0, _ => []
  | _, [] => []
  | rounds + 1, bytes@(_ :: _) => bytes.take replayBufsz :: replayChunks rounds (bytes.drop replayBufsz)

/-- The dump, as output messages. -/
def sendReplay (env : Env) (s : Server) (i : Slot) : Server :=
  let bytes := (vtStateDump s.window.vt).flatten
  (replayChunks bytes.length bytes).foldl (fun s chunk => s.enqueue env (disconnect env) i .output chunk) s

/-- A string field of a message in a C buffer. -/
def wireString (size : Nat) (bytes : Bytes) : Bytes := copyString size (bytes.takeWhile (· != 0))

theorem wireString_length (size : Nat) (bytes : Bytes) (pos : 0 < size) : (wireString size bytes).length < size := by
  rw [wireString, copyString, List.length_take]
  omega

def reply (env : Env) (s : Server) (i : Slot) (type : MsgType) (payload : Bytes) : Server :=
  s.enqueue env (disconnect env) i type payload

def replyError (env : Env) (s : Server) (i : Slot) (why : String) : Server := s.reply env i .error (ascii why)

/-- A reply, unless its encoder fails. -/
def replyEncoded (env : Env) (s : Server) (i : Slot) (type : MsgType) : Option Bytes → Server
  | some payload => s.reply env i type payload
  | none => s

/-- The attribute requests. -/
def handleAttrMsg (env : Env) (s : Server) (i : Slot) (type : MsgType) (buf : Bytes) : Server :=
  match type with
  | .attrTxnBegin =>
    match s.attrs.txnBegin (s.clients i).fd with
    | (attrs, some id) =>
      { s with attrs := attrs }.replyEncoded env i .attrTxnOk (ipcAttrTxnOkEncode ipcMaxPayload id)
    | (attrs, none) => { s with attrs := attrs }.replyError env i "txn pool full"
  | .attrTxnCommit =>
    match ipcAttrKeyDecode buf with
    | none => s.replyError env i "bad message"
    | some ak =>
      let (attrs, ok) := s.attrs.txnCommit ak.txnId
      let s := { s with attrs := attrs }
      if ok then s.replyEncoded env i .attrTxnOk (ipcAttrTxnOkEncode ipcMaxPayload ak.txnId)
      else s.replyError env i "conflict"
  | .attrTxnRollback =>
    match ipcAttrKeyDecode buf with
    | none => s.replyError env i "bad message"
    | some ak =>
      { s with attrs := s.attrs.txnRollback ak.txnId }.replyEncoded env i .attrTxnOk
        (ipcAttrTxnOkEncode ipcMaxPayload ak.txnId)
  | .attrSet =>
    match ipcAttrKvDecode buf with
    | none => s.replyError env i "bad message"
    | some kv =>
      let (attrs, ok) :=
        s.attrs.set kv.txnId (wireString attrMaxKeyLen kv.key) (wireString attrMaxValueLen kv.value)
      let s := { s with attrs := attrs }
      if ok then s.reply env i .attrOk [] else s.replyError env i "set failed"
  | .attrDelete =>
    match ipcAttrKeyDecode buf with
    | none => s.replyError env i "bad message"
    | some ak =>
      let (attrs, ok) := s.attrs.delete ak.txnId (wireString attrMaxKeyLen ak.key)
      let s := { s with attrs := attrs }
      if ok then s.reply env i .attrOk [] else s.replyError env i "delete failed"
  | .attrGet =>
    match ipcAttrKeyDecode buf with
    | none => s.replyError env i "bad message"
    | some ak =>
      let key := wireString attrMaxKeyLen ak.key
      match s.attrs.get ak.txnId key attrMaxValueLen with
      | (attrs, none) => { s with attrs := attrs }.replyError env i "not found"
      | (attrs, some value) =>
        { s with attrs := attrs }.replyEncoded env i .attrValue
          (ipcAttrKvEncode ipcMaxPayload ⟨ak.txnId, key, value⟩)
  | .attrList =>
    match ipcAttrKeyDecode buf with
    | none => s.replyError env i "bad message"
    | some ak =>
      match s.attrs.list ak.txnId (ipcMaxPayload - 64) with
      | none => s.replyError env i "list failed"
      | some listing => s.replyEncoded env i .attrEntries (ipcAttrEntriesEncode ipcMaxPayload listing)
  | _ => s

def termColors (buf : Bytes) : Option (Bytes × Bytes) :=
  match buf.dropWhile (· != 0) with
  | [] => none
  | _ :: rest => if rest.contains 0 then some (buf.takeWhile (· != 0), rest.takeWhile (· != 0)) else none

def setTermColors (vt : VtState) (fg bg : Bytes) : VtState :=
  { vt with
    termFg := if fg = [] then none else some fg
    termBg := if bg = [] then none else some bg }

/-- `INPUT`: written, or kept in an open run. -/
def handleInput (env : Env) (s : Server) (i : Slot) (buf : Bytes) : Server :=
  if (s.clients i).inrun then s.inqAppend env i buf else s.writeToPty env i buf

def handleInputBegin (s : Server) (i : Slot) : Server :=
  s.modifyClient i fun mc => { mc with inq := [], inrun := true }

/-- `INPUT_END`: the run is written as a whole. -/
def handleInputEnd (env : Env) (s : Server) (i : Slot) : Server :=
  if (s.clients i).inrun then
    (s.writeToPty env i (s.clients i).inq).modifyClient i fun mc => { mc with inq := [], inrun := false }
  else s

/-- `FLOW_CTRL`: pause or resume. -/
def handleFlowCtrl (s : Server) (i : Slot) : Bytes → Server
  | [] => s
  | b :: _ =>
    let pause := b != 0
    if pause = (s.clients i).paused then s
    else (s.modifyClient i fun mc => { mc with paused := pause }).updateMasterInterest

def handleWinResize (s : Server) (i : Slot) (buf : Bytes) : Server :=
  match ipcSizeDecode buf with
  | none => s
  | some sz =>
    if sz.rows > 0 ∧ sz.cols > 0 then
      (s.modifyClient i fun mc =>
        { mc with rows := sz.rows, cols := sz.cols, cellPw := sz.cellPw, cellPh := sz.cellPh }).resizeToFit
    else s

def handleTermColors (s : Server) (buf : Bytes) : Server :=
  match termColors buf with
  | none => s
  | some (fg, bg) => { s with window.vt := setTermColors s.window.vt fg bg }

def handleRoleRequest (env : Env) (s : Server) (i : Slot) : Bytes → Server
  | [] => s
  | asked :: _ =>
    let (s, want) := s.roleFor env i asked
    let s := (s.modifyClient i fun mc => { mc with flags := asked }).resizeToFit
    if want ≠ (s.clients i).role then s.announceRole env (disconnect env) i want else s

/-- The client's role refuses the message. -/
def refuses (mc : Mclient) (type : MsgType) : Bool :=
  mc.role != .write && msgMutates type && !(hasFlag mc.flags attachFInject && msgIsInput type)

/-- The `switch` of `on_client_read`. -/
def handleMessage (env : Env) (s : Server) (i : Slot) (type : MsgType) (buf : Bytes) : Server :=
  if refuses (s.clients i) type then s.deny env i "read-only"
  else
    match type with
    | .input => s.handleInput env i buf
    | .inputBegin => s.handleInputBegin i
    | .inputEnd => s.handleInputEnd env i
    | .flowCtrl => s.handleFlowCtrl i buf
    | .winResize => s.handleWinResize i buf
    | .termColors => s.handleTermColors buf
    | .refresh => s.sendReplay env i
    | .roleRequest => s.handleRoleRequest env i buf
    | .detach => s.disconnect env i
    | .kill => { s.disconnect env i with stopped := true }
    | .attrTxnBegin => s.handleAttrMsg env i type buf
    | .attrTxnCommit => s.handleAttrMsg env i type buf
    | .attrTxnRollback => s.handleAttrMsg env i type buf
    | .attrSet => s.handleAttrMsg env i type buf
    | .attrDelete => s.handleAttrMsg env i type buf
    | .attrGet => s.handleAttrMsg env i type buf
    | .attrList => s.handleAttrMsg env i type buf
    | _ => s

def clientBufsz : Nat := 4096

def attachBufsz : Nat := 256

/-- A client's socket is ready. -/
def onClientRead (env : Env) (s : Server) (i : Slot) (writable readable : Bool) (wire : Bytes) : Server :=
  let s := if writable then s.flush env (disconnect env) i else s
  if s.live i = false ∨ readable = false then s
  else
    match ipcMsgRecv clientBufsz wire with
    | none => s.disconnect env i
    | some (type, buf, _) => s.handleMessage env i type buf

/-- What a decoded `ATTACH` sets. -/
def accept (env : Env) (s : Server) (i : Slot) (at_ : IpcAttach) : Server :=
  let s := s.modifyClient i fun mc =>
    { mc with
      flags := at_.flags
      clientId := at_.clientId
      rows := at_.rows
      cols := at_.cols
      cellPw := at_.cellPw
      cellPh := at_.cellPh
      name := if at_.name = [] then mc.name else ⟨wireString 64 at_.name, wireString_length 64 _ (by decide)⟩ }
  let (s, role) := s.roleFor env i at_.flags
  (s.modifyClient i fun mc => { mc with role := role }).resizeToFit

/-- The reply to a newcomer, the replay and the news. -/
def welcome (env : Env) (s : Server) (i : Slot) : Server :=
  let reply := ipcAttachReplyEncode 32 s.window.vt.buf.rows s.window.vt.buf.cols (s.clients i).role.code
    (UInt8.ofNat s.liveSlots.length)
  let s := s.replyEncoded env i .attachReply reply
  let s := s.modifyClient i fun mc => { mc with ready := true }
  let s := s.sendReplay env i
  let s := s.clientEvent env (disconnect env) i .join
  let flags := env.ptyFlags s.tick
  let s := { s with tick := s.tick + 1 }
  match flags with
  | none => s
  | some flags => { s with lastPtyFlags := some flags }.reply env i .ptyFlags [flags]

/-- A slot for the newcomer, if there is one. -/
def attach (env : Env) (s : Server) (fd : Nat) (buf : Bytes) : Server :=
  match s.alloc fd with
  | none => s
  | some (s, i) =>
    let s := match ipcAttachDecode buf with
      | some at_ => s.accept env i at_
      | none => s
    s.welcome env i

/-- A connection; `wire` is what it sends first. -/
def onNewClient (env : Env) (s : Server) (fd : Nat) (trusted : Bool) (wire : Bytes) : Server :=
  if trusted = false then s
  else
    match ipcMsgRecv attachBufsz wire with
    | none => s
    | some (.attach, buf, _) => s.attach env fd buf
    | some (.kill, _, _) => { s with stopped := true }
    | some _ => s

def syncPtyFlags (env : Env) (s : Server) : Server :=
  if s.liveSlots = [] then s
  else
    let flags := env.ptyFlags s.tick
    let s := { s with tick := s.tick + 1 }
    match flags with
    | none => s
    | some b =>
      if s.lastPtyFlags = some b then s
      else { s with lastPtyFlags := some b }.broadcast env .ptyFlags [b]

/-- Output of the PTY. -/
def onMasterRead (env : Env) (s : Server) (data : Bytes) : Server :=
  if data = [] then { s with stopped := true }
  else
    let s := { s with window := s.window.feed env.widths data }
    (s.syncPtyFlags env).broadcast env .output data

def disconnectAll (env : Env) (s : Server) : Server := (List.finRange mclientMax).foldl (disconnect env) s

end Server

/-- What the event loop reports. -/
inductive Event
  | connect (fd : Nat) (trusted : Bool) (wire : Bytes)
  | ready (i : Slot) (writable readable : Bool) (wire : Bytes)
  | masterRead (data : Bytes)
  | signal
  | cleanup

structure Step where
  event : Event
  env : Env

/-- One turn of the event loop. -/
def Server.step (s : Server) (e : Step) : Server :=
  let s := { s with tick := 0 }
  match e.event with
  | .connect fd trusted wire =>
    if s.liveSlots.any fun i => (s.clients i).fd == some fd then s else s.onNewClient e.env fd trusted wire
  | .ready i writable readable wire => if s.live i then s.onClientRead e.env i writable readable wire else s
  | .masterRead data => s.onMasterRead e.env data
  | .signal => { s with stopped := true }
  | .cleanup => s.disconnectAll e.env

def Server.run (s : Server) (steps : List Step) : Server := steps.foldl Server.step s

/-- A server without clients. -/
def Server.start (window : Emu) (entries : List AttrEntry) (nextGen : Nat) : Server :=
  { window := window, attrs := { entries := entries, nextGen := nextGen } }

/-- A system that never fails. -/
def Env.willing : Env where
  send := fun _ => .accepted 65535
  ptyWrite := fun _ => .accepted 65535
  now := fun _ => 1
  alloc := fun _ => true
  multiWriter := fun _ => false
  ptyFlags := fun _ => none
  widths := Utf8.latestTable

def Step.attaching (fd : Nat) (flags : UInt8) (env : Env) : Step :=
  ⟨.connect fd true (ipcMsgFrame .attach ((ipcAttachEncode 256 { flags := flags }).getD [])), env⟩

def Step.message (i : Slot) (type : MsgType) (payload : Bytes) (env : Env) : Step :=
  ⟨.ready i false true (ipcMsgFrame type payload), env⟩

end Lumimux.Mserver
