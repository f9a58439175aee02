import Lumimux.Mserver.SingleWriter

/-!
# The input messages of one client

A bare `INPUT` is delivered at once, a run as a whole or not at all (`Typing`); only input messages of a client change
its run.
-/

namespace Lumimux.Mserver
open Attr Ipc Lib Vt List

namespace Typing

abbrev Message := MsgType × Bytes

abbrev Run := Option (List Bytes)

def next : Run → Message → Run
  | none, (.input, _) => none
  | some run, (.input, payload) => some (run ++ [payload])
  | _, (.inputBegin, _) => some []
  | _, (.inputEnd, _) => none
  | run, _ => run

def out : Run → Message → List Bytes
  | none, (.input, payload) => [payload]
  | some run, (.inputEnd, _) => run
  | _, _ => []

def delivered : Run → List Message → List Bytes
  | _, [] => []
  | run, m :: rest => out run m ++ delivered (next run m) rest

theorem next_of_ordinary {type} (ordinary : Server.msgIsInput type = false) (run : Run) (payload : Bytes) :
    next run (type, payload) = run := by
  cases run <;> cases type <;> first | rfl | cases ordinary

theorem out_of_ordinary {type} (ordinary : Server.msgIsInput type = false) (run : Run) (payload : Bytes) :
    out run (type, payload) = [] := by
  cases run <;> cases type <;> first | rfl | cases ordinary

end Typing

def sentBy (i : Slot) (e : Step) : Option Typing.Message :=
  match e.event with
  | .ready j _ true wire => if j = i then (ipcMsgRecv ipcMaxPayload wire).map fun m => (m.1, m.2.1) else none
  | _ => none

namespace Server

def writtenFor (s : Server) (i : Slot) : Bytes := ((s.ptyOut.filter (·.1 == i)).map Prod.snd).flatten

def RunsFreed (s : Server) : Prop := ∀ k, s.live k = false → (s.clients k).inrun = false

/-- Nothing is typed, and the runs of those who stay are kept. -/
structure Undisturbed (s s' : Server) : Prop where
  ptyOut : s'.ptyOut = s.ptyOut
  live : ∀ k, s'.live k = true → s.live k = true
  inq : ∀ k, s'.live k = true → (s'.clients k).inq = (s.clients k).inq
  inrun : ∀ k, s'.live k = true → (s'.clients k).inrun = (s.clients k).inrun
  freed : s.RunsFreed → s'.RunsFreed

variable {s : Server} {i : Slot} {e : Step}

theorem RunsFreed.of_core {s' : Server} (h : s.RunsFreed) (same : s'.core = s.core) : s'.RunsFreed := by
  intro k dead
  have inrun : (s'.clients k).inrun = (s.clients k).inrun := (congrArg (fun s : Server => (s.clients k).inrun) same :)
  rw [inrun]
  exact h k ((live_of_core same k).symm.trans dead)

theorem RunsFreed.modifyClient (h : s.RunsFreed) {f : Mclient → Mclient}
    (own : (f (s.clients i)).live = false → (f (s.clients i)).inrun = false) : (s.modifyClient i f).RunsFreed :=
  fun k => modifyClient_rule (P := fun mc => mc.live = false → mc.inrun = false) s (fun same => same ▸ own) fun _ => h k

theorem Effect.runsFreed {s' : Server} (effect : Effect i s s') (h : s.RunsFreed) : s'.RunsFreed := by
  cases effect with
  | micro effect =>
    cases effect with
    | books same => exact h.of_core same
    | close k => exact h.modifyClient (i := k) (f := fun mc => resetClient { mc with fd := none }) fun _ => rfl
    | reset k => exact h.modifyClient fun _ => rfl
    | grant k live =>
      exact h.modifyClient (i := k) (f := fun mc => { mc with role := .write }) fun dead =>
        absurd (live.symm.trans dead) (by decide)
    | refit =>
      intro k
      rw [Server.live, clients_resizeToFit]
      exact h k
  | own f seat =>
    refine h.modifyClient fun dead => ?_
    have kept := seat (s.clients i)
    rw [kept.inrun]
    exact h i (by rw [Server.live, Mclient.live, ← kept.fd]; exact dead)
  | store => exact h
  | screen => exact h
  | stop => exact h

namespace Undisturbed

variable {s s' s'' : Server}

theorem refl (s : Server) : Undisturbed s s := ⟨rfl, fun _ => id, fun _ _ => rfl, fun _ _ => rfl, id⟩

theorem trans (h : Undisturbed s s') (h' : Undisturbed s' s'') : Undisturbed s s'' where
  ptyOut := h'.ptyOut.trans h.ptyOut
  live k live := h.live k (h'.live k live)
  inq k live := (h'.inq k live).trans (h.inq k (h'.live k live))
  inrun k live := (h'.inrun k live).trans (h.inrun k (h'.live k live))
  freed free := h'.freed (h.freed free)

theorem of_served {i} (h : Served i s s') : Undisturbed s s' := by
  refine ⟨h.ptyOut, fun _ => h.live, fun _ live => (h.seat live).inq, fun _ live => (h.seat live).inrun, fun free => ?_⟩
  induction h with
  | refl => exact free
  | tail _ step ih => exact step.runsFreed ih

theorem modifyClient (i : Slot) {f : Mclient → Mclient}
    (kept : ∀ mc, (f mc).fd = mc.fd ∧ (f mc).inq = mc.inq ∧ (f mc).inrun = mc.inrun) : Undisturbed s (s.modifyClient i f) := by
  have own : ∀ k, ((s.modifyClient i f).clients k).fd = (s.clients k).fd ∧
      ((s.modifyClient i f).clients k).inq = (s.clients k).inq ∧
      ((s.modifyClient i f).clients k).inrun = (s.clients k).inrun := by
    intro k
    exact modifyClient_rule (P := fun mc => mc.fd = (s.clients k).fd ∧ mc.inq = (s.clients k).inq ∧
      mc.inrun = (s.clients k).inrun) s (fun _ => kept _) fun _ => ⟨rfl, rfl, rfl⟩
  refine ⟨rfl, fun k live => (live_of_fd (own k).1).symm.trans live, fun k _ => (own k).2.1, fun k _ => (own k).2.2, ?_⟩
  intro free k dead
  rw [(own k).2.2]
  exact free k ((live_of_fd (own k).1).symm.trans dead)

theorem of_turns (h : Turns s s') : Undisturbed s s' := by
  induction h with
  | refl => exact .refl s
  | tail _ turn reached =>
    refine reached.trans ?_
    cases turn with
    | micro h => exact of_served (i := ⟨0, mclientMax_pos⟩) (.single (.micro h))
    | client o f kept => exact .modifyClient o kept

end Undisturbed

structure RunKept (k : Slot) (s s' : Server) : Prop where
  live : s'.live k = true → s.live k = true
  inq : s'.live k = true → (s'.clients k).inq = (s.clients k).inq
  inrun : s'.live k = true → (s'.clients k).inrun = (s.clients k).inrun
  wrote : s'.writtenFor k = s.writtenFor k

namespace RunKept

variable {k : Slot} {s s' s'' : Server}

theorem refl (k : Slot) (s : Server) : RunKept k s s := ⟨id, fun _ => rfl, fun _ => rfl, rfl⟩

theorem trans (h : RunKept k s s') (h' : RunKept k s' s'') : RunKept k s s'' :=
  ⟨fun live => h.live (h'.live live), fun live => (h'.inq live).trans (h.inq (h'.live live)),
    fun live => (h'.inrun live).trans (h.inrun (h'.live live)), h'.wrote.trans h.wrote⟩

theorem of_undisturbed (h : Undisturbed s s') (k : Slot) : RunKept k s s' :=
  ⟨h.live k, h.inq k, h.inrun k, by rw [writtenFor, h.ptyOut]; rfl⟩

theorem of_served {i} (h : Served i s s') : RunKept k s s' := of_undisturbed (.of_served h) k

theorem of_typed {i} (h : Typed i s s') (other : k ≠ i) : RunKept k s s' := by
  have same := h.others k other
  refine ⟨fun live => (h.live k).symm.trans live, fun _ => by rw [same], fun _ => by rw [same], ?_⟩
  obtain ⟨chunks, wrote⟩ := h.wrote
  have foreign : (chunks.map ((i, ·))).filter (·.1 == k) = [] := by
    rw [filter_eq_nil_iff]
    rintro ⟨j, bytes⟩ mem
    obtain ⟨_, -, pair⟩ := mem_map.mp mem
    rw [← pair]
    simpa using Ne.symm other
  rw [writtenFor, wrote, filter_append, foreign, append_nil]
  rfl

end RunKept

section Kept

variable (env : Env) (s : Server) (k : Slot)

theorem handleMessage_undisturbed {j type} (ordinary : msgIsInput type = false) (buf : Bytes) :
    Undisturbed s (s.handleMessage env j type buf) := by
  by_cases request : type = .roleRequest
  · subst request
    rw [handleMessage_roleRequest]
    exact .of_turns (handleRoleRequest_turns ..)
  · exact .of_served (handleMessage_served env s j ordinary request buf)

theorem handleMessage_runKept {j type} (foreign : msgIsInput type = true → k ≠ j) (buf : Bytes) :
    RunKept k s (s.handleMessage env j type buf) := by
  cases typing : msgIsInput type with
  | false => exact .of_undisturbed (handleMessage_undisturbed env s typing buf) k
  | true =>
    rcases handleMessage_typing env s j typing buf with served | typed
    · exact .of_served served
    · exact .of_typed typed (foreign typing)

theorem attach_runKept (live : s.live k = true) (fd : Nat) (buf : Bytes) : RunKept k s (s.attach env fd buf) := by
  unfold attach
  split
  · exact .refl k s
  · rename_i s₁ m claimed
    obtain ⟨free, -, -, others⟩ := alloc_cases claimed
    have other : k ≠ m := by
      rintro rfl
      rw [live] at free
      cases free
    have claimedKept : RunKept k s s₁ := by
      have same := others k other
      refine ⟨fun _ => live, fun _ => by rw [same], fun _ => by rw [same], ?_⟩
      rw [writtenFor, ptyOut_alloc claimed]
      rfl
    refine claimedKept.trans (.trans ?_ (.of_served (welcome_served env _ m)))
    split
    · exact .of_undisturbed (.of_turns (accept_turns ..)) k
    · exact .refl k s₁

end Kept

theorem handleMessage_bufsz {wire type buf rest} (received : ipcMsgRecv clientBufsz wire = some (type, buf, rest)) :
    ∃ payload, ipcMsgRecv ipcMaxPayload wire = some (type, payload, rest) ∧ buf = payload.take clientBufsz := by
  rw [ipcMsgRecv_take] at received
  obtain ⟨⟨type', payload, rest'⟩, whole, same⟩ := Option.map_eq_some_iff.mp received
  simp only [Prod.mk.injEq] at same
  obtain ⟨rfl, rfl, rfl⟩ := same
  exact ⟨payload, whole, rfl⟩

theorem step_runKept {k} (live : s.live k = true) (silent : sentBy k e = none) : RunKept k s (s.step e) := by
  have asked : RunKept k s { s with tick := 0 } := .of_served (tick_served s k 0)
  refine asked.trans ?_
  have happens := s.step_happens e
  generalize s.step e = s' at happens ⊢
  cases happens with
  | served h => exact .of_served h
  | typed event received kept h =>
    refine (RunKept.of_served kept.served).trans (.of_typed h ?_)
    -- a message of its own would not be silence
    rintro rfl
    obtain ⟨payload, whole, -⟩ := handleMessage_bufsz received
    simp [sentBy, event, whole] at silent
  | asked _ _ kept =>
    exact (RunKept.of_served kept.served).trans (.of_undisturbed (.of_turns (handleRoleRequest_turns ..)) k)
  | attached => exact attach_runKept e.env { s with tick := 0 } k live _ _

theorem sentBy_ready {m} (sends : sentBy i e = some m) :
    ∃ writable wire rest, e.event = .ready i writable true wire ∧
      ipcMsgRecv ipcMaxPayload wire = some (m.1, m.2, rest) := by
  obtain ⟨event, env⟩ := e
  unfold sentBy at sends
  split at sends
  · rename_i j writable wire event
    split at sends
    · rename_i own
      subst own
      obtain ⟨⟨type, payload, rest⟩, whole, rfl⟩ := Option.map_eq_some_iff.mp sends
      exact ⟨writable, wire, rest, event, whole⟩
    · cases sends
  · cases sends

theorem step_handles {type payload} (live : s.live i = true) (stays : (s.step e).live i = true)
    (sends : sentBy i e = some (type, payload)) : ∃ s₁ : Server, s₁.core = s.core ∧
      s.step e = s₁.handleMessage e.env i type (payload.take clientBufsz) := by
  obtain ⟨writable, wire, rest, ready, whole⟩ := sentBy_ready sends
  have step : s.step e = Server.onClientRead e.env { s with tick := 0 } i writable true wire := by
    unfold Server.step
    rw [ready]
    exact if_pos live
  have received : ipcMsgRecv clientBufsz wire = some (type, payload.take clientBufsz, rest) := by
    rw [ipcMsgRecv_take, whole]
    rfl
  have live₀ : Server.live { s with tick := 0 } i = true := live
  obtain ⟨s₁, kept, ⟨unread, -⟩ | dropped | ⟨-, type', buf, rest', received', handled⟩⟩ :=
    onClientRead_cases e.env live₀ writable true wire
  · cases unread
  · rw [step, dropped, disconnect_self] at stays
    cases stays
  · rw [received, Option.some.injEq, Prod.mk.injEq, Prod.mk.injEq] at received'
    obtain ⟨rfl, rfl, -⟩ := received'
    exact ⟨s₁, kept.core, step.trans handled⟩

end Server

/-- The PTY never fails a write. -/
def Env.PtyWilling (env : Env) : Prop := ∀ t, ∃ n, env.ptyWrite t = .accepted n

theorem Env.willing_ptyWilling : Env.willing.PtyWilling := fun _ => ⟨65535, rfl⟩

theorem sentBy_message {i type} (onWire : type.OnWire) {payload} (fits : payload.length ≤ ipcMaxPayload) (env : Env) :
    sentBy i (.message i type payload env) = some (type, payload) := by
  have received := ipcMsgRecv_frame onWire fits ipcMaxPayload []
  rw [append_nil, take_of_length_le fits] at received
  simp [sentBy, Step.message, received]

namespace Server

variable {env : Env} {s : Server} {i : Slot}

theorem onClientRead_received {wire type buf rest} (live : s.live i = true)
    (received : ipcMsgRecv clientBufsz wire = some (type, buf, rest)) :
    s.onClientRead env i false true wire = s.handleMessage env i type buf := by
  unfold onClientRead
  simp only [Bool.false_eq_true, if_false, live, Bool.true_eq_false, or_self, received]

theorem step_ready (live : s.live i = true) (writable readable : Bool) (wire : Bytes)
    (env : Env) : s.step ⟨.ready i writable readable wire, env⟩ =
      Server.onClientRead env { s with tick := 0 } i writable readable wire := if_pos live

theorem step_message {type payload} (live : s.live i = true) (onWire : type.OnWire) (fits : payload.length ≤ ipcMaxPayload)
    (env : Env) : s.step (.message i type payload env) =
      Server.handleMessage env { s with tick := 0 } i type (payload.take clientBufsz) := by
  have received := ipcMsgRecv_frame onWire fits clientBufsz []
  rw [append_nil] at received
  rw [Step.message, step_ready live]
  exact onClientRead_received (s := { s with tick := 0 }) live received

theorem ptyWriteLoop_willing (willing : env.PtyWilling) (rounds tick : Nat) (data : Bytes)
    (enough : data.length ≤ rounds) : (ptyWriteLoop env rounds tick data).2 = data := by
  induction rounds generalizing tick data with
  | zero =>
    rw [length_eq_zero_iff.mp (Nat.le_zero.mp enough)]
    rfl
  | succ rounds ih =>
    cases data with
    | nil => rfl
    | cons b data =>
      obtain ⟨n, accepted⟩ := willing tick
      simp only [ptyWriteLoop, accepted]
      rw [ih, take_append_drop]
      rw [length_drop]
      rw [length_cons] at enough ⊢
      omega

theorem ptyOut_writeToPty (willing : env.PtyWilling) (s : Server) (i : Slot) (data : Bytes) :
    (s.writeToPty env i data).ptyOut = s.ptyOut ++ [(i, data)] := by
  show s.ptyOut ++ [(i, (ptyWriteLoop env data.length s.tick data).2)] = _
  rw [ptyWriteLoop_willing willing _ _ _ (Nat.le_refl _)]

theorem writtenFor_append {s' : Server} {data : Bytes} (wrote : s'.ptyOut = s.ptyOut ++ [(i, data)]) :
    s'.writtenFor i = s.writtenFor i ++ data := by
  simp [writtenFor, wrote]

theorem accepts_of_write {mc} (role : mc.role = .write) (type : MsgType) : refuses mc type = false := by
  simp [refuses, role]

section Own

variable {env : Env} {s : Server} {i : Slot} (willing : env.PtyWilling)
include willing

section
variable (accepted : refuses (s.clients i) .input = false) (closed : (s.clients i).inrun = false) (buf : Bytes)
include accepted closed

omit willing in
theorem handleMessage_input_closed : s.handleMessage env i .input buf = s.writeToPty env i buf := by
  rw [handleMessage, if_neg (by rw [accepted]; decide)]
  exact if_neg (by rw [closed]; decide)

theorem handleMessage_input_bare :
    (s.handleMessage env i .input buf).ptyOut = s.ptyOut ++ [(i, buf)] ∧
      (s.handleMessage env i .input buf).clients = s.clients := by
  rw [handleMessage_input_closed accepted closed]
  exact ⟨ptyOut_writeToPty willing s i buf, rfl⟩

end

omit willing in
theorem handleMessage_input_open (accepted : refuses (s.clients i) .input = false)
    (inRun : (s.clients i).inrun = true) (buf : Bytes) : s.handleMessage env i .input buf = s.inqAppend env i buf := by
  rw [handleMessage, if_neg (by rw [accepted]; decide)]
  exact if_pos inRun

omit willing in
theorem handleMessage_input_run (accepted : refuses (s.clients i) .input = false)
    (inRun : (s.clients i).inrun = true) (buf : Bytes) : (s.handleMessage env i .input buf).ptyOut = s.ptyOut ∧
      ((s.handleMessage env i .input buf).live i = true →
        ((s.handleMessage env i .input buf).clients i).inrun = true ∧
          ((s.handleMessage env i .input buf).clients i).inq = (s.clients i).inq ++ buf) := by
  rw [handleMessage_input_open accepted inRun]
  rcases inqAppend_cases env s i buf with ⟨s₁, same, dropped⟩ | ⟨cap, tick, grown⟩
  · rw [dropped]
    have served : Served i s (s₁.disconnect env i) := (served_of_core same).trans (drop_served env s₁ i i)
    refine ⟨served.ptyOut, fun stays => ?_⟩
    rw [disconnect_self] at stays
    cases stays
  · rw [grown, modifyClient_self]
    exact ⟨rfl, fun _ => ⟨inRun, rfl⟩⟩

omit willing in
theorem handleMessage_begin (accepted : refuses (s.clients i) .inputBegin = false) (env : Env) (buf : Bytes) :
    (s.handleMessage env i .inputBegin buf).ptyOut = s.ptyOut ∧
      ((s.handleMessage env i .inputBegin buf).clients i).inrun = true ∧
      ((s.handleMessage env i .inputBegin buf).clients i).inq = [] := by
  rw [handleMessage, if_neg (by rw [accepted]; decide)]
  show _ = _ ∧ ((s.handleInputBegin i).clients i).inrun = true ∧ ((s.handleInputBegin i).clients i).inq = []
  rw [handleInputBegin, modifyClient_self]
  exact ⟨rfl, rfl, rfl⟩

omit willing in
theorem handleMessage_end_inrun (accepted : refuses (s.clients i) .inputEnd = false) (env : Env) (buf : Bytes) :
    ((s.handleMessage env i .inputEnd buf).clients i).inrun = false := by
  rw [handleMessage, if_neg (by rw [accepted]; decide)]
  show ((s.handleInputEnd env i).clients i).inrun = false
  unfold handleInputEnd
  split
  · rw [modifyClient_self]
  · rename_i closed
    simpa using closed

theorem handleMessage_end (accepted : refuses (s.clients i) .inputEnd = false) (buf : Bytes) :
    (s.handleMessage env i .inputEnd buf).ptyOut =
      s.ptyOut ++ if (s.clients i).inrun then [(i, (s.clients i).inq)] else [] := by
  rw [handleMessage, if_neg (by rw [accepted]; decide)]
  show (s.handleInputEnd env i).ptyOut = _
  unfold handleInputEnd
  split
  · exact ptyOut_writeToPty willing s i _
  · exact (append_nil _).symm

end Own

end Server

end Lumimux.Mserver
