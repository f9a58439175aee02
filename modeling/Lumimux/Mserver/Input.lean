import Lumimux.Lib.ListEdit
import Lumimux.Mserver.Typing

/-!
# Input on its way to the PTY

The server follows the protocol, except that payloads are cut at 4096 bytes, that a PTY which would block loses the
rest, and that a run survives the loss of the keyboard.
-/

namespace Lumimux.Mserver
open Attr Ipc Lib Vt List Option

def cut (payloads : List Bytes) : Bytes := (payloads.map (·.take Server.clientBufsz)).flatten

/-- The slot holds the run, its payloads cut to the buffer. -/
def Follows (run : Typing.Run) (mc : Mclient) : Prop :=
  match run with
  | none => mc.inrun = false
  | some payloads => mc.inrun = true ∧ mc.inq = cut payloads

theorem cut_append (first second : List Bytes) : cut (first ++ second) = cut first ++ cut second := by
  simp [cut]

namespace Server

variable {s : Server} {run : Typing.Run}

theorem RunKept.follows {k s'} (h : RunKept k s s') (live : s'.live k = true) (follows : Follows run (s.clients k)) :
    Follows run (s'.clients k) := by
  cases run with
  | none => exact (h.inrun live).trans follows
  | some payloads => exact ⟨(h.inrun live).trans follows.1, (h.inq live).trans follows.2⟩

theorem handleMessage_follows {env i} (willing : env.PtyWilling) (role : (s.clients i).role = .write)
    (follows : Follows run (s.clients i)) (type : MsgType) (payload : Bytes)
    (stays : (s.handleMessage env i type (payload.take clientBufsz)).live i = true) :
    Follows (Typing.next run (type, payload)) ((s.handleMessage env i type (payload.take clientBufsz)).clients i) ∧
      (s.handleMessage env i type (payload.take clientBufsz)).writtenFor i =
        s.writtenFor i ++ cut (Typing.out run (type, payload)) := by
  cases typing : msgIsInput type with
  | false =>
    have kept : RunKept i s (s.handleMessage env i type (payload.take clientBufsz)) :=
      handleMessage_runKept env s i (fun isInput => absurd (typing.symm.trans isInput) Bool.false_ne_true) _
    rw [Typing.next_of_ordinary typing, Typing.out_of_ordinary typing]
    exact ⟨kept.follows stays follows, kept.wrote.trans (append_nil _).symm⟩
  | true =>
    rcases msgIsInput_cases typing with rfl | rfl | rfl
    · cases run with
      | none =>
        obtain ⟨wrote, same⟩ := handleMessage_input_bare willing (accepts_of_write role _) follows (payload.take clientBufsz)
        refine ⟨?_, (writtenFor_append wrote).trans ?_⟩
        · rw [same]
          exact follows
        · simp [cut, Typing.out]
      | some payloads =>
        obtain ⟨wrote, kept⟩ := handleMessage_input_run (accepts_of_write role _) follows.1 _
        obtain ⟨inRun, grown⟩ := kept stays
        refine ⟨⟨inRun, ?_⟩, ?_⟩
        · rw [grown, follows.2]
          simp [cut]
        · rw [writtenFor, wrote]
          simp [cut, Typing.out, writtenFor]
    · obtain ⟨wrote, inRun, empty⟩ := handleMessage_begin (accepts_of_write role _) env (payload.take clientBufsz)
      have opened : Typing.next run (.inputBegin, payload) = some [] := by cases run <;> rfl
      have nothing : Typing.out run (.inputBegin, payload) = [] := by cases run <;> rfl
      rw [opened, nothing]
      refine ⟨⟨inRun, empty⟩, ?_⟩
      rw [writtenFor, wrote]
      simp [cut, writtenFor]
    · have closed := handleMessage_end_inrun (accepts_of_write role _) env (payload.take clientBufsz)
      have wrote := handleMessage_end willing (accepts_of_write role _) (payload.take clientBufsz)
      have ended : Typing.next run (.inputEnd, payload) = none := by cases run <;> rfl
      rw [ended]
      refine ⟨closed, ?_⟩
      cases run with
      | none =>
        have idle : (s.clients i).inrun = false := follows
        rw [idle, if_neg (by decide), append_nil] at wrote
        rw [writtenFor, wrote]
        simp [cut, Typing.out, writtenFor]
      | some payloads =>
        rw [follows.1, if_pos rfl] at wrote
        rw [writtenFor_append wrote, follows.2]
        rfl

def nextOf (i : Slot) (run : Typing.Run) (e : Step) : Typing.Run := (sentBy i e).elim run (Typing.next run)

def outOf (i : Slot) (run : Typing.Run) (e : Step) : List Bytes := (sentBy i e).elim [] (Typing.out run)

theorem step_follows {i e} (willing : e.env.PtyWilling) (writer : s.Writer i) (stays : (s.step e).live i = true)
    (follows : Follows run (s.clients i)) : Follows (nextOf i run e) ((s.step e).clients i) ∧
      (s.step e).writtenFor i = s.writtenFor i ++ cut (outOf i run e) := by
  unfold nextOf outOf
  cases sends : sentBy i e with
  | none =>
    have kept := step_runKept writer.1 sends
    exact ⟨kept.follows stays follows, kept.wrote.trans (append_nil _).symm⟩
  | some m =>
    obtain ⟨s₁, same, handled⟩ := step_handles writer.1 stays sends
    have sameRole : (s₁.clients i).role = (s.clients i).role := (congrArg (fun s : Server => (s.clients i).role) same :)
    have role : (s₁.clients i).role = .write := sameRole.trans writer.2
    have booked : RunKept i s s₁ := .of_served (i := i) (served_of_core same)
    have live : s₁.live i = true := (live_of_core same i).trans writer.1
    rw [handled] at stays ⊢
    obtain ⟨next, wrote⟩ := handleMessage_follows willing role (booked.follows live follows) m.1 m.2 stays
    exact ⟨next, by rw [wrote, booked.wrote]; rfl⟩

end Server

/-- The client holds WRITE in every state of a run. -/
def HoldsThroughout (i : Slot) : Server → List Step → Prop
  | s, [] => s.Writer i
  | s, e :: rest => s.Writer i ∧ HoldsThroughout i (s.step e) rest

def HoldsThroughout.decide (i : Slot) : (s : Server) → (steps : List Step) → Decidable (HoldsThroughout i s steps)
  | s, [] => inferInstanceAs (Decidable (s.Writer i))
  | s, e :: rest =>
    have := HoldsThroughout.decide i (s.step e) rest
    inferInstanceAs (Decidable (s.Writer i ∧ HoldsThroughout i (s.step e) rest))

instance (i : Slot) (s : Server) (steps : List Step) : Decidable (HoldsThroughout i s steps) :=
  HoldsThroughout.decide i s steps

variable {i : Slot} {s : Server} {steps : List Step}

theorem HoldsThroughout.writer (holds : HoldsThroughout i s steps) : s.Writer i := by
  cases steps with
  | nil => exact holds
  | cons e rest => exact holds.1

theorem HoldsThroughout.last (holds : HoldsThroughout i s steps) : (s.run steps).Writer i := by
  induction steps generalizing s with
  | nil => exact holds
  | cons e rest ih => exact ih holds.2

theorem run_follows (willing : ∀ e ∈ steps, e.env.PtyWilling) (holds : HoldsThroughout i s steps) {run}
    (follows : Follows run (s.clients i)) :
    Follows (steps.filterMap (sentBy i) |>.foldl Typing.next run) ((s.run steps).clients i) ∧
      (s.run steps).writtenFor i = s.writtenFor i ++ cut (Typing.delivered run (steps.filterMap (sentBy i))) := by
  induction steps generalizing s run with
  | nil => exact ⟨follows, (append_nil _).symm⟩
  | cons e rest ih =>
    obtain ⟨next, wrote⟩ := Server.step_follows (willing e mem_cons_self) holds.1 holds.2.writer.1 follows
    obtain ⟨final, total⟩ := ih (fun e mem => willing e (mem_cons_of_mem _ mem)) holds.2 next
    have ran : s.run (e :: rest) = (s.step e).run rest := rfl
    rw [ran, total, wrote, filterMap_cons]
    cases sends : sentBy i e with
    | none =>
      simp only [Server.nextOf, Server.outOf, sends, elim_none] at final ⊢
      exact ⟨final, by rw [append_assoc]; rfl⟩
    | some m =>
      simp only [Server.nextOf, Server.outOf, sends, elim_some] at final ⊢
      exact ⟨final, by rw [Typing.delivered, cut_append, append_assoc]⟩

/-- **Input delivery.** What is written on behalf of a client that holds WRITE throughout, starts with
no run open and writes to a willing PTY is what its messages deliver, exactly when each payload that
counts fits the receive buffer. -/
theorem run_input_delivered (s : Server) (i : Slot) (steps : List Step) (closed : (s.clients i).inrun = false)
    (willing : ∀ e ∈ steps, e.env.PtyWilling) (holds : HoldsThroughout i s steps) : (s.run steps).writtenFor i =
        s.writtenFor i ++ (Typing.delivered none (steps.filterMap (sentBy i))).flatten ↔
      ∀ payload ∈ Typing.delivered none (steps.filterMap (sentBy i)), payload.length ≤ Server.clientBufsz := by
  have start : Follows none (s.clients i) := closed
  obtain ⟨-, wrote⟩ := run_follows willing holds start
  rw [wrote, append_cancel_left_eq]
  exact flatten_map_take_eq_iff _ _

def alone : Server := (Server.start (Emu.new 1 1 0) [] 1).run [.attaching 10 0 .willing]

def runThenBare : List Step :=
  [.message ⟨0, mclientMax_pos⟩ .inputBegin [] .willing, .message ⟨0, mclientMax_pos⟩ .input (ascii "ab") .willing,
   .message ⟨0, mclientMax_pos⟩ .inputEnd [] .willing, .message ⟨0, mclientMax_pos⟩ .input (ascii "c") .willing]

theorem runThenBare_delivered : (alone.run runThenBare).writtenFor ⟨0, by decide⟩ = alone.writtenFor ⟨0, by decide⟩ ++
        (Typing.delivered none (runThenBare.filterMap (sentBy ⟨0, by decide⟩))).flatten ↔
      ∀ payload ∈ Typing.delivered none (runThenBare.filterMap (sentBy ⟨0, by decide⟩)),
        payload.length ≤ Server.clientBufsz := by
  refine run_input_delivered alone _ runThenBare (by decide +kernel) ?_ ?_
  · intro e mem
    simp only [runThenBare, mem_cons, not_mem_nil, or_false] at mem
    rcases mem with rfl | rfl | rfl | rfl <;> exact Env.willing_ptyWilling
  · decide +kernel

theorem run_singleton (s : Server) (e : Step) : s.run [e] = s.step e := rfl

theorem bare_input_written (writer : s.Writer i) (closed : (s.clients i).inrun = false) {payload}
    (fits : payload.length ≤ ipcMaxPayload) {env} (willing : env.PtyWilling) :
    (s.step (.message i .input payload env)).Writer i ∧
      (s.step (.message i .input payload env)).writtenFor i = s.writtenFor i ++ payload.take Server.clientBufsz := by
  have bare := Server.handleMessage_input_bare (s := { s with tick := 0 }) willing (Server.accepts_of_write writer.2 _) closed
    (payload.take Server.clientBufsz)
  rw [Server.step_message writer.1 (by decide) fits]
  refine ⟨?_, Server.writtenFor_append bare.1⟩
  rw [Server.Writer, Server.live, bare.2]
  exact writer

theorem long_input_cut :
    let payload := replicate 4097 (0x61 : UInt8)
    let e := Step.message ⟨0, by decide⟩ .input payload .willing
    payload.length ≤ ipcMaxPayload ∧ (alone.clients ⟨0, by decide⟩).inrun = false ∧
      HoldsThroughout ⟨0, by decide⟩ alone [e] ∧
      (alone.run [e]).writtenFor ⟨0, by decide⟩ ≠ alone.writtenFor ⟨0, by decide⟩ ++
        (Typing.delivered none ([e].filterMap (sentBy ⟨0, by decide⟩))).flatten := by
  intro payload e
  have length : payload.length = 4097 := length_replicate
  have fits : payload.length ≤ ipcMaxPayload := by rw [length]; decide
  have writer : alone.Writer ⟨0, by decide⟩ := by decide +kernel
  have closed : (alone.clients ⟨0, by decide⟩).inrun = false := by decide +kernel
  obtain ⟨writer', wrote⟩ := bare_input_written writer closed fits Env.willing_ptyWilling
  refine ⟨fits, closed, ⟨writer, writer'⟩, fun same => ?_⟩
  have sent : [e].filterMap (sentBy ⟨0, by decide⟩) = [(.input, payload)] := by
    rw [filterMap_cons, sentBy_message (by decide) fits]
    rfl
  rw [run_singleton, wrote, sent, append_cancel_left_eq] at same
  have lengths := congrArg List.length same
  rw [length_take, length] at lengths
  simp only [Typing.delivered, Typing.out, append_nil, flatten_cons, flatten_nil, length] at lengths
  exact absurd lengths (by decide)

def Typing.opened : Bool → Typing.Message → Bool
  | _, (.inputBegin, _) => true
  | _, (.inputEnd, _) => false
  | isOpen, _ => isOpen

theorem Typing.opened_of_ordinary {type} (ordinary : Server.msgIsInput type = false) (isOpen : Bool) (payload : Bytes) :
    Typing.opened isOpen (type, payload) = isOpen := by
  cases type <;> first | rfl | cases ordinary

namespace Server

theorem handleMessage_inrun {env : Env} {s : Server} {i : Slot} (role : (s.clients i).role = .write) (type : MsgType)
    (payload : Bytes) (stays : (s.handleMessage env i type (payload.take clientBufsz)).live i = true) :
    ((s.handleMessage env i type (payload.take clientBufsz)).clients i).inrun =
      Typing.opened (s.clients i).inrun (type, payload) := by
  cases typing : msgIsInput type with
  | false =>
    have kept : RunKept i s (s.handleMessage env i type (payload.take clientBufsz)) :=
      handleMessage_runKept env s i (fun isInput => absurd (typing.symm.trans isInput) Bool.false_ne_true) _
    rw [kept.inrun stays, Typing.opened_of_ordinary typing]
  | true =>
    rcases msgIsInput_cases typing with rfl | rfl | rfl
    · cases isOpen : (s.clients i).inrun with
      | false =>
        rw [handleMessage_input_closed (accepts_of_write role _) isOpen]
        exact isOpen
      | true => exact ((handleMessage_input_run (accepts_of_write role _) isOpen _).2 stays).1
    · exact (handleMessage_begin (accepts_of_write role _) env _).2.1
    · exact handleMessage_end_inrun (accepts_of_write role _) env _

theorem step_inrun {s : Server} {i : Slot} {e : Step} (writer : s.Writer i) (stays : (s.step e).live i = true) :
    ((s.step e).clients i).inrun =
      (sentBy i e).elim (s.clients i).inrun (Typing.opened (s.clients i).inrun) := by
  cases sends : sentBy i e with
  | none => exact (step_runKept writer.1 sends).inrun stays
  | some m =>
    obtain ⟨s₁, same, handled⟩ := step_handles writer.1 stays sends
    have own : (s₁.clients i).core = (s.clients i).core := (congrArg (fun s : Server => s.clients i) same :)
    have sameRole : (s₁.clients i).role = (s.clients i).role := (congrArg Mclient.role own :)
    have sameRun : (s₁.clients i).inrun = (s.clients i).inrun := (congrArg Mclient.inrun own :)
    rw [handled] at stays ⊢
    rw [handleMessage_inrun (sameRole.trans writer.2) m.1 m.2 stays, sameRun]
    rfl

end Server

theorem run_inrun (holds : HoldsThroughout i s steps)
    (noBegin : ∀ payload, (.inputBegin, payload) ∉ steps.filterMap (sentBy i)) : ((s.run steps).clients i).inrun = false ↔
      (s.clients i).inrun = false ∨ ∃ payload, (.inputEnd, payload) ∈ steps.filterMap (sentBy i) := by
  induction steps generalizing s with
  | nil => simp [Server.run]
  | cons e rest ih =>
    have ran : s.run (e :: rest) = (s.step e).run rest := rfl
    have step := Server.step_inrun holds.1 holds.2.writer.1
    rw [ran]
    rw [filterMap_cons] at noBegin ⊢
    cases sends : sentBy i e with
    | none =>
      rw [sends] at noBegin step
      rw [ih holds.2 noBegin, step]
      rfl
    | some m =>
      obtain ⟨type, payload⟩ := m
      rw [sends] at noBegin step
      rw [ih holds.2 fun p mem => noBegin p (mem_cons_of_mem _ mem), step]
      dsimp only [elim_some]
      by_cases isEnd : type = .inputEnd
      · subst isEnd
        exact ⟨fun _ => .inr ⟨payload, mem_cons_self⟩, fun _ => .inl rfl⟩
      · have noOpen : type ≠ .inputBegin := fun opens => noBegin payload (opens ▸ mem_cons_self)
        have same : Typing.opened (s.clients i).inrun (type, payload) = (s.clients i).inrun := by
          cases type <;> first | rfl | exact absurd rfl noOpen | exact absurd rfl isEnd
        rw [same]
        refine or_congr_right (exists_congr fun p => ?_)
        rw [mem_cons, Prod.mk.injEq]
        exact ⟨.inr, fun mem => mem.resolve_left fun eq => isEnd eq.1.symm⟩

/-- **Typing is not wedged.** A client has held WRITE from some state on without opening a run. Its
`INPUT` is written while it is handled exactly when it had no run open then, or has closed it since,
and the payload fits the receive buffer. -/
theorem run_input_written (s : Server) (i : Slot) (since : List Step) (e : Step) (payload : Bytes)
    (holds : HoldsThroughout i s since) (noBegin : ∀ p, (.inputBegin, p) ∉ since.filterMap (sentBy i))
    (sends : sentBy i e = some (.input, payload)) (stays : ((s.run since).step e).live i = true) (willing : e.env.PtyWilling) :
    ((s.run since).step e).ptyOut = (s.run since).ptyOut ++ [(i, payload)] ↔
      ((s.clients i).inrun = false ∨ ∃ p, (.inputEnd, p) ∈ since.filterMap (sentBy i)) ∧
        payload.length ≤ Server.clientBufsz := by
  rw [← run_inrun holds noBegin]
  have writer := holds.last
  generalize s.run since = t at stays writer ⊢
  obtain ⟨t₁, same, handled⟩ := Server.step_handles writer.1 stays sends
  have own : (t₁.clients i).core = (t.clients i).core := (congrArg (fun s : Server => s.clients i) same :)
  have role : (t₁.clients i).role = .write := Eq.trans (congrArg Mclient.role own :) writer.2
  have sameRun : (t₁.clients i).inrun = (t.clients i).inrun := (congrArg Mclient.inrun own :)
  have sameOut : t₁.ptyOut = t.ptyOut := (congrArg Server.ptyOut same :)
  rw [handled] at stays ⊢
  rw [← sameRun, ← sameOut]
  cases isOpen : (t₁.clients i).inrun with
  | false =>
    rw [(Server.handleMessage_input_bare willing (Server.accepts_of_write role _) isOpen _).1, append_cancel_left_eq]
    simp only [List.cons.injEq, Prod.mk.injEq, true_and, and_true, take_eq_self_iff]
  | true =>
    rw [(Server.handleMessage_input_run (Server.accepts_of_write role _) isOpen _).1]
    simp

def interrupted : List Step :=
  [.message ⟨0, mclientMax_pos⟩ .inputBegin [] .willing, .attaching 11 attachFToken .willing,
   .message ⟨0, mclientMax_pos⟩ .roleRequest [attachFToken] .willing]

theorem closed_run_written :
    let s := alone.run interrupted
    let since := [Step.message ⟨0, by decide⟩ .inputEnd [] .willing]
    let e := Step.message ⟨0, by decide⟩ .input (ascii "x") .willing
    ((s.run since).step e).ptyOut = (s.run since).ptyOut ++ [(⟨0, by decide⟩, ascii "x")] ↔
      ((s.clients ⟨0, by decide⟩).inrun = false ∨
        ∃ p, (.inputEnd, p) ∈ since.filterMap (sentBy ⟨0, by decide⟩)) ∧
        (ascii "x").length ≤ Server.clientBufsz := by
  refine run_input_written _ _ _ _ _ (by decide +kernel) ?_
    (sentBy_message (by decide) (by decide) _) (by decide +kernel) Env.willing_ptyWilling
  intro p mem
  rw [filterMap_cons, sentBy_message (by decide) (by decide)] at mem
  simp at mem

theorem stale_run_swallows :
    let lost := alone.run (interrupted.take 2)
    let regained := alone.run interrupted
    let e := Step.message ⟨0, by decide⟩ .input (ascii "x") .willing
    ¬lost.Writer ⟨0, by decide⟩ ∧ regained.Writer ⟨0, by decide⟩ ∧
      (regained.step e).ptyOut ≠ regained.ptyOut ++ [(⟨0, by decide⟩, ascii "x")] := by
  refine ⟨by decide +kernel, by decide +kernel, by decide +kernel⟩

end Lumimux.Mserver
