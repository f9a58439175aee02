import Lumimux.Net.Netchan

/-!
# What arrives over netchan is what was sent

The receiving end is a receiver of `Lib.Reassembly`; the sending end puts out a frame for each send, and less when a
send fails on the way.
-/

namespace Lumimux.Net

open Lib Ipc List

theorem drain_sent {msgs} (valid : ∀ m ∈ msgs, m.Valid) : drain judge (msgs.flatMap Message.frame) = (msgs, []) := by
  have frames := drain_frames judge_stable (fun m member => judge_frame (valid m member)) []
  have none : drain judge [] = ([], []) := drain_stuck fun m rest found => by cases found
  rw [none, append_nil, append_nil] at frames
  exact frames

inductive RecvOp
  | recv (rounds : List Round)
  | tryRecv
  | pump (round : Round)

structure Endpoint where
  nct : Nct
  got : List Message
  arrived : Bytes

def Endpoint.new : Endpoint := ⟨⟨[], false⟩, [], []⟩

def RecvRc.messages : RecvRc → List Message
  | .message m => [m]
  | .eof => []
  | .error => []
  | .waiting => []

def consumed (rounds left : List Round) : Bytes := (rounds.take (rounds.length - left.length)).flatMap Round.bytes

def Endpoint.step (e : Endpoint) : RecvOp → Endpoint
  | .recv rounds =>
    let done := nctRecv ipcMaxPayload e.nct rounds
    ⟨done.1, e.got ++ done.2.1.messages, e.arrived ++ consumed rounds done.2.2⟩
  | .tryRecv =>
    let done := netchanTryRecv e.nct ipcMaxPayload
    ⟨done.1, e.got ++ done.2.messages, e.arrived⟩
  | .pump round => ⟨netchanPump e.nct round, e.got, e.arrived ++ round.bytes⟩

def Endpoint.receiver (e : Endpoint) : Receiver UInt8 Message := ⟨e.nct.rxbuf, e.got, e.arrived⟩

def Endpoint.Honest (e : Endpoint) : Prop := e.receiver.Honest judge

theorem nctPumpEvents_eq (n : Nct) (disconnected : Bool) (pieces : List Bytes) :
    nctPumpEvents n disconnected pieces = ⟨n.rxbuf ++ pieces.flatten, n.closed || disconnected⟩ := by
  have pieceByPiece (closed : Bool) (buf : Bytes) :
      pieces.foldl nctRxAppend ⟨buf, closed⟩ = ⟨buf ++ pieces.flatten, closed⟩ := by
    induction pieces generalizing buf with
    | nil => rw [flatten_nil, append_nil, foldl_nil]
    | cons piece pieces ih =>
      rw [foldl_cons, flatten_cons, ← append_assoc]
      exact ih (buf ++ piece)
  exact pieceByPiece (n.closed || disconnected) n.rxbuf

theorem nctStep_rxbuf (n : Nct) (round : Round) : (nctStep n round).1.rxbuf = n.rxbuf ++ round.bytes := by
  cases round with
  | failed => exact (append_nil _).symm
  | fed disconnected pieces =>
    rw [nctStep, nctPumpEvents_eq]
    rfl

section Receiving

variable {e : Endpoint}

theorem Endpoint.Honest.arrive (h : e.Honest) {n xs} (bytes : n.rxbuf = e.nct.rxbuf ++ xs) :
    Endpoint.Honest ⟨n, e.got, e.arrived ++ xs⟩ := by
  have arrived := Receiver.Honest.arrive judge_stable h xs
  unfold Endpoint.Honest Endpoint.receiver
  rw [bytes]
  exact arrived

theorem Endpoint.Honest.now (h : e.Honest) :
    Endpoint.Honest ⟨(nctRecvNow e.nct ipcMaxPayload).1, e.got ++ (nctRecvNow e.nct ipcMaxPayload).2.messages, e.arrived⟩ := by
  rcases nctTakeFrame_cases e.nct ipcMaxPayload with ⟨m, rest, found, taken | ⟨large, -⟩⟩ | ⟨-, taken⟩ | ⟨-, taken⟩
  · have now : nctRecvNow e.nct ipcMaxPayload = ({ e.nct with rxbuf := rest }, .message m) := by
      rw [nctRecvNow, taken.2]
    rw [now]
    exact Receiver.Honest.cut judge_stable h found
  · exact absurd (judge_shape found).2.payload (Nat.not_le.mpr large)
  · have now : (nctRecvNow e.nct ipcMaxPayload).1 = e.nct ∧ (nctRecvNow e.nct ipcMaxPayload).2.messages = [] := by
      rw [nctRecvNow, taken]
      dsimp only
      split
      · exact ⟨rfl, rfl⟩
      · exact ⟨rfl, rfl⟩
    rw [now.1, now.2, append_nil]
    exact h
  · have now : nctRecvNow e.nct ipcMaxPayload = (e.nct, .error) := by
      rw [nctRecvNow, taken]
    rw [now]
    exact (append_nil e.got).symm ▸ h

theorem tryRecv_now (n : Nct) (bufsz : Nat) : (netchanTryRecv n bufsz).1 = (nctRecvNow n bufsz).1 ∧
      (netchanTryRecv n bufsz).2.messages = (nctRecvNow n bufsz).2.messages := by
  unfold netchanTryRecv nctRecvNow
  split
  · exact ⟨rfl, rfl⟩
  · exact ⟨rfl, rfl⟩
  · split
    · exact ⟨rfl, rfl⟩
    · exact ⟨rfl, rfl⟩

theorem consumed_self (rounds : List Round) : consumed rounds rounds = [] := by
  rw [consumed, Nat.sub_self, take_zero, flatMap_nil]

theorem consumed_cons {rounds left} (fewer : left.length ≤ rounds.length) (round : Round) :
    consumed (round :: rounds) left = round.bytes ++ consumed rounds left := by
  rw [consumed, length_cons, Nat.succ_sub fewer, take_succ_cons, flatMap_cons, consumed]

theorem nctRecv_cons (n : Nct) (bufsz : Nat) (round : Round) (rounds : List Round) :
    nctRecv bufsz n (round :: rounds) = ((nctRecvNow n bufsz).1, (nctRecvNow n bufsz).2, round :: rounds) ∨
    (nctRecvNow n bufsz).2 = .waiting ∧
      (nctRecv bufsz n (round :: rounds) = ((nctStep (nctRecvNow n bufsz).1 round).1, .error, rounds) ∨
        nctRecv bufsz n (round :: rounds) = nctRecv bufsz (nctStep (nctRecvNow n bufsz).1 round).1 rounds) := by
  rw [nctRecv]
  split
  · rename_i n' now
    rw [now]
    split
    · rename_i stepped
      rw [stepped]
      exact .inr ⟨rfl, .inr rfl⟩
    · rename_i stepped
      rw [stepped]
      exact .inr ⟨rfl, .inl rfl⟩
  · rename_i now
    rw [now]
    exact .inl rfl

theorem nctRecv_left (n : Nct) (bufsz : Nat) (rounds : List Round) : (nctRecv bufsz n rounds).2.2.length ≤ rounds.length := by
  induction rounds generalizing n with
  | nil => exact Nat.le_refl _
  | cons round rounds ih =>
    rcases nctRecv_cons n bufsz round rounds with same | ⟨-, same | same⟩
    · rw [same]
    · rw [same]
      exact Nat.le_succ _
    · rw [same]
      exact Nat.le_trans (ih _) (Nat.le_succ _)

theorem Endpoint.Honest.recv (h : e.Honest) (rounds : List Round) : (e.step (.recv rounds)).Honest := by
  show Endpoint.Honest ⟨(nctRecv ipcMaxPayload e.nct rounds).1, e.got ++ (nctRecv ipcMaxPayload e.nct rounds).2.1.messages,
    e.arrived ++ consumed rounds (nctRecv ipcMaxPayload e.nct rounds).2.2⟩
  induction rounds generalizing e with
  | nil =>
    rw [nctRecv, consumed_self, append_nil]
    exact h.now
  | cons round rounds ih =>
    rcases nctRecv_cons e.nct ipcMaxPayload round rounds with same | ⟨waits, same⟩
    · rw [same, consumed_self, append_nil]
      exact h.now
    · have now := h.now
      rw [waits, RecvRc.messages, append_nil] at now
      have fed := now.arrive (nctStep_rxbuf _ round)
      rcases same with same | same
      · rw [same, RecvRc.messages, append_nil, consumed_cons (Nat.le_refl _), consumed_self, append_nil]
        exact fed
      · have rest := ih fed
        rw [same, consumed_cons (nctRecv_left _ _ rounds), ← append_assoc]
        exact rest

theorem Endpoint.Honest.step (h : e.Honest) (op : RecvOp) : (e.step op).Honest := by
  cases op with
  | recv rounds => exact h.recv rounds
  | tryRecv =>
    unfold Endpoint.step
    dsimp only
    rw [(tryRecv_now e.nct ipcMaxPayload).1, (tryRecv_now e.nct ipcMaxPayload).2]
    exact h.now
  | pump round => exact h.arrive (nctStep_rxbuf e.nct round)

theorem run_honest (ops : List RecvOp) : (ops.foldl Endpoint.step .new).Honest :=
  run_invariant_rule (I := Endpoint.Honest) (fun _ op h => h.step op) (s := .new) (Receiver.Honest.start judge) ops

theorem Endpoint.Honest.collects (h : e.Honest) {k} (enough : (drain judge e.nct.rxbuf).1.length ≤ k) :
    ((replicate k (.recv [])).foldl Endpoint.step e).got = (drain judge e.arrived).1 := by
  induction k generalizing e with
  | zero =>
    have none : (drain judge e.nct.rxbuf).1 = [] := eq_nil_of_length_eq_zero (Nat.le_zero.mp enough)
    have got := h.got
    have same : (drain judge e.receiver.buf).1 = [] := none
    rw [same, append_nil] at got
    exact got
  | succ k ih =>
    rw [replicate_succ, foldl_cons]
    have arrived : (e.step (.recv [])).arrived = e.arrived := by
      show e.arrived ++ consumed [] [] = e.arrived
      rw [consumed_self, append_nil]
    have stepped := ih (h.step (.recv [])) ?_
    · rw [stepped, arrived]
    · -- a message less is left, or there was none
      show (drain judge (nctRecvNow e.nct ipcMaxPayload).1.rxbuf).1.length ≤ k
      rcases nctTakeFrame_cases e.nct ipcMaxPayload with ⟨m, rest, found, taken | ⟨large, -⟩⟩ | ⟨more, taken⟩ | ⟨bad, taken⟩
      · rw [nctRecvNow, taken.2]
        rw [drain_frame judge_stable found, length_cons] at enough
        exact Nat.le_of_succ_le_succ enough
      · exact absurd (judge_shape found).2.payload (Nat.not_le.mpr large)
      · have none : drain judge e.nct.rxbuf = ([], e.nct.rxbuf) := drain_stuck fun m rest found => by
          rw [more] at found
          cases found
        have same : (nctRecvNow e.nct ipcMaxPayload).1 = e.nct := by
          rw [nctRecvNow, taken]
          dsimp only
          split
          · rfl
          · rfl
        rw [same, none]
        exact Nat.zero_le k
      · have none : drain judge e.nct.rxbuf = ([], e.nct.rxbuf) := drain_stuck fun m rest found => by
          rw [bad] at found
          cases found
        rw [nctRecvNow, taken, none]
        exact Nat.zero_le k

end Receiving

structure SendCall where
  msg : Message
  env : SendEnv

/-- The sending end, the bytes netchan accepted of it, the messages whose sends succeeded, and how many bytes netchan
accepted of sends that failed. -/
structure Sender where
  nct : Nct
  wire : Bytes
  done : List Message
  wasted : Nat

def Sender.new (n : Nct) : Sender := ⟨n, [], [], 0⟩

def Sender.step (s : Sender) (call : SendCall) : Sender :=
  let sent := nctSend s.nct call.env call.msg
  if sent.2.2 then ⟨sent.1, s.wire ++ sent.2.1, s.done ++ [call.msg], s.wasted⟩
  else ⟨sent.1, s.wire ++ sent.2.1, s.done, s.wasted + sent.2.1.length⟩

def accepts : Nct → List ChunkAnswer → Nat
  | _, [] => 0
  | n, answer :: answers =>
    if (writeChunk nctSpins n answer.full answer.accepted).2 then
      accepts (writeChunk nctSpins n answer.full answer.accepted).1 answers + 1
    else 0

theorem sendChunks_eq (fuel : Nat) (n : Nct) (answers : List ChunkAnswer) {left} (enough : left.length ≤ fuel) :
    (sendChunks fuel n answers left).2 =
      (left.take (accepts n answers * nctChunk), decide (left.length ≤ accepts n answers * nctChunk)) := by
  have chunk : nctChunk = 2000 := rfl
  induction fuel generalizing n answers left with
  | zero =>
    have none : left = [] := eq_nil_of_length_eq_zero (by omega)
    subst none
    rw [sendChunks, take_nil]
    simp
  | succ fuel ih =>
    cases left with
    | nil =>
      rw [sendChunks, take_nil]
      simp
    | cons x left =>
      cases answers with
      | nil =>
        rw [sendChunks, accepts, Nat.zero_mul, take_zero]
        simp
      | cons answer answers =>
        rw [sendChunks, accepts]
        cases offered : writeChunk nctSpins n answer.full answer.accepted with
        | mk n' taken =>
          cases taken with
          | false =>
            dsimp only
            rw [if_neg Bool.false_ne_true, Nat.zero_mul, take_zero]
            simp
          | true =>
            dsimp only
            have shorter : ((x :: left).drop nctChunk).length ≤ fuel := by
              rw [length_drop, length_cons, chunk]
              rw [length_cons] at enough
              omega
            have length : ((x :: left).drop nctChunk).length = (x :: left).length - nctChunk := length_drop
            have more := ih n' answers shorter
            rw [more, if_pos rfl, Nat.succ_mul, Nat.add_comm _ nctChunk, take_add, length]
            refine Prod.ext rfl ?_
            dsimp only
            rw [decide_eq_decide]
            omega

def Offered (env : SendEnv) (m : Message) : Prop :=
  m.payload.length ≤ ipcMaxPayload ∧ (ipcHdrSize + m.payload.length > 2 * nctChunk → env.memory = true)
  deriving Decidable

theorem nctSend_eq (n : Nct) (env : SendEnv) (m : Message) : (nctSend n env m).2 =
      if Offered env m then
        (m.frame.take (accepts n env.answers * nctChunk), decide (m.frame.length ≤ accepts n env.answers * nctChunk))
      else ([], false) := by
  unfold nctSend
  by_cases large : m.payload.length > ipcMaxPayload
  · rw [if_pos large, if_neg fun offered => absurd offered.1 (Nat.not_le.mpr large)]
  · rw [if_neg large]
    by_cases short : ipcHdrSize + m.payload.length > 2 * nctChunk ∧ env.memory = false
    · rw [if_pos short, if_neg fun offered => ?_]
      have memory := offered.2 short.1
      rw [short.2] at memory
      cases memory
    · have offered : Offered env m := by
        refine ⟨Nat.not_lt.mp large, fun big => ?_⟩
        rw [← Bool.not_eq_false]
        exact fun none => short ⟨big, none⟩
      rw [if_neg short, if_pos offered]
      exact sendChunks_eq _ n env.answers (Nat.le_of_eq (length_frame m))

/-- The send reports success. -/
def Succeeds (s : Sender) (call : SendCall) : Prop := (nctSend s.nct call.env call.msg).2.2 = true
  deriving Decidable

/-- The channel takes a frame as a whole or not at all. -/
def AllOrNone (s : Sender) (call : SendCall) : Prop :=
  Offered call.env call.msg →
    accepts s.nct call.env.answers = 0 ∨ call.msg.frame.length ≤ accepts s.nct call.env.answers * nctChunk
  deriving Decidable

theorem step_cases (s : Sender) (call : SendCall) :
    (Succeeds s call ∧ AllOrNone s call ∧ call.msg.payload.length ≤ ipcMaxPayload ∧
      (s.step call).wire = s.wire ++ call.msg.frame ∧ (s.step call).done = s.done ++ [call.msg] ∧
      (s.step call).wasted = s.wasted) ∨
    (¬Succeeds s call ∧ AllOrNone s call ∧ (s.step call).wire = s.wire ∧ (s.step call).done = s.done ∧
      (s.step call).wasted = s.wasted) ∨ (¬Succeeds s call ∧ ¬AllOrNone s call ∧ (s.step call).done = s.done ∧ ∃ bytes,
      (s.step call).wire = s.wire ++ bytes ∧ nctChunk ≤ bytes.length ∧ (s.step call).wasted = s.wasted + bytes.length) := by
  have sent := nctSend_eq s.nct call.env call.msg
  have chunk : nctChunk = 2000 := rfl
  unfold Sender.step Succeeds
  extract_lets out
  have same : out = nctSend s.nct call.env call.msg := rfl
  rw [← same] at sent ⊢
  by_cases offered : Offered call.env call.msg
  · rw [if_pos offered] at sent
    by_cases all : call.msg.frame.length ≤ accepts s.nct call.env.answers * nctChunk
    · have success : out.2.2 = true := by
        rw [sent]
        exact decide_eq_true all
      rw [if_pos success, sent]
      refine .inl ⟨decide_eq_true all, fun _ => .inr all, offered.1, ?_, rfl, rfl⟩
      dsimp only
      rw [take_of_length_le all]
    · have failure : out.2.2 = false := by
        rw [sent]
        exact decide_eq_false all
      rw [failure, if_neg Bool.false_ne_true, sent]
      rcases Nat.eq_zero_or_pos (accepts s.nct call.env.answers) with none | some
      · refine .inr (.inl ⟨Bool.false_ne_true, fun _ => .inl none, ?_, rfl, ?_⟩)
        · dsimp only
          rw [none, Nat.zero_mul, take_zero, append_nil]
        · dsimp only
          rw [none, Nat.zero_mul, take_zero]
          rfl
      · refine .inr (.inr ⟨Bool.false_ne_true, fun whole => ?_, rfl, _, rfl, ?_, rfl⟩)
        · rcases whole offered with none | everything
          · omega
          · exact all everything
        · rw [length_take]
          have := Nat.le_mul_of_pos_left nctChunk some
          omega
  · rw [if_neg offered] at sent
    have failure : out.2.2 = false := by rw [sent]
    rw [failure, if_neg Bool.false_ne_true, sent]
    exact .inr (.inl ⟨Bool.false_ne_true, fun held => absurd held offered, append_nil _, rfl, rfl⟩)

/-- What went out is the frames of the sends that succeeded. -/
structure Sender.Clean (s : Sender) : Prop where
  wire : s.wire = s.done.flatMap Message.frame
  valid : ∀ m ∈ s.done, m.Valid
  wasted : s.wasted = 0

def Sender.Accounted (s : Sender) : Prop := s.wire.length = (s.done.flatMap Message.frame).length + s.wasted

section Sending

variable {s : Sender} {call : SendCall}

theorem clean_new (n : Nct) : (Sender.new n).Clean := ⟨rfl, fun _ member => (by cases member), rfl⟩

theorem step_clean (h : s.Clean) (type : call.msg.type < 2 ^ 32) (whole : AllOrNone s call) : (s.step call).Clean := by
  rcases step_cases s call with ⟨-, -, payload, wire, done, wasted⟩ | ⟨-, -, wire, done, wasted⟩ | ⟨-, torn, -⟩
  · refine ⟨?_, fun m member => ?_, wasted.trans h.wasted⟩
    · rw [wire, done, h.wire, flatMap_append, flatMap_singleton]
    · rw [done] at member
      rcases mem_append.mp member with old | new
      · exact h.valid m old
      · rw [mem_singleton.mp new]
        exact ⟨type, payload⟩
  · refine ⟨?_, ?_, wasted.trans h.wasted⟩
    · rw [wire, done, h.wire]
    · rw [done]
      exact h.valid
  · exact absurd whole torn

theorem step_accounted (h : s.Accounted) : (s.step call).Accounted := by
  unfold Sender.Accounted at h ⊢
  rcases step_cases s call with
    ⟨-, -, -, wire, done, wasted⟩ | ⟨-, -, wire, done, wasted⟩ | ⟨-, -, done, bytes, wire, -, wasted⟩
  · rw [wire, done, wasted, flatMap_append, flatMap_singleton, length_append, length_append, h]
    omega
  · rw [wire, done, wasted, h]
  · rw [wire, done, wasted, length_append, h]
    omega

theorem step_wasted_le : s.wasted ≤ (s.step call).wasted := by
  rcases step_cases s call with ⟨-, -, -, -, -, wasted⟩ | ⟨-, -, -, -, wasted⟩ | ⟨-, -, -, bytes, -, -, wasted⟩
  · omega
  · omega
  · omega

theorem Sender.Clean.drained (h : s.Clean) : drain judge s.wire = (s.done, []) := by
  rw [h.wire]
  exact drain_sent h.valid

end Sending

def sends (n : Nct) (calls : List SendCall) : Sender := calls.foldl Sender.step (.new n)

/-- Message types are 32-bit words. -/
def Typed (calls : List SendCall) : Prop := ∀ call ∈ calls, call.msg.type < 2 ^ 32

theorem sends_clean {n calls} (typed : Typed calls) (whole : Along Sender.step AllOrNone (.new n) calls) :
    (sends n calls).Clean := by
  have each : Along Sender.step (fun _ call => call.msg.type < 2 ^ 32) (.new n) calls := along_of_forall typed
  exact (each.and whole).invariant (I := Sender.Clean) (fun s call h both => step_clean h both.1 both.2) (clean_new n)

theorem done_of_succeeds {s calls} (succeed : Along Sender.step Succeeds s calls) :
    (calls.foldl Sender.step s).done = s.done ++ calls.map SendCall.msg ∧ Along Sender.step AllOrNone s calls := by
  induction calls generalizing s with
  | nil => exact ⟨(append_nil _).symm, trivial⟩
  | cons call calls ih =>
    obtain ⟨done, whole⟩ := ih succeed.2
    rcases step_cases s call with ⟨-, here, -, -, first, -⟩ | ⟨fails, -⟩ | ⟨fails, -⟩
    · refine ⟨?_, here, whole⟩
      rw [foldl_cons, done, first, append_assoc]
      rfl
    · exact absurd succeed.1 fails
    · exact absurd succeed.1 fails

/-- **Reassembly is exact**: whatever the calls at the other end and the pieces the bytes arrive in, the messages it
returned are the first ones sent, and once all bytes arrived further receives return the rest of them. -/
theorem run_reassembles (n : Nct) (calls : List SendCall) (typed : Typed calls)
    (succeed : Along Sender.step Succeeds (.new n) calls) (ops : List RecvOp)
    (delivered : (ops.foldl Endpoint.step .new).arrived <+: (sends n calls).wire) :
    (ops.foldl Endpoint.step .new).got <+: calls.map SendCall.msg ∧
      ((ops.foldl Endpoint.step .new).arrived = (sends n calls).wire → ∀ k, calls.length ≤ k →
        ((replicate k (.recv [])).foldl Endpoint.step (ops.foldl Endpoint.step .new)).got = calls.map SendCall.msg) := by
  obtain ⟨done, whole⟩ := done_of_succeeds succeed
  have drained := (sends_clean typed whole).drained
  have sent : (sends n calls).done = calls.map SendCall.msg := done
  have honest := run_honest ops
  rw [sent] at drained
  constructor
  · obtain ⟨rest, all⟩ := delivered
    have begins : (drain judge (ops.foldl Endpoint.step .new).arrived).1 <+: calls.map SendCall.msg := by
      have whole := drain_append judge_stable (ops.foldl Endpoint.step .new).arrived rest
      rw [all, drained] at whole
      exact ⟨_, (congrArg Prod.fst whole).symm⟩
    exact honest.got_begins.trans begins
  · intro arrived k enough
    have got := honest.got
    have fewer : (drain judge (ops.foldl Endpoint.step .new).nct.rxbuf).1.length ≤ k := by
      have lengths := congrArg List.length got
      have all : (ops.foldl Endpoint.step .new).receiver.arrived = (sends n calls).wire := arrived
      rw [all, drained, length_append, length_map] at lengths
      exact Nat.le_trans (Nat.le_trans (Nat.le_add_left _ _) (Nat.le_of_eq lengths)) enough
    rw [honest.collects fewer, arrived, drained]

def prompt (type : Nat) (payload : Bytes) : SendCall := ⟨⟨type, payload⟩, ⟨true, [⟨[], true⟩]⟩⟩

def early : List RecvOp := [.pump (.fed false [[0, 0, 1, 1, 0, 0], [0, 2, 7]]), .recv []]

theorem early_reassembles : (early.foldl Endpoint.step .new).got <+: [prompt 0x101 [7, 8], prompt 0x403 []].map SendCall.msg ∧
      ((early.foldl Endpoint.step .new).arrived = (sends ⟨[], false⟩ [prompt 0x101 [7, 8], prompt 0x403 []]).wire →
        ∀ k, 2 ≤ k → ((replicate k (.recv [])).foldl Endpoint.step (early.foldl Endpoint.step .new)).got =
          [prompt 0x101 [7, 8], prompt 0x403 []].map SendCall.msg) := by
  refine run_reassembles ⟨[], false⟩ [prompt 0x101 [7, 8], prompt 0x403 []] ?_ (by decide +kernel) early (by decide +kernel)
  intro call member
  fin_cases member
  · decide
  · decide

def Reassembles (wire : Bytes) (msgs : List Message) : Prop :=
  ∀ ops : List RecvOp, (ops.foldl Endpoint.step .new).arrived = wire → ∃ enough, ∀ k, enough ≤ k →
    ((replicate k (.recv [])).foldl Endpoint.step (ops.foldl Endpoint.step .new)).got = msgs

theorem reassembles_iff (wire : Bytes) (msgs : List Message) : Reassembles wire msgs ↔ (drain judge wire).1 = msgs := by
  constructor
  · intro exact_
    have arrived : ([RecvOp.pump (.fed false [wire])].foldl Endpoint.step .new).arrived = wire := by
      show [] ++ [wire].flatten = wire
      rw [nil_append, flatten_singleton]
    obtain ⟨enough, all⟩ := exact_ [.pump (.fed false [wire])] arrived
    have honest := run_honest [.pump (.fed false [wire])]
    have collected := honest.collects
      (k := max enough (drain judge ([RecvOp.pump (.fed false [wire])].foldl Endpoint.step .new).nct.rxbuf).1.length)
      (Nat.le_max_right _ _)
    rw [all _ (Nat.le_max_left _ _), arrived] at collected
    exact collected.symm
  · intro same ops arrived
    refine ⟨(drain judge (ops.foldl Endpoint.step .new).nct.rxbuf).1.length, fun k enough => ?_⟩
    rw [(run_honest ops).collects enough, arrived, same]

/-- The messages of the sends that succeeded are the ones the other end gets, and so it stays as more sends succeed. -/
def StaysExact (n : Nct) (calls : List SendCall) : Prop :=
  ∀ later, Typed later → Along Sender.step Succeeds (sends n calls) later →
    Reassembles (sends n (calls ++ later)).wire (sends n (calls ++ later)).done

theorem wasted_of_torn {s calls} (torn : ¬Along Sender.step AllOrNone s calls) :
    nctChunk ≤ (calls.foldl Sender.step s).wasted := by
  induction calls generalizing s with
  | nil => exact absurd trivial torn
  | cons call calls ih =>
    by_cases here : AllOrNone s call
    · exact ih fun rest => torn ⟨here, rest⟩
    · have grows : (s.step call).wasted ≤ (calls.foldl Sender.step (s.step call)).wasted :=
        run_invariant_rule (I := fun t : Sender => (s.step call).wasted ≤ t.wasted)
          (fun _ _ h => Nat.le_trans h step_wasted_le) (Nat.le_refl _) calls
      rcases step_cases s call with ⟨-, whole, -⟩ | ⟨-, whole, -⟩ | ⟨-, -, -, bytes, -, chunk, wasted⟩
      · exact absurd whole here
      · exact absurd whole here
      · rw [foldl_cons]
        omega

theorem prompt_succeeds (s : Sender) :
    Succeeds s (prompt 0 []) ∧ (s.step (prompt 0 [])).wire = s.wire ++ (prompt 0 []).msg.frame ∧
      (s.step (prompt 0 [])).done = s.done ++ [(prompt 0 []).msg] := by
  have succeeds : Succeeds s (prompt 0 []) := by
    have taken : accepts s.nct (prompt 0 []).env.answers = 1 := rfl
    have offered : Offered (prompt 0 []).env (prompt 0 []).msg := ⟨Nat.zero_le _, fun _ => rfl⟩
    rw [Succeeds, nctSend_eq, if_pos offered, taken]
    decide
  rcases step_cases s (prompt 0 []) with ⟨-, -, -, wire, done, -⟩ | ⟨fails, -⟩ | ⟨fails, -⟩
  · exact ⟨succeeds, wire, done⟩
  · exact absurd succeeds fails
  · exact absurd succeeds fails

theorem judge_front {left ys rest m} (found : judge (left ++ ys) = .frame m rest) (room : m.frame.length ≤ left.length) :
    ∃ rest', judge left = .frame m rest' := by
  obtain ⟨shape, valid⟩ := judge_shape found
  obtain ⟨rest', rfl⟩ := prefix_of_prefix_length_le ⟨rest, shape.symm⟩ ⟨ys, rfl⟩ room
  exact ⟨rest', judge_frame valid rest'⟩

/-- **A failed send does not corrupt later messages** exactly when netchan accepts each message in whole or not at
all. -/
theorem stays_exact_iff (n : Nct) (calls : List SendCall) (typed : Typed calls) :
    StaysExact n calls ↔ Along Sender.step AllOrNone (.new n) calls := by
  constructor
  · intro stays
    by_contra torn
    have wasted : nctChunk ≤ (sends n calls).wasted := wasted_of_torn torn
    have chunk : nctChunk = 2000 := rfl
    have header : ipcHdrSize = 8 := rfl
    have accounted : (sends n calls).Accounted :=
      run_invariant_rule (I := Sender.Accounted) (fun _ _ h => step_accounted h) (s := .new n) rfl calls
    have exact_ := (reassembles_iff _ _).mp (stays [] (fun _ member => by cases member) trivial)
    rw [append_nil] at exact_
    -- what was wasted is what the other end is stuck with
    have left : (drain judge (sends n calls).wire).2.length = (sends n calls).wasted := by
      have parts := congrArg List.length (drain_sound judge_stable (fun found => (judge_shape found).1) (sends n calls).wire)
      rw [exact_, length_append] at parts
      unfold Sender.Accounted at accounted
      omega
    -- so an empty message behind it is not the next one the other end gets
    obtain ⟨succeeds, wire, done⟩ := prompt_succeeds (sends n calls)
    have next := (reassembles_iff _ _).mp (stays [prompt 0 []] (fun call member => ?_) ⟨succeeds, trivial⟩)
    · have both : sends n (calls ++ [prompt 0 []]) = (sends n calls).step (prompt 0 []) := foldl_append
      rw [both, wire, done, drain_append judge_stable, exact_] at next
      have only := append_cancel_left next
      rcases frame_or_stuck judge ((drain judge (sends n calls).wire).2 ++ (prompt 0 []).msg.frame) with
        ⟨m, rest, found⟩ | stuck
      · rw [drain_frame judge_stable found] at only
        rw [(cons_eq_cons.mp only).1] at found
        obtain ⟨rest', front⟩ := judge_front found (by rw [length_frame, left]; exact Nat.le_trans (by decide) wasted)
        exact drain_left_stuck judge_stable _ _ _ front
      · rw [drain_stuck stuck] at only
        cases only
    · rw [mem_singleton.mp member]
      exact Nat.two_pow_pos 32
  · intro whole later typedLater succeed
    have more := whole.append (done_of_succeeds succeed).2
    have typedAll : Typed (calls ++ later) := fun call member => by
      rcases mem_append.mp member with first | second
      · exact typed call first
      · exact typedLater call second
    refine (reassembles_iff _ _).mpr ?_
    rw [(sends_clean typedAll more).drained]

def torn : SendCall := ⟨⟨0x101, replicate 3000 7⟩, ⟨true, [⟨[], true⟩, ⟨[], false⟩]⟩⟩

theorem refused_stays_exact : StaysExact ⟨[], false⟩ [⟨⟨0x101, [7]⟩, ⟨true, []⟩⟩, prompt 0x403 []] := by
  refine (stays_exact_iff _ _ fun call member => ?_).mpr (by decide +kernel)
  fin_cases member
  · decide
  · decide

theorem torn_corrupts : (sends ⟨[], false⟩ [torn, prompt 0x403 []]).done = [⟨0x403, []⟩] ∧
      ¬Reassembles (sends ⟨[], false⟩ [torn, prompt 0x403 []]).wire [⟨0x403, []⟩] := by
  refine ⟨by decide +kernel, fun same => ?_⟩
  exact absurd ((reassembles_iff _ _).mp same) (by decide +kernel)

end Lumimux.Net
